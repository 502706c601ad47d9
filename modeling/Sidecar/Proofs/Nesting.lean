import Sidecar.Yaml.Portable

/-!
# The nodes of a JSON text

The tokens of a JSON value are the tokens of its node: `readNode_tokens` for any value among other tokens, and
`Text.ofTokens?_tokens` for an object that is all of a text.

The fuel of the reader bounds how deep it goes and how many items it has read. Two for each token are enough.
-/

namespace Sidecar.Yaml

open Json (Piece)

/-- Tokens that begin a node of JSON. -/
def startsNode : Token → Bool
  | .scalar _ _ | .flowSequenceStart | .flowMappingStart => true
  | _ => false

theorem tokens_eq_cons (w : Json.Written) : ∃ t ts, w.tokens = t :: ts ∧ startsNode t = true := by
  cases w with
  | bool value =>
    cases value with
    | true => exact ⟨_, _, rfl, rfl⟩
    | false => exact ⟨_, _, rfl, rfl⟩
  | _ => exact ⟨_, _, rfl, rfl⟩

variable (handles : Handles)

/-- A node of JSON has no anchor and no tag, so reading it is reading its content. -/
theorem readNode_eq_readContent (block indentless : Bool) (fuel : Nat) {t : Token} (ts : List Token) (a : Anchors)
    (ht : startsNode t = true) :
    readNode handles block indentless (fuel + 1) (t :: ts) a =
      readContent handles block indentless {} fuel (t :: ts) a := by
  have hproperties : readProperties handles (t :: ts) = some ({}, t :: ts) := by
    cases t with
    | scalar style text => rfl
    | flowSequenceStart => rfl
    | flowMappingStart => rfl
    | _ => cases ht
  have hread : readNode handles block indentless (fuel + 1) (t :: ts) a =
      (readProperties handles (t :: ts)).bind fun found =>
        let declared := a.declare found.1.anchor
        (readContent handles block indentless found.1 fuel found.2 declared.2).bind fun read =>
          some (read.1, read.2.1, read.2.2.define declared.1 read.1) := by
    cases t with
    | scalar style text =>
      rw [readNode.eq_def]
      rfl
    | flowSequenceStart =>
      rw [readNode.eq_def]
      rfl
    | flowMappingStart =>
      rw [readNode.eq_def]
      rfl
    | _ => cases ht
  rw [hread, hproperties]
  show (readContent handles block indentless {} fuel (t :: ts) a).bind _ = _
  cases readContent handles block indentless {} fuel (t :: ts) a with
  | none => rfl
  | some result => rfl

/-- A scalar is a node. -/
theorem readNode_scalar (block indentless : Bool) (fuel : Nat) (style : Style) (text : String) (rest : List Token)
    (a : Anchors) (hfuel : 2 ≤ fuel) :
    readNode handles block indentless fuel (.scalar style text :: rest) a =
      some (.scalar none style text, rest, a) := by
  obtain ⟨more, rfl⟩ := Nat.exists_eq_add_of_le' hfuel
  rw [readNode_eq_readContent handles block indentless (more + 1) rest a rfl]
  rfl

/-- Behind an item comes its comma, and then the other items are read as the first was. -/
theorem readFlowItems_comma (fuel : Nat) (ts : List Token) (a : Anchors) :
    readFlowItems handles false (fuel + 1) (.flowEntry :: ts) a = readFlowItems handles true (fuel + 1) ts a := by
  simp [readFlowItems]

theorem readFlowItems_end (first : Bool) (fuel : Nat) (rest : List Token) (a : Anchors) :
    readFlowItems handles first (fuel + 1) (.flowSequenceEnd :: rest) a = some ([], rest, a) := by
  cases first with
  | true => simp [readFlowItems]
  | false => simp [readFlowItems]

/-- An item that is no mapping of one entry is a node. -/
theorem readFlowItems_cons (fuel : Nat) {t : Token} (ts : List Token) (a : Anchors) (ht : startsNode t = true) :
    readFlowItems handles true (fuel + 1) (t :: ts) a =
      (readNode handles false false fuel (t :: ts) a).bind fun (item, rest, a) =>
        (readFlowItems handles false fuel rest a).bind fun (items, rest, a) => some (item :: items, rest, a) := by
  cases t with
  | scalar style text => simp [readFlowItems]
  | flowSequenceStart => simp [readFlowItems]
  | flowMappingStart => simp [readFlowItems]
  | _ => cases ht

theorem readFlowEntries_comma (fuel : Nat) (ts : List Token) (a : Anchors) :
    readFlowEntries handles false (fuel + 1) (.flowEntry :: ts) a = readFlowEntries handles true (fuel + 1) ts a := by
  simp [readFlowEntries]

theorem readFlowEntries_end (first : Bool) (fuel : Nat) (rest : List Token) (a : Anchors) :
    readFlowEntries handles first (fuel + 1) (.flowMappingEnd :: rest) a = some ([], rest, a) := by
  cases first with
  | true => simp [readFlowEntries]
  | false => simp [readFlowEntries]

/-- An entry is a string as its key, and a node. -/
theorem readFlowEntries_key (fuel : Nat) (hfuel : 2 ≤ fuel) (name : List Piece) {t : Token} (ts : List Token)
    (a : Anchors) (ht : startsNode t = true) :
    readFlowEntries handles true (fuel + 1) (.key :: Piece.token name :: .value :: t :: ts) a =
      (readNode handles false false fuel (t :: ts) a).bind fun (value, rest, a) =>
        (readFlowEntries handles false fuel rest a).bind fun (entries, rest, a) =>
          some ((Piece.node name, value) :: entries, rest, a) := by
  have hkey := readNode_scalar handles false false fuel .doubleQuoted ((Piece.meaning name).getD "")
    (.value :: t :: ts) a hfuel
  cases t with
  | scalar style text => simp [readFlowEntries, Piece.token, Piece.node, hkey]
  | flowSequenceStart => simp [readFlowEntries, Piece.token, Piece.node, hkey]
  | flowMappingStart => simp [readFlowEntries, Piece.token, Piece.node, hkey]
  | _ => cases ht

mutual

/-- The tokens of a value are read as its node, whatever tokens follow. -/
theorem readNode_tokens (w : Json.Written) (block indentless : Bool) (fuel : Nat) (rest : List Token) (a : Anchors)
    (hfuel : 2 * w.tokens.length ≤ fuel) :
    readNode handles block indentless fuel (w.tokens ++ rest) a = some (w.node, rest, a) := by
  -- the induction is on the tree; a node takes one round of fuel and its content another
  match w with
  | .null => exact readNode_scalar handles block indentless fuel .plain "null" rest a hfuel
  | .bool true => exact readNode_scalar handles block indentless fuel .plain "true" rest a hfuel
  | .bool false => exact readNode_scalar handles block indentless fuel .plain "false" rest a hfuel
  | .number n => exact readNode_scalar handles block indentless fuel .plain (String.ofList n.text) rest a hfuel
  | .string pieces =>
    exact readNode_scalar handles block indentless fuel .doubleQuoted ((Piece.meaning pieces).getD "") rest a hfuel
  | .emptyArray inside =>
    rcases fuel with _ | _ | _ | fuel
    iterate 3 simp [Json.Written.tokens] at hfuel
    rw [Json.Written.tokens, List.cons_append, readNode_eq_readContent handles block indentless _ _ a rfl]
    simp [readContent, readFlowItems_end, Json.Written.node]
  | .array before items =>
    rw [Json.Written.tokens, List.length_cons] at hfuel
    rcases fuel with _ | _ | fuel
    · omega
    · omega
    · have hitems := readFlowItems_tokens items fuel rest a (by omega)
      rw [Json.Written.tokens, List.cons_append, readNode_eq_readContent handles block indentless _ _ a rfl]
      simp [readContent, hitems, Json.Written.node]
  | .emptyObject inside =>
    rcases fuel with _ | _ | _ | fuel
    iterate 3 simp [Json.Written.tokens] at hfuel
    rw [Json.Written.tokens, List.cons_append, readNode_eq_readContent handles block indentless _ _ a rfl]
    simp [readContent, readFlowEntries_end, Json.Written.node]
  | .object before members =>
    rw [Json.Written.tokens, List.length_cons] at hfuel
    rcases fuel with _ | _ | fuel
    · omega
    · omega
    · have hmembers := readFlowEntries_tokens members fuel rest a (by omega)
      rw [Json.Written.tokens, List.cons_append, readNode_eq_readContent handles block indentless _ _ a rfl]
      simp [readContent, hmembers, Json.Written.node]

/-- The tokens of items are read up to their closing bracket. -/
theorem readFlowItems_tokens (items : Json.WrittenItems) (fuel : Nat) (rest : List Token) (a : Anchors)
    (hfuel : 2 * items.tokens.length ≤ fuel) :
    readFlowItems handles true fuel (items.tokens ++ rest) a = some (items.nodes, rest, a) := by
  -- the comma behind an item is left to the items that follow, and these are then read as the first ones were
  match items with
  | .last item after =>
    rcases tokens_eq_cons item with ⟨t, ts, htokens, ht⟩
    rw [Json.WrittenItems.tokens, List.length_append, List.length_singleton] at hfuel
    rcases fuel with _ | _ | fuel
    · omega
    · omega
    · have hitem := readNode_tokens item false false (fuel + 1) (.flowSequenceEnd :: rest) a (by omega)
      rw [Json.WrittenItems.tokens, List.append_assoc, List.singleton_append]
      rw [htokens, List.cons_append] at hitem ⊢
      rw [readFlowItems_cons handles _ _ a ht, hitem]
      simp only [Option.bind_some, readFlowItems_end]
      rfl
  | .more item after before others =>
    rcases tokens_eq_cons item with ⟨t, ts, htokens, ht⟩
    rw [Json.WrittenItems.tokens, List.length_append, List.length_cons] at hfuel
    rcases fuel with _ | _ | fuel
    · omega
    · omega
    · have hitem := readNode_tokens item false false (fuel + 1) (.flowEntry :: (others.tokens ++ rest)) a (by omega)
      have hothers := readFlowItems_tokens others (fuel + 1) rest a (by omega)
      rw [Json.WrittenItems.tokens, List.append_assoc, List.cons_append]
      rw [htokens, List.cons_append] at hitem ⊢
      rw [readFlowItems_cons handles _ _ a ht, hitem]
      simp only [Option.bind_some, readFlowItems_comma, hothers]
      rfl

/-- The tokens of members are read up to their closing bracket. -/
theorem readFlowEntries_tokens (members : Json.WrittenMembers) (fuel : Nat) (rest : List Token) (a : Anchors)
    (hfuel : 2 * members.tokens.length ≤ fuel) :
    readFlowEntries handles true fuel (members.tokens ++ rest) a = some (members.nodes, rest, a) := by
  -- as for items; a key takes no fuel from the value behind it
  match members with
  | .last name beforeColon afterColon value after =>
    rcases tokens_eq_cons value with ⟨t, ts, htokens, ht⟩
    simp only [Json.WrittenMembers.tokens, List.length_append, List.length_cons, List.length_nil] at hfuel
    rcases fuel with _ | _ | fuel
    · omega
    · omega
    · have hvalue := readNode_tokens value false false (fuel + 1) (.flowMappingEnd :: rest) a (by omega)
      simp only [Json.WrittenMembers.tokens, List.cons_append, List.append_assoc, List.nil_append]
      rw [htokens, List.cons_append] at hvalue ⊢
      rw [readFlowEntries_key handles _ (by omega) name _ a ht, hvalue]
      simp only [Option.bind_some, readFlowEntries_end]
      rfl
  | .more name beforeColon afterColon value after before others =>
    rcases tokens_eq_cons value with ⟨t, ts, htokens, ht⟩
    simp only [Json.WrittenMembers.tokens, List.length_append, List.length_cons] at hfuel
    rcases fuel with _ | _ | fuel
    · omega
    · omega
    · have hvalue := readNode_tokens value false false (fuel + 1) (.flowEntry :: (others.tokens ++ rest)) a (by omega)
      have hothers := readFlowEntries_tokens others (fuel + 1) rest a (by omega)
      simp only [Json.WrittenMembers.tokens, List.cons_append, List.append_assoc]
      rw [htokens, List.cons_append] at hvalue ⊢
      rw [readFlowEntries_key handles _ (by omega) name _ a ht, hvalue]
      simp only [Option.bind_some, readFlowEntries_comma, hothers]
      rfl

end

/-- The tokens of an object are a text of one document, which is its node. -/
theorem Text.ofTokens?_tokens {w : Json.Written} (hobject : ∃ members, w.value = .object members) :
    Text.ofTokens? w.tokens = some ⟨some w.node, []⟩ := by
  have hread := readNode_tokens Handles.standard w true false (2 * w.tokens.length + 8) [] {} (by omega)
  rw [List.append_nil] at hread
  have hroot : readRoot Handles.standard w.tokens = some ⟨some w.node, []⟩ := by
    rw [readRoot, hread]
    rfl
  rcases hobject with ⟨members, hobject⟩
  cases w with
  | emptyObject inside => exact hroot
  | object before members => exact hroot
  | _ => cases hobject

end Sidecar.Yaml
