import Sidecar.Proofs.Words

/-!
# The characters of a JSON text

YAML refuses a text that holds a character which it does not print. A portable value of JSON is written with characters
that it does (`value_printable`): what is not in a string is ASCII, and so are escapes.
-/

namespace Sidecar.Yaml

open Json (Blanks Piece)

/-! ## Characters -/

/-- All characters of ASCII but the control characters are printed. -/
theorem isPrintable_between {c : Char} (first last : Char) (h : first ≤ c ∧ c ≤ last) (hfirst : 0x20 ≤ first.toNat)
    (hlast : last.toNat ≤ 0x7E) : isPrintable c = true := by
  have hlow : first.toNat ≤ c.toNat := h.1
  have hhigh : c.toNat ≤ last.toNat := h.2
  have hc : 0x20 ≤ c.toNat ∧ c.toNat ≤ 0x7E := by omega
  simp [isPrintable, hc.1, hc.2]

theorem isPrintable_of_isDigit {c : Char} (h : c.isDigit = true) : isPrintable c = true := by
  simp only [Char.isDigit, Bool.and_eq_true, decide_eq_true_eq] at h
  exact isPrintable_between '0' '9' h (by decide) (by decide)

theorem isPrintable_of_isWordPart {c : Char} (h : isWordPart c = true) : isPrintable c = true := by
  simp only [isWordPart, Char.isAlphanum, Bool.or_eq_true, beq_iff_eq] at h
  rcases h with (((hletter | hdigit) | rfl) | rfl) | rfl
  · rcases Bool.or_eq_true_iff.1 hletter with hupper | hlower
    · exact isPrintable_between 'A' 'Z' (of_decide_eq_true hupper) (by decide) (by decide)
    · have hbounds := Bool.and_eq_true_iff.1 hlower
      exact isPrintable_between 'a' 'z' ⟨of_decide_eq_true hbounds.1, of_decide_eq_true hbounds.2⟩ (by decide)
        (by decide)
  · exact isPrintable_of_isDigit hdigit
  · rfl
  · rfl
  · rfl

theorem isPrintable_of_hexDigit? {c : Char} {n : Nat} (h : Json.hexDigit? c = some n) : isPrintable c = true := by
  unfold Json.hexDigit? at h
  split at h
  · exact isPrintable_of_isDigit ‹_›
  · split at h
    · rename_i hletter
      simp only [Bool.and_eq_true, decide_eq_true_eq] at hletter
      exact isPrintable_between _ _ hletter (by decide) (by decide)
    · split at h
      · rename_i hletter
        simp only [Bool.and_eq_true, decide_eq_true_eq] at hletter
        exact isPrintable_between _ _ hletter (by decide) (by decide)
      · cases h

theorem isPrintable_of_isSpace {c : Char} (h : Json.isSpace c = true) : isPrintable c = true := by
  simp only [Json.isSpace, Bool.or_eq_true, beq_iff_eq] at h
  rcases h with ((rfl | rfl) | rfl) | rfl
  all_goals decide

/-- The marks of JSON are printed. -/
theorem marks_printable : isPrintable '[' = true ∧ isPrintable ']' = true ∧ isPrintable '\x7b' = true ∧
    isPrintable '\x7d' = true ∧ isPrintable ',' = true ∧ isPrintable ':' = true ∧ isPrintable '"' = true ∧
    isPrintable '\\' = true ∧ isPrintable 'u' = true := by
  decide

theorem blanks_printable (b : Blanks) : b.chars.all isPrintable = true := by
  rw [List.all_eq_true]
  exact fun c hc => isPrintable_of_isSpace (b.blank c hc)

/-! ## Values -/

/-- A portable string is written with characters that YAML prints. -/
theorem quote_printable {pieces : List Piece} (hp : pieces.all Piece.isPortable = true) :
    (Piece.quote pieces).all isPrintable = true := by
  have hpieces : ∀ p ∈ pieces, p.text.all isPrintable = true := by
    intro p hmem
    have hportable := List.all_eq_true.1 hp p hmem
    cases p with
    | plain x h =>
      rw [Piece.isPortable, Bool.and_eq_true] at hportable
      simp [Piece.text, hportable.1]
    | short letter x h =>
      have hletter : isPrintable letter = true := by
        unfold Json.shortEscape? at h
        split at h
        all_goals
          cases h
          try decide
      simp [Piece.text, hletter, marks_printable]
    | unicode x y z w unit h =>
      simp only [Json.hexQuad?, Option.bind_eq_bind, Option.bind_eq_some_iff] at h
      rcases h with ⟨_, hx, _, hy, _, hz, _, hw, _⟩
      simp [Piece.text, isPrintable_of_hexDigit? hx, isPrintable_of_hexDigit? hy, isPrintable_of_hexDigit? hz,
        isPrintable_of_hexDigit? hw, marks_printable]
  have hall : (pieces.all fun p => p.text.all isPrintable) = true := List.all_eq_true.2 hpieces
  simp only [Piece.quote, List.all_cons, List.all_append, List.all_flatMap, List.all_nil, hall, marks_printable,
    Bool.and_true]

mutual

/-- A portable value is written with characters that YAML prints. -/
theorem value_printable (w : Json.Written) (hw : w.isPortable = true) : w.text.all isPrintable = true := by
  match w with
  | .null => decide
  | .bool true => decide
  | .bool false => decide
  | .number n =>
    rw [Json.Written.text, List.all_eq_true]
    exact fun c hc => isPrintable_of_isWordPart (isWordPart_of_mem_text hc)
  | .string pieces =>
    rw [Json.Written.isPortable, Bool.and_eq_true] at hw
    exact quote_printable hw.1
  | .emptyArray inside =>
    simp [Json.Written.text, blanks_printable, marks_printable]
  | .emptyObject inside =>
    simp [Json.Written.text, blanks_printable, marks_printable]
  | .array before items =>
    simp [Json.Written.text, blanks_printable, items_printable items hw, marks_printable]
  | .object before members =>
    simp [Json.Written.text, blanks_printable, members_printable members hw, marks_printable]

theorem items_printable (items : Json.WrittenItems) (hitems : items.isPortable = true) :
    items.text.all isPrintable = true := by
  match items with
  | .last item after =>
    have hitem := value_printable item hitems
    simp [Json.WrittenItems.text, blanks_printable, hitem, marks_printable]
  | .more item after before others =>
    rw [Json.WrittenItems.isPortable, Bool.and_eq_true] at hitems
    have hitem := value_printable item hitems.1
    have hothers := items_printable others hitems.2
    simp [Json.WrittenItems.text, blanks_printable, hitem, hothers, marks_printable]

theorem members_printable (members : Json.WrittenMembers) (hmembers : members.isPortable = true) :
    members.text.all isPrintable = true := by
  match members with
  | .last name beforeColon afterColon value after =>
    simp only [Json.WrittenMembers.isPortable, Bool.and_eq_true] at hmembers
    have hname := quote_printable hmembers.1.1
    have hvalue := value_printable value hmembers.2
    simp [Json.WrittenMembers.text, blanks_printable, hname, hvalue, marks_printable]
  | .more name beforeColon afterColon value after before others =>
    simp only [Json.WrittenMembers.isPortable, Bool.and_eq_true] at hmembers
    have hname := quote_printable hmembers.1.1.1
    have hvalue := value_printable value hmembers.1.2
    have hothers := members_printable others hmembers.2
    simp [Json.WrittenMembers.text, blanks_printable, hname, hvalue, hothers, marks_printable]

end

end Sidecar.Yaml
