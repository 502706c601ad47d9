import Mathlib.Data.List.Nodup
import Mathlib.Data.List.TakeWhile
import Sidecar.Image.Metadata
import Sidecar.Proofs.Reading
import Sidecar.Proofs.Serialization

/-!
# What a runtime prints about an image

The output of a container runtime is read without loss. Of an object, however it is written, just two names matter; each
may be missing, null or a list of texts, and must not occur twice. What they list comes back in order.

The main statement is `ImageMetadata.ofInspection_iff`. `Json.Declares` says what an object declares under a name;
`Json.record?_record` and `ImageMetadata.field?_eq_some_iff` say that this is what is read.
-/

namespace Sidecar

/-- Blanks at both ends are cut off a text that neither begins nor ends with one. -/
theorem Text.trimChars_surrounded {before middle after : List Char} (hbefore : ∀ c ∈ before, isBlank c = true)
    (hafter : ∀ c ∈ after, isBlank c = true) (hfirst : ∀ c ∈ middle.head?, isBlank c = false)
    (hlast : ∀ c ∈ middle.getLast?, isBlank c = false) (hmiddle : middle ≠ []) :
    trimChars (before ++ (middle ++ after)) = middle := by
  have hdrop : (before ++ (middle ++ after)).dropWhile isBlank = middle ++ after := by
    rw [List.dropWhile_append_of_pos hbefore]
    cases middle with
    | nil => exact absurd rfl hmiddle
    | cons c rest => simp [hfirst c rfl]
  have hreverse : (middle ++ after).reverse.dropWhile isBlank = middle.reverse := by
    rw [List.reverse_append, List.dropWhile_append_of_pos (fun c hc => hafter c (List.mem_reverse.1 hc))]
    rcases List.eq_nil_or_concat middle with rfl | ⟨init, c, rfl⟩
    · exact absurd rfl hmiddle
    · simp [hlast c (by simp)]
  rw [trimChars, hdrop, dropEndWhile, hreverse, List.reverse_reverse]

namespace Json

open Document

/-! ## Members of a name -/

/-- The values of the members that have a name, in their order. -/
def valuesOf (members : List (Option String × Json)) (name : String) : List Json :=
  (members.filter (·.1 = some name)).map (·.2)

/-- What an object declares under a name: nothing if there is no such member or its value is null, and otherwise the
texts of its list. The name does not occur twice. -/
def Declares (members : List (Option String × Json)) (name : String) (ss : List String) : Prop :=
  (valuesOf members name = [] ∧ ss = []) ∨ (valuesOf members name = [.null] ∧ ss = []) ∨
    valuesOf members name = [.texts ss]

/-- Members whose names are texts bind these texts. -/
theorem exists_record {members : List (Option String × Json)} (h : ∀ member ∈ members, member.1.isSome = true) :
    ∃ fields : List (String × Json), members = fields.map fun (name, value) => (some name, value) := by
  induction members with
  | nil => exact ⟨[], rfl⟩
  | cons member rest ih =>
    rcases ih (fun m hm => h m (List.mem_cons_of_mem _ hm)) with ⟨fields, hfields⟩
    rcases member with ⟨name, value⟩
    rcases Option.isSome_iff_exists.1 (h _ List.mem_cons_self) with ⟨s, hs⟩
    exact ⟨(s, value) :: fields, by rw [hfields, List.map_cons, show name = some s from hs]⟩

theorem valuesOf_record (fields : List (String × Json)) (name : String) :
    valuesOf (fields.map fun (name, value) => (some name, value)) name =
      (fields.filter (·.1 = name)).map (·.2) := by
  simp [valuesOf, List.filter_map, Function.comp_def]

/-- All members of a field are among the fields. -/
theorem filter_fields {names : List String} {name : String} (hname : name ∈ names) (members : List (String × Json)) :
    (members.filter fun member => names.contains member.1).filter (·.1 = name) = members.filter (·.1 = name) := by
  rw [List.filter_filter]
  apply List.filter_congr
  intro member _
  by_cases h : member.1 = name
  · simp [h, hname]
  · simp [h]

theorem count_names (fields : List (String × Json)) (name : String) :
    (fields.map (·.1)).count name = (fields.filter (·.1 = name)).length := by
  rw [List.count_eq_countP, List.countP_map, List.countP_eq_length_filter]
  rfl

/-- A record is read if none of its fields occurs twice, whatever other members there are. -/
theorem record?_record (names : List String) (members : List (String × Json)) :
    record? names (record members) =
      if ∀ name ∈ names, (members.filter (·.1 = name)).length ≤ 1 then
        some (members.filter fun member => names.contains member.1) else none := by
  have hnodup : ((members.filter fun member => names.contains member.1).map (·.1)).Nodup ↔
      ∀ name ∈ names, (members.filter (·.1 = name)).length ≤ 1 := by
    rw [List.nodup_iff_count_le_one]
    constructor
    · intro h name hname
      have hone := h name
      rwa [count_names, filter_fields hname] at hone
    · intro h name
      by_cases hname : name ∈ names
      · rw [count_names, filter_fields hname]
        exact h name hname
      · -- a name that is no field is not among the names of the fields
        rw [List.count_eq_zero_of_not_mem]
        · exact Nat.zero_le 1
        · intro hmem
          rcases List.mem_map.1 hmem with ⟨member, hmember, rfl⟩
          exact hname (by simpa using (List.mem_filter.1 hmember).2)
  show (members? (record members)).bind _ = _
  rw [members?_record]
  show (if _ then _ else _) = _
  simp only [hnodup]
  rfl

/-- A field is looked up as the first member of its name. -/
theorem lookup_eq_head? (fields : List (String × Json)) (name : String) :
    fields.lookup name = ((fields.filter (·.1 = name)).map (·.2)).head? := by
  induction fields with
  | nil => rfl
  | cons field rest ih =>
    by_cases h : field.1 = name
    · subst h
      rw [List.filter_cons_of_pos (by simp)]
      rcases field with ⟨key, value⟩
      simp
    · have hne : (name == field.1) = false := beq_eq_false_iff_ne.2 (Ne.symm h)
      rw [List.filter_cons_of_neg (by simpa using h), ← ih]
      rcases field with ⟨key, value⟩
      rw [List.lookup_cons, hne]

/-! ## Lists of texts -/

/-- A value is read as a list of texts exactly if it is one. -/
theorem texts?_eq_some_iff (value : Json) (ss : List String) :
    Document.texts? value = some ss ↔ value = .texts ss := by
  constructor
  · intro h
    cases value with
    | array items =>
      have hitems : items.mapM Json.text? = some ss := h
      clear h
      induction items generalizing ss with
      | nil =>
        cases hitems
        rfl
      | cons item rest ih =>
        simp only [List.mapM_cons, Option.bind_eq_bind, Option.bind_eq_some_iff] at hitems
        rcases hitems with ⟨s, hs, others, hothers, hresult⟩
        cases hresult
        have hrest := ih others hothers
        cases item with
        | string text =>
          cases hs
          rw [texts, Json.array.injEq] at hrest
          rw [hrest, texts, List.map_cons, text]
        | _ => cases hs
    | _ => cases h
  · rintro rfl
    exact texts?_texts ss

end Json

namespace ImageMetadata

open Document Json

/-- A member is read as a list of texts exactly if it is null, for the empty list, or that list. -/
theorem optionalTexts?_eq_some_iff (value : Json) (ss : List String) :
    optionalTexts? value = some ss ↔ (value = .null ∧ ss = []) ∨ value = .texts ss := by
  unfold optionalTexts?
  cases value with
  | null =>
    show some [] = some ss ↔ _
    constructor
    · intro h
      cases h
      exact .inl ⟨rfl, rfl⟩
    · rintro (⟨_, rfl⟩ | h)
      · rfl
      · cases h
  | _ =>
    show Document.texts? _ = some ss ↔ _
    rw [texts?_eq_some_iff]
    simp

/-- What is read of a field is what the object declares under its name. -/
theorem field?_eq_some_iff {names : List String} {name : String} (hname : name ∈ names)
    (members : List (String × Json)) (ss : List String) :
    ((members.filter (·.1 = name)).length ≤ 1 ∧
      field? (members.filter fun member => names.contains member.1) name optionalTexts? [] = some ss) ↔
      Declares (members.map fun (name, value) => (some name, value)) name ss := by
  rw [Declares, valuesOf_record, field?, lookup_eq_head?, filter_fields hname]
  generalize members.filter (·.1 = name) = found
  -- there is no such member, or one, or too many
  rcases found with _ | ⟨first, _ | ⟨second, rest⟩⟩
  · simp [eq_comm]
  · simp [optionalTexts?_eq_some_iff]
  · simp

/-- An object is read as metadata exactly if it declares what they hold. -/
theorem decode?_eq_some_iff {members : List (Option String × Json)}
    (hnames : ∀ member ∈ members, member.1.isSome = true) (metadata : ImageMetadata) :
    decode? (Json.object members) = some metadata ↔
      Declares members "Entrypoint" metadata.entrypoint ∧ Declares members "Cmd" metadata.args := by
  rcases exists_record hnames with ⟨fields, rfl⟩
  have hentrypoint : "Entrypoint" ∈ ["Entrypoint", "Cmd"] := by decide
  have hargs : "Cmd" ∈ ["Entrypoint", "Cmd"] := by decide
  rw [← field?_eq_some_iff hentrypoint, ← field?_eq_some_iff hargs]
  show decode? (record fields) = _ ↔ _
  simp only [decode?, record?_record, List.forall_mem_cons, List.not_mem_nil, false_implies, implies_true, and_true]
  split
  · rename_i honce
    simp only [honce.1, honce.2, true_and, Option.bind_eq_bind, Option.bind_some, Option.bind_eq_some_iff,
      Option.pure_def, Option.some.injEq]
    constructor
    · rintro ⟨entrypoint, hread, args, hread', rfl⟩
      exact ⟨hread, hread'⟩
    · rintro ⟨hread, hread'⟩
      exact ⟨metadata.entrypoint, hread, metadata.args, hread', rfl⟩
  · rename_i htwice
    constructor
    · intro h
      cases h
    · rintro ⟨⟨hfirst, _⟩, hsecond, _⟩
      exact absurd ⟨hfirst, hsecond⟩ htwice

end ImageMetadata

/-! ## Objects as they are printed -/

namespace Json

/-- Members are written up to a closing bracket. -/
theorem WrittenMembers.text_eq_concat (members : WrittenMembers) : ∃ init, members.text = init ++ ['\x7d'] := by
  match members with
  | .last name beforeColon afterColon value after =>
    refine ⟨Piece.quote name ++ beforeColon.chars ++ ':' :: (afterColon.chars ++ value.text ++ after.chars), ?_⟩
    simp [WrittenMembers.text]
  | .more name beforeColon afterColon value after before rest =>
    rcases rest.text_eq_concat with ⟨init, hinit⟩
    refine ⟨Piece.quote name ++ beforeColon.chars ++
      ':' :: (afterColon.chars ++ value.text ++ after.chars ++ ',' :: (before.chars ++ init)), ?_⟩
    simp [WrittenMembers.text, hinit]

/-- An object is written between its brackets. -/
theorem Written.text_of_object {w : Written} {members : List (Option String × Json)} (h : w.value = .object members) :
    ∃ inside, w.text = '\x7b' :: (inside ++ ['\x7d']) := by
  cases w with
  | emptyObject inside => exact ⟨inside.chars, rfl⟩
  | object before members =>
    rcases members.text_eq_concat with ⟨init, hinit⟩
    exact ⟨before.chars ++ init, by simp [Written.text, hinit]⟩
  | _ => cases h

/-- A value is printed, with any blanks around it. -/
def Printed (output : String) (w : Written) : Prop :=
  ∃ before after : List Char, (∀ c ∈ before, Text.isBlank c = true) ∧ (∀ c ∈ after, Text.isBlank c = true) ∧
    output.toList = before ++ (w.text ++ after)

/-- Of a printed value the blanks are cut off, if it does not begin or end with one. -/
theorem Printed.trim_eq {output : String} {w : Written} (h : Printed output w)
    (hfirst : ∀ c ∈ w.text.head?, Text.isBlank c = false) (hlast : ∀ c ∈ w.text.getLast?, Text.isBlank c = false) :
    Text.trim output = String.ofList w.text := by
  rcases h with ⟨before, after, hbefore, hafter, houtput⟩
  have hne : w.text ≠ [] := by
    rcases w.text_eq_cons with ⟨c, tail, htext, _⟩
    rw [htext]
    exact List.cons_ne_nil c tail
  rw [Text.trim, houtput, Text.trimChars_surrounded hbefore hafter hfirst hlast hne]

/-- The text of a value alone is read as the value. -/
theorem parse?_ofList_text (w : Written) : parse? (String.ofList w.text) = some w.value :=
  parse?_of_writes ⟨Blanks.none, Blanks.none, by simp [Blanks.none]⟩

end Json

namespace ImageMetadata

open Json

/-- Of a printed object, reading the output is reading the object. -/
theorem ofInspection_of_printed {output : String} {w : Written} {members : List (Option String × Json)}
    (h : Printed output w) (hobject : w.value = .object members) :
    ofInspection output =
      match decode? (Json.object members) with
      | some metadata => .ok metadata
      | none => .error (.metadata .malformed) := by
  rcases Written.text_of_object hobject with ⟨inside, htext⟩
  have htrim : Text.trim output = String.ofList w.text := by
    apply h.trim_eq
    · rw [htext]
      intro c hc
      cases hc
      decide
    · rw [htext, ← List.cons_append, List.getLast?_concat]
      intro c hc
      cases hc
      decide
  have hother : ¬(String.ofList w.text = "" ∨ String.ofList w.text = "null") := by
    rw [htext]
    rintro (hempty | hnull)
    · have hchars := congrArg String.toList hempty
      rw [String.toList_ofList] at hchars
      cases hchars
    · have hchars := congrArg (fun s => s.toList.head?) hnull
      simp at hchars
  rw [ofInspection]
  simp only [htrim]
  rw [if_neg hother, parse?_ofList_text, hobject]
  rfl

/-- An object whose names are texts is read as metadata exactly if it declares what they hold, whatever else is in it,
however it is written and whatever blanks are around it; otherwise the output is refused. So the command that comes back
is the one that was listed. Blank output and a printed null declare nothing. -/
theorem ofInspection_iff :
    (∀ (output : String) (w : Written) (members : List (Option String × Json)),
      Printed output w → w.value = .object members → (∀ member ∈ members, member.1.isSome = true) →
        (∀ metadata, ofInspection output = .ok metadata ↔
          Declares members "Entrypoint" metadata.entrypoint ∧ Declares members "Cmd" metadata.args) ∧
        ((∃ metadata, ofInspection output = .ok metadata) ↔
          (∃ e, Declares members "Entrypoint" e) ∧ ∃ c, Declares members "Cmd" c) ∧
        ((¬∃ metadata, ofInspection output = .ok metadata) → ofInspection output = .error (.metadata .malformed)) ∧
        ∀ e c, valuesOf members "Entrypoint" = [.texts e] → valuesOf members "Cmd" = [.texts c] →
          (ofInspection output).map combined = .ok (e ++ c)) ∧
    (∀ output, Text.isBlankText output = true → ofInspection output = .ok {}) ∧
    ∀ output, Printed output .null → ofInspection output = .ok {} := by
  refine ⟨?_, ?_, ?_⟩
  · intro output w members hprinted hobject hnames
    have hread := ofInspection_of_printed hprinted hobject
    have hiff : ∀ metadata, ofInspection output = .ok metadata ↔
        Declares members "Entrypoint" metadata.entrypoint ∧ Declares members "Cmd" metadata.args := by
      intro metadata
      rw [← decode?_eq_some_iff hnames, hread]
      cases decode? (Json.object members) with
      | some found => simp
      | none => simp
    refine ⟨hiff, ?_, ?_, ?_⟩
    · constructor
      · rintro ⟨metadata, hmetadata⟩
        have hdeclares := (hiff metadata).1 hmetadata
        exact ⟨⟨_, hdeclares.1⟩, ⟨_, hdeclares.2⟩⟩
      · rintro ⟨⟨e, he⟩, ⟨c, hc⟩⟩
        exact ⟨⟨e, c⟩, (hiff ⟨e, c⟩).2 ⟨he, hc⟩⟩
    · intro hrefused
      rw [hread] at hrefused ⊢
      cases hdecode : decode? (Json.object members) with
      | some found =>
        rw [hdecode] at hrefused
        exact absurd ⟨found, rfl⟩ hrefused
      | none => rfl
    · intro e c he hc
      rw [(hiff ⟨e, c⟩).2 ⟨.inr (.inr he), .inr (.inr hc)⟩]
      rfl
  · intro output hblank
    have htrim : Text.trim output = "" := by
      have hdrop : output.toList.dropWhile Text.isBlank = [] := by
        rw [List.dropWhile_eq_nil_iff]
        exact List.all_eq_true.1 hblank
      rw [Text.trim, Text.trimChars, hdrop]
      rfl
    rw [ofInspection]
    simp only [htrim]
    rfl
  · intro output hprinted
    have htrim : Text.trim output = "null" := by
      rw [hprinted.trim_eq]
      · rfl
      · intro c hc
        cases hc
        decide
      · intro c hc
        cases hc
        decide
    rw [ofInspection]
    simp only [htrim]
    rfl

/-- An entrypoint with an escape, no arguments, and one more member that has the name of a field further in. -/
theorem ofInspection_iff_escaped :
    let output := "\u00a0\x7b\"Cmd\": null,\"Env\":\x7b\"Cmd\":false\x7d,\"Entrypoint\":[\"\\u002fsh\"]\x7d\n"
    let members : List (Option String × Json) :=
      [(some "Cmd", .null), (some "Env", .record [("Cmd", .bool false)]), (some "Entrypoint", .texts ["/sh"])]
    (∃ w, Printed output w ∧ w.value = .object members) ∧ (∀ member ∈ members, member.1.isSome = true) ∧
      ofInspection output = .ok ⟨["/sh"], []⟩ := by
  intro output members
  let nothing := Blanks.none
  let blank : Blanks := ⟨[' '], by simp [isSpace]⟩
  let cmd := ['C', 'm', 'd'].pmap Piece.plain (by simp)
  let env := ['E', 'n', 'v'].pmap Piece.plain (by simp)
  let entrypoint := ['E', 'n', 't', 'r', 'y', 'p', 'o', 'i', 'n', 't'].pmap Piece.plain (by simp)
  let shell := .unicode '0' '0' '2' 'f' 0x2f (by decide) :: ['s', 'h'].pmap Piece.plain (by simp)
  let w : Written := .object nothing
    (.more cmd nothing blank .null nothing nothing
      (.more env nothing nothing (.object nothing (.last cmd nothing nothing (.bool false) nothing)) nothing nothing
        (.last entrypoint nothing nothing (.array nothing (.last (.string shell) nothing)) nothing)))
  have hprinted : Printed output w :=
    ⟨['\u00a0'], ['\n'], by simp [Text.isBlank], by simp [Text.isBlank], by decide +kernel⟩
  have hobject : w.value = .object members := rfl
  have hnames : ∀ member ∈ members, member.1.isSome = true := by
    simp [members]
  have hread := (ofInspection_iff.1 output w members hprinted hobject hnames).1 ⟨["/sh"], []⟩
  exact ⟨⟨w, hprinted, hobject⟩, hnames, hread.2 ⟨.inr (.inr rfl), .inr (.inl ⟨rfl, rfl⟩)⟩⟩

end ImageMetadata

end Sidecar
