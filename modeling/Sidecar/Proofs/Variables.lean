import Sidecar.Proofs.Expansion

/-!
# Expansion and its variables

What an expansion takes from its variables are the values of the names that the text refers to, and nothing else. The
values are put in as they are, so they can neither close a reference nor open one: whether a text can be expanded, and
where it is malformed, is known without them.

The main statement is `expand_of_variables`. Its parts are `substitute_eq_error` for a single reference,
`expandFrom_eq_error` and `expandFrom_congr` for the references of a text, and `scan_unbound` for a text all of whose
references are kept.
-/

namespace Sidecar

namespace Expression

open Text

variable {vars vars' : String → Option String}

/-- A reference is refused for its name alone. -/
theorem substitute_eq_error {m : Match} {e : ExpressionError} :
    substitute vars m = .error e ↔
      isIdentifier m.partText = false ∧ isForShell m.partText = false ∧
        e = .malformed m.start.offset (String.ofList m.text) := by
  rw [substitute, isMatch_identifier, isMatch_shell]
  cases isIdentifier m.partText with
  | true =>
    cases vars (String.ofList m.partText) with
    | none => simp
    | some value => simp
  | false =>
    cases isForShell m.partText with
    | true => simp
    | false => simp [eq_comm]

/-- The references of a text fail at the same place with any variables. -/
theorem expandFrom_eq_error {last : Place} {found : List Match} {e : ExpressionError}
    (h : expandFrom vars last found = .error e) : expandFrom vars' last found = .error e := by
  induction found generalizing last with
  | nil => exact h
  | cons m later ih =>
    rw [expandFrom] at h ⊢
    cases hm : substitute vars m with
    | error refused =>
      have hrefused : substitute vars' m = .error refused := substitute_eq_error.2 (substitute_eq_error.1 hm)
      rw [hm] at h
      rw [hrefused]
      exact h
    | ok replacement =>
      -- what is not refused with some variables is not refused with others
      obtain ⟨replacement', hm'⟩ : ∃ replacement', substitute vars' m = .ok replacement' := by
        cases hm' : substitute vars' m with
        | ok replacement' => exact ⟨replacement', rfl⟩
        | error refused =>
          rw [substitute_eq_error.2 (substitute_eq_error.1 hm')] at hm
          cases hm
      rw [hm] at h
      rw [hm']
      cases hlater : expandFrom vars m.stop later with
      | ok text =>
        rw [hlater] at h
        cases h
      | error e' =>
        rw [hlater] at h
        cases h
        rw [ih hlater]
        rfl

/-- Variables with the same values for the names that are referred to are not told apart. -/
theorem expandFrom_congr {last : Place} {found : List Match}
    (h : ∀ m ∈ found, isIdentifier m.partText = true →
      vars (String.ofList m.partText) = vars' (String.ofList m.partText)) :
    expandFrom vars last found = expandFrom vars' last found := by
  induction found generalizing last with
  | nil => rfl
  | cons m later ih =>
    have hfirst : substitute vars m = substitute vars' m := by
      rw [substitute, substitute, isMatch_identifier]
      split
      · rename_i hidentifier
        rw [h m List.mem_cons_self hidentifier]
      · rfl
    have hlater : expandFrom vars m.stop later = expandFrom vars' m.stop later :=
      ih fun m' hm' => h m' (List.mem_cons_of_mem m hm')
    rw [expandFrom, expandFrom, hfirst, hlater]

/-- Where no name is bound, every reference is kept as it is written. -/
theorem scan_unbound {cs text : List Char} (h : scan (fun _ => none) cs = .ok text) : text = cs := by
  fun_induction scan (fun _ => none) cs generalizing text with
  | case1 => exact (Except.ok.inj h).symm
  | case2 => cases h
  | case3 => cases h
  | case4 rest name behind hclosing replacement hmeaning ih =>
    obtain ⟨-, rfl⟩ := closing?_eq_some.1 hclosing
    obtain ⟨later, hlater, rfl⟩ := resumed_eq_ok.1 h
    have hkept : replacement = reference name := by
      unfold meaning? at hmeaning
      split at hmeaning
      · exact (Option.some.inj hmeaning).symm
      · split at hmeaning
        · exact (Option.some.inj hmeaning).symm
        · cases hmeaning
    rw [hkept, ih hlater]
    simp [reference]
  | case5 c rest hopening ih =>
    obtain ⟨later, hlater, rfl⟩ := resumed_eq_ok.1 h
    rw [ih hlater]
    rfl

theorem expand_eq_error_of_eq_error {raw : String} {e : ExpressionError} (h : expand vars raw = .error e) :
    expand vars' raw = .error e := by
  rw [expand] at h ⊢
  cases hfrom : expandFrom vars (Place.start raw.toList) (references (Place.start raw.toList)) with
  | ok text =>
    rw [hfrom] at h
    cases h
  | error e' =>
    rw [hfrom] at h
    cases h
    rw [expandFrom_eq_error hfrom]
    rfl

/-- A text refers to a name: one of its references is written with it. -/
def RefersTo (raw name : String) : Prop :=
  ∃ m ∈ references (Place.start raw.toList), String.ofList m.text = "$\x7b" ++ name ++ "\x7d"

/-- The references of a text are written with the names that are looked up for them. -/
theorem text_of_references {place : Place} {m : Match} (h : m ∈ references place) : m.text = reference m.partText := by
  fun_induction references place with
  | case1 => cases h
  | case2 place found hsearch ih =>
    rcases List.mem_cons.1 h with rfl | h
    · obtain ⟨name, -, hleads, hpart, -⟩ := takes_reference (Pattern.search_eq_some hsearch).1
      rw [hpart]
      exact hleads.upTo_eq
    · exact ih h

theorem refersTo_of_references {raw : String} {m : Match} (h : m ∈ references (Place.start raw.toList)) :
    RefersTo raw (String.ofList m.partText) := by
  refine ⟨m, h, ?_⟩
  rw [text_of_references h]
  simp [← String.toList_inj, reference]

/-- Whether a text can be expanded, and what is wrong with it if it cannot, does not depend on the variables at all.
What it expands to depends on the values of the names that it refers to. Where none of them is bound, it is left as it
is. -/
theorem expand_of_variables (vars vars' : String → Option String) (raw : String) :
    ((∃ text, expand vars raw = .ok text) ↔ ∃ text, expand vars' raw = .ok text) ∧
    (∀ offset fragment, expand vars raw = .error (.malformed offset fragment) ↔
      expand vars' raw = .error (.malformed offset fragment)) ∧
    ((∀ name : String, isIdentifier name.toList = true → RefersTo raw name → vars name = vars' name) →
      expand vars raw = expand vars' raw) ∧
    ∀ text, expand (fun _ => none) raw = .ok text → text = raw := by
  have hsuccess : ∀ {vars vars' : String → Option String}, (∃ text, expand vars raw = .ok text) →
      ∃ text, expand vars' raw = .ok text := by
    rintro vars vars' ⟨text, htext⟩
    cases h : expand vars' raw with
    | ok text' => exact ⟨text', rfl⟩
    | error e =>
      rw [expand_eq_error_of_eq_error h] at htext
      cases htext
  refine ⟨⟨hsuccess, hsuccess⟩, ?_, ?_, ?_⟩
  · intro offset fragment
    exact ⟨expand_eq_error_of_eq_error, expand_eq_error_of_eq_error⟩
  · intro h
    have hagree : ∀ m ∈ references (Place.start raw.toList), isIdentifier m.partText = true →
        vars (String.ofList m.partText) = vars' (String.ofList m.partText) := by
      intro m hm hidentifier
      apply h _ _ (refersTo_of_references hm)
      rw [String.toList_ofList]
      exact hidentifier
    rw [expand, expand, expandFrom_congr hagree]
  · intro text h
    exact String.toList_inj.1 (scan_unbound (expand_eq_ok.1 h))

/-- A value that looks like an opening is put in as it is, and a name that the text does not refer to plays no part. An
error is the same with a value that looks like a closing brace. -/
theorem expand_of_variables_braces :
    let vars : String → Option String := fun name => if name = "A" then some "$\x7b" else none
    let vars' : String → Option String := fun name =>
      if name = "A" then some "$\x7b" else if name = "Z" then some "\x7d" else none
    let raw := "$\x7bA\x7d-$\x7bB\x7d-$\x7b1\x7d"
    expand vars raw = expand vars' raw ∧
    (∃ text, expand vars' "$\x7bZ\x7d" = .ok text) ∧
    expand vars' "$\x7bZ\x7d$\x7b" = .error (.malformed 4 "$\x7b") ∧
    ∃ text, expand (fun _ => none) "$\x7bZ\x7d" = .ok text ∧ text = "$\x7bZ\x7d" := by
  intro vars vars' raw
  have htexts : (references (Place.start raw.toList)).map (fun m => String.ofList m.text) =
      ["$\x7bA\x7d", "$\x7bB\x7d", "$\x7b1\x7d"] := by cbv
  have hagree : ∀ name : String, isIdentifier name.toList = true → RefersTo raw name → vars name = vars' name := by
    rintro name - ⟨m, hm, htext⟩
    by_cases hname : name = "Z"
    · subst hname
      have hmem := List.mem_map_of_mem (f := fun m => String.ofList m.text) hm
      rw [htexts, htext] at hmem
      exact absurd hmem (by decide)
    · simp only [vars, vars', hname, if_false]
  have hkept : expand (fun _ => none) "$\x7bZ\x7d" = .ok "$\x7bZ\x7d" := by cbv
  refine ⟨(expand_of_variables vars vars' raw).2.2.1 hagree, ?_, ?_, ?_⟩
  · exact (expand_of_variables (fun _ => none) vars' _).1.1 ⟨_, hkept⟩
  · exact ((expand_of_variables vars vars' _).2.1 4 "$\x7b").1 (by cbv)
  · exact ⟨_, hkept, (expand_of_variables vars vars' _).2.2.2 _ hkept⟩

end Expression

end Sidecar
