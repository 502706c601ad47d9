import Mathlib
import Sidecar.Proofs.Scan

/-!
# Errors and parts of an expansion

Where an expansion fails, and how the expansion of a text comes from the expansions of its parts. Both follow from the
scan that an expansion is: what has been passed is settled, and does not change with what stands behind it.

The main statements are `expand_error_leftmost`, which says that an error points at the first malformed reference, and
`expand_append`, which says that texts can be expanded one at a time, unless an opening is cut in two between them.
They rest on `scan_append` and `scan_eq_error`.
-/

namespace Sidecar

open Text

namespace Text

theorem utf8ByteSize_ofList (cs : List Char) : (String.ofList cs).utf8ByteSize = byteLength cs := by
  induction cs with
  | nil => rfl
  | cons c cs ih =>
    have hsplit : String.ofList (c :: cs) = String.singleton c ++ String.ofList cs := by
      rw [String.singleton_eq_ofList, ← String.ofList_append]
      rfl
    rw [hsplit, String.utf8ByteSize_append, String.utf8ByteSize_singleton, ih, byteLength_cons]

/-- The bytes of a text are those of its characters. -/
theorem byteLength_toList (s : String) : byteLength s.toList = s.utf8ByteSize := by
  rw [← utf8ByteSize_ofList, String.ofList_toList]

end Text

namespace Expression

variable {vars : String → Option String} {a b cs : List Char}

theorem resumed_eq_ok {n : Nat} {put text : List Char} {result : Except ExpressionError (List Char)} :
    resumed n put result = .ok text ↔ ∃ later, result = .ok later ∧ text = put ++ later := by
  cases result with
  | ok later => simp [resumed, eq_comm]
  | error e => simp [resumed]

theorem resumed_eq_error {n offset : Nat} {put : List Char} {fragment : String}
    {result : Except ExpressionError (List Char)} :
    resumed n put result = .error (.malformed offset fragment) ↔
      ∃ later, result = .error (.malformed later fragment) ∧ offset = n + later := by
  cases result with
  | ok text => simp [resumed]
  | error e =>
    obtain ⟨later, found⟩ := e
    simp only [resumed, Except.error.injEq, ExpressionError.malformed.injEq]
    constructor
    · rintro ⟨rfl, rfl⟩
      exact ⟨later, ⟨rfl, rfl⟩, rfl⟩
    · rintro ⟨later', ⟨rfl, rfl⟩, rfl⟩
      exact ⟨rfl, rfl⟩

/-! ## One text behind another -/

/-- The opening of a reference is cut in two between two texts. -/
def Straddled (a b : List Char) : Prop :=
  a.getLast? = some '$' ∧ b.head? = some '\x7b'

theorem not_straddled_of_append (front : List Char) (h : ¬Straddled (front ++ a) b) : ¬Straddled a b := by
  rintro ⟨hlast, hhead⟩
  exact h ⟨by simp [List.getLast?_append, hlast], hhead⟩

/-- If no opening is cut in two, what is opened in front of a text is opened without it. -/
theorem opens_of_append {c : Char} (h : ¬Straddled (c :: a) b) (hopens : Opens (c :: (a ++ b))) : Opens (c :: a) := by
  obtain ⟨rest, hrest⟩ := hopens
  obtain ⟨rfl, hbehind⟩ := List.cons.inj hrest
  cases a with
  | nil =>
    rw [List.nil_append] at hbehind
    exact absurd ⟨rfl, by rw [hbehind]; rfl⟩ h
  | cons d a =>
    obtain ⟨rfl, -⟩ := List.cons.inj hbehind
    exact ⟨a, rfl⟩

/-- A scan that gets through a text goes on behind it as if it began there. -/
theorem scan_append {text : List Char} (ha : scan vars a = .ok text) (h : ¬Straddled a b) :
    scan vars (a ++ b) = resumed (byteLength a) text (scan vars b) := by
  fun_induction scan vars a generalizing text with
  | case1 =>
    obtain rfl : [] = text := Except.ok.inj ha
    simp
  | case2 => cases ha
  | case3 => cases ha
  | case4 rest name behind hclosing replacement hmeaning ih =>
    -- A closed reference is found closed at the same brace when more stands behind it.
    obtain ⟨hname, rfl⟩ := closing?_eq_some.1 hclosing
    obtain ⟨later, hlater, rfl⟩ := resumed_eq_ok.1 ha
    have hfront : '$' :: '\x7b' :: (name ++ '\x7d' :: behind) = reference name ++ behind := by
      simp [reference]
    rw [hfront] at h ⊢
    rw [List.append_assoc, scan_reference vars hname, hmeaning]
    simp only []
    rw [ih hlater (not_straddled_of_append _ h), resumed_resumed, byteLength_append]
  | case5 c rest hopening ih =>
    obtain ⟨later, hlater, rfl⟩ := resumed_eq_ok.1 ha
    have hcopied : ¬Opens (c :: (rest ++ b)) := by
      intro hopens
      obtain ⟨rest', hrest⟩ := opens_of_append h hopens
      obtain ⟨rfl, rfl⟩ := List.cons.inj hrest
      exact hopening rest' rfl rfl
    have hrest : ¬Straddled rest b := not_straddled_of_append [c] h
    rw [List.cons_append, scan_char vars hcopied, ih hlater hrest, resumed_resumed, byteLength_cons]

/-! ## The first malformed reference -/

/-- A text begins with a malformed reference: one with a name that stands for nothing, or one that takes up all the
rest because it is never closed. -/
inductive Malformed : List Char → List Char → Prop
  | refused {name behind : List Char} (hname : '\x7d' ∉ name) (hidentifier : isIdentifier name = false)
      (hshell : isForShell name = false) : Malformed (reference name ++ behind) (reference name)
  | unclosed {rest : List Char} (h : '\x7d' ∉ rest) : Malformed ('$' :: '\x7b' :: rest) ('$' :: '\x7b' :: rest)

theorem meaning?_eq_none {name : List Char} :
    meaning? vars name = none ↔ isIdentifier name = false ∧ isForShell name = false := by
  unfold meaning?
  cases isIdentifier name with
  | true => cases vars (String.ofList name) <;> simp
  | false => cases isForShell name <;> simp

theorem scan_malformed {rest fragment : List Char} (h : Malformed rest fragment) :
    scan vars rest = .error (.malformed 0 (String.ofList fragment)) := by
  cases h with
  | refused hname hidentifier hshell => rw [scan_reference vars hname, meaning?_eq_none.2 ⟨hidentifier, hshell⟩]
  | unclosed h => exact scan_unclosed vars h

/-- A scan fails at a malformed reference, and gets through all that is in front of it. -/
theorem scan_eq_error {offset : Nat} {fragment : String}
    (h : scan vars cs = .error (.malformed offset fragment)) :
    ∃ before rest malformed text, cs = before ++ rest ∧ byteLength before = offset ∧
      scan vars before = .ok text ∧ Malformed rest malformed ∧ fragment = String.ofList malformed := by
  fun_induction scan vars cs generalizing offset with
  | case1 => cases h
  | case2 rest hclosing =>
    cases h
    exact ⟨[], _, _, [], rfl, rfl, scan_nil vars, .unclosed (closing?_eq_none.1 hclosing), rfl⟩
  | case3 rest name behind hclosing hmeaning =>
    cases h
    obtain ⟨hname, rfl⟩ := closing?_eq_some.1 hclosing
    obtain ⟨hidentifier, hshell⟩ := meaning?_eq_none.1 hmeaning
    refine ⟨[], reference name ++ behind, _, [], ?_, rfl, scan_nil vars, .refused hname hidentifier hshell, rfl⟩
    simp [reference]
  | case4 rest name behind hclosing replacement hmeaning ih =>
    obtain ⟨hname, rfl⟩ := closing?_eq_some.1 hclosing
    obtain ⟨later, hlater, rfl⟩ := resumed_eq_error.1 h
    obtain ⟨before, rest', malformed, text, rfl, rfl, hbefore, hmalformed, hfragment⟩ := ih hlater
    refine ⟨reference name ++ before, rest', malformed, replacement ++ text, ?_, ?_, ?_, hmalformed, hfragment⟩
    · simp [reference]
    · rw [byteLength_append]
    · rw [scan_reference vars hname, hmeaning, hbefore]
      rfl
  | case5 c rest hopening ih =>
    obtain ⟨later, hlater, rfl⟩ := resumed_eq_error.1 h
    obtain ⟨before, rest', malformed, text, rfl, rfl, hbefore, hmalformed, hfragment⟩ := ih hlater
    refine ⟨c :: before, rest', malformed, c :: text, rfl, rfl, ?_, hmalformed, hfragment⟩
    -- what opens no reference with all the rest behind it opens none without it
    have hcopied : ¬Opens (c :: before) := by
      rintro ⟨inside, hinside⟩
      obtain ⟨rfl, rfl⟩ := List.cons.inj hinside
      exact hopening (inside ++ rest') rfl rfl
    rw [scan_char vars hcopied, hbefore]
    rfl

theorem expand_eq_ok {raw text : String} :
    expand vars raw = .ok text ↔ scan vars raw.toList = .ok text.toList := by
  rw [expand, expandFrom_start]
  cases scan vars raw.toList with
  | ok cs =>
    show Except.ok (String.ofList cs) = _ ↔ Except.ok cs = _
    rw [Except.ok.injEq, Except.ok.injEq, ← String.toList_inj, String.toList_ofList]
  | error e =>
    show Except.error e = _ ↔ _
    simp

theorem expand_eq_error {raw : String} {e : ExpressionError} :
    expand vars raw = .error e ↔ scan vars raw.toList = .error e := by
  rw [expand, expandFrom_start]
  cases scan vars raw.toList with
  | ok cs =>
    show Except.ok (String.ofList cs) = _ ↔ _
    simp
  | error found =>
    show Except.error found = _ ↔ _
    simp

/-- An error points at the first malformed reference: a closed one with a name that is not acceptable, or one that
is never closed and takes up the rest of the text. What is in front of it can be expanded by itself. -/
theorem expand_error_leftmost (vars : String → Option String) (raw : String) {offset : Nat} {fragment : String}
    (h : expand vars raw = .error (.malformed offset fragment)) :
    ∃ before after : String, raw = before ++ fragment ++ after ∧ before.utf8ByteSize = offset ∧
      ((∃ name : String, fragment = "$\x7b" ++ name ++ "\x7d" ∧ '\x7d' ∉ name.toList ∧
          isIdentifier name.toList = false ∧ isForShell name.toList = false) ∨
        (after = "" ∧ (∃ rest : String, fragment = "$\x7b" ++ rest) ∧ '\x7d' ∉ fragment.toList)) ∧
      ∃ text, expand vars before = .ok text := by
  obtain ⟨before, rest, malformed, text, hraw, hoffset, hbefore, hmalformed, rfl⟩ :=
    scan_eq_error (expand_eq_error.1 h)
  have hbytes : (String.ofList before).utf8ByteSize = offset := (utf8ByteSize_ofList before).trans hoffset
  have hpassed : expand vars (String.ofList before) = .ok (String.ofList text) := by
    rw [expand_eq_ok, String.toList_ofList, String.toList_ofList, hbefore]
  cases hmalformed with
  | @refused name behind hname hidentifier hshell =>
    refine ⟨String.ofList before, String.ofList behind, ?_, hbytes, .inl ⟨String.ofList name, ?_, ?_⟩, _, hpassed⟩
    · rw [← String.ofList_append, ← String.ofList_append, ← String.toList_inj, String.toList_ofList, hraw,
        List.append_assoc]
    · simp [← String.toList_inj, reference]
    · simpa using ⟨hname, hidentifier, hshell⟩
  | @unclosed rest hrest =>
    refine ⟨String.ofList before, "", ?_, hbytes, .inr ⟨rfl, ⟨String.ofList rest, ?_⟩, ?_⟩, _, hpassed⟩
    · rw [String.append_empty, ← String.ofList_append, ← String.toList_inj, String.toList_ofList, hraw]
    · simp [← String.toList_inj]
    · simpa using hrest

/-- Behind a character of two bytes and a reference to a variable, a reference without a name is found at offset 6. -/
theorem expand_error_leftmost_unnamed :
    let vars : String → Option String := fun name => if name = "A" then some "v" else none
    let raw := "é$\x7bA\x7d$\x7b\x7dx"
    let fragment := "$\x7b\x7d"
    expand vars raw = .error (.malformed 6 fragment) ∧
    ∃ before after : String, raw = before ++ fragment ++ after ∧ before.utf8ByteSize = 6 ∧
      ((∃ name : String, fragment = "$\x7b" ++ name ++ "\x7d" ∧ '\x7d' ∉ name.toList ∧
          isIdentifier name.toList = false ∧ isForShell name.toList = false) ∨
        (after = "" ∧ (∃ rest : String, fragment = "$\x7b" ++ rest) ∧ '\x7d' ∉ fragment.toList)) ∧
      ∃ text, expand vars before = .ok text := by
  intro vars raw fragment
  have h : expand vars raw = .error (.malformed 6 fragment) := by cbv
  exact ⟨h, expand_error_leftmost vars raw h⟩

/-- If no opening is cut in two between two texts, they can be expanded one at a time: what can be expanded is
followed by what becomes of the rest, and a failure in the rest has moved by the bytes in front. A malformed reference
that is closed stays what it is whatever follows. -/
theorem expand_append (vars : String → Option String) (a b : String) (h : ¬Straddled a.toList b.toList) :
    (∀ ra, expand vars a = .ok ra →
      (∀ rb, expand vars b = .ok rb → expand vars (a ++ b) = .ok (ra ++ rb)) ∧
      ∀ offset fragment, expand vars b = .error (.malformed offset fragment) →
        expand vars (a ++ b) = .error (.malformed (offset + a.utf8ByteSize) fragment)) ∧
    ∀ offset fragment, expand vars a = .error (.malformed offset fragment) → '\x7d' ∈ fragment.toList →
      expand vars (a ++ b) = .error (.malformed offset fragment) := by
  constructor
  · intro ra ha
    have happend : scan vars (a ++ b).toList = resumed a.utf8ByteSize ra.toList (scan vars b.toList) := by
      rw [String.toList_append, scan_append (expand_eq_ok.1 ha) h, byteLength_toList]
    constructor
    · intro rb hb
      rw [expand_eq_ok, happend, expand_eq_ok.1 hb, String.toList_append]
      rfl
    · intro offset fragment hb
      rw [expand_eq_error, happend, expand_eq_error.1 hb, Nat.add_comm]
      rfl
  · intro offset fragment ha hclosed
    obtain ⟨before, rest, malformed, text, hraw, hoffset, hbefore, hmalformed, rfl⟩ :=
      scan_eq_error (expand_eq_error.1 ha)
    rw [String.toList_ofList] at hclosed
    rw [expand_eq_error, String.toList_append, hraw, List.append_assoc]
    cases hmalformed with
    | @refused name behind hname hidentifier hshell =>
      -- a reference begins with a character that completes no opening
      have hbetween : ¬Straddled before (reference name ++ behind ++ b.toList) := by
        rintro ⟨-, hhead⟩
        simp [reference] at hhead
      have hfirst : Malformed (reference name ++ behind ++ b.toList) (reference name) := by
        rw [List.append_assoc]
        exact .refused hname hidentifier hshell
      rw [scan_append hbefore hbetween, scan_malformed hfirst, hoffset]
      rfl
    | @unclosed rest hrest =>
      simp [hrest] at hclosed

/-- Neither a value that looks like an opening nor a dollar sign at the end of the first text gets in the way. -/
theorem expand_append_dollar :
    let vars : String → Option String := fun name => if name = "A" then some "$\x7b" else none
    expand vars ("$\x7bA\x7d$" ++ "$\x7bA\x7d") = .ok ("$\x7b$" ++ "$\x7b") ∧
    expand vars ("$\x7bA\x7d$" ++ "é$\x7b") = .error (.malformed (2 + 5) "$\x7b") ∧
    expand vars ("$\x7b\x7d$" ++ "$\x7b") = .error (.malformed 0 "$\x7b\x7d") := by
  intro vars
  have hapart : ∀ b : String, b.toList.head? ≠ some '\x7b' → ¬Straddled "$\x7bA\x7d$".toList b.toList ∧
      ¬Straddled "$\x7b\x7d$".toList b.toList := fun b hb => ⟨fun h => hb h.2, fun h => hb h.2⟩
  have hfirst : expand vars "$\x7bA\x7d$" = .ok "$\x7b$" := by cbv
  refine ⟨?_, ?_, ?_⟩
  · have hsecond : expand vars "$\x7bA\x7d" = .ok "$\x7b" := by cbv
    exact ((expand_append vars _ _ (hapart _ (by decide)).1).1 _ hfirst).1 _ hsecond
  · have hsecond : expand vars "é$\x7b" = .error (.malformed 2 "$\x7b") := by cbv
    exact ((expand_append vars _ _ (hapart _ (by decide)).1).1 _ hfirst).2 _ _ hsecond
  · have hclosed : expand vars "$\x7b\x7d$" = .error (.malformed 0 "$\x7b\x7d") := by cbv
    exact (expand_append vars _ _ (hapart _ (by decide)).2).2 _ _ hclosed (by decide)

end Expression

end Sidecar
