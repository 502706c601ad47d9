import Sidecar.Proofs.Gaps

/-!
# Numbers and literal names as YAML scalars

A number of JSON and the name of a literal are words, and a word between brackets is a plain scalar
(`readPlain_word`). A plain scalar takes the blanks behind it along.
-/

namespace Sidecar.Yaml

open Json (Blanks Numeral Stops stops_cons)

/-! ## Words -/

/-- The characters of numbers and of the names of literals. -/
def isWordPart (c : Char) : Bool :=
  c.isAlphanum || c == '+' || c == '-' || c == '.'

theorem isWordPart_of_isAlphanum {c : Char} (h : c.isAlphanum = true) : isWordPart c = true := by
  simp [isWordPart, h]

theorem isWordPart_of_isDigit {c : Char} (h : c.isDigit = true) : isWordPart c = true := by
  apply isWordPart_of_isAlphanum
  rw [Char.isAlphanum, h, Bool.or_true]

/-- Whether a number or the name of a literal begins like this. -/
def startsWord : List Char → Bool
  | '-' :: c :: _ => c.isDigit
  | c :: _ => c.isAlphanum
  | [] => false

/-- A number is written with such characters. -/
theorem isWordPart_of_mem_text {n : Numeral} {x : Char} (hx : x ∈ n.text) : isWordPart x = true := by
  simp only [Numeral.text, List.mem_append] at hx
  rcases hx with ((hsign | hwhole) | hfraction) | hexponent
  · split at hsign
    · rw [List.mem_singleton.1 hsign]
      rfl
    · cases hsign
  · exact isWordPart_of_isDigit (n.whole.isDigit x hwhole)
  · cases hpart : n.fraction with
    | none =>
      rw [hpart] at hfraction
      cases hfraction
    | some digits =>
      rw [hpart] at hfraction
      rcases List.mem_cons.1 hfraction with rfl | hdigit
      · rfl
      · exact isWordPart_of_isDigit (digits.isDigit x hdigit)
  · cases hpart : n.exponent with
    | none =>
      rw [hpart] at hexponent
      cases hexponent
    | some e =>
      have hletter : ∀ y ∈ ['e', 'E'], isWordPart y = true := by simp [isWordPart]
      have hsign : ∀ sign ∈ [[], ['+'], ['-']], ∀ y ∈ sign, isWordPart y = true := by simp [isWordPart]
      rw [hpart, Json.exponentText, List.mem_cons, List.mem_append] at hexponent
      rcases hexponent with rfl | hx | hdigit
      · exact hletter _ e.letter_mem
      · exact hsign _ e.sign_mem x hx
      · exact isWordPart_of_isDigit (e.digits.isDigit x hdigit)

/-- A number begins with a digit, or with one behind its sign. -/
theorem startsWord_text (n : Numeral) : startsWord n.text = true := by
  rcases hwhole : n.whole.chars with _ | ⟨d, ds⟩
  · exact absurd hwhole n.whole.ne_nil
  · have hd : d.isDigit = true := n.whole.isDigit d (by rw [hwhole]; exact List.mem_cons_self)
    rw [Numeral.text, hwhole]
    cases n.negative with
    | true => exact hd
    | false =>
      have hdash : d ≠ '-' := by
        rintro rfl
        cases hd
      simp [startsWord, hdash, Char.isAlphanum, hd]

/-- Such a character ends no word. -/
theorem goesOn_of_isWordPart {c : Char} (h : isWordPart c = true) :
    (isBlank c || isBreak c) = false ∧ isFlowIndicator c = false ∧ c ≠ ':' ∧ c ≠ '#' := by
  have hne : ∀ x, isWordPart x = false → c ≠ x := by
    rintro x hx rfl
    rw [h] at hx
    cases hx
  have hblank : ∀ x, isWordPart x = false → (c == x) = false := fun x hx => beq_eq_false_iff_ne.2 (hne x hx)
  refine ⟨?_, ?_, hne ':' (by decide), hne '#' (by decide)⟩
  · simp only [isBlank, isBreak, hblank ' ' (by decide), hblank '\t' (by decide), hblank '\n' (by decide),
      hblank '\r' (by decide), hblank '\x85' (by decide), hblank '\u2028' (by decide), hblank '\u2029' (by decide),
      Bool.or_false]
  · simp only [isFlowIndicator, hblank ',' (by decide), hblank '[' (by decide), hblank ']' (by decide),
      hblank '\x7b' (by decide), hblank '\x7d' (by decide), Bool.or_false]

/-- The characters that end a word between brackets. -/
def endsWordAt (c : Char) : Bool :=
  isBlank c || isBreak c || isFlowIndicator c

/-- A word between brackets is read up to a blank, a comma or a bracket. -/
theorem readPlainWord_word (word : List Char) (fuel : Nat) (c : Cursor) {d : Char} {rest : List Char}
    (hword : ∀ x ∈ word, isWordPart x = true) (hd : endsWordAt d = true) (hcolon : d ≠ ':')
    (hfuel : word.length ≤ fuel) (hrest : c.rest = word ++ d :: rest) :
    readPlainWord true fuel c = some (word, c.skip word.length) := by
  induction word generalizing fuel c with
  | nil =>
    rw [List.nil_append] at hrest
    have hpeek := Cursor.peek_cons hrest
    have hsees : c.sees ':' = false := by
      rw [Cursor.sees_cons hrest]
      exact beq_eq_false_iff_ne.2 hcolon
    cases fuel with
    | zero => rfl
    | succ fuel =>
      rw [readPlainWord, Cursor.endsWord, hpeek, isStrayColon, hsees, endsPlain, hsees, Cursor.seesAny_cons hrest]
      simp only [endsWordAt, Bool.or_eq_true] at hd
      by_cases hgap : (isBlank d || isBreak d) = true
      · simp only [Option.all_some, hgap, if_true]
        rfl
      · have hflow : isFlowIndicator d = true := hd.resolve_left (by simpa using hgap)
        simp [hflow, Cursor.skip_zero]
  | cons x word ih =>
    cases fuel with
    | zero => cases hfuel
    | succ fuel =>
      have hx := goesOn_of_isWordPart (hword x List.mem_cons_self)
      rw [List.cons_append] at hrest
      have hpeek := Cursor.peek_cons hrest
      have hsees : c.sees ':' = false := by
        rw [Cursor.sees_cons hrest]
        exact beq_eq_false_iff_ne.2 hx.2.2.1
      have hskip : c.skip.rest = word ++ d :: rest := by
        rw [Cursor.skip_rest, hrest]
        rfl
      have hothers : ∀ y ∈ word, isWordPart y = true := fun y hy => hword y (List.mem_cons_of_mem x hy)
      have hnext := ih fuel c.skip hothers (Nat.le_of_succ_le_succ hfuel) hskip
      rw [readPlainWord, Cursor.endsWord, hpeek, isStrayColon, hsees, endsPlain, hsees, Cursor.seesAny_cons hrest]
      simp [hx.1, hx.2.1, hnext, Nat.add_comm]

/-- A comma or bracket is no blank, and begins no mark or comment. -/
theorem of_isFlowIndicator {d : Char} (h : isFlowIndicator d = true) :
    (isBlank d || isBreak d) = false ∧ d ≠ ':' ∧ d ≠ '#' ∧ d ≠ '-' ∧ d ≠ '.' := by
  simp only [isFlowIndicator, Bool.or_eq_true, beq_iff_eq] at h
  rcases h with (((rfl | rfl) | rfl) | rfl) | rfl
  all_goals decide

theorem Cursor.seesDocumentMark_of_ne {c : Cursor} {x : Char} {tail : List Char} (hrest : c.rest = x :: tail)
    (hdash : x ≠ '-') (hdot : x ≠ '.') : c.seesDocumentMark = false := by
  have hseesDash : c.sees '-' = false := by
    rw [Cursor.sees_cons hrest]
    exact beq_eq_false_iff_ne.2 hdash
  have hseesDot : c.sees '.' = false := by
    rw [Cursor.sees_cons hrest]
    exact beq_eq_false_iff_ne.2 hdot
  simp [seesDocumentMark, seesMark, hseesDash, hseesDot]

/-- Before a comma or bracket no word is left. -/
theorem readPlain_end (fuel : Nat) {c : Cursor} {d : Char} {rest : List Char} (hd : isFlowIndicator d = true)
    (hrest : c.rest = d :: rest) (gap : Gap) : readPlain true 0 (fuel + 1) c gap = some ⟨[], c, gap.broken⟩ := by
  have hfacts := of_isFlowIndicator hd
  have hends : endsWordAt d = true := by
    rw [endsWordAt, hd, Bool.or_true]
  have hnone : ∀ x ∈ ([] : List Char), isWordPart x = true := fun x hx => absurd hx List.not_mem_nil
  have hword := readPlainWord_word [] c.rest.length c hnone hends hfacts.2.1 (Nat.zero_le _) hrest
  have hmark := Cursor.seesDocumentMark_of_ne hrest hfacts.2.2.2.1 hfacts.2.2.2.2
  have hcomment : c.sees '#' = false := by
    rw [Cursor.sees_cons hrest]
    exact beq_eq_false_iff_ne.2 hfacts.2.2.1
  have hgap : c.seesAny (fun x => isBlank x || isBreak x) = false := by
    rw [Cursor.seesAny_cons hrest]
    exact hfacts.1
  rw [List.length_nil, Cursor.skip_zero] at hword
  rw [readPlain, hmark, hcomment]
  simp [hword, hgap]

/-- A word between brackets is a plain scalar. The blanks behind it are passed over, up to the comma or bracket. -/
theorem readPlain_word {word : List Char} (hne : word ≠ []) (hword : ∀ x ∈ word, isWordPart x = true) (after : Blanks)
    {d : Char} (hd : isFlowIndicator d = true) {rest : List Char} (fuel : Nat) {c : Cursor}
    (hmark : c.seesDocumentMark = false) (hrest : c.rest = word ++ (after.chars ++ d :: rest)) :
    ∃ plain, readPlain true 0 (fuel + 2) c {} = some plain ∧ plain.text = word ∧ plain.after.rest = d :: rest := by
  have hfacts := of_isFlowIndicator hd
  have hcomment : c.sees '#' = false := by
    rcases word with _ | ⟨x, xs⟩
    · contradiction
    · rw [Cursor.sees_cons hrest]
      exact beq_eq_false_iff_ne.2 (goesOn_of_isWordPart (hword x List.mem_cons_self)).2.2.2
  have hempty : word.isEmpty = false := by
    rw [Bool.eq_false_iff]
    intro h
    exact hne (List.isEmpty_iff.1 h)
  have hlength : word.length ≤ c.rest.length := by
    rw [hrest, List.length_append]
    omega
  have hskip : (c.skip word.length).rest = after.chars ++ d :: rest := by
    rw [Cursor.skip_rest, hrest, List.drop_left]
  rcases hafter : after.chars with _ | ⟨y, ys⟩
  · -- the comma or bracket ends the word, and the scalar with it
    rw [hafter, List.nil_append] at hrest hskip
    have hends : endsWordAt d = true := by
      rw [endsWordAt, hd, Bool.or_true]
    have hread := readPlainWord_word word c.rest.length c hword hends hfacts.2.1 hlength hrest
    have hgap : (c.skip word.length).seesAny (fun x => isBlank x || isBreak x) = false := by
      rw [Cursor.seesAny_cons hskip]
      exact hfacts.1
    refine ⟨⟨word, c.skip word.length, false⟩, ?_, rfl, hskip⟩
    rw [readPlain, hmark, hcomment]
    simp [hread, hgap, Gap.text]
  · -- a blank ends the word, and behind the gap no further word begins
    have hy : Json.isSpace y = true := after.blank y (by rw [hafter]; exact List.mem_cons_self)
    have hblank : (isBlank y || isBreak y) = true := by
      rw [Bool.or_eq_true]
      exact isBlank_or_isBreak hy
    have hends : endsWordAt y = true := by
      rw [endsWordAt, hblank, Bool.true_or]
    have hcolon : y ≠ ':' := by
      rintro rfl
      exact absurd hy (by decide)
    rw [hafter] at hrest
    have hread := readPlainWord_word word c.rest.length c hword hends hcolon hlength hrest
    have hgap : (c.skip word.length).seesAny (fun x => isBlank x || isBreak x) = true := by
      rw [hafter] at hskip
      rw [Cursor.seesAny_cons hskip]
      exact hblank
    have hfuel : after.chars.length ≤ (c.skip word.length).rest.length := by
      rw [hskip, List.length_append]
      omega
    rcases readGap_blanks _ (c.skip word.length) {} after.blank hfuel hskip (stops_cons.2 hfacts.1) with
      ⟨gap, c', hgapRead, hrest'⟩
    have hend := readPlain_end fuel hd hrest' gap
    refine ⟨⟨word, c', gap.broken⟩, ?_, rfl, hrest'⟩
    rw [readPlain, hmark, hcomment]
    simp only [Bool.or_false, Bool.false_eq_true, if_false, Option.bind_eq_bind, hread, Option.bind_some, hempty, hgap,
      Bool.not_true, hgapRead, Nat.not_lt_zero, decide_false, Bool.and_false, hend, Gap.text]
    simp

end Sidecar.Yaml
