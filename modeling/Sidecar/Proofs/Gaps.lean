import Sidecar.Proofs.Reading
import Sidecar.Yaml.Portable

/-!
# Places and gaps

What is seen at a place of a YAML text, and where a gap leads to. A gap of the blanks of JSON is read to its end
(`readGap_blanks`); inside of a string, blanks are kept (`readGap_inline`) and separators are kept as ends of lines
(`readGap_separators`).
-/

namespace Sidecar.Yaml

open Json (Stops stops_cons)

/-! ## Places -/

namespace Cursor

@[simp] theorem skip_rest (c : Cursor) (n : Nat) : (c.skip n).rest = c.rest.drop n := rfl

@[simp] theorem skip_index (c : Cursor) (n : Nat) : (c.skip n).index = c.index + n := rfl

@[simp] theorem skip_line (c : Cursor) (n : Nat) : (c.skip n).line = c.line := rfl

@[simp] theorem skip_column (c : Cursor) (n : Nat) : (c.skip n).column = c.column + n := rfl

@[simp] theorem skip_skip (c : Cursor) (m n : Nat) : (c.skip m).skip n = c.skip (m + n) := by
  simp [skip, Nat.add_assoc]

theorem skip_zero (c : Cursor) : c.skip 0 = c := rfl

theorem peek_cons {c : Cursor} {x : Char} {tail : List Char} (h : c.rest = x :: tail) : c.peek = some x := by
  rw [peek, h]
  rfl

theorem sees_cons {c : Cursor} {x : Char} {tail : List Char} (h : c.rest = x :: tail) (y : Char) :
    c.sees y = (x == y) := by
  rw [sees, peek_cons h]
  rfl

theorem seesAny_cons {c : Cursor} {x : Char} {tail : List Char} (h : c.rest = x :: tail) (p : Char → Bool) :
    c.seesAny p = p x := by
  rw [seesAny, peek_cons h]
  rfl

theorem seesAny_of_stops {c : Cursor} {p : Char → Bool} (h : Stops p c.rest) : c.seesAny p = false := by
  rcases hrest : c.rest with _ | ⟨x, tail⟩
  · rw [seesAny, peek, hrest]
    rfl
  · rw [hrest] at h
    rw [seesAny_cons hrest]
    exact stops_cons.1 h

theorem sees_eq_seesAny (c : Cursor) (x : Char) : c.sees x = c.seesAny (· == x) := by
  rw [sees, seesAny]
  cases c.peek with
  | none => rfl
  | some y => rfl

theorem seesDocumentMark_of_column {c : Cursor} (h : 0 < c.column) : c.seesDocumentMark = false := by
  have hcolumn : (c.column == 0) = false := beq_eq_false_iff_ne.2 (Nat.ne_of_gt h)
  simp [seesDocumentMark, seesMark, hcolumn]

end Cursor

/-! ## Ends of lines -/

/-- Of blanks that begin with the end of a line, those behind it are left. -/
theorem skipLine_blanks {c : Cursor} {x : Char} {xs more : List Char} (hrest : c.rest = x :: (xs ++ more))
    (hmore : Stops isBreak more) : ∃ ys, ys <:+ xs ∧ c.skipLine.rest = ys ++ more := by
  unfold Cursor.skipLine
  split
  · rename_i tail heq
    rw [heq, List.cons.injEq] at hrest
    rcases xs with _ | ⟨y, ys⟩
    · -- a carriage return stands alone before what is no end of a line
      rw [List.nil_append] at hrest
      rw [← hrest.2] at hmore
      exact absurd (stops_cons.1 hmore) (by decide)
    · rw [List.cons_append, List.cons.injEq] at hrest
      exact ⟨ys, List.suffix_cons y ys, hrest.2.2⟩
  · rename_i y tail _ heq
    rw [heq, List.cons.injEq] at hrest
    exact ⟨xs, List.suffix_refl xs, hrest.2⟩
  · rename_i heq
    rw [heq] at hrest
    cases hrest

/-- A blank of JSON is a blank inside a line of YAML or the end of one. -/
theorem isBlank_or_isBreak {c : Char} (h : Json.isSpace c = true) : isBlank c = true ∨ isBreak c = true := by
  simp only [Json.isSpace, Bool.or_eq_true, beq_iff_eq] at h
  rcases h with ((rfl | rfl) | rfl) | rfl
  all_goals decide

/-- The end of a line is no blank inside one, and begins no comment. -/
theorem no_blank_of_isBreak {c : Char} (h : isBreak c = true) : (isBlank c || c == '#') = false := by
  simp only [isBreak, Bool.or_eq_true, beq_iff_eq] at h
  rcases h with (((rfl | rfl) | rfl) | rfl) | rfl
  all_goals decide

/-- A line or paragraph separator. -/
def isSeparator (c : Char) : Bool :=
  c == '\u2028' || c == '\u2029'

theorem isBreak_of_isSeparator {x : Char} (h : isSeparator x = true) : isBlank x = false ∧ isBreak x = true := by
  simp only [isSeparator, Bool.or_eq_true, beq_iff_eq] at h
  rcases h with rfl | rfl
  all_goals decide

/-- A separator ends a line, and is the text of its end. -/
theorem skipLine_separator {c : Cursor} {x : Char} {tail : List Char} (hx : isSeparator x = true)
    (hrest : c.rest = x :: tail) : c.skipLine.rest = tail ∧ c.lineBreak = [x] := by
  simp only [isSeparator, Bool.or_eq_true, beq_iff_eq] at hx
  rcases hx with rfl | rfl
  all_goals
    constructor
    · simp [Cursor.skipLine, hrest]
    · simp [Cursor.lineBreak, hrest]

/-! ## Gaps -/

/-- A gap ends where a word begins. -/
theorem readGap_stop (indent fuel : Nat) (g : Gap) {c : Cursor} (h : Stops (fun x => isBlank x || isBreak x) c.rest) :
    readGap indent fuel c g = some (g, c) := by
  cases fuel with
  | zero => rfl
  | succ fuel =>
    rcases hrest : c.rest with _ | ⟨x, tail⟩
    · simp [readGap, Cursor.peek, hrest]
    · rw [hrest] at h
      have hx := stops_cons.1 h
      rw [Bool.or_eq_false_iff] at hx
      simp [readGap, Cursor.peek_cons hrest, hx.1, hx.2]

/-- A gap of blanks is read to its end. -/
theorem readGap_blanks (fuel : Nat) (c : Cursor) (g : Gap) {blanks more : List Char}
    (hblanks : ∀ x ∈ blanks, Json.isSpace x = true) (hfuel : blanks.length ≤ fuel) (hrest : c.rest = blanks ++ more)
    (hmore : Stops (fun x => isBlank x || isBreak x) more) :
    ∃ g' c', readGap 0 fuel c g = some (g', c') ∧ c'.rest = more := by
  -- the induction is on the fuel, since the end of a line may take two blanks at once
  induction fuel generalizing c g blanks with
  | zero =>
    rw [List.length_eq_zero_iff.1 (Nat.le_zero.1 hfuel), List.nil_append] at hrest
    exact ⟨g, c, rfl, hrest⟩
  | succ fuel ih =>
    rcases blanks with _ | ⟨x, xs⟩
    · rw [List.nil_append] at hrest
      rw [← hrest] at hmore
      exact ⟨g, c, readGap_stop 0 (fuel + 1) g hmore, hrest⟩
    · have hx := hblanks x List.mem_cons_self
      have hxs : ∀ y ∈ xs, Json.isSpace y = true := fun y hy => hblanks y (List.mem_cons_of_mem x hy)
      have hlength : xs.length ≤ fuel := Nat.le_of_succ_le_succ hfuel
      rw [readGap, Cursor.peek_cons hrest]
      by_cases hblank : isBlank x = true
      · have hskip : c.skip.rest = xs ++ more := by
          rw [Cursor.skip_rest, hrest]
          rfl
        simp only [hblank, if_true, Nat.not_lt_zero, decide_false, Bool.and_false, Bool.false_eq_true, if_false]
        split
        · exact ih c.skip g hxs hlength hskip
        · exact ih c.skip _ hxs hlength hskip
      · have hbreak := (isBlank_or_isBreak hx).resolve_left hblank
        have hstops : Stops isBreak more := fun d hd => (Bool.or_eq_false_iff.1 (hmore d hd)).2
        rcases skipLine_blanks hrest hstops with ⟨ys, hsuffix, hline⟩
        have hys : ∀ y ∈ ys, Json.isSpace y = true := fun y hy => hxs y (hsuffix.subset hy)
        have hshorter : ys.length ≤ fuel := Nat.le_trans hsuffix.length_le hlength
        simp only [hblank, hbreak, if_true, Bool.false_eq_true, if_false]
        split
        · exact ih c.skipLine _ hys hshorter hline
        · exact ih c.skipLine _ hys hshorter hline

/-- Blanks inside a line are kept. -/
theorem readGap_inline (indent : Nat) (spaces kept : List Char) {fuel : Nat} {c : Cursor} {rest : List Char}
    (hspaces : ∀ x ∈ spaces, isBlank x = true) (hfuel : spaces.length ≤ fuel) (hrest : c.rest = spaces ++ rest)
    (hstops : Stops (fun x => isBlank x || isBreak x) rest) :
    readGap indent fuel c { blanks := kept } = some ({ blanks := kept ++ spaces }, c.skip spaces.length) := by
  induction spaces generalizing fuel c kept with
  | nil =>
    rw [List.nil_append] at hrest
    rw [← hrest] at hstops
    rw [readGap_stop indent fuel _ hstops, List.append_nil, List.length_nil, Cursor.skip_zero]
  | cons x spaces ih =>
    cases fuel with
    | zero => cases hfuel
    | succ fuel =>
      rw [List.cons_append] at hrest
      have hskip : c.skip.rest = spaces ++ rest := by
        rw [Cursor.skip_rest, hrest]
        rfl
      have hothers : ∀ y ∈ spaces, isBlank y = true := fun y hy => hspaces y (List.mem_cons_of_mem x hy)
      have hnext := ih (kept ++ [x]) hothers (Nat.le_of_succ_le_succ hfuel) hskip
      rw [Cursor.skip_skip, Nat.add_comm, List.append_assoc] at hnext
      rw [readGap, Cursor.peek_cons hrest]
      simp only [hspaces x List.mem_cons_self, if_true]
      exact hnext

/-- Separators behind the first one are kept. -/
theorem readGap_separators (first seps more : List Char) {fuel : Nat} {c : Cursor} {rest : List Char}
    (hseps : ∀ x ∈ seps, isSeparator x = true) (hfuel : seps.length ≤ fuel) (hrest : c.rest = seps ++ rest)
    (hstops : Stops (fun x => isBlank x || isBreak x) rest) :
    ∃ c', readGap 0 fuel c { broken := true, first := first, more := more } =
      some ({ broken := true, first := first, more := more ++ seps }, c') ∧ c'.rest = rest := by
  induction seps generalizing fuel c more with
  | nil =>
    rw [List.nil_append] at hrest
    rw [← hrest] at hstops
    rw [readGap_stop 0 fuel _ hstops, List.append_nil]
    exact ⟨c, rfl, hrest⟩
  | cons x seps ih =>
    cases fuel with
    | zero => cases hfuel
    | succ fuel =>
      rw [List.cons_append] at hrest
      have hx := isBreak_of_isSeparator (hseps x List.mem_cons_self)
      rcases skipLine_separator (hseps x List.mem_cons_self) hrest with ⟨hline, hbreak⟩
      have hothers : ∀ y ∈ seps, isSeparator y = true := fun y hy => hseps y (List.mem_cons_of_mem x hy)
      rcases ih (more ++ [x]) hothers (Nat.le_of_succ_le_succ hfuel) hline with ⟨c', hread, hrest'⟩
      refine ⟨c', ?_, hrest'⟩
      rw [List.append_assoc] at hread
      rw [readGap, Cursor.peek_cons hrest]
      simp only [hx.1, hx.2, hbreak, if_true, Bool.false_eq_true, if_false]
      exact hread

end Sidecar.Yaml
