import Mathlib.Data.Nat.Digits.Defs
import Sidecar.Metrics
import Sidecar.Proofs.Reading

/-!
# The memory in a status text

What is read from the status of a process. The status is a text of lines, and the first line that begins with `VmRSS:`
counts, whether or not its first word is a number: a later line is not looked at.

The main statement is `residentKb?_reads`. Every text is cut at that line, or has no such line
(`firstMarked_or_noneMarked`), and the lines in front of it are passed over one by one (`findSome?_wholeLines`). What
the first word is, and which number it writes, are statements of their own (`head?_wordsOf_eq_some`,
`readCount?_eq_some`).
-/

namespace Sidecar

open Json (Stops)

namespace Text

/-! ## Lines -/

/-- Of a line that has ended, only a carriage return is cut off with the line feed. -/
theorem stripLineEnd_feed (line : List Char) :
    stripLineEnd (line ++ ['\n']) = line ∨ stripLineEnd (line ++ ['\n']) ++ ['\r'] = line := by
  rcases List.eq_nil_or_concat line with rfl | ⟨front, last, rfl⟩
  · exact .inl rfl
  · by_cases hreturn : last = '\r'
    · subst hreturn
      right
      simp [stripLineEnd]
    · left
      simp only [stripLineEnd, List.concat_eq_append, List.reverse_append, List.reverse_cons, List.reverse_nil,
        List.nil_append, List.cons_append]
      split
      · rename_i heq
        exact absurd (List.cons.inj (List.cons.inj heq).2).1 hreturn
      · rename_i heq
        rw [← (List.cons.inj heq).2]
        simp
      · rename_i hnone
        exact absurd rfl (hnone _)

theorem linesOf_append_cons {line : List Char} (h : '\n' ∉ line) (rest : List Char) :
    linesOf (line ++ '\n' :: rest) = stripLineEnd (line ++ ['\n']) :: linesOf rest := by
  rw [linesOf, splitLines_append_cons h, List.map_cons]
  rfl

theorem linesOf_of_not_mem {line : List Char} (h : '\n' ∉ line) (hne : line ≠ []) : linesOf line = [line] := by
  rw [linesOf, splitLines_of_not_mem h hne, List.map_singleton]
  rcases List.eq_nil_or_concat line with rfl | ⟨front, last, rfl⟩
  · exact absurd rfl hne
  · have hlast : last ≠ '\n' := by
      rintro rfl
      exact h (by simp)
    simp [stripLineEnd, hlast]

/-! ## Words -/

/-- The first word of some characters. -/
def FirstWord (cs word : List Char) : Prop :=
  ∃ blanks behind, cs = blanks ++ word ++ behind ∧ (∀ c ∈ blanks, isBlank c = true) ∧ word ≠ [] ∧
    (∀ c ∈ word, isBlank c = false) ∧ Stops (fun c => !isBlank c) behind

theorem stops_isBlank_word {word : List Char} (hne : word ≠ []) (hword : ∀ c ∈ word, isBlank c = false)
    (behind : List Char) : Stops isBlank (word ++ behind) := by
  cases word with
  | nil => exact absurd rfl hne
  | cons c word => exact Json.stops_cons.2 (hword c List.mem_cons_self)

theorem head?_wordsOf (cs : List Char) :
    (wordsOf cs).head? =
      if cs.dropWhile isBlank = [] then none else some ((cs.dropWhile isBlank).takeWhile fun c => !isBlank c) := by
  have hstops := Json.stops_dropWhile isBlank cs
  rw [wordsOf]
  split
  · rename_i h
    rw [h]
    rfl
  · rename_i c rest h
    rw [h] at hstops ⊢
    have hc : isBlank c = false := Json.stops_cons.1 hstops
    simp [hc]

/-- The first of the words is the first word. -/
theorem head?_wordsOf_eq_some {cs word : List Char} : (wordsOf cs).head? = some word ↔ FirstWord cs word := by
  rw [head?_wordsOf]
  constructor
  · intro h
    split at h
    · cases h
    · rename_i hne
      cases h
      refine ⟨cs.takeWhile isBlank, (cs.dropWhile isBlank).dropWhile fun c => !isBlank c, ?_, ?_, ?_, ?_, ?_⟩
      · rw [List.append_assoc, List.takeWhile_append_dropWhile, List.takeWhile_append_dropWhile]
      · exact List.all_eq_true.1 List.all_takeWhile
      · have hstops := Json.stops_dropWhile isBlank cs
        cases hdrop : cs.dropWhile isBlank with
        | nil => exact absurd hdrop hne
        | cons c rest =>
          rw [hdrop] at hstops
          have hc : isBlank c = false := Json.stops_cons.1 hstops
          simp [hc]
      · intro c hc
        have hvisible := List.all_eq_true.1 List.all_takeWhile c hc
        simpa using hvisible
      · exact Json.stops_dropWhile _ _
  · -- the blanks are dropped, and the word is taken up to what stops it
    rintro ⟨blanks, behind, rfl, hblanks, hne, hword, hbehind⟩
    have hstops := stops_isBlank_word hne hword behind
    have hvisible : ∀ c ∈ word, (!isBlank c) = true := by
      intro c hc
      rw [hword c hc]
      rfl
    have hsome : word ++ behind ≠ [] := List.append_ne_nil_of_left_ne_nil hne behind
    rw [List.append_assoc, hstops.dropWhile_append hblanks, if_neg hsome, hbehind.takeWhile_append hvisible]

theorem isBlank_of_isDigit {c : Char} (h : c.isDigit = true) : isBlank c = false := by
  have hlow : 48 ≤ c.toNat := (Char.isDigit_iff_toNat.1 h).1
  have hhigh : c.toNat ≤ 57 := (Char.isDigit_iff_toNat.1 h).2
  unfold isBlank
  simp only [Bool.or_eq_false_iff, Bool.and_eq_false_imp, decide_eq_true_eq, decide_eq_false_iff_not, not_le,
    beq_eq_false_iff_ne, ne_eq]
  omega

/-- A blank at the end is no part of any word. -/
theorem firstWord_append_blank {cs word : List Char} {c : Char} (hc : isBlank c = true) :
    FirstWord (cs ++ [c]) word ↔ FirstWord cs word := by
  constructor
  · rintro ⟨blanks, behind, hsplit, hblanks, hne, hword, hbehind⟩
    rcases List.eq_nil_or_concat behind with rfl | ⟨behind, last, rfl⟩
    · -- then the blank would be the last character of the word
      rcases List.eq_nil_or_concat word with rfl | ⟨front, last, rfl⟩
      · exact absurd rfl hne
      · rw [List.append_nil, List.concat_eq_append, ← List.append_assoc] at hsplit
        obtain ⟨-, hlast⟩ := List.append_inj' hsplit rfl
        have hvisible := hword last (by simp)
        rw [← (List.cons.inj hlast).1, hc] at hvisible
        cases hvisible
    · rw [List.concat_eq_append, ← List.append_assoc] at hsplit
      obtain ⟨rfl, -⟩ := List.append_inj' hsplit rfl
      refine ⟨blanks, behind, rfl, hblanks, hne, hword, ?_⟩
      cases behind with
      | nil => exact Json.stops_nil _
      | cons d behind => exact Json.stops_cons.2 (Json.stops_cons.1 hbehind)
  · rintro ⟨blanks, behind, rfl, hblanks, hne, hword, hbehind⟩
    refine ⟨blanks, behind ++ [c], List.append_assoc .., hblanks, hne, hword, ?_⟩
    cases behind with
    | nil => exact Json.stops_cons.2 (by rw [hc]; rfl)
    | cons d behind => exact Json.stops_cons.2 (Json.stops_cons.1 hbehind)

end Text

/-! ## Numbers -/

/-- The number that decimal digits stand for. -/
def digitsValue (digits : List Char) : Nat :=
  Nat.ofDigits 10 (digits.reverse.map fun c => c.toNat - '0'.toNat)

/-- A word writes a number of at most 64 bits: it consists of digits, perhaps behind a plus sign. -/
def WritesCount (word : List Char) (n : Nat) : Prop :=
  ∃ digits, (word = digits ∨ word = '+' :: digits) ∧ digits ≠ [] ∧ (∀ c ∈ digits, c.isDigit = true) ∧
    n = digitsValue digits ∧ n < 2 ^ 64

/-- Digits that come behind others shift these to the left. -/
theorem ofDigitChars_eq (digits : List Char) (before : Nat) :
    Nat.ofDigitChars 10 digits before = before * 10 ^ digits.length + digitsValue digits := by
  induction digits generalizing before with
  | nil => simp [Nat.ofDigitChars, digitsValue]
  | cons c digits ih =>
    have hvalue : digitsValue (c :: digits) = digitsValue digits + 10 ^ digits.length * (c.toNat - '0'.toNat) := by
      simp [digitsValue, Nat.ofDigits_append]
    rw [Nat.ofDigitChars_cons, ih, hvalue, List.length_cons]
    ring

/-- Reads digits as a number of at most 64 bits. -/
def countOf? (digits : List Char) : Option Nat :=
  if digits.isEmpty || !digits.all Char.isDigit then none
  else if Nat.ofDigitChars 10 digits 0 ≤ maxWord64 then some (Nat.ofDigitChars 10 digits 0)
  else none

theorem countOf?_eq_some {digits : List Char} {n : Nat} :
    countOf? digits = some n ↔
      digits ≠ [] ∧ (∀ c ∈ digits, c.isDigit = true) ∧ n = digitsValue digits ∧ n < 2 ^ 64 := by
  have hbound : ∀ k, k ≤ maxWord64 ↔ k < 2 ^ 64 := fun k => Nat.lt_succ_iff.symm
  rw [countOf?, ofDigitChars_eq, Nat.zero_mul, Nat.zero_add, Option.ite_none_left_eq_some,
    Option.ite_none_right_eq_some, hbound]
  simp only [Bool.or_eq_true, List.isEmpty_iff, Bool.not_eq_true', not_or, Bool.not_eq_false, List.all_eq_true,
    Option.some.injEq, and_assoc]
  constructor
  · rintro ⟨hne, hdigits, hlt, rfl⟩
    exact ⟨hne, hdigits, rfl, hlt⟩
  · rintro ⟨hne, hdigits, rfl, hlt⟩
    exact ⟨hne, hdigits, hlt, rfl⟩

theorem readCount?_of_head_ne {word : List Char} (h : word.head? ≠ some '+') : readCount? word = countOf? word := by
  unfold readCount?
  split
  · exact absurd rfl h
  · rfl

/-- A number is read from just those words that write it. -/
theorem readCount?_eq_some {word : List Char} {n : Nat} : readCount? word = some n ↔ WritesCount word n := by
  constructor
  · intro h
    by_cases hplus : word.head? = some '+'
    · obtain ⟨digits, rfl⟩ := List.head?_eq_some_iff.1 hplus
      exact ⟨digits, .inr rfl, countOf?_eq_some.1 h⟩
    · rw [readCount?_of_head_ne hplus] at h
      exact ⟨word, .inl rfl, countOf?_eq_some.1 h⟩
  · rintro ⟨digits, rfl | rfl, hwrites⟩
    · -- a plus sign is no digit
      have hplus : word.head? ≠ some '+' := by
        intro hhead
        have hdigit := hwrites.2.1 '+' (List.mem_of_mem_head? hhead)
        cases hdigit
      rw [readCount?_of_head_ne hplus]
      exact countOf?_eq_some.2 hwrites
    · exact countOf?_eq_some.2 hwrites

theorem toList_repr_ne_nil (n : Nat) : n.repr.toList ≠ [] := by
  rw [Nat.toList_repr]
  exact Nat.toDigits_ne_nil

theorem isDigit_of_mem_repr {n : Nat} {c : Char} (h : c ∈ n.repr.toList) : c.isDigit = true := by
  rw [Nat.toList_repr] at h
  exact Nat.isDigit_of_mem_toDigits (by omega) (by omega) h

/-- The digits of a number write it. -/
theorem writesCount_repr {n : Nat} (h : n < 2 ^ 64) : WritesCount n.repr.toList n := by
  refine ⟨n.repr.toList, .inl rfl, toList_repr_ne_nil n, fun _ => isDigit_of_mem_repr, ?_, h⟩
  have hvalue := ofDigitChars_eq n.repr.toList 0
  rw [Nat.zero_mul, Nat.zero_add] at hvalue
  rw [← hvalue, Nat.toList_repr]
  exact (Nat.ofDigitChars_toDigits (by omega) (by omega)).symm

/-! ## The line that counts -/

/-- The line about the memory of a process begins with this. -/
def residentMark : List Char :=
  "VmRSS:".toList

/-- A line that does not begin with the mark. -/
def Unmarked (line : List Char) : Prop :=
  '\n' ∉ line ∧ ¬residentMark <+: line

/-- Lines, each with the line feed that ends it. -/
def wholeLines (lines : List (List Char)) : List Char :=
  lines.flatMap fun line => line ++ ['\n']

/-- The first line of a text that begins with the mark goes on like this. -/
def FirstMarked (status rest : List Char) : Prop :=
  ∃ lines behind, status = wholeLines lines ++ (residentMark ++ rest ++ behind) ∧ (∀ line ∈ lines, Unmarked line) ∧
    '\n' ∉ rest ∧ (behind = [] ∨ ∃ more, behind = '\n' :: more)

/-- No line of a text begins with the mark. -/
def NoneMarked (status : List Char) : Prop :=
  ∃ lines last, status = wholeLines lines ++ last ∧ (∀ line ∈ lines, Unmarked line) ∧ Unmarked last

theorem wholeLines_cons (line : List Char) (lines : List (List Char)) (cs : List Char) :
    wholeLines (line :: lines) ++ cs = line ++ '\n' :: (wholeLines lines ++ cs) := by
  simp [wholeLines]

theorem firstMarked_start {rest behind : List Char} (hrest : '\n' ∉ rest)
    (hbehind : behind = [] ∨ ∃ more, behind = '\n' :: more) : FirstMarked (residentMark ++ rest ++ behind) rest :=
  ⟨[], behind, rfl, fun _ h => absurd h List.not_mem_nil, hrest, hbehind⟩

theorem FirstMarked.cons {line status rest : List Char} (h : FirstMarked status rest) (hline : Unmarked line) :
    FirstMarked (line ++ '\n' :: status) rest := by
  obtain ⟨lines, behind, rfl, hlines, hrest⟩ := h
  exact ⟨line :: lines, behind, (wholeLines_cons ..).symm, List.forall_mem_cons.2 ⟨hline, hlines⟩, hrest⟩

theorem NoneMarked.cons {line status : List Char} (h : NoneMarked status) (hline : Unmarked line) :
    NoneMarked (line ++ '\n' :: status) := by
  obtain ⟨lines, last, rfl, hlines, hlast⟩ := h
  exact ⟨line :: lines, last, (wholeLines_cons ..).symm, List.forall_mem_cons.2 ⟨hline, hlines⟩, hlast⟩

/-- Every text has a first line with the mark, or no line with it. -/
theorem firstMarked_or_noneMarked (status : List Char) : (∃ rest, FirstMarked status rest) ∨ NoneMarked status := by
  -- by induction on the length, since what stands behind the first line is a shorter text
  induction hlength : status.length using Nat.strong_induction_on generalizing status with
  | _ length ih =>
    by_cases hfeed : '\n' ∈ status
    · obtain ⟨line, more, rfl, hline⟩ := List.eq_append_cons_of_mem hfeed
      by_cases hmark : residentMark <+: line
      · obtain ⟨rest, rfl⟩ := hmark
        have hrest : '\n' ∉ rest := fun hmem => hline (List.mem_append_right _ hmem)
        exact .inl ⟨rest, firstMarked_start hrest (.inr ⟨more, rfl⟩)⟩
      · have hless : more.length < length := by
          rw [← hlength, List.length_append, List.length_cons]
          omega
        rcases ih more.length hless more rfl with ⟨rest, hrest⟩ | hnone
        · exact .inl ⟨rest, hrest.cons ⟨hline, hmark⟩⟩
        · exact .inr (hnone.cons ⟨hline, hmark⟩)
    · by_cases hmark : residentMark <+: status
      · obtain ⟨rest, rfl⟩ := hmark
        have hrest : '\n' ∉ rest := fun hmem => hfeed (List.mem_append_right _ hmem)
        refine .inl ⟨rest, ?_⟩
        rw [← List.append_nil (residentMark ++ rest)]
        exact firstMarked_start hrest (.inl rfl)
      · exact .inr ⟨[], status, rfl, fun _ h => absurd h List.not_mem_nil, hfeed, hmark⟩

/-- What follows the mark in a line. -/
def behindMark? (line : List Char) : Option (List Char) :=
  if residentMark.isPrefixOf line then some (line.drop 6) else none

theorem residentKb?_eq (status : String) :
    residentKb? status =
      ((Text.linesOf status.toList).findSome? behindMark?).bind fun rest => (Text.wordsOf rest).head?.bind readCount? :=
  rfl

theorem behindMark?_append (rest : List Char) : behindMark? (residentMark ++ rest) = some rest := by
  have hprefix : residentMark.isPrefixOf (residentMark ++ rest) = true :=
    List.isPrefixOf_iff_prefix.2 (List.prefix_append ..)
  rw [behindMark?, if_pos hprefix]
  rfl

theorem behindMark?_of_not_prefix {line : List Char} (h : ¬residentMark <+: line) : behindMark? line = none :=
  if_neg fun hprefix => h (List.isPrefixOf_iff_prefix.1 hprefix)

/-- A line without the mark has none when its end is cut off. -/
theorem Unmarked.stripLineEnd {line : List Char} (h : Unmarked line) :
    ¬residentMark <+: Text.stripLineEnd (line ++ ['\n']) := by
  intro hprefix
  rcases Text.stripLineEnd_feed line with hsame | hreturn
  · rw [hsame] at hprefix
    exact h.2 hprefix
  · apply h.2
    rw [← hreturn]
    exact hprefix.trans (List.prefix_append ..)

/-- Lines without the mark are passed over. -/
theorem findSome?_wholeLines {lines : List (List Char)} (h : ∀ line ∈ lines, Unmarked line) (cs : List Char) :
    (Text.linesOf (wholeLines lines ++ cs)).findSome? behindMark? = (Text.linesOf cs).findSome? behindMark? := by
  induction lines with
  | nil => rfl
  | cons line lines ih =>
    have hline := h line List.mem_cons_self
    rw [wholeLines_cons, Text.linesOf_append_cons hline.1, List.findSome?_cons,
      behindMark?_of_not_prefix hline.stripLineEnd]
    exact ih fun other hother => h other (List.mem_cons_of_mem line hother)

/-- A line with the mark is found. Its words are seen, whatever becomes of its end. -/
theorem findSome?_markedLine {rest behind : List Char} (hrest : '\n' ∉ rest)
    (hbehind : behind = [] ∨ ∃ more, behind = '\n' :: more) :
    ∃ shown, (Text.linesOf (residentMark ++ rest ++ behind)).findSome? behindMark? = some shown ∧
      ∀ word, Text.FirstWord shown word ↔ Text.FirstWord rest word := by
  have hline : '\n' ∉ residentMark ++ rest := by
    intro hmem
    rcases List.mem_append.1 hmem with hmark | hmem
    · revert hmark
      decide
    · exact hrest hmem
  rcases hbehind with rfl | ⟨more, rfl⟩
  · have hne : residentMark ++ rest ≠ [] := by
      intro hnil
      cases hnil
    refine ⟨rest, ?_, fun word => Iff.rfl⟩
    rw [List.append_nil, Text.linesOf_of_not_mem hline hne, List.findSome?_cons, behindMark?_append]
  · rw [Text.linesOf_append_cons hline, List.findSome?_cons]
    rcases Text.stripLineEnd_feed (residentMark ++ rest) with hsame | hreturn
    · refine ⟨rest, ?_, fun word => Iff.rfl⟩
      rw [hsame, behindMark?_append]
    · -- the carriage return is behind the mark, since the mark does not end with one
      rcases List.eq_nil_or_concat rest with rfl | ⟨shown, last, rfl⟩
      · rw [List.append_nil] at hreturn
        have hlast := congrArg List.getLast? hreturn
        rw [List.getLast?_concat] at hlast
        cases hlast
      · rw [List.concat_eq_append, ← List.append_assoc] at hreturn
        obtain ⟨hstripped, hlast⟩ := List.append_inj' hreturn rfl
        obtain rfl : '\r' = last := (List.cons.inj hlast).1
        refine ⟨shown, ?_, fun word => ?_⟩
        · rw [List.concat_eq_append, ← List.append_assoc, hstripped, behindMark?_append]
        · rw [List.concat_eq_append]
          exact (Text.firstWord_append_blank rfl).symm

/-- The first word behind the mark decides, if there is a line with the mark. -/
theorem residentKb?_eq_some {status : String} {rest : List Char} (h : FirstMarked status.toList rest) {n : Nat} :
    residentKb? status = some n ↔ ∃ word, Text.FirstWord rest word ∧ WritesCount word n := by
  obtain ⟨lines, behind, hstatus, hlines, hrest, hbehind⟩ := h
  obtain ⟨shown, hfound, hwords⟩ := findSome?_markedLine hrest hbehind
  rw [residentKb?_eq, hstatus, findSome?_wholeLines hlines, hfound, Option.bind_some, Option.bind_eq_some_iff]
  constructor
  · rintro ⟨word, hword, hcount⟩
    exact ⟨word, (hwords word).1 (Text.head?_wordsOf_eq_some.1 hword), readCount?_eq_some.1 hcount⟩
  · rintro ⟨word, hword, hcount⟩
    exact ⟨word, Text.head?_wordsOf_eq_some.2 ((hwords word).2 hword), readCount?_eq_some.2 hcount⟩

theorem residentKb?_eq_none {status : String} (h : NoneMarked status.toList) : residentKb? status = none := by
  obtain ⟨lines, last, hstatus, hlines, hlast⟩ := h
  have hnone : (Text.linesOf last).findSome? behindMark? = none := by
    by_cases hempty : last = []
    · rw [hempty]
      rfl
    · rw [Text.linesOf_of_not_mem hlast.1 hempty, List.findSome?_cons, behindMark?_of_not_prefix hlast.2]
      rfl
  rw [residentKb?_eq, hstatus, findSome?_wholeLines hlines, hnone]
  rfl

/-- Two texts tell the same if the lines that count have the same first word. -/
theorem residentKb?_congr {status status' : String} {rest rest' : List Char} (h : FirstMarked status.toList rest)
    (h' : FirstMarked status'.toList rest') (hwords : ∀ word, Text.FirstWord rest word ↔ Text.FirstWord rest' word) :
    residentKb? status = residentKb? status' := by
  apply Option.ext
  intro n
  rw [residentKb?_eq_some h, residentKb?_eq_some h']
  simp only [hwords]

/-- A line with the mark tells the same alone and among other lines, if those in front of it are without the mark. -/
theorem residentKb?_among {lines : List (List Char)} {rest lineEnd : List Char} (hlines : ∀ line ∈ lines, Unmarked line)
    (hrest : '\n' ∉ rest) (hend : lineEnd = ['\n'] ∨ lineEnd = ['\r', '\n']) (behind : List Char) :
    residentKb? (String.ofList (wholeLines lines ++ (residentMark ++ rest ++ (lineEnd ++ behind)))) =
      residentKb? (String.ofList (residentMark ++ rest)) := by
  have halone : FirstMarked (String.ofList (residentMark ++ rest)).toList rest := by
    rw [String.toList_ofList, ← List.append_nil (residentMark ++ rest)]
    exact firstMarked_start hrest (.inl rfl)
  rcases hend with rfl | rfl
  · refine residentKb?_congr ?_ halone fun word => Iff.rfl
    rw [String.toList_ofList]
    exact ⟨lines, '\n' :: behind, rfl, hlines, hrest, .inr ⟨behind, rfl⟩⟩
  · -- a carriage return in front of the line feed belongs to the line, but to none of its words
    refine residentKb?_congr ?_ halone fun word => Text.firstWord_append_blank (c := '\r') rfl
    rw [String.toList_ofList]
    refine ⟨lines, '\n' :: behind, ?_, hlines, ?_, .inr ⟨behind, rfl⟩⟩
    · simp
    · simpa using hrest

/-- A number that is written behind the mark is read back. -/
theorem residentKb?_repr {n : Nat} (hn : n < 2 ^ 64) {blanks : List Char}
    (hblanks : ∀ c ∈ blanks, Text.isBlank c = true) (hline : '\n' ∉ blanks) :
    residentKb? ("VmRSS:" ++ String.ofList blanks ++ n.repr ++ " kB") = some n := by
  have hword : Text.FirstWord (blanks ++ n.repr.toList ++ " kB".toList) n.repr.toList :=
    ⟨blanks, " kB".toList, rfl, hblanks, toList_repr_ne_nil n,
      fun _ hc => Text.isBlank_of_isDigit (isDigit_of_mem_repr hc), Json.stops_cons.2 (by decide)⟩
  have hfeed : '\n' ∉ blanks ++ n.repr.toList ++ " kB".toList := by
    intro hmem
    rcases List.mem_append.1 hmem with hmem | hmem
    · rcases List.mem_append.1 hmem with hmem | hmem
      · exact hline hmem
      · cases isDigit_of_mem_repr hmem
    · revert hmem
      decide
  have hmarked : FirstMarked ("VmRSS:" ++ String.ofList blanks ++ n.repr ++ " kB").toList
      (blanks ++ n.repr.toList ++ " kB".toList) := by
    have htext : ("VmRSS:" ++ String.ofList blanks ++ n.repr ++ " kB").toList =
        residentMark ++ (blanks ++ n.repr.toList ++ " kB".toList) ++ [] := by
      have hbetween : (String.ofList blanks).toList = blanks := String.toList_ofList
      rw [String.toList_append, String.toList_append, String.toList_append, hbetween, List.append_nil,
        List.append_assoc, List.append_assoc, List.append_assoc]
      rfl
    rw [htext]
    exact firstMarked_start hfeed (.inl rfl)
  exact (residentKb?_eq_some hmarked).2 ⟨_, hword, writesCount_repr hn⟩

/-- The memory of a process is read from the first line of its status that begins with `VmRSS:`, and from no other line:
it is what the first word behind the mark writes, and nothing if that word is missing or does not write a number of at
most 64 bits. So lines without the mark in front of this line and any text behind its end change nothing. A number that
is written behind the mark is read back whatever blanks stand between them; a line feed would be the end of the line. -/
theorem residentKb?_reads :
    (∀ status : String, (∃ rest, FirstMarked status.toList rest) ∨ NoneMarked status.toList) ∧
    (∀ status : String, NoneMarked status.toList → residentKb? status = none) ∧
    (∀ (status : String) (rest : List Char), FirstMarked status.toList rest →
      (∀ n, residentKb? status = some n ↔ ∃ word, Text.FirstWord rest word ∧ WritesCount word n) ∧
      (residentKb? status = none ↔ ¬∃ word n, Text.FirstWord rest word ∧ WritesCount word n)) ∧
    (∀ (lines : List (List Char)) (rest lineEnd behind : List Char), (∀ line ∈ lines, Unmarked line) → '\n' ∉ rest →
      lineEnd = ['\n'] ∨ lineEnd = ['\r', '\n'] →
      residentKb? (String.ofList (wholeLines lines ++ (residentMark ++ rest ++ (lineEnd ++ behind)))) =
        residentKb? (String.ofList (residentMark ++ rest))) ∧
    ∀ (n : Nat) (blanks : List Char), n < 2 ^ 64 → (∀ c ∈ blanks, Text.isBlank c = true) → '\n' ∉ blanks →
      residentKb? ("VmRSS:" ++ String.ofList blanks ++ n.repr ++ " kB") = some n := by
  refine ⟨fun status => firstMarked_or_noneMarked _, fun status => residentKb?_eq_none, ?_, ?_, ?_⟩
  · intro status rest h
    refine ⟨fun n => residentKb?_eq_some h, ?_⟩
    rw [Option.eq_none_iff_forall_ne_some]
    constructor
    · rintro hnone ⟨word, n, hword⟩
      exact hnone n ((residentKb?_eq_some h).2 ⟨word, hword⟩)
    · intro hnone n hsome
      obtain ⟨word, hword⟩ := (residentKb?_eq_some h).1 hsome
      exact hnone ⟨word, n, hword⟩
  · intro lines rest lineEnd behind hlines hrest hend
    exact residentKb?_among hlines hrest hend behind
  · intro n blanks hn hblanks hline
    exact residentKb?_repr hn hblanks hline

/-- The greatest number is read behind a plus sign from a line that ends with a carriage return; the line in front of it
holds the mark, but not at its beginning. A negative number keeps the good line behind it from being read, and a text
without the mark at the beginning of a line tells nothing. Between the mark and a number there may be any blanks. -/
theorem residentKb?_reads_greatest :
    let front := "Name:\tVmRSS: 1".toList
    let status := "Name:\tVmRSS: 1\nVmRSS:\t+18446744073709551615 kB\r\nVmRSS: 7 kB\n"
    let negative := "VmRSS: -1 kB\nVmRSS: 7 kB\n"
    Unmarked front ∧ FirstMarked negative.toList " -1 kB".toList ∧ residentKb? status = some (2 ^ 64 - 1) ∧
      residentKb? negative = none ∧ residentKb? (String.ofList front) = none ∧
      residentKb? ("VmRSS:" ++ String.ofList ['\u00a0', '\t'] ++ (5120).repr ++ " kB") = some 5120 := by
  intro front status negative
  obtain ⟨-, hnone, hfirst, hamong, hrepr⟩ := residentKb?_reads
  have hfront : Unmarked front := by
    constructor
    · decide
    · decide
  have hnegative : FirstMarked negative.toList " -1 kB".toList := by
    have htext : negative.toList = residentMark ++ " -1 kB".toList ++ '\n' :: "VmRSS: 7 kB\n".toList := by decide
    rw [htext]
    exact firstMarked_start (by decide) (.inr ⟨_, rfl⟩)
  refine ⟨hfront, hnegative, ?_, ?_, ?_, hrepr 5120 _ (by decide) (by simp [Text.isBlank]) (by decide)⟩
  · have hlines : ∀ line ∈ [front], Unmarked line := by simpa using hfront
    have hsame := hamong [front] "\t+18446744073709551615 kB".toList ['\r', '\n'] "VmRSS: 7 kB\n".toList hlines
      (by decide) (.inr rfl)
    have hstatus : status = String.ofList (wholeLines [front] ++
        (residentMark ++ "\t+18446744073709551615 kB".toList ++ (['\r', '\n'] ++ "VmRSS: 7 kB\n".toList))) := by
      rw [← String.toList_inj, String.toList_ofList]
      decide
    have hdigits : ∀ c ∈ "18446744073709551615".toList, c.isDigit = true := List.all_eq_true.1 rfl
    rw [hstatus, hsame]
    refine ((hfirst _ "\t+18446744073709551615 kB".toList ?_).1 _).2 ?_
    · rw [String.toList_ofList, ← List.append_nil (residentMark ++ _)]
      exact firstMarked_start (by decide) (.inl rfl)
    · refine ⟨"+18446744073709551615".toList, ⟨['\t'], " kB".toList, ?_, ?_, ?_, ?_, ?_⟩,
        ⟨"18446744073709551615".toList, .inr rfl, ?_⟩⟩
      · rfl
      · simp [Text.isBlank]
      · decide
      · exact List.forall_mem_cons.2 ⟨rfl, fun _ hc => Text.isBlank_of_isDigit (hdigits _ hc)⟩
      · exact Json.stops_cons.2 (by decide)
      · exact ⟨by decide, hdigits, by decide, by decide⟩
  · rw [(hfirst negative _ hnegative).2]
    rintro ⟨word, n, hword, hwrites⟩
    have hminus : (Text.wordsOf " -1 kB".toList).head? = some "-1".toList := by
      rw [Text.head?_wordsOf]
      decide
    obtain rfl : "-1".toList = word := Option.some.inj (hminus.symm.trans (Text.head?_wordsOf_eq_some.2 hword))
    cases readCount?_eq_some.2 hwrites
  · refine hnone _ ⟨[], front, ?_, fun _ h => absurd h List.not_mem_nil, hfront⟩
    rw [String.toList_ofList]
    rfl

end Sidecar
