import Sidecar.Proofs.Gaps

/-!
# Strings of JSON as YAML scalars

A portable string of JSON is a scalar in double quotes with the same text (`readQuoted_text`). It is read in runs of
blanks (`readQuoted_blanks`), runs of separators (`readQuoted_separators`) and single pieces (`readQuoted_piece`). A
string may go on at the beginning of a line, where a mark between documents would end it; `BeginsWith` says what stands
behind a run.
-/

namespace Sidecar.Yaml

open Json (Piece Stops stops_cons)

/-! ## Escapes -/

/-- A one-letter escape of JSON is one of YAML. -/
theorem shortEscape?_of_json {letter c : Char} (h : Json.shortEscape? letter = some c) :
    escapeLength? letter = none ∧ shortEscape? letter = some c ∧ isBreak letter = false := by
  unfold Json.shortEscape? at h
  split at h
  all_goals
    cases h
    try decide

/-- Four hexadecimal digits of JSON are digits of the same number. -/
theorem hexValue?_of_json {a b c d : Char} {unit : Nat} (h : Json.hexQuad? a b c d = some unit) :
    hexValue? [a, b, c, d] = some unit := by
  simp only [Json.hexQuad?, Option.bind_eq_bind, Option.bind_eq_some_iff] at h
  rcases h with ⟨u, ha, v, hb, w, hc, x, hd, hresult⟩
  cases hresult
  have hdigit : ∀ y, hexDigit? y = Json.hexDigit? y := fun _ => rfl
  simp [hexValue?, hdigit, ha, hb, hc, hd]

theorem hexDigit?_lt {x : Char} {n : Nat} (h : Json.hexDigit? x = some n) : n < 16 := by
  have hle : ∀ y z : Char, y ≤ z → y.toNat ≤ z.toNat := fun _ _ hyz => hyz
  unfold Json.hexDigit? at h
  split at h
  · rename_i hdecimal
    cases h
    simp only [Char.isDigit, Bool.and_eq_true, decide_eq_true_eq] at hdecimal
    have hhigh := hle _ _ hdecimal.2
    have hnine : '9'.toNat = 57 := rfl
    have hzero : '0'.toNat = 48 := rfl
    omega
  · split at h
    · rename_i hletter
      cases h
      simp only [Bool.and_eq_true, decide_eq_true_eq] at hletter
      have hhigh := hle _ _ hletter.2
      have hf : 'f'.toNat = 102 := rfl
      have ha : 'a'.toNat = 97 := rfl
      omega
    · split at h
      · rename_i hletter
        cases h
        simp only [Bool.and_eq_true, decide_eq_true_eq] at hletter
        have hhigh := hle _ _ hletter.2
        have hF : 'F'.toNat = 70 := rfl
        have hA : 'A'.toNat = 65 := rfl
        omega
      · cases h

/-- Four hexadecimal digits stand for a number of 16 bits. -/
theorem hexQuad?_lt {a b c d : Char} {unit : Nat} (h : Json.hexQuad? a b c d = some unit) : unit < 0x10000 := by
  simp only [Json.hexQuad?, Option.bind_eq_bind, Option.bind_eq_some_iff] at h
  rcases h with ⟨u, ha, v, hb, w, hc, x, hd, hresult⟩
  cases hresult
  have hu := hexDigit?_lt ha
  have hv := hexDigit?_lt hb
  have hw := hexDigit?_lt hc
  have hx := hexDigit?_lt hd
  omega

/-! ## Pieces that are written as they are -/

theorem char_of_text_eq {p : Piece} {x : Char} (h : p.text = [x]) (hx : x ≠ '\\') : p.char = x := by
  cases p with
  | plain y _ =>
    rw [Piece.text, List.singleton_inj] at h
    rw [Piece.char, Piece.unit, h, Char.ofNat_toNat]
  | _ => cases h

/-- A blank is written as it is. -/
theorem text_of_isBlank {p : Piece} (h : p.isBlank = true) : p.text = [p.char] ∧ p.char = ' ' := by
  have htext : p.text = [' '] := beq_iff_eq.1 h
  have hchar := char_of_text_eq htext (by decide)
  exact ⟨by rw [htext, hchar], hchar⟩

/-- A separator is written as it is. -/
theorem text_of_isSeparator {p : Piece} (h : p.isSeparator = true) : p.text = [p.char] ∧ isSeparator p.char = true := by
  simp only [Piece.isSeparator, Bool.or_eq_true, beq_iff_eq] at h
  rcases h with htext | htext
  · have hchar := char_of_text_eq htext (by decide)
    exact ⟨by rw [htext, hchar], by rw [hchar]; rfl⟩
  · have hchar := char_of_text_eq htext (by decide)
    exact ⟨by rw [htext, hchar], by rw [hchar]; rfl⟩

/-- Pieces that are written as they are. -/
theorem flatMap_text_eq {run : List Piece} (h : ∀ p ∈ run, p.text = [p.char]) :
    run.flatMap Piece.text = run.map Piece.char := by
  induction run with
  | nil => rfl
  | cons p run ih =>
    rw [List.flatMap_cons, List.map_cons, h p List.mem_cons_self, ih fun q hq => h q (List.mem_cons_of_mem p hq)]
    rfl

/-- A piece that begins with a character other than a backslash is that character. -/
theorem text_of_append {p : Piece} {x : Char} {more tail : List Char} (h : p.text ++ more = x :: tail) (hx : x ≠ '\\') :
    p.text = [x] ∧ more = tail := by
  cases p with
  | plain y _ =>
    rw [Piece.text, List.cons_append, List.cons.injEq] at h
    exact ⟨by rw [Piece.text, h.1], h.2⟩
  | _ => exact absurd (List.cons.inj h).1.symm hx

/-! ## What begins behind a piece -/

theorem keepsSeparators_of_cons {p : Piece} {rest : List Piece} (h : Piece.keepsSeparators (p :: rest) = true) :
    Piece.keepsSeparators rest = true := by
  rw [Piece.keepsSeparators, Bool.and_eq_true] at h
  exact h.2

theorem keepsSeparators_of_append {before after : List Piece} (h : Piece.keepsSeparators (before ++ after) = true) :
    Piece.keepsSeparators after = true := by
  induction before with
  | nil => exact h
  | cons p before ih => exact ih (keepsSeparators_of_cons h)

/-- Where a string has no separators, none has to be kept. -/
theorem keepsSeparators_of_inline {pieces : List Piece} (h : ∀ x ∈ pieces.flatMap Piece.text, isBreak x = false) :
    Piece.keepsSeparators pieces = true := by
  have hnone : ∀ p ∈ pieces, p.isSeparator = false := by
    intro p hp
    rw [Bool.eq_false_iff]
    intro hseparator
    have htext := text_of_isSeparator hseparator
    have hbreak := h p.char (List.mem_flatMap.2 ⟨p, hp, by rw [htext.1]; exact List.mem_cons_self⟩)
    rw [(isBreak_of_isSeparator htext.2).2] at hbreak
    cases hbreak
  clear h
  induction pieces with
  | nil => rfl
  | cons p others ih =>
    have hothers := ih fun q hq => hnone q (List.mem_cons_of_mem p hq)
    have hnext : others.head?.any Piece.isSeparator = false := by
      rcases others with _ | ⟨q, rest⟩
      · rfl
      · exact hnone q (List.mem_cons_of_mem p List.mem_cons_self)
    rw [Piece.keepsSeparators, hnone p List.mem_cons_self, hnext, hothers]
    simp

/-- What begins a piece that is no blank and no separator ends a gap. -/
theorem stops_text {p : Piece} (hp : p.isPortable = true) (hblank : p.isBlank = false)
    (hseparator : p.isSeparator = false) (more : List Char) :
    Stops (fun x => isBlank x || isBreak x) (p.text ++ more) := by
  cases p with
  | plain x h =>
    have hne : ∀ y, y.toNat < 0x20 → x ≠ y := by
      -- control characters do not stand in a string as they are
      rintro y hy rfl
      exact absurd h.1 (Nat.not_le_of_lt hy)
    simp only [Piece.isPortable, Bool.and_eq_true, bne_iff_ne] at hp
    simp only [Piece.isBlank, Piece.text, beq_eq_false_iff_ne, ne_eq, List.cons.injEq, and_true] at hblank
    simp only [Piece.isSeparator, Piece.text, Bool.or_eq_false_iff, beq_eq_false_iff_ne, ne_eq, List.cons.injEq,
      and_true] at hseparator
    apply stops_cons.2
    simp [isBlank, isBreak, hblank, hseparator, hp.2, hne '\t' (by decide), hne '\n' (by decide), hne '\r' (by decide)]
  | short letter x h => exact stops_cons.2 (by decide)
  | unicode x y z w unit h => exact stops_cons.2 (by decide)

/-- Pieces end a gap if the first one is no blank and no separator, and so does the quote behind them. -/
theorem stops_pieces {pieces : List Piece} (hp : pieces.all Piece.isPortable = true)
    (hfirst : ∀ p ∈ pieces.head?, p.isBlank = false ∧ p.isSeparator = false) (rest : List Char) :
    Stops (fun x => isBlank x || isBreak x) (pieces.flatMap Piece.text ++ '"' :: rest) := by
  rcases pieces with _ | ⟨p, others⟩
  · exact stops_cons.2 (by decide)
  · rw [List.all_cons, Bool.and_eq_true] at hp
    rw [List.flatMap_cons, List.append_assoc]
    exact stops_text hp.1 (hfirst p rfl).1 (hfirst p rfl).2 _

/-- Where pieces begin no mark between documents, none is seen. -/
theorem seesMark_pieces {pieces : List Piece} (hp : pieces.all Piece.isPortable = true) {x : Char} (hx : x ≠ '\\')
    (hquote : x ≠ '"') (hmark : Piece.beginsMark x pieces = false) {c : Cursor} {rest : List Char}
    (hrest : c.rest = pieces.flatMap Piece.text ++ '"' :: rest) : c.seesMark x = false := by
  rw [Bool.eq_false_iff]
  intro hsees
  have hchars : ∃ tail, c.rest = x :: x :: x :: tail ∧ tail.head?.all (fun y => isBlank y || isBreak y) = true := by
    simp only [Cursor.seesMark, Cursor.sees, Cursor.endsWord, Cursor.peek, Bool.and_eq_true, beq_iff_eq] at hsees
    rcases hsees with ⟨⟨⟨⟨_, hfirst⟩, hsecond⟩, hthird⟩, hends⟩
    rcases hlist : c.rest with _ | ⟨a, _ | ⟨b, _ | ⟨d, tail⟩⟩⟩
    iterate 3
      rw [hlist] at hthird
      cases hthird
    rw [hlist] at hfirst hsecond hthird hends
    cases hfirst
    cases hsecond
    cases hthird
    refine ⟨tail, rfl, ?_⟩
    rw [← hends]
    cases tail with
    | nil => rfl
    | cons y tail => rfl
  rcases hchars with ⟨tail, hchars, hends⟩
  rw [hrest] at hchars
  have hfirst : ∀ {pieces : List Piece} {tail : List Char}, pieces.flatMap Piece.text ++ '"' :: rest = x :: tail →
      ∃ p others, pieces = p :: others ∧ p.text = [x] ∧ others.flatMap Piece.text ++ '"' :: rest = tail := by
    intro pieces tail h
    rcases pieces with _ | ⟨p, others⟩
    · exact absurd (List.cons.inj h).1.symm hquote
    · rw [List.flatMap_cons, List.append_assoc] at h
      have hp := text_of_append h hx
      exact ⟨p, others, rfl, hp.1, hp.2⟩
  rcases hfirst hchars with ⟨p, behindFirst, rfl, hptext, hsecond⟩
  rcases hfirst hsecond with ⟨q, behindSecond, rfl, hqtext, hthird⟩
  rcases hfirst hthird with ⟨r, others, rfl, hrtext, htail⟩
  -- what follows the three pieces would have to be a blank or a separator
  have hstops : Stops (fun x => isBlank x || isBreak x) (others.flatMap Piece.text ++ '"' :: rest) := by
    simp only [List.all_cons, Bool.and_eq_true] at hp
    apply stops_pieces hp.2.2.2
    intro s hs
    rcases others with _ | ⟨s', others⟩
    · cases hs
    · cases hs
      simpa [Piece.beginsMark, hptext, hqtext, hrtext] using hmark
  rw [htail] at hstops
  cases tail with
  | nil =>
    cases others with
    | nil => cases htail
    | cons s others => simp at htail
  | cons y tail =>
    have hy : (isBlank y || isBreak y) = true := hends
    rw [stops_cons.1 hstops] at hy
    cases hy

/-! ## Runs -/

/-- Pieces begin with a run of those that are alike. -/
theorem exists_run (alike : Piece → Bool) (p : Piece) (others : List Piece) (hp : alike p = true) :
    ∃ init last tail, p :: others = init ++ last :: tail ∧ (∀ q ∈ init ++ [last], alike q = true) ∧
      ∀ q ∈ tail.head?, alike q = false := by
  induction others generalizing p with
  | nil =>
    refine ⟨[], p, [], rfl, ?_, ?_⟩
    · intro q hq
      rw [List.mem_singleton.1 hq]
      exact hp
    · intro q hq
      cases hq
  | cons q others ih =>
    by_cases hq : alike q = true
    · rcases ih q hq with ⟨init, last, tail, hsplit, hrun, htail⟩
      refine ⟨p :: init, last, tail, by rw [hsplit]; rfl, ?_, htail⟩
      intro x hx
      rcases List.mem_cons.1 hx with rfl | hx
      · exact hp
      · exact hrun x hx
    · refine ⟨[], p, q :: others, rfl, ?_, ?_⟩
      · intro x hx
        rw [List.mem_singleton.1 hx]
        exact hp
      · intro x hx
        cases hx
        exact Bool.eq_false_iff.2 hq

/-- Pieces begin with a run of characters that are written as they are, and go on with a word. -/
structure BeginsWith (pieces : List Piece) (run : List Char) (tail : List Piece) : Prop where
  text : pieces.flatMap Piece.text = run ++ tail.flatMap Piece.text
  chars : pieces.map Piece.char = run ++ tail.map Piece.char
  portable : tail.all Piece.isPortable = true
  keeps : Piece.keepsSeparators tail = true
  first : ∀ q ∈ tail.head?, q.isBlank = false ∧ q.isSeparator = false

/-- A run of pieces that are alike is read at once if a word follows it. -/
theorem exists_beginsWith (alike : Piece → Bool) (halike : ∀ q, alike q = true → q.text = [q.char]) {p : Piece}
    {others : List Piece} (hp : (p :: others).all Piece.isPortable = true)
    (hkeeps : Piece.keepsSeparators (p :: others) = true) (hfirst : alike p = true)
    (hends : ∀ last tail, alike last = true → Piece.keepsSeparators (last :: tail) = true →
      (∀ q ∈ tail.head?, alike q = false) → ∀ q ∈ tail.head?, q.isBlank = false ∧ q.isSeparator = false) :
    ∃ x xs last tail, (∀ y ∈ x :: xs, ∃ q, alike q = true ∧ q.char = y) ∧ BeginsWith (p :: others) (x :: xs) tail ∧
      alike last = true ∧ Piece.keepsSeparators (last :: tail) = true := by
  rcases exists_run alike p others hfirst with ⟨init, last, tail, hsplit, hrun, htail⟩
  have hlast : alike last = true := hrun last (by simp)
  have hbehind : Piece.keepsSeparators (last :: tail) = true := by
    rw [hsplit] at hkeeps
    exact keepsSeparators_of_append hkeeps
  have happend : p :: others = (init ++ [last]) ++ tail := by
    rw [hsplit, List.append_assoc, List.singleton_append]
  have htext : (init ++ [last]).flatMap Piece.text = (init ++ [last]).map Piece.char :=
    flatMap_text_eq fun q hq => halike q (hrun q hq)
  have hmembers : ∀ y ∈ (init ++ [last]).map Piece.char, ∃ q, alike q = true ∧ q.char = y := by
    intro y hy
    rcases List.mem_map.1 hy with ⟨q, hq, rfl⟩
    exact ⟨q, hrun q hq, rfl⟩
  have hchars : (p :: others).map Piece.char = (init ++ [last]).map Piece.char ++ tail.map Piece.char := by
    rw [happend, List.map_append]
  rw [happend, List.all_append, Bool.and_eq_true] at hp
  rcases hlist : (init ++ [last]).map Piece.char with _ | ⟨x, xs⟩
  · simp at hlist
  · rw [hlist] at htext hmembers hchars
    refine ⟨x, xs, last, tail, hmembers, ⟨?_, hchars, hp.2, ?_, ?_⟩, hlast, hbehind⟩
    · rw [happend, List.flatMap_append, htext]
    · exact keepsSeparators_of_cons hbehind
    · exact hends last tail hlast hbehind htail

/-- A string that begins with a blank begins with a run of blanks. -/
theorem exists_blankRun {p : Piece} {others : List Piece} (hp : (p :: others).all Piece.isPortable = true)
    (hkeeps : Piece.keepsSeparators (p :: others) = true) (hblank : p.isBlank = true) :
    ∃ x spaces tail, (∀ y ∈ x :: spaces, y = ' ') ∧ BeginsWith (p :: others) (x :: spaces) tail := by
  have hends : ∀ last tail, Piece.isBlank last = true → Piece.keepsSeparators (last :: tail) = true →
      (∀ q ∈ tail.head?, q.isBlank = false) → ∀ q ∈ tail.head?, q.isBlank = false ∧ q.isSeparator = false := by
    intro last tail hlast hbehind htail q hq
    refine ⟨htail q hq, ?_⟩
    have hnone : last.isSeparator = false := by
      rw [Piece.isSeparator, beq_iff_eq.1 hlast]
      decide
    rw [Piece.keepsSeparators, hnone, hlast] at hbehind
    have hany : tail.head?.any Piece.isSeparator = false := by simpa using (Bool.and_eq_true_iff.1 hbehind).1
    rw [hq] at hany
    exact hany
  rcases exists_beginsWith Piece.isBlank (fun q hq => (text_of_isBlank hq).1) hp hkeeps hblank hends with
    ⟨x, spaces, _, tail, hrun, hbegins, _, _⟩
  refine ⟨x, spaces, tail, ?_, hbegins⟩
  intro y hy
  rcases hrun y hy with ⟨q, hq, rfl⟩
  exact (text_of_isBlank hq).2

/-- A string that begins with a separator begins with a run of them, and no mark between documents stands behind it. -/
theorem exists_separatorRun {p : Piece} {others : List Piece} (hp : (p :: others).all Piece.isPortable = true)
    (hkeeps : Piece.keepsSeparators (p :: others) = true) (hseparator : p.isSeparator = true) :
    ∃ x seps tail, (∀ y ∈ x :: seps, isSeparator y = true) ∧ BeginsWith (p :: others) (x :: seps) tail ∧
      Piece.beginsMark '-' tail = false ∧ Piece.beginsMark '.' tail = false := by
  have hbehind : ∀ {last tail}, Piece.isSeparator last = true → Piece.keepsSeparators (last :: tail) = true →
      tail.head?.any Piece.isBlank = false ∧ Piece.beginsMark '-' tail = false ∧ Piece.beginsMark '.' tail = false := by
    intro last tail hlast h
    rw [Piece.keepsSeparators, hlast, if_pos rfl] at h
    simpa [and_assoc] using (Bool.and_eq_true_iff.1 h).1
  rcases exists_beginsWith Piece.isSeparator (fun q hq => (text_of_isSeparator hq).1) hp hkeeps hseparator
    (fun last tail hlast h htail q hq => by
      have hany := (hbehind hlast h).1
      rw [hq] at hany
      exact ⟨hany, htail q hq⟩) with ⟨x, seps, last, tail, hrun, hbegins, hlast, h⟩
  refine ⟨x, seps, tail, ?_, hbegins, (hbehind hlast h).2⟩
  intro y hy
  rcases hrun y hy with ⟨q, hq, rfl⟩
  exact (text_of_isSeparator hq).2

/-! ## Reading -/

/-- A piece that is no blank and no separator is read as its character. -/
theorem readQuoted_piece {p : Piece} (hp : p.isPortable = true) (hblank : p.isBlank = false)
    (hseparator : p.isSeparator = false) {fuel : Nat} {c : Cursor} {more : List Char}
    (hmark : c.seesDocumentMark = false) (hrest : c.rest = p.text ++ more) :
    readQuoted false (fuel + 1) c =
      (readQuoted false fuel (c.skip p.text.length)).map fun (text, c) => (p.char :: text, c) := by
  cases p with
  | plain x h =>
    have hx := stops_cons.1 (stops_text hp hblank hseparator more)
    rw [Bool.or_eq_false_iff] at hx
    have hpeek := Cursor.peek_cons (c := c) hrest
    simp [readQuoted, hmark, hpeek, h.2.1, h.2.2, hx.1, hx.2, Piece.text, Piece.char, Piece.unit]
  | short letter x h =>
    rcases shortEscape?_of_json h with ⟨hlength, hescape, hbreak⟩
    have hpeek := Cursor.peek_cons (c := c) hrest
    have hletter : c.skip.rest = letter :: more := by
      rw [Cursor.skip_rest, hrest]
      rfl
    have hnext : c.seesAny isBreak 1 = false := by
      rw [Cursor.seesAny, Cursor.peek, hrest]
      exact hbreak
    have hread : readEscape? c.skip = some (x, 1) := by
      rw [readEscape?, Cursor.peek_cons hletter]
      simp [hlength, hescape]
    simp [readQuoted, hmark, hpeek, hnext, hread, Piece.text, Piece.char, Piece.unit]
  | unicode x y z w unit h =>
    have hpeek := Cursor.peek_cons (c := c) hrest
    have hletter : c.skip.rest = 'u' :: x :: y :: z :: w :: more := by
      rw [Cursor.skip_rest, hrest]
      rfl
    have hnext : c.seesAny isBreak 1 = false := by
      rw [Cursor.seesAny, Cursor.peek, hrest]
      show isBreak 'u' = false
      decide
    have hread : readEscape? c.skip = some (Char.ofNat unit, 5) := by
      have hlength : escapeLength? 'u' = some 4 := rfl
      have hvalue := hexValue?_of_json h
      have hbound := hexQuad?_lt h
      simp only [Piece.isPortable, Json.isHighSurrogate, Json.isLowSurrogate, Bool.and_eq_true, Bool.not_eq_true',
        Bool.and_eq_false_iff, decide_eq_false_iff_not] at hp
      have hrange : ¬(0xD800 ≤ unit ∧ unit ≤ 0xDFFF ∨ 0x10FFFF < unit) := by omega
      have hdigits : (c.skip.rest.drop 1).take 4 = [x, y, z, w] := by
        rw [hletter]
        rfl
      rw [readEscape?, Cursor.peek_cons hletter]
      simp only [Option.bind_eq_bind, Option.bind_some, hlength, hdigits, hvalue]
      simp [hrange]
    simp [readQuoted, hmark, hpeek, hnext, hread, Piece.text, Piece.char, Piece.unit]

/-- Blanks are read as they are. -/
theorem readQuoted_blanks (fuel : Nat) {x : Char} {spaces : List Char} (hspaces : ∀ y ∈ x :: spaces, y = ' ')
    {c : Cursor} {more : List Char} (hmark : c.seesDocumentMark = false) (hrest : c.rest = x :: spaces ++ more)
    (hstops : Stops (fun x => isBlank x || isBreak x) more) :
    readQuoted false (fuel + 1) c =
      (readQuoted false fuel (c.skip (x :: spaces).length)).map fun (text, c) => (x :: spaces ++ text, c) := by
  have hpeek : c.peek = some ' ' := by
    rw [← hspaces x List.mem_cons_self]
    exact Cursor.peek_cons hrest
  have hblank : ∀ y ∈ x :: spaces, isBlank y = true := by
    intro y hy
    rw [hspaces y hy]
    rfl
  have hlength : (x :: spaces).length ≤ c.rest.length := by
    rw [hrest, List.length_append]
    omega
  have hgap := readGap_inline 0 (x :: spaces) [] hblank hlength hrest hstops
  have hspace : isBlank ' ' = true := rfl
  rw [readQuoted, hmark, hpeek]
  simp [hspace, hgap, Gap.text]

/-- Separators are read as they are. -/
theorem readQuoted_separators {x : Char} {seps : List Char} (hseps : ∀ y ∈ x :: seps, isSeparator y = true) {fuel : Nat}
    {c : Cursor} {more : List Char} (hmark : c.seesDocumentMark = false) (hrest : c.rest = x :: seps ++ more)
    (hstops : Stops (fun x => isBlank x || isBreak x) more) :
    ∃ c', readQuoted false (fuel + 1) c =
      (readQuoted false fuel c').map (fun (text, c) => (x :: seps ++ text, c)) ∧ c'.rest = more := by
  have hx := hseps x List.mem_cons_self
  have hpeek : c.peek = some x := Cursor.peek_cons hrest
  have hne : x ≠ '"' ∧ x ≠ '\\' ∧ x ≠ '\n' := by
    refine ⟨?_, ?_, ?_⟩
    all_goals
      rintro rfl
      exact absurd hx (by decide)
  have hkind := isBreak_of_isSeparator hx
  rcases skipLine_separator hx hrest with ⟨hline, hbreak⟩
  have hothers : ∀ y ∈ seps, isSeparator y = true := fun y hy => hseps y (List.mem_cons_of_mem x hy)
  have hlength : seps.length ≤ (seps ++ more).length := by
    rw [List.length_append]
    omega
  rcases readGap_separators [x] seps [] hothers hlength hline hstops with ⟨c', hread, hrest'⟩
  have hgap : readGap 0 c.rest.length c {} = some ({ broken := true, first := [x], more := seps }, c') := by
    rw [hrest, List.cons_append, List.length_cons, readGap, hpeek]
    simp only [hkind.1, hkind.2, hbreak, if_true, Bool.false_eq_true, if_false]
    exact hread
  refine ⟨c', ?_, hrest'⟩
  rw [readQuoted, hmark, hpeek]
  simp [hne.1, hne.2.1, hkind.1, hkind.2, hgap, Gap.text, foldLines, hne.2.2]

/-- A portable string is read up to its closing quote, as the characters of its pieces. Where it stands on one line, it
is just passed over. -/
theorem readQuoted_text (pieces : List Piece) (hp : pieces.all Piece.isPortable = true)
    (hkeeps : Piece.keepsSeparators pieces = true) (fuel : Nat) (c : Cursor) (rest : List Char)
    (hfuel : (pieces.flatMap Piece.text).length < fuel) (hmark : c.seesDocumentMark = false)
    (hrest : c.rest = pieces.flatMap Piece.text ++ '"' :: rest) :
    ∃ c', readQuoted false fuel c = some (pieces.map Piece.char, c') ∧ c'.rest = rest ∧
      ((∀ x ∈ pieces.flatMap Piece.text, isBreak x = false) →
        c' = c.skip ((pieces.flatMap Piece.text).length + 1)) := by
  induction fuel generalizing pieces c with
  | zero => cases hfuel
  | succ fuel ih =>
    rcases pieces with _ | ⟨p, others⟩
    · have hpeek : c.peek = some '"' := Cursor.peek_cons hrest
      refine ⟨c.skip, ?_, ?_, fun _ => rfl⟩
      · simp [readQuoted, hmark, hpeek]
      · rw [Cursor.skip_rest, hrest]
        rfl
    · by_cases hblank : p.isBlank = true
      · -- all blanks of a run are read at once
        rcases exists_blankRun hp hkeeps hblank with ⟨x, spaces, tail, hspaces, hrun⟩
        rw [hrun.text] at hfuel hrest ⊢
        rw [List.append_assoc] at hrest
        rw [List.length_append, List.length_cons] at hfuel
        have hread := readQuoted_blanks fuel hspaces hmark hrest (stops_pieces hrun.portable hrun.first rest)
        have hplace : (c.skip (x :: spaces).length).rest = tail.flatMap Piece.text ++ '"' :: rest := by
          rw [Cursor.skip_rest, hrest, List.drop_left]
        have hbehind : (c.skip (x :: spaces).length).seesDocumentMark = false := by
          apply Cursor.seesDocumentMark_of_column
          rw [Cursor.skip_column, List.length_cons]
          omega
        rcases ih tail hrun.portable hrun.keeps _ (by omega) hbehind hplace with ⟨c', hmore, hrest', hinline⟩
        refine ⟨c', ?_, hrest', ?_⟩
        · rw [hread, hmore, hrun.chars]
          rfl
        · intro hnone
          rw [hinline fun x hx => hnone x (List.mem_append_right _ hx), Cursor.skip_skip, List.length_append,
            Nat.add_assoc]
      · by_cases hseparator : p.isSeparator = true
        · -- so are all separators of a run, and the string goes on at the beginning of a line
          rcases exists_separatorRun hp hkeeps hseparator with ⟨x, seps, tail, hseps, hrun, hdash, hdot⟩
          rw [hrun.text] at hfuel hrest ⊢
          rw [List.append_assoc] at hrest
          rw [List.length_append, List.length_cons] at hfuel
          rcases readQuoted_separators hseps hmark hrest (stops_pieces hrun.portable hrun.first rest) with
            ⟨c₁, hread, hplace⟩
          have hbehind : c₁.seesDocumentMark = false := by
            rw [Cursor.seesDocumentMark, seesMark_pieces hrun.portable (by decide) (by decide) hdash hplace,
              seesMark_pieces hrun.portable (by decide) (by decide) hdot hplace]
            rfl
          rcases ih tail hrun.portable hrun.keeps c₁ (by omega) hbehind hplace with ⟨c', hmore, hrest', _⟩
          refine ⟨c', ?_, hrest', ?_⟩
          · rw [hread, hmore, hrun.chars]
            rfl
          · intro hnone
            have hbreak := hnone x (by simp)
            rw [(isBreak_of_isSeparator (hseps x List.mem_cons_self)).2] at hbreak
            cases hbreak
        · -- any other piece is read alone, and the place behind it is inside of a line
          rw [Bool.not_eq_true] at hblank hseparator
          rw [List.all_cons, Bool.and_eq_true] at hp
          rw [List.flatMap_cons] at hfuel hrest ⊢
          rw [List.append_assoc] at hrest
          rw [List.length_append] at hfuel
          have hpositive : 0 < p.text.length := by
            cases p with
            | plain x h => exact Nat.zero_lt_one
            | short letter x h => exact Nat.zero_lt_two
            | unicode x y z w unit h => exact Nat.succ_pos 5
          have hplace : (c.skip p.text.length).rest = others.flatMap Piece.text ++ '"' :: rest := by
            rw [Cursor.skip_rest, hrest, List.drop_left]
          have hbehind : (c.skip p.text.length).seesDocumentMark = false := by
            apply Cursor.seesDocumentMark_of_column
            rw [Cursor.skip_column]
            omega
          have hothers := keepsSeparators_of_cons hkeeps
          rcases ih others hp.2 hothers _ (by omega) hbehind hplace with ⟨c', hmore, hrest', hinline⟩
          refine ⟨c', ?_, hrest', ?_⟩
          · rw [readQuoted_piece hp.1 hblank hseparator hmark hrest, hmore]
            rfl
          · intro hnone
            rw [hinline fun x hx => hnone x (List.mem_append_right _ hx), Cursor.skip_skip, List.length_append,
              Nat.add_assoc]

/-! ## Meaning -/

/-- A character is no half of a surrogate pair. -/
theorem not_surrogate (c : Char) : Json.isHighSurrogate c.toNat = false ∧ Json.isLowSurrogate c.toNat = false := by
  have hvalid : c.toNat < 0xD800 ∨ 0xDFFF < c.toNat ∧ c.toNat < 0x110000 := c.valid
  simp only [Json.isHighSurrogate, Json.isLowSurrogate, Bool.and_eq_false_iff, decide_eq_false_iff_not]
  omega

/-- Without surrogates there is nothing to join. -/
theorem joinPairs?_eq (units : List Nat)
    (h : ∀ u ∈ units, Json.isHighSurrogate u = false ∧ Json.isLowSurrogate u = false) :
    Json.joinPairs? units = some (units.map Char.ofNat) := by
  induction units with
  | nil => rfl
  | cons u rest ih =>
    have hu := h u List.mem_cons_self
    have hrest := ih fun v hv => h v (List.mem_cons_of_mem u hv)
    cases rest with
    | nil => simp [Json.joinPairs?, hu.1, hu.2]
    | cons v rest => simp [Json.joinPairs?, hu.1, hu.2, hrest]

/-- A portable string means the characters of its pieces. -/
theorem meaning_eq {pieces : List Piece} (hp : pieces.all Piece.isPortable = true) :
    Piece.meaning pieces = some (String.ofList (pieces.map Piece.char)) := by
  have hunits : ∀ u ∈ pieces.map Piece.unit, Json.isHighSurrogate u = false ∧ Json.isLowSurrogate u = false := by
    intro u hu
    rcases List.mem_map.1 hu with ⟨p, hmem, rfl⟩
    have hportable := List.all_eq_true.1 hp p hmem
    cases p with
    | plain x h => exact not_surrogate x
    | short letter x h => exact not_surrogate x
    | unicode x y z w unit h => simpa [Piece.isPortable, Piece.unit] using hportable
  rw [Piece.meaning, joinPairs?_eq _ hunits, List.map_map]
  rfl

end Sidecar.Yaml
