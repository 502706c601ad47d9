import Sidecar.Json.Written

/-!
# The reader and the grammar of JSON

A text is read as a value exactly if it is a way to write that value, with blanks around it. The main statement is
`Json.parse?_eq_some_iff`.

Each part of the grammar has two lemmas: what is written is read back whatever follows it (`readValue?_text`), and what
was read had been written (`written_of_readValue?`). Only a number has to know where it ends; `Stops` says that of the
characters that follow.
-/

namespace Sidecar.Json

/-! ## Runs of characters -/

/-- No character with the property comes next. -/
def Stops (p : Char → Bool) (rest : List Char) : Prop :=
  ∀ c ∈ rest.head?, p c = false

theorem stops_cons {p : Char → Bool} {c : Char} {rest : List Char} : Stops p (c :: rest) ↔ p c = false := by
  simp [Stops]

theorem stops_nil (p : Char → Bool) : Stops p [] := by
  simp [Stops]

theorem stops_append_cons {p : Char → Bool} {cs rest : List Char} {c : Char} (hcs : ∀ x ∈ cs, p x = false)
    (hc : p c = false) : Stops p (cs ++ c :: rest) := by
  cases cs with
  | nil => exact stops_cons.2 hc
  | cons x xs => exact stops_cons.2 (hcs x List.mem_cons_self)

theorem Stops.takeWhile_eq {p : Char → Bool} {rest : List Char} (h : Stops p rest) : rest.takeWhile p = [] := by
  cases rest with
  | nil => rfl
  | cons c rest => simp [stops_cons.1 h]

theorem Stops.dropWhile_eq {p : Char → Bool} {rest : List Char} (h : Stops p rest) : rest.dropWhile p = rest := by
  cases rest with
  | nil => rfl
  | cons c rest => simp [stops_cons.1 h]

theorem Stops.takeWhile_append {p : Char → Bool} {cs rest : List Char} (h : Stops p rest)
    (hcs : ∀ c ∈ cs, p c = true) : (cs ++ rest).takeWhile p = cs := by
  rw [List.takeWhile_append_of_pos hcs, h.takeWhile_eq, List.append_nil]

theorem Stops.dropWhile_append {p : Char → Bool} {cs rest : List Char} (h : Stops p rest)
    (hcs : ∀ c ∈ cs, p c = true) : (cs ++ rest).dropWhile p = rest := by
  rw [List.dropWhile_append_of_pos hcs, h.dropWhile_eq]

/-- Nothing with the property comes behind a longest run of it. -/
theorem stops_dropWhile (p : Char → Bool) (cs : List Char) : Stops p (cs.dropWhile p) := by
  intro c hc
  have hhead := List.head?_dropWhile_not p cs
  rw [Option.mem_def.1 hc] at hhead
  exact hhead

/-- Blanks are passed over. -/
theorem skipSpace_append (b : Blanks) {rest : List Char} (h : Stops isSpace rest) :
    skipSpace (b.chars ++ rest) = rest :=
  h.dropWhile_append b.blank

/-- Blanks are passed over up to a character that is none. -/
theorem skipSpace_cons (b : Blanks) {c : Char} (rest : List Char) (hc : isSpace c = false) :
    skipSpace (b.chars ++ c :: rest) = c :: rest :=
  skipSpace_append b (stops_cons.2 hc)

/-- What is passed over are blanks. -/
theorem exists_blanks (cs : List Char) : ∃ b : Blanks, cs = b.chars ++ skipSpace cs :=
  ⟨⟨cs.takeWhile isSpace, List.all_eq_true.1 List.all_takeWhile⟩, List.takeWhile_append_dropWhile.symm⟩

/-! ## Strings -/

/-- The code points of a string are read back up to its closing quote. -/
theorem readString?_text (pieces : List Piece) (rest : List Char) :
    readString? (pieces.flatMap Piece.text ++ '"' :: rest) = some (pieces.map Piece.unit, rest) := by
  induction pieces with
  | nil => rfl
  | cons piece pieces ih =>
    rw [List.flatMap_cons, List.append_assoc]
    cases piece with
    | plain c h =>
      rcases h with ⟨hcontrol, _, hbackslash⟩
      have hlow : ¬c.toNat < 0x20 := Nat.not_lt.2 hcontrol
      simp [Piece.text, readString?, ih, hlow, hbackslash, Piece.unit]
    | short letter c h =>
      -- an escape letter is not the one that announces four digits
      have hletter : letter ≠ 'u' := by
        rintro rfl
        cases h
      simp [Piece.text, readString?, ih, h, hletter, Piece.unit]
    | unicode a b c d unit h => simp [Piece.text, readString?, ih, h, Piece.unit]

/-- Code points that were read had been written as pieces. -/
theorem pieces_of_readString? {cs rest : List Char} {units : List Nat} (h : readString? cs = some (units, rest)) :
    ∃ pieces : List Piece, units = pieces.map Piece.unit ∧ cs = pieces.flatMap Piece.text ++ '"' :: rest := by
  fun_induction readString? cs generalizing units with
  | case1 => cases h
  | case2 rest' =>
    cases h
    exact ⟨[], rfl, rfl⟩
  | case3 a b c d rest' ih =>
    simp only [Option.bind_eq_bind, Option.bind_eq_some_iff] at h
    rcases h with ⟨unit, hunit, ⟨others, _⟩, hread, hresult⟩
    cases hresult
    rcases ih hread with ⟨pieces, rfl, rfl⟩
    exact ⟨.unicode a b c d unit hunit :: pieces, rfl, rfl⟩
  | case4 letter rest' _ ih =>
    simp only [Option.bind_eq_bind, Option.bind_eq_some_iff] at h
    rcases h with ⟨c, hc, ⟨others, _⟩, hread, hresult⟩
    cases hresult
    rcases ih hread with ⟨pieces, rfl, rfl⟩
    exact ⟨.short letter c hc :: pieces, rfl, rfl⟩
  | case5 => cases h
  | case6 c rest' hquote _ _ hplain ih =>
    simp only [Option.bind_eq_bind, Option.bind_eq_some_iff] at h
    rcases h with ⟨⟨others, _⟩, hread, hresult⟩
    cases hresult
    rcases ih hread with ⟨pieces, rfl, rfl⟩
    have hc : 0x20 ≤ c.toNat ∧ c ≠ '"' ∧ c ≠ '\\' := by
      simp only [Bool.or_eq_true, decide_eq_true_eq, beq_iff_eq, not_or, Nat.not_lt] at hplain
      exact ⟨hplain.1, hquote, hplain.2⟩
    exact ⟨.plain c hc :: pieces, rfl, rfl⟩

/-- A string is read back as the text that its pieces mean. -/
theorem readText?_text (pieces : List Piece) (rest : List Char) :
    readText? (pieces.flatMap Piece.text ++ '"' :: rest) = some (Piece.meaning pieces, rest) := by
  rw [readText?, readString?_text]
  rfl

/-- A string that was read had been written as pieces. -/
theorem pieces_of_readText? {cs rest : List Char} {text : Option String} (h : readText? cs = some (text, rest)) :
    ∃ pieces : List Piece, text = Piece.meaning pieces ∧ cs = pieces.flatMap Piece.text ++ '"' :: rest := by
  simp only [readText?, Option.bind_eq_bind, Option.bind_eq_some_iff] at h
  rcases h with ⟨⟨units, _⟩, hread, hresult⟩
  cases hresult
  rcases pieces_of_readString? hread with ⟨pieces, rfl, hcs⟩
  exact ⟨pieces, rfl, hcs⟩

/-! ## Numbers -/

/-- Digits are read back up to a character that is none. -/
theorem readDigits?_chars (digits : Digits) {rest : List Char} (h : Stops Char.isDigit rest) :
    readDigits? (digits.chars ++ rest) = some (digits.chars, rest) := by
  have hnil := digits.ne_nil
  rw [readDigits?, h.takeWhile_append digits.isDigit, h.dropWhile_append digits.isDigit]
  split
  · contradiction
  · rfl

/-- Digits that were read had been written. -/
theorem digits_of_readDigits? {cs rest chars : List Char} (h : readDigits? cs = some (chars, rest)) :
    ∃ digits : Digits, chars = digits.chars ∧ cs = digits.chars ++ rest := by
  unfold readDigits? at h
  split at h
  · cases h
  · rename_i hne
    cases h
    refine ⟨⟨cs.takeWhile Char.isDigit, hne, ?_⟩, rfl, List.takeWhile_append_dropWhile.symm⟩
    intro c hc
    exact List.all_eq_true.1 List.all_takeWhile c hc

/-- The part of a number before its point is read back. -/
theorem readWhole?_chars (n : Numeral) {rest : List Char} (h : Stops Char.isDigit rest) :
    readWhole? (n.whole.chars ++ rest) = some (n.whole.chars, rest) := by
  by_cases hzero : n.whole.chars.head? = some '0'
  · rw [n.lead hzero]
    cases rest with
    | nil => rfl
    | cons c rest => simp [readWhole?, stops_cons.1 h]
  · rw [readWhole?, readDigits?_chars n.whole h]
    intro rest' hrest
    cases hchars : n.whole.chars with
    | nil => exact n.whole.ne_nil hchars
    | cons c cs =>
      rw [hchars, List.cons_append, List.cons.injEq] at hrest
      rw [hchars, hrest.1] at hzero
      exact hzero rfl

/-- The part of a number before its point that was read had been written, without a leading zero. -/
theorem whole_of_readWhole? {cs rest chars : List Char} (h : readWhole? cs = some (chars, rest)) :
    ∃ whole : Digits, chars = whole.chars ∧ cs = whole.chars ++ rest ∧
      (whole.chars.head? = some '0' → whole.chars = ['0']) := by
  have hzero : ∀ c ∈ ['0'], c.isDigit = true := by simp
  unfold readWhole? at h
  split at h
  · -- a zero stands alone, whatever comes after it
    split at h
    · split at h
      · cases h
      · cases h
        exact ⟨⟨['0'], List.cons_ne_nil _ _, hzero⟩, rfl, rfl, fun _ => rfl⟩
    · cases h
      exact ⟨⟨['0'], List.cons_ne_nil _ _, hzero⟩, rfl, rfl, fun _ => rfl⟩
  · rename_i hlead
    rcases digits_of_readDigits? h with ⟨digits, hchars, hcs⟩
    refine ⟨digits, hchars, hcs, fun hhead => ?_⟩
    rcases List.head?_eq_some_iff.1 hhead with ⟨others, hothers⟩
    rw [hothers] at hcs
    exact absurd hcs (hlead _)

/-- The characters that may go on a number after its digits. -/
def continuesNumber (c : Char) : Bool :=
  c.isDigit || c == '.' || c == 'e' || c == 'E'

theorem Stops.isDigit {rest : List Char} (h : Stops continuesNumber rest) : Stops Char.isDigit rest := by
  intro c hc
  have hstop := h c hc
  simp only [continuesNumber, Bool.or_eq_false_iff] at hstop
  exact hstop.1.1.1

/-- The exponent of a number is read back. -/
theorem readExponent?_text (exponent : Option Exponent) {rest : List Char} (h : Stops continuesNumber rest) :
    readExponent? (exponentText exponent ++ rest) = some (exponentText exponent, rest) := by
  rcases exponent with _ | ⟨letter, sign, digits, hletter, hsign⟩
  · cases rest with
    | nil => rfl
    | cons c rest =>
      have hstop := stops_cons.1 h
      simp only [continuesNumber, Bool.or_eq_false_iff] at hstop
      simp [exponentText, readExponent?, hstop.1.2, hstop.2]
  · simp only [exponentText]
    have hread := readDigits?_chars digits h.isDigit
    have hmark : (letter == 'e' || letter == 'E') = true := by
      simpa using hletter
    simp only [List.mem_cons, List.not_mem_nil, or_false] at hsign
    rcases hsign with rfl | rfl | rfl
    · -- with no sign, the letter is followed by a digit, which is none
      cases hchars : digits.chars with
      | nil => exact absurd hchars digits.ne_nil
      | cons d ds =>
        have hd : d.isDigit = true := digits.isDigit d (by rw [hchars]; exact List.mem_cons_self)
        have hunsigned : (d == '+' || d == '-') = false := by
          rw [Bool.or_eq_false_iff, beq_eq_false_iff_ne, beq_eq_false_iff_ne]
          constructor
          · rintro rfl
            cases hd
          · rintro rfl
            cases hd
        rw [hchars, List.cons_append] at hread
        simp [readExponent?, hmark, hunsigned, hread]
    · simp [readExponent?, hmark, hread]
    · simp [readExponent?, hmark, hread]

/-- An exponent that was read had been written. -/
theorem exponent_of_readExponent? {cs rest chars : List Char} (h : readExponent? cs = some (chars, rest)) :
    ∃ exponent : Option Exponent, chars = exponentText exponent ∧ cs = exponentText exponent ++ rest := by
  unfold readExponent? at h
  split at h
  · rename_i letter tail
    split at h
    · rename_i hmark
      have hletter : letter ∈ ['e', 'E'] := by simpa using hmark
      split at h
      · rename_i s ds
        split at h
        · rename_i hsigned
          rcases Option.map_eq_some_iff.1 h with ⟨⟨_, _⟩, hread, hresult⟩
          cases hresult
          rcases digits_of_readDigits? hread with ⟨digits, rfl, rfl⟩
          have hsign : [s] ∈ [[], ['+'], ['-']] := by simpa using hsigned
          exact ⟨some ⟨letter, [s], digits, hletter, hsign⟩, rfl, rfl⟩
        · rcases Option.map_eq_some_iff.1 h with ⟨⟨_, _⟩, hread, hresult⟩
          cases hresult
          rcases digits_of_readDigits? hread with ⟨digits, rfl, hcs⟩
          exact ⟨some ⟨letter, [], digits, hletter, by decide⟩, rfl, congrArg (letter :: ·) hcs⟩
      · cases h
    · cases h
      exact ⟨none, rfl, rfl⟩
  · cases h
    exact ⟨none, rfl, rfl⟩

/-- The part of a number after its point is read back. -/
theorem readFraction?_text (fraction : Option Digits) {rest : List Char} (hdigit : Stops Char.isDigit rest)
    (hpoint : Stops (· == '.') rest) :
    readFraction? (fractionText fraction ++ rest) = some (fractionText fraction, rest) := by
  cases fraction with
  | some digits => simp [fractionText, readFraction?, readDigits?_chars digits hdigit]
  | none =>
    rw [fractionText, List.nil_append]
    unfold readFraction?
    split
    · cases stops_cons.1 hpoint
    · rfl

/-- A part after a point that was read had been written. -/
theorem fraction_of_readFraction? {cs rest chars : List Char} (h : readFraction? cs = some (chars, rest)) :
    ∃ fraction : Option Digits, chars = fractionText fraction ∧ cs = fractionText fraction ++ rest := by
  unfold readFraction? at h
  split at h
  · rcases Option.map_eq_some_iff.1 h with ⟨⟨_, _⟩, hread, hresult⟩
    cases hresult
    rcases digits_of_readDigits? hread with ⟨digits, rfl, rfl⟩
    exact ⟨some digits, rfl, rfl⟩
  · cases h
    exact ⟨none, rfl, rfl⟩

/-- An exponent begins with its letter. -/
theorem stops_exponentText (exponent : Option Exponent) {p : Char → Bool} {rest : List Char} (h : Stops p rest)
    (he : p 'e' = false) (hE : p 'E' = false) : Stops p (exponentText exponent ++ rest) := by
  cases exponent with
  | some e =>
    have hletter := e.letter_mem
    simp only [List.mem_cons, List.not_mem_nil, or_false] at hletter
    rw [exponentText, List.cons_append, stops_cons]
    rcases hletter with hletter | hletter
    · rw [hletter]
      exact he
    · rw [hletter]
      exact hE
  | none => exact h

/-- A number is read back as it is written. -/
theorem readNumber?_text (n : Numeral) {rest : List Char} (h : Stops continuesNumber rest) :
    readNumber? (n.text ++ rest) = some (String.ofList n.text, rest) := by
  have hpoint : Stops (· == '.') rest := by
    intro c hc
    have hstop := h c hc
    simp only [continuesNumber, Bool.or_eq_false_iff] at hstop
    exact hstop.1.1.2
  have hexponent := readExponent?_text n.exponent h
  have hfraction := readFraction?_text n.fraction (stops_exponentText n.exponent h.isDigit (by decide) (by decide))
    (stops_exponentText n.exponent hpoint (by decide) (by decide))
  have hdigit : Stops Char.isDigit (fractionText n.fraction ++ (exponentText n.exponent ++ rest)) := by
    cases n.fraction with
    | some digits => exact stops_cons.2 (by decide)
    | none => exact stops_exponentText n.exponent h.isDigit (by decide) (by decide)
  have hwhole := readWhole?_chars n hdigit
  unfold readNumber? Numeral.text
  simp only [List.append_assoc]
  cases n.negative with
  | true => simp [hwhole, hfraction, hexponent]
  | false =>
    -- a number without a sign begins with a digit
    have hsign : ∀ tail,
        n.whole.chars ++ (fractionText n.fraction ++ (exponentText n.exponent ++ rest)) ≠ '-' :: tail := by
      intro tail htail
      cases hchars : n.whole.chars with
      | nil => exact n.whole.ne_nil hchars
      | cons d ds =>
        have hd : d.isDigit = true := n.whole.isDigit d (by rw [hchars]; exact List.mem_cons_self)
        rw [hchars, List.cons_append, List.cons.injEq] at htail
        rw [htail.1] at hd
        cases hd
    simp [hwhole, hfraction, hexponent]

/-- A number that was read had been written. -/
theorem numeral_of_readNumber? {cs rest : List Char} {literal : String} (h : readNumber? cs = some (literal, rest)) :
    ∃ n : Numeral, literal = String.ofList n.text ∧ cs = n.text ++ rest := by
  unfold readNumber? at h
  split at h
  rename_i sign unsigned hsplit
  have hsign : ∃ negative : Bool, sign = (if negative then ['-'] else []) ∧ cs = sign ++ unsigned := by
    split at hsplit
    · cases hsplit
      exact ⟨true, rfl, rfl⟩
    · cases hsplit
      exact ⟨false, rfl, rfl⟩
  rcases hsign with ⟨negative, hsign, hcs⟩
  simp only [Option.bind_eq_bind, Option.bind_eq_some_iff] at h
  rcases h with ⟨⟨_, _⟩, hwhole, ⟨_, _⟩, hfraction, ⟨_, _⟩, hexponent, hresult⟩
  cases hresult
  rcases whole_of_readWhole? hwhole with ⟨whole, rfl, rfl, hlead⟩
  rcases fraction_of_readFraction? hfraction with ⟨fraction, rfl, rfl⟩
  rcases exponent_of_readExponent? hexponent with ⟨exponent, rfl, rfl⟩
  refine ⟨⟨negative, whole, fraction, exponent, hlead⟩, ?_, ?_⟩
  · rw [Numeral.text, hsign]
  · rw [hcs, Numeral.text, hsign]
    simp only [List.append_assoc]

/-- A number begins with its sign or a digit. -/
theorem Numeral.text_eq_cons (n : Numeral) : ∃ c tail, n.text = c :: tail ∧ (c = '-' ∨ c.isDigit = true) := by
  unfold Numeral.text
  cases n.negative with
  | true => exact ⟨'-', _, rfl, .inl rfl⟩
  | false =>
    cases hchars : n.whole.chars with
    | nil => exact absurd hchars n.whole.ne_nil
    | cons c tail => exact ⟨c, _, rfl, .inr (n.whole.isDigit c (by rw [hchars]; exact List.mem_cons_self))⟩

/-! ## Values -/

/-- Characters that stand where a value begins. -/
def startsValue (c : Char) : Bool :=
  c == 'n' || c == 't' || c == 'f' || c == '"' || c == '[' || c == '\x7b' || c == '-' || c.isDigit

/-- A value begins with a character that tells its kind. -/
theorem Written.text_eq_cons (w : Written) : ∃ c tail, w.text = c :: tail ∧ startsValue c = true := by
  cases w with
  | bool value =>
    cases value with
    | true => exact ⟨_, _, rfl, rfl⟩
    | false => exact ⟨_, _, rfl, rfl⟩
  | number n =>
    rcases n.text_eq_cons with ⟨c, tail, htext, hc⟩
    refine ⟨c, tail, htext, ?_⟩
    rcases hc with rfl | hc
    · rfl
    · simp [startsValue, hc]
  | _ => exact ⟨_, _, rfl, rfl⟩

/-- What begins a value is no blank and closes no bracket. -/
theorem not_isSpace_of_startsValue {c : Char} (h : startsValue c = true) :
    isSpace c = false ∧ c ≠ ']' := by
  constructor
  · rw [Bool.eq_false_iff]
    intro hspace
    simp only [isSpace, Bool.or_eq_true, beq_iff_eq] at hspace
    rcases hspace with ((rfl | rfl) | rfl) | rfl
    all_goals
      revert h
      decide
  · rintro rfl
    revert h
    decide

/-- A number is read where a value is expected. -/
theorem readValue?_number {fuel : Nat} {cs : List Char} {c : Char} (hc : c = '-' ∨ c.isDigit = true) :
    readValue? (fuel + 1) (c :: cs) =
      (readNumber? (c :: cs)).bind fun (literal, rest) => some (.number literal, rest) := by
  unfold readValue?
  split
  case h_7 => rfl
  all_goals
    rename_i heq
    rw [List.cons.injEq] at heq
    rw [heq.1] at hc
    exact absurd hc (by decide)

theorem WrittenItems.text_eq_cons (items : WrittenItems) : ∃ c tail, items.text = c :: tail ∧ startsValue c = true := by
  cases items with
  | last item after =>
    rcases item.text_eq_cons with ⟨c, tail, htext, hc⟩
    exact ⟨c, _, by rw [WrittenItems.text, htext]; rfl, hc⟩
  | more item after before rest =>
    rcases item.text_eq_cons with ⟨c, tail, htext, hc⟩
    exact ⟨c, _, by rw [WrittenItems.text, htext]; rfl, hc⟩

theorem WrittenMembers.text_eq_cons (members : WrittenMembers) : ∃ tail, members.text = '"' :: tail := by
  cases members with
  | last name beforeColon afterColon value after => exact ⟨_, rfl⟩
  | more name beforeColon afterColon value after before rest => exact ⟨_, rfl⟩

/-- Blanks before a value are passed over. -/
theorem skipSpace_value (b : Blanks) (w : Written) (rest : List Char) :
    skipSpace (b.chars ++ (w.text ++ rest)) = w.text ++ rest := by
  rcases w.text_eq_cons with ⟨c, tail, htext, hc⟩
  rw [htext]
  exact skipSpace_cons b (tail ++ rest) (not_isSpace_of_startsValue hc).1

/-- Blanks before items are passed over. -/
theorem skipSpace_items (b : Blanks) (items : WrittenItems) (rest : List Char) :
    skipSpace (b.chars ++ (items.text ++ rest)) = items.text ++ rest := by
  rcases items.text_eq_cons with ⟨c, tail, htext, hc⟩
  rw [htext]
  exact skipSpace_cons b (tail ++ rest) (not_isSpace_of_startsValue hc).1

/-- Blanks before members are passed over. -/
theorem skipSpace_members (b : Blanks) (members : WrittenMembers) (rest : List Char) :
    skipSpace (b.chars ++ (members.text ++ rest)) = members.text ++ rest := by
  rcases members.text_eq_cons with ⟨tail, htext⟩
  rw [htext]
  exact skipSpace_cons b (tail ++ rest) (by decide)

/-- No blank goes on a number. -/
theorem continuesNumber_of_isSpace {c : Char} (h : isSpace c = true) : continuesNumber c = false := by
  simp only [isSpace, Bool.or_eq_true, beq_iff_eq] at h
  rcases h with ((rfl | rfl) | rfl) | rfl
  all_goals decide

/-- Behind a value there are blanks and then a comma or bracket, so a number ends there. -/
theorem stops_after (after : Blanks) (c : Char) (rest : List Char) (hc : continuesNumber c = false) :
    Stops continuesNumber (after.chars ++ c :: rest) :=
  stops_append_cons (fun x hx => continuesNumber_of_isSpace (after.blank x hx)) hc

mutual

/-- A value is read back as it was meant, whatever follows it. -/
theorem readValue?_text (w : Written) (fuel : Nat) (rest : List Char) (hfuel : w.text.length ≤ fuel)
    (h : Stops continuesNumber rest) : readValue? fuel (w.text ++ rest) = some (w.value, rest) := by
  -- the induction is on the tree; the fuel only has to last for the text
  cases fuel with
  | zero =>
    rcases w.text_eq_cons with ⟨c, tail, htext, _⟩
    rw [htext] at hfuel
    cases hfuel
  | succ fuel =>
    match w with
    | .null => rfl
    | .bool true => rfl
    | .bool false => rfl
    | .number n =>
      rcases n.text_eq_cons with ⟨c, tail, htext, hc⟩
      have hread := readNumber?_text n h
      simp only [Written.text, Written.value]
      rw [htext, List.cons_append] at hread ⊢
      rw [readValue?_number hc, hread]
      rfl
    | .string pieces =>
      simp [Written.text, Piece.quote, readValue?, readText?_text, Written.value]
    | .emptyArray inside =>
      have hskip := skipSpace_cons inside (c := ']') rest (by decide)
      simp [Written.text, readValue?, hskip, Written.value]
    | .emptyObject inside =>
      have hskip := skipSpace_cons inside (c := '\x7d') rest (by decide)
      simp [Written.text, readValue?, hskip, Written.value]
    | .array before items =>
      have hlength : items.text.length ≤ fuel := by
        simp only [Written.text, List.length_cons, List.length_append] at hfuel
        omega
      have hitems := readItems?_text items fuel rest hlength
      have hskip := skipSpace_items before items rest
      rcases items.text_eq_cons with ⟨c, tail, htext, hc⟩
      have hopen := (not_isSpace_of_startsValue hc).2
      simp only [Written.text, List.cons_append, List.append_assoc, readValue?, hskip, Written.value]
      rw [htext, List.cons_append] at hitems ⊢
      split
      · rename_i heq
        exact absurd (List.cons.inj heq).1 hopen
      · rw [hitems]
        rfl
    | .object before members =>
      have hlength : members.text.length ≤ fuel := by
        simp only [Written.text, List.length_cons, List.length_append] at hfuel
        omega
      have hmembers := readMembers?_text members fuel rest hlength
      have hskip := skipSpace_members before members rest
      rcases members.text_eq_cons with ⟨tail, htext⟩
      simp only [Written.text, List.cons_append, List.append_assoc, readValue?, hskip, Written.value]
      rw [htext, List.cons_append] at hmembers ⊢
      simp [hmembers]

/-- Items are read back up to their closing bracket. -/
theorem readItems?_text (items : WrittenItems) (fuel : Nat) (rest : List Char) (hfuel : items.text.length ≤ fuel) :
    readItems? fuel (items.text ++ rest) = some (items.values, rest) := by
  cases fuel with
  | zero =>
    rcases items.text_eq_cons with ⟨c, tail, htext, _⟩
    rw [htext] at hfuel
    cases hfuel
  | succ fuel =>
    match items with
    | .last item after =>
      simp only [WrittenItems.text, List.length_append, List.length_cons, List.length_nil] at hfuel
      have hitem := readValue?_text item fuel _ (by omega)
        (stops_after after ']' rest (by decide))
      have hskip := skipSpace_cons after (c := ']') rest (by decide)
      simp [WrittenItems.text, readItems?, hitem, hskip, WrittenItems.values]
    | .more item after before others =>
      simp only [WrittenItems.text, List.length_append, List.length_cons] at hfuel
      have hitem := readValue?_text item fuel _ (by omega)
        (stops_after after ',' (before.chars ++ (others.text ++ rest)) (by decide))
      have hskip := skipSpace_cons after (c := ',') (before.chars ++ (others.text ++ rest)) (by decide)
      have hothers := readItems?_text others fuel rest (by omega)
      simp [WrittenItems.text, readItems?, hitem, hskip, skipSpace_items, hothers, WrittenItems.values]

/-- Members are read back up to their closing bracket. -/
theorem readMembers?_text (members : WrittenMembers) (fuel : Nat) (rest : List Char)
    (hfuel : members.text.length ≤ fuel) :
    readMembers? fuel (members.text ++ rest) = some (members.values, rest) := by
  cases fuel with
  | zero =>
    rcases members.text_eq_cons with ⟨tail, htext⟩
    rw [htext] at hfuel
    cases hfuel
  | succ fuel =>
    match members with
    | .last name beforeColon afterColon value after =>
      simp only [WrittenMembers.text, List.length_append, List.length_cons, List.length_nil] at hfuel
      have hcolon : ∀ tail, skipSpace (beforeColon.chars ++ ':' :: tail) = ':' :: tail :=
        fun tail => skipSpace_cons beforeColon tail (by decide)
      have hvalue := readValue?_text value fuel _ (by omega)
        (stops_after after '\x7d' rest (by decide))
      have hskip := skipSpace_cons after (c := '\x7d') rest (by decide)
      simp [WrittenMembers.text, Piece.quote, readMembers?, readText?_text, hcolon, skipSpace_value, hvalue, hskip,
        WrittenMembers.values]
    | .more name beforeColon afterColon value after before others =>
      simp only [WrittenMembers.text, List.length_append, List.length_cons] at hfuel
      have hcolon : ∀ tail, skipSpace (beforeColon.chars ++ ':' :: tail) = ':' :: tail :=
        fun tail => skipSpace_cons beforeColon tail (by decide)
      have hvalue := readValue?_text value fuel _ (by omega)
        (stops_after after ',' (before.chars ++ (others.text ++ rest)) (by decide))
      have hskip := skipSpace_cons after (c := ',') (before.chars ++ (others.text ++ rest)) (by decide)
      have hothers := readMembers?_text others fuel rest (by omega)
      simp [WrittenMembers.text, Piece.quote, readMembers?, readText?_text, hcolon, skipSpace_value, hvalue, hskip,
        skipSpace_members, hothers, WrittenMembers.values]

end

mutual

/-- A value that was read had been written. -/
theorem written_of_readValue? (fuel : Nat) {cs rest : List Char} {value : Json}
    (h : readValue? fuel cs = some (value, rest)) : ∃ w : Written, value = w.value ∧ cs = w.text ++ rest := by
  match fuel with
  | 0 => cases h
  | fuel + 1 =>
    -- the first character tells the kind of the value
    unfold readValue? at h
    split at h
    · cases h
      exact ⟨.null, rfl, rfl⟩
    · cases h
      exact ⟨.bool true, rfl, rfl⟩
    · cases h
      exact ⟨.bool false, rfl, rfl⟩
    · -- a quote
      simp only [Option.bind_eq_bind, Option.bind_eq_some_iff] at h
      rcases h with ⟨⟨_, _⟩, hread, hresult⟩
      cases hresult
      rcases pieces_of_readText? hread with ⟨pieces, rfl, rfl⟩
      exact ⟨.string pieces, rfl, by simp [Written.text, Piece.quote]⟩
    · -- a bracket: of an empty array, or of its items
      rename_i tail
      rcases exists_blanks tail with ⟨before, htail⟩
      split at h
      · rename_i hskip
        cases h
        rw [hskip] at htail
        exact ⟨.emptyArray before, rfl, by simp [Written.text, htail]⟩
      · simp only [Option.bind_eq_bind, Option.bind_eq_some_iff] at h
        rcases h with ⟨⟨_, _⟩, hread, hresult⟩
        cases hresult
        rcases items_of_readItems? fuel hread with ⟨items, rfl, hitems⟩
        rw [hitems] at htail
        exact ⟨.array before items, rfl, by simp [Written.text, htail]⟩
    · -- a brace: of an empty object, or of its members
      rename_i tail
      rcases exists_blanks tail with ⟨before, htail⟩
      split at h
      · rename_i hskip
        cases h
        rw [hskip] at htail
        exact ⟨.emptyObject before, rfl, by simp [Written.text, htail]⟩
      · simp only [Option.bind_eq_bind, Option.bind_eq_some_iff] at h
        rcases h with ⟨⟨_, _⟩, hread, hresult⟩
        cases hresult
        rcases members_of_readMembers? fuel hread with ⟨members, rfl, hmembers⟩
        rw [hmembers] at htail
        exact ⟨.object before members, rfl, by simp [Written.text, htail]⟩
    · -- anything else has to be a number
      simp only [Option.bind_eq_bind, Option.bind_eq_some_iff] at h
      rcases h with ⟨⟨_, _⟩, hread, hresult⟩
      cases hresult
      rcases numeral_of_readNumber? hread with ⟨n, rfl, rfl⟩
      exact ⟨.number n, rfl, rfl⟩

/-- Items that were read had been written. -/
theorem items_of_readItems? (fuel : Nat) {cs rest : List Char} {values : List Json}
    (h : readItems? fuel cs = some (values, rest)) :
    ∃ items : WrittenItems, values = items.values ∧ cs = items.text ++ rest := by
  match fuel with
  | 0 => cases h
  | fuel + 1 =>
    simp only [readItems?, Option.bind_eq_bind, Option.bind_eq_some_iff] at h
    rcases h with ⟨⟨_, tail⟩, hitem, h⟩
    rcases written_of_readValue? fuel hitem with ⟨item, rfl, rfl⟩
    rcases exists_blanks tail with ⟨after, htail⟩
    dsimp only at h
    split at h
    · rename_i hskip
      cases h
      rw [hskip] at htail
      exact ⟨.last item after, rfl, by simp [WrittenItems.text, htail]⟩
    · rename_i others hskip
      rcases exists_blanks others with ⟨before, hothers⟩
      simp only [Option.bind_eq_some_iff] at h
      rcases h with ⟨⟨_, _⟩, hread, hresult⟩
      cases hresult
      rcases items_of_readItems? fuel hread with ⟨items, rfl, hitems⟩
      rw [hitems] at hothers
      rw [hskip, hothers] at htail
      exact ⟨.more item after before items, rfl, by simp [WrittenItems.text, htail]⟩
    · cases h

/-- Members that were read had been written. -/
theorem members_of_readMembers? (fuel : Nat) {cs rest : List Char} {values : List (Option String × Json)}
    (h : readMembers? fuel cs = some (values, rest)) :
    ∃ members : WrittenMembers, values = members.values ∧ cs = members.text ++ rest := by
  match fuel with
  | 0 => cases h
  | fuel + 1 =>
    unfold readMembers? at h
    split at h
    · simp only [Option.bind_eq_bind, Option.bind_eq_some_iff] at h
      rcases h with ⟨⟨_, colon⟩, hname, h⟩
      rcases pieces_of_readText? hname with ⟨name, rfl, rfl⟩
      rcases exists_blanks colon with ⟨beforeColon, hcolon⟩
      dsimp only at h
      split at h
      · rename_i behind hskip
        rw [hskip] at hcolon
        rcases exists_blanks behind with ⟨afterColon, hbehind⟩
        simp only [Option.bind_eq_some_iff] at h
        rcases h with ⟨⟨_, tail⟩, hvalue, h⟩
        rcases written_of_readValue? fuel hvalue with ⟨value, rfl, htext⟩
        rw [htext] at hbehind
        rcases exists_blanks tail with ⟨after, htail⟩
        dsimp only at h
        split at h
        · rename_i hclose
          cases h
          rw [hclose] at htail
          exact ⟨.last name beforeColon afterColon value after, rfl,
            by simp [WrittenMembers.text, Piece.quote, hcolon, hbehind, htail]⟩
        · rename_i others hcomma
          rcases exists_blanks others with ⟨before, hothers⟩
          simp only [Option.bind_eq_some_iff] at h
          rcases h with ⟨⟨_, _⟩, hread, hresult⟩
          cases hresult
          rcases members_of_readMembers? fuel hread with ⟨members, rfl, hmembers⟩
          rw [hmembers] at hothers
          rw [hcomma, hothers] at htail
          exact ⟨.more name beforeColon afterColon value after before members, rfl,
            by simp [WrittenMembers.text, Piece.quote, hcolon, hbehind, htail]⟩
        · cases h
      · cases h
    · cases h

end

/-! ## Texts -/

/-- A text is a way to write a value, with blanks around it. -/
def Writes (s : String) (w : Written) : Prop :=
  ∃ before after : Blanks, s.toList = before.chars ++ (w.text ++ after.chars)

/-- A text is read as a value exactly if it is a way to write that value. -/
theorem parse?_eq_some_iff (s : String) (value : Json) :
    parse? s = some value ↔ ∃ w : Written, Writes s w ∧ w.value = value := by
  constructor
  · intro h
    unfold parse? at h
    rcases exists_blanks s.toList with ⟨before, hbefore⟩
    dsimp only at h
    split at h
    · rename_i _ rest hread
      split at h
      · rename_i hempty
        cases h
        rcases written_of_readValue? _ hread with ⟨w, rfl, htext⟩
        rcases exists_blanks rest with ⟨after, hafter⟩
        rw [List.isEmpty_iff.1 hempty, List.append_nil] at hafter
        rw [htext, hafter] at hbefore
        exact ⟨w, ⟨before, after, hbefore⟩, rfl⟩
      · cases h
    · cases h
  · rintro ⟨w, ⟨before, after, htext⟩, rfl⟩
    have hstops : Stops continuesNumber after.chars := by
      intro c hc
      exact continuesNumber_of_isSpace (after.blank c (List.mem_of_mem_head? hc))
    have hlength : w.text.length ≤ s.toList.length + 1 := by
      rw [htext]
      simp only [List.length_append]
      omega
    have hread := readValue?_text w _ _ hlength hstops
    have hafter : skipSpace after.chars = [] := by
      have hskip := skipSpace_append after (stops_nil isSpace)
      rwa [List.append_nil] at hskip
    have hskip : skipSpace s.toList = w.text ++ after.chars := by
      rw [htext, skipSpace_value]
    simp [parse?, hskip, hread, hafter]

/-- What is written is read back as it was meant. -/
theorem parse?_of_writes {s : String} {w : Written} (h : Writes s w) : parse? s = some w.value :=
  (parse?_eq_some_iff s w.value).2 ⟨w, h, rfl⟩

end Sidecar.Json
