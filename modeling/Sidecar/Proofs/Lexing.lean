import Sidecar.Proofs.Printable
import Sidecar.Proofs.Quoting
import Sidecar.Proofs.Spacing

/-!
# The tokens of a JSON text

A portable JSON text has the tokens of the object that it holds. The main statement is `tokens?_of_portable`.

The lexer goes from token to token. `Reads` says that it gets from one place of the text to another and what tokens it
adds on its way; such ways are put together (`Reads.append`). Each token has its lemma, and a value is read along its
tree (`reads_value`). Between brackets neither blocks nor indentation matter, and no possible key has to be one.
-/

namespace Sidecar.Yaml.Lexer

open Json (Blanks Piece Stops stops_cons)

/-! ## Ways -/

/-- The lexer reads tokens and then has these characters left, between as many open brackets. It takes no more steps
than it passes over characters. -/
structure Reads (l : Lexer) (ts : List Token) (rest : List Char) (depth : Nat) (l' : Lexer) : Prop where
  run_eq : ∃ n, n + l'.cursor.rest.length ≤ l.cursor.rest.length ∧ ∀ fuel, run (n + fuel) l = run fuel l'
  tidy : Tidy l'
  tokens : l'.tokens = ts.reverse ++ l.tokens
  depth : l'.outerKeyMarks.length = depth
  rest : l'.cursor.rest = rest

/-- Ways are put together. -/
theorem Reads.append {l l' l'' : Lexer} {ts ts' : List Token} {rest rest' : List Char} {depth depth' : Nat}
    (h : Reads l ts rest depth l') (h' : Reads l' ts' rest' depth' l'') : Reads l (ts ++ ts') rest' depth' l'' := by
  rcases h.run_eq with ⟨n, hn, hrun⟩
  rcases h'.run_eq with ⟨m, hm, hrun'⟩
  refine ⟨⟨n + m, by omega, ?_⟩, h'.tidy, ?_, h'.depth, h'.rest⟩
  · intro fuel
    rw [Nat.add_assoc, hrun, hrun']
  · rw [h'.tokens, h.tokens, List.reverse_append, List.append_assoc]

/-- The lexer reads the tokens that begin here. -/
structure Takes (l : Lexer) (ts : List Token) (rest : List Char) (depth : Nat) (l' : Lexer) : Prop where
  next_eq : l.next = some l'
  shorter : l'.cursor.rest.length < l.cursor.rest.length
  tidy : Tidy l'
  tokens : l'.tokens = ts.reverse ++ l.tokens
  depth : l'.outerKeyMarks.length = depth
  rest : l'.cursor.rest = rest

/-- Blanks and the tokens behind them are a way of one step. -/
theorem Settles.reads {l l₁ l₂ : Lexer} {c : Char} {tail rest : List Char} {ts : List Token} {depth : Nat}
    (h : Settles l (c :: tail) l₁) (htakes : Takes l₁ ts rest depth l₂) : Reads l ts rest depth l₂ := by
  have hlength := h.shorter
  have hshorter := htakes.shorter
  refine ⟨⟨1, by omega, ?_⟩, htakes.tidy, ?_, htakes.depth, htakes.rest⟩
  · intro fuel
    have hend : l₁.cursor.atEnd = false := by
      rw [Cursor.atEnd, h.rest]
      rfl
    rw [Nat.add_comm, h.run_eq, hend, htakes.next_eq]
    rfl
  · rw [htakes.tokens, h.tokens]

/-- Where tokens begin behind blanks, the lexer reads them if it does so without the blanks. -/
theorem exists_reads {l : Lexer} (h : Tidy l) {b : Blanks} {c : Char} {tail rest : List Char} {ts : List Token}
    {depth : Nat} {P : Lexer → Prop} (hrest : l.cursor.rest = b.chars ++ c :: tail) (hgap : isGap c = false)
    (htabs : l.TabsPass b.chars)
    (htakes : ∀ l₁, Settles l (c :: tail) l₁ → ∃ l₂, Takes l₁ ts rest depth l₂ ∧ P l₂) :
    ∃ l', Reads l ts rest depth l' ∧ P l' := by
  rcases exists_settles h b.blank hrest (stops_cons.2 hgap) htabs with ⟨l₁, hsettles, _⟩
  rcases htakes l₁ hsettles with ⟨l₂, hl₂, hP⟩
  exact ⟨l₂, hsettles.reads hl₂, hP⟩

/-! ## Brackets, commas and colons -/

theorem next_bracket {l : Lexer} {tail : List Char} :
    (l.cursor.rest = '[' :: tail → l.next = l.openFlow .flowSequenceStart) ∧
    (l.cursor.rest = '\x7b' :: tail → l.next = l.openFlow .flowMappingStart) ∧
    (l.cursor.rest = ']' :: tail → l.next = l.closeFlow .flowSequenceEnd) ∧
    (l.cursor.rest = '\x7d' :: tail → l.next = l.closeFlow .flowMappingEnd) ∧
    (l.cursor.rest = ',' :: tail → l.next = l.flowEntry) ∧
    (l.cursor.rest = '"' :: tail → l.next = l.quotedScalar false) := by
  refine ⟨?_, ?_, ?_, ?_, ?_, ?_⟩
  all_goals
    intro h
    simp [next, Cursor.seesMark, Cursor.sees_cons h]

theorem next_colon {l : Lexer} {tail : List Char} (hflow : l.inFlow = true) (h : l.cursor.rest = ':' :: tail) :
    l.next = l.valueMark := by
  simp [next, Cursor.seesMark, Cursor.sees_cons h, hflow]

/-- The lexer with a possible key here, if a key may begin here. -/
def marked (l : Lexer) : Lexer :=
  { l with
    keyMark := if l.keyAllowed then
      some ⟨l.count, false, l.cursor.index, l.cursor.line, l.cursor.column⟩ else l.keyMark }

@[simp] theorem marked_cursor (l : Lexer) : l.marked.cursor = l.cursor := rfl

theorem markKey_eq {l : Lexer} (h : Tidy l) : l.markKey = some l.marked := by
  -- a key would have to begin here only in a block
  have hindent : (l.indent == (l.cursor.column : Int)) = false := by
    rw [h.indent, beq_eq_false_iff_ne]
    omega
  rw [markKey, marked, dropKey_eq h, hindent, Bool.and_false]
  cases hallowed : l.keyAllowed with
  | true => simp
  | false =>
    rcases l with ⟨cursor, tokens, count, indent, outerIndents, keyAllowed, keyMark, outerKeyMarks⟩
    cases hallowed
    rfl

theorem marked_tidy {l : Lexer} (h : Tidy l) : Tidy l.marked := by
  refine ⟨h.count, h.indent, ?_, h.outerOptional⟩
  intro mark hmark
  have hcases : mark ∈ (if l.keyAllowed then
    some ⟨l.count, false, l.cursor.index, l.cursor.line, l.cursor.column⟩ else l.keyMark) := hmark
  split at hcases
  · cases hcases
    rfl
  · exact h.optional mark hcases

theorem indicator_rest {l : Lexer} {c : Char} {tail : List Char} (token : Token) (hrest : l.cursor.rest = c :: tail) :
    (l.indicator token).cursor.rest = tail := by
  show (l.cursor.skip).rest = tail
  rw [Cursor.skip_rest, hrest]
  rfl

/-- An opening bracket is read. Behind it a key may begin. -/
theorem takes_open {l : Lexer} (h : Tidy l) {c : Char} {tail : List Char} {token : Token}
    (hrest : l.cursor.rest = c :: tail) (hnext : l.next = l.openFlow token) :
    ∃ l', Takes l [token] tail (l.outerKeyMarks.length + 1) l' ∧ l'.keyAllowed = true := by
  have hmarked := marked_tidy h
  have hplace : (l.marked.indicator token).cursor.rest = tail :=
    indicator_rest token (by rw [marked_cursor, hrest])
  refine ⟨{ l.marked.indicator token with
    keyAllowed := true, keyMark := none, outerKeyMarks := l.marked.keyMark :: l.marked.outerKeyMarks },
    ⟨?_, ?_, ?_, rfl, rfl, hplace⟩, rfl⟩
  · rw [hnext, openFlow, markKey_eq h]
    rfl
  · rw [hrest]
    exact Nat.lt_succ_of_le (Nat.le_of_eq (congrArg List.length hplace))
  · refine ⟨congrArg (· + 1) hmarked.count, hmarked.indent, ?_, ?_⟩
    · intro mark hmark
      cases hmark
    · intro m hm
      rcases List.mem_cons.1 hm with rfl | hm
      · exact hmarked.optional
      · exact hmarked.outerOptional m hm

/-- A closing bracket is read. -/
theorem takes_close {l : Lexer} (h : Tidy l) {c : Char} {tail : List Char} {token : Token} {depth : Nat}
    (hrest : l.cursor.rest = c :: tail) (hnext : l.next = l.closeFlow token)
    (hdepth : l.outerKeyMarks.length = depth + 1) : ∃ l', Takes l [token] tail depth l' ∧ l'.keyAllowed = false := by
  have hplace : (l.indicator token).cursor.rest = tail := indicator_rest token hrest
  cases hmarks : l.outerKeyMarks with
  | nil =>
    rw [hmarks] at hdepth
    cases hdepth
  | cons mark outer =>
    refine ⟨{ l.indicator token with keyAllowed := false, keyMark := mark, outerKeyMarks := outer },
      ⟨?_, ?_, ?_, rfl, ?_, hplace⟩, rfl⟩
    · rw [hnext, closeFlow, dropKey_eq h]
      simp [indicator, push, goTo, hmarks]
    · rw [hrest]
      exact Nat.lt_succ_of_le (Nat.le_of_eq (congrArg List.length hplace))
    · have houter := h.outerOptional
      rw [hmarks] at houter
      refine ⟨congrArg (· + 1) h.count, h.indent, houter mark List.mem_cons_self, ?_⟩
      exact fun m hm => houter m (List.mem_cons_of_mem mark hm)
    · rw [hmarks, List.length_cons] at hdepth
      exact Nat.succ.inj hdepth

/-- A comma is read. Behind it a key may begin. -/
theorem takes_comma {l : Lexer} (h : Tidy l) {tail : List Char} (hrest : l.cursor.rest = ',' :: tail) :
    ∃ l', Takes l [.flowEntry] tail l.outerKeyMarks.length l' ∧ l'.keyAllowed = true := by
  have hplace : (l.indicator .flowEntry).cursor.rest = tail := indicator_rest .flowEntry hrest
  refine ⟨{ l.indicator .flowEntry with keyMark := none, keyAllowed := true },
    ⟨?_, ?_, ?_, rfl, rfl, hplace⟩, rfl⟩
  · rw [next_bracket.2.2.2.2.1 hrest, flowEntry, dropKey_eq h]
    rfl
  · rw [hrest]
    exact Nat.lt_succ_of_le (Nat.le_of_eq (congrArg List.length hplace))
  · refine ⟨congrArg (· + 1) h.count, h.indent, ?_, h.outerOptional⟩
    intro mark hmark
    cases hmark

/-! ## Scalars -/

/-- A string is read, as a key if it turns out to be one. Where it stands on one line, it is just passed over. -/
theorem next_string {l : Lexer} (h : Tidy l) {pieces : List Piece} (hp : pieces.all Piece.isPortable = true)
    (hkeeps : Piece.keepsSeparators pieces = true) {tail : List Char}
    (hrest : l.cursor.rest = Piece.quote pieces ++ tail) :
    ∃ c, l.next = some { l.marked with
        tokens := Piece.token pieces :: l.tokens
        count := l.count + 1
        cursor := c
        keyAllowed := false } ∧
      c.rest = tail ∧
      ((∀ x ∈ Piece.quote pieces, isBreak x = false) → c = l.cursor.skip (Piece.quote pieces).length) := by
  have hopen : l.cursor.rest = '"' :: (pieces.flatMap Piece.text ++ '"' :: tail) := by
    rw [hrest, Piece.quote, List.cons_append, List.append_assoc]
    rfl
  have hplace : l.cursor.skip.rest = pieces.flatMap Piece.text ++ '"' :: tail := by
    rw [Cursor.skip_rest, hopen]
    rfl
  have hfuel : (pieces.flatMap Piece.text).length < l.cursor.skip.rest.length + 1 := by
    rw [hplace, List.length_append]
    omega
  have hmark : l.cursor.skip.seesDocumentMark = false := by
    apply Cursor.seesDocumentMark_of_column
    rw [Cursor.skip_column]
    omega
  rcases readQuoted_text pieces hp hkeeps _ l.cursor.skip tail hfuel hmark hplace with ⟨c, hread, hbehind, hinline⟩
  refine ⟨c, ?_, hbehind, ?_⟩
  · rw [next_bracket.2.2.2.2.2 hopen, quotedScalar, markKey_eq h]
    simp only [Option.bind_eq_bind, Option.bind_some, marked_cursor, hread, Piece.token, meaning_eq hp,
      Option.getD_some]
    rfl
  · intro hnone
    have hlength : (Piece.quote pieces).length = 1 + ((pieces.flatMap Piece.text).length + 1) := by
      rw [Piece.quote, List.length_cons, List.length_append, List.length_singleton, Nat.add_comm]
    rw [hinline fun x hx => hnone x (List.mem_cons_of_mem _ (List.mem_append_left _ hx)), Cursor.skip_skip, hlength]

/-- A string is read, as a key if it turns out to be one. Where it stands on one line, it is just passed over. -/
theorem takes_string {l : Lexer} (h : Tidy l) {pieces : List Piece} (hp : pieces.all Piece.isPortable = true)
    (hkeeps : Piece.keepsSeparators pieces = true) {tail : List Char}
    (hrest : l.cursor.rest = Piece.quote pieces ++ tail) :
    ∃ l', Takes l [Piece.token pieces] tail l.outerKeyMarks.length l' ∧ l'.keyMark = l.marked.keyMark ∧
      ((∀ x ∈ Piece.quote pieces, isBreak x = false) → l'.cursor = l.cursor.skip (Piece.quote pieces).length) := by
  have hmarked := marked_tidy h
  rcases next_string h hp hkeeps hrest with ⟨c, hnext, hplace, hinline⟩
  refine ⟨_, ⟨hnext, ?_, ?_, rfl, rfl, hplace⟩, rfl, hinline⟩
  · rw [hplace, hrest, List.length_append, Piece.quote, List.length_cons]
    omega
  · exact ⟨congrArg (· + 1) h.count, h.indent, hmarked.optional, h.outerOptional⟩

/-- A letter or digit is no indicator. -/
theorem ne_of_isAlphanum {c : Char} (h : c.isAlphanum = true) (x : Char) (hx : x.isAlphanum = false) :
    (c == x) = false := by
  rw [beq_eq_false_iff_ne]
  rintro rfl
  rw [h] at hx
  cases hx

/-- A word is read as a plain scalar. -/
theorem next_word {l : Lexer} {word : List Char} (hstarts : startsWord word = true) {tail : List Char}
    (hrest : l.cursor.rest = word ++ tail) :
    l.next = l.plainScalar ∧ l.cursor.seesDocumentMark = false := by
  unfold startsWord at hstarts
  split at hstarts
  · -- the digit behind a minus sign keeps it from being the dash of an item or of a mark between documents
    rename_i c others
    have hc : c.isAlphanum = true := by
      rw [Char.isAlphanum, hstarts, Bool.or_true]
    have hgap := (goesOn_of_isWordPart (isWordPart_of_isDigit hstarts)).1
    have hpeek : l.cursor.peek 1 = some c := by
      rw [Cursor.peek, hrest]
      rfl
    have hsecond : ∀ x, x.isAlphanum = false → l.cursor.sees x 1 = false := by
      intro x hx
      rw [Cursor.sees, hpeek, Option.some_beq_some]
      exact ne_of_isAlphanum hc x hx
    have hends : l.cursor.endsWord 1 = false := by
      rw [Cursor.endsWord, hpeek]
      exact hgap
    have hblank : l.cursor.seesAny isBlank 1 = false := by
      rw [Cursor.seesAny, hpeek]
      exact (Bool.or_eq_false_iff.1 hgap).1
    constructor
    · simp [next, startsPlain, Cursor.seesMark, Cursor.sees_cons hrest, hsecond, hends, hblank]
    · simp [Cursor.seesDocumentMark, Cursor.seesMark, Cursor.sees_cons hrest, hsecond]
  · -- a letter or digit is no indicator
    rename_i c others _
    have hgap := (goesOn_of_isWordPart (isWordPart_of_isAlphanum hstarts)).1
    have hends : l.cursor.endsWord = false := by
      rw [Cursor.endsWord, Cursor.peek_cons hrest]
      exact hgap
    have hplain : l.startsPlain = true := by
      have hnone : ∀ xs : List Char, xs.all (fun x => !x.isAlphanum) = true → xs.contains c = false := by
        intro xs hxs
        rw [Bool.eq_false_iff]
        intro hmem
        have hc := List.all_eq_true.1 hxs c (List.contains_iff_mem.1 hmem)
        rw [hstarts] at hc
        cases hc
      rw [startsPlain]
      simp only [hends, Cursor.seesAny_cons hrest]
      rw [hnone _ (by decide)]
      rfl
    constructor
    · simp [next, hplain, Cursor.seesMark, Cursor.sees_cons hrest, ne_of_isAlphanum hstarts]
    · simp [Cursor.seesDocumentMark, Cursor.seesMark, Cursor.sees_cons hrest, ne_of_isAlphanum hstarts]
  · cases hstarts

/-- A word is read with the blanks behind it. -/
theorem takes_word {l : Lexer} (h : Tidy l) (hflow : l.inFlow = true) {word : List Char}
    (hstarts : startsWord word = true) (hword : ∀ x ∈ word, isWordPart x = true) (after : Blanks) {d : Char}
    (hd : isFlowIndicator d = true) {rest : List Char} (hrest : l.cursor.rest = word ++ (after.chars ++ d :: rest)) :
    ∃ l', Takes l [.scalar .plain (String.ofList word)] (d :: rest) l.outerKeyMarks.length l' := by
  have hmarked := marked_tidy h
  have hnext := next_word hstarts hrest
  have hne : word ≠ [] := by
    rintro rfl
    cases hstarts
  have hmarkedFlow : l.marked.inFlow = true := hflow
  have hindent : (l.marked.indent + 1).toNat = 0 := by
    rw [hmarked.indent]
    rfl
  have hlength : l.cursor.rest.length + 1 = (l.cursor.rest.length - 1) + 2 := by
    have hpositive := List.length_pos_iff.2 hne
    rw [hrest, List.length_append]
    omega
  rcases readPlain_word hne hword after hd (l.cursor.rest.length - 1) hnext.2 hrest with ⟨plain, hread, htext, hplace⟩
  refine ⟨{ (l.marked.push (.scalar .plain (String.ofList plain.text))).goTo plain.after with
    keyAllowed := plain.endedLine }, ⟨?_, ?_, ?_, ?_, rfl, hplace⟩⟩
  · rw [hnext.1, plainScalar, markKey_eq h]
    simp only [Option.bind_eq_bind, Option.bind_some, hmarkedFlow, hindent, marked_cursor, hlength, hread]
    rfl
  · show plain.after.rest.length < _
    have hpositive := List.length_pos_iff.2 hne
    rw [hplace, hrest, List.length_append, List.length_append]
    omega
  · exact ⟨congrArg (· + 1) hmarked.count, hmarked.indent, hmarked.optional, hmarked.outerOptional⟩
  · show .scalar .plain (String.ofList plain.text) :: l.tokens = _
    rw [htext]
    rfl

/-! ## Keys -/

theorem inFlow_of_depth {l : Lexer} {depth : Nat} (h : l.outerKeyMarks.length = depth + 1) : l.inFlow = true := by
  rw [inFlow, Bool.not_eq_true']
  cases hmarks : l.outerKeyMarks with
  | nil =>
    rw [hmarks] at h
    cases h
  | cons m rest => rfl

/-- A colon makes a key of the token in front of it, if that may be one. -/
theorem next_key {l : Lexer} (h : Tidy l) (hflow : l.inFlow = true) {name : Token} {before : List Token}
    (htokens : l.tokens = name :: before) {mark : KeyMark} (hmark : l.keyMark = some mark)
    (hnumber : mark.number = before.length) {tail : List Char} (hrest : l.cursor.rest = ':' :: tail) :
    ∃ l', l.next = some l' ∧ l'.cursor.rest = tail ∧ Tidy l' ∧ l'.tokens = .value :: name :: .key :: before ∧
      l'.outerKeyMarks = l.outerKeyMarks := by
  -- the name is the only token behind the mark, so the token of a key goes in front of it
  have hbehind : l.count - mark.number = 1 := by
    rw [h.count, htokens, hnumber, List.length_cons]
    omega
  have hinsert : l.insertAt mark.number .key =
      { l with tokens := name :: .key :: before, count := l.count + 1 } := by
    rw [insertAt, hbehind, htokens]
    rfl
  let keyed : Lexer := { l with tokens := name :: .key :: before, count := l.count + 1 }
  have hopen : keyed.openBlock mark.column mark.number .blockMappingStart = keyed := by
    have hkeyed : keyed.inFlow = true := hflow
    rw [openBlock, hkeyed, Bool.true_or, if_pos rfl]
  refine ⟨{ keyed.indicator .value with keyMark := none, keyAllowed := false }, ?_, indicator_rest .value hrest, ?_,
    rfl, rfl⟩
  · rw [next_colon hflow hrest, valueMark, hmark]
    simp only [hinsert]
    rw [hopen]
  · refine ⟨?_, h.indent, ?_, h.outerOptional⟩
    · show l.count + 1 + 1 = before.length + 1 + 1 + 1
      rw [h.count, htokens, List.length_cons]
    · intro mark hmark
      cases hmark

/-- A name with its colon is read as a key. -/
theorem reads_key {l : Lexer} (h : Tidy l) {depth : Nat} (hdepth : l.outerKeyMarks.length = depth + 1)
    (hallowed : l.keyAllowed = true) {b beforeColon : Blanks} {name : List Piece}
    (hp : name.all Piece.isPortable = true) (hfits : Piece.fitsKey name beforeColon = true) {tail : List Char}
    (hrest : l.cursor.rest = b.chars ++ (Piece.quote name ++ (beforeColon.chars ++ ':' :: tail))) :
    ∃ l', Reads l [.key, Piece.token name, .value] tail (depth + 1) l' := by
  have hflow := inFlow_of_depth hdepth
  simp only [Piece.fitsKey, Bool.and_eq_true, decide_eq_true_eq, List.length_append] at hfits
  have hinline : ∀ x ∈ Piece.quote name ++ beforeColon.chars, isBreak x = false := by
    intro x hx
    simpa using List.all_eq_true.1 hfits.2 x hx
  have hkeeps : Piece.keepsSeparators name = true := by
    apply keepsSeparators_of_inline
    intro x hx
    exact hinline x (List.mem_append_left _ (List.mem_cons_of_mem _ (List.mem_append_left _ hx)))
  -- the name is read, and may be a key
  rcases exists_settles h b.blank hrest (stops_cons.2 (by decide)) (.inl hflow) with ⟨l₁, h₁, _⟩
  have hallowed₁ : l₁.keyAllowed = true := (h₁.keyAllowed (.inl hflow)).trans hallowed
  rcases takes_string h₁.tidy hp hkeeps h₁.rest with ⟨l₂, h₂, hmark₂, hstays₂⟩
  have hcursor₂ := hstays₂ fun x hx => hinline x (List.mem_append_left _ hx)
  have hmark : l₂.keyMark = some ⟨l₁.count, false, l₁.cursor.index, l₁.cursor.line, l₁.cursor.column⟩ := by
    rw [hmark₂, marked, hallowed₁]
    rfl
  have hdepth₂ : l₂.outerKeyMarks.length = depth + 1 := by
    rw [h₂.depth, h₁.depth, hdepth]
  have hrest₂ : l₂.cursor.rest = beforeColon.chars ++ ':' :: tail := by
    rw [hcursor₂, Cursor.skip_rest, h₁.rest, List.drop_left]
  -- it still may where the colon stands
  have hflow₂ := inFlow_of_depth hdepth₂
  rcases exists_settles h₂.tidy beforeColon.blank hrest₂ (stops_cons.2 (by decide)) (.inl hflow₂) with ⟨l₃, h₃, hplace⟩
  rcases hplace (fun x hx => hinline x (List.mem_append_right _ hx)) with ⟨hcursor₃, hmark₃⟩
  have hkept : l₃.keyMark = some ⟨l₁.count, false, l₁.cursor.index, l₁.cursor.line, l₁.cursor.column⟩ := by
    rw [hmark₃, hmark, fresh, Option.filter_some, hcursor₃, hcursor₂]
    simp only [KeyMark.isStale, Cursor.skip_line, Cursor.skip_index]
    have hnear : ¬(l₁.cursor.index + 1024 <
        l₁.cursor.index + (Piece.quote name).length + beforeColon.chars.length) := by omega
    simp [hnear]
  have htokens₃ : l₃.tokens = Piece.token name :: l.tokens := by
    rw [h₃.tokens, h₂.tokens, h₁.tokens]
    rfl
  have hnumber : l₁.count = l.tokens.length := by
    rw [h₁.tidy.count, h₁.tokens]
  have hdepth₃ : l₃.outerKeyMarks.length = depth + 1 := by
    rw [h₃.depth, hdepth₂]
  rcases next_key h₃.tidy (inFlow_of_depth hdepth₃) htokens₃ hkept hnumber h₃.rest with
    ⟨l₄, hnext, hrest₄, htidy₄, htokens₄, hdepth₄⟩
  refine ⟨l₄, ⟨⟨2, ?_, ?_⟩, htidy₄, ?_, ?_, hrest₄⟩⟩
  · rw [hrest₄, hrest]
    simp only [List.length_append, Piece.quote, List.length_cons]
    omega
  · intro fuel
    have hend₁ : l₁.cursor.atEnd = false := by
      rw [Cursor.atEnd, h₁.rest]
      rfl
    have hend₃ : l₃.cursor.atEnd = false := by
      rw [Cursor.atEnd, h₃.rest]
      rfl
    have hfirst : run (fuel + 1 + 1) l = run (fuel + 1) l₂ := by
      rw [h₁.run_eq, hend₁, h₂.next_eq]
      rfl
    have hsecond : run (fuel + 1) l₂ = run fuel l₄ := by
      rw [h₃.run_eq, hend₃, hnext]
      rfl
    rw [Nat.add_comm, hfirst, hsecond]
  · rw [htokens₄]
    rfl
  · rw [hdepth₄, hdepth₃]

/-! ## Values -/

/-- Behind blanks an opening bracket is read. -/
theorem reads_open {l : Lexer} (h : Tidy l) {b : Blanks} {c : Char} {tail : List Char} {token : Token}
    (hrest : l.cursor.rest = b.chars ++ c :: tail) (hgap : isGap c = false) (htabs : l.TabsPass b.chars)
    (hnext : ∀ l' : Lexer, l'.cursor.rest = c :: tail → l'.next = l'.openFlow token) :
    ∃ l', Reads l [token] tail (l.outerKeyMarks.length + 1) l' ∧ l'.keyAllowed = true := by
  apply exists_reads h hrest hgap htabs
  intro l₁ h₁
  rw [← h₁.depth]
  exact takes_open h₁.tidy h₁.rest (hnext l₁ h₁.rest)

/-- Behind blanks a closing bracket is read. -/
theorem reads_close {l : Lexer} (h : Tidy l) {depth : Nat} (hdepth : l.outerKeyMarks.length = depth + 1) {b : Blanks}
    {c : Char} {tail : List Char} {token : Token} (hrest : l.cursor.rest = b.chars ++ c :: tail)
    (hgap : isGap c = false) (hnext : ∀ l' : Lexer, l'.cursor.rest = c :: tail → l'.next = l'.closeFlow token) :
    ∃ l', Reads l [token] tail depth l' ∧ l'.keyAllowed = false := by
  apply exists_reads h hrest hgap (.inl (inFlow_of_depth hdepth))
  intro l₁ h₁
  exact takes_close h₁.tidy h₁.rest (hnext l₁ h₁.rest) (h₁.depth.trans hdepth)

/-- Behind blanks a comma is read. -/
theorem reads_comma {l : Lexer} (h : Tidy l) {depth : Nat} (hdepth : l.outerKeyMarks.length = depth + 1) {b : Blanks}
    {tail : List Char} (hrest : l.cursor.rest = b.chars ++ ',' :: tail) :
    ∃ l', Reads l [.flowEntry] tail (depth + 1) l' ∧ l'.keyAllowed = true := by
  apply exists_reads h hrest (by decide) (.inl (inFlow_of_depth hdepth))
  intro l₁ h₁
  rw [← hdepth, ← h₁.depth]
  exact takes_comma h₁.tidy h₁.rest

/-- Behind blanks a word is read. -/
theorem reads_word {l : Lexer} (h : Tidy l) {depth : Nat} (hdepth : l.outerKeyMarks.length = depth + 1)
    {b after : Blanks} {word : List Char} (hstarts : startsWord word = true)
    (hword : word.all isWordPart = true) {d : Char} (hd : isFlowIndicator d = true) {rest : List Char}
    (hrest : l.cursor.rest = b.chars ++ (word ++ (after.chars ++ d :: rest))) :
    ∃ l', Reads l [.scalar .plain (String.ofList word)] (d :: rest) (depth + 1) l' := by
  rcases word with _ | ⟨c, cs⟩
  · cases hstarts
  have hparts := List.all_eq_true.1 hword
  have hgap : isGap c = false := by
    have hc := goesOn_of_isWordPart (hparts c List.mem_cons_self)
    rw [isGap, hc.1, Bool.false_or, beq_eq_false_iff_ne]
    exact hc.2.2.2
  rcases exists_reads (P := fun _ => True) h hrest hgap (.inl (inFlow_of_depth hdepth)) fun l₁ h₁ => by
    have hdepth₁ := h₁.depth.trans hdepth
    rcases takes_word h₁.tidy (inFlow_of_depth hdepth₁) hstarts hparts after hd h₁.rest with ⟨l₂, h₂⟩
    rw [hdepth₁] at h₂
    exact ⟨l₂, h₂, trivial⟩ with ⟨l', h', _⟩
  exact ⟨l', h'⟩

/-- Behind blanks a string is read. -/
theorem reads_string {l : Lexer} (h : Tidy l) {depth : Nat} (hdepth : l.outerKeyMarks.length = depth + 1) {b : Blanks}
    {pieces : List Piece} (hp : pieces.all Piece.isPortable = true) (hkeeps : Piece.keepsSeparators pieces = true)
    {tail : List Char} (hrest : l.cursor.rest = b.chars ++ (Piece.quote pieces ++ tail)) :
    ∃ l', Reads l [Piece.token pieces] tail (depth + 1) l' := by
  rcases exists_reads (P := fun _ => True) h hrest (by decide) (.inl (inFlow_of_depth hdepth)) fun l₁ h₁ => by
    rcases takes_string h₁.tidy hp hkeeps h₁.rest with ⟨l₂, h₂, _⟩
    rw [h₁.depth.trans hdepth] at h₂
    exact ⟨l₂, h₂, trivial⟩ with ⟨l', h', _⟩
  exact ⟨l', h'⟩

mutual

/-- A value between brackets is read up to the comma or bracket behind it, perhaps without the blanks there. -/
theorem reads_value (w : Json.Written) (hw : w.isPortable = true) {l : Lexer} (h : Tidy l) {depth : Nat}
    (hdepth : l.outerKeyMarks.length = depth + 1) {b after : Blanks} {d : Char} (hd : isFlowIndicator d = true)
    {rest : List Char} (hrest : l.cursor.rest = b.chars ++ (w.text ++ (after.chars ++ d :: rest))) :
    ∃ (b' : Blanks) (l' : Lexer), Reads l w.tokens (b'.chars ++ d :: rest) (depth + 1) l' := by
  have hflow := inFlow_of_depth hdepth
  match w with
  | .null =>
    rcases reads_word h hdepth rfl rfl hd hrest with ⟨l', h'⟩
    exact ⟨Blanks.none, l', h'⟩
  | .bool true =>
    rcases reads_word h hdepth rfl rfl hd hrest with ⟨l', h'⟩
    exact ⟨Blanks.none, l', h'⟩
  | .bool false =>
    rcases reads_word h hdepth rfl rfl hd hrest with ⟨l', h'⟩
    exact ⟨Blanks.none, l', h'⟩
  | .number n =>
    have hparts := List.all_eq_true.2 fun x hx => isWordPart_of_mem_text (n := n) hx
    rcases reads_word h hdepth (startsWord_text n) hparts hd hrest with ⟨l', h'⟩
    exact ⟨Blanks.none, l', h'⟩
  | .string pieces =>
    rw [Json.Written.isPortable, Bool.and_eq_true] at hw
    rcases reads_string h hdepth hw.1 hw.2 hrest with ⟨l', h'⟩
    exact ⟨after, l', h'⟩
  | .emptyArray inside =>
    simp only [Json.Written.text, List.cons_append, List.append_assoc] at hrest
    rcases reads_open h hrest (by decide) (.inl hflow) (fun _ => next_bracket.1) with ⟨l₁, h₁, _⟩
    rcases reads_close h₁.tidy (h₁.depth.trans (congrArg (· + 1) hdepth)) h₁.rest (by decide)
      (fun _ => next_bracket.2.2.1) with ⟨l₂, h₂, _⟩
    exact ⟨after, l₂, h₁.append h₂⟩
  | .array before items =>
    simp only [Json.Written.text, List.cons_append, List.append_assoc] at hrest
    rcases reads_open h hrest (by decide) (.inl hflow) (fun _ => next_bracket.1) with ⟨l₁, h₁, _⟩
    rcases reads_items items hw h₁.tidy (h₁.depth.trans (congrArg (· + 1) hdepth)) h₁.rest with ⟨l₂, h₂⟩
    exact ⟨after, l₂, h₁.append h₂⟩
  | .emptyObject inside =>
    simp only [Json.Written.text, List.cons_append, List.append_assoc] at hrest
    rcases reads_open h hrest (by decide) (.inl hflow) (fun _ => next_bracket.2.1) with ⟨l₁, h₁, _⟩
    rcases reads_close h₁.tidy (h₁.depth.trans (congrArg (· + 1) hdepth)) h₁.rest (by decide)
      (fun _ => next_bracket.2.2.2.1) with ⟨l₂, h₂, _⟩
    exact ⟨after, l₂, h₁.append h₂⟩
  | .object before members =>
    simp only [Json.Written.text, List.cons_append, List.append_assoc] at hrest
    rcases reads_open h hrest (by decide) (.inl hflow) (fun _ => next_bracket.2.1) with ⟨l₁, h₁, hallowed⟩
    rcases reads_members members hw h₁.tidy (h₁.depth.trans (congrArg (· + 1) hdepth)) hallowed h₁.rest with
      ⟨l₂, h₂, _⟩
    exact ⟨after, l₂, h₁.append h₂⟩

/-- Items are read with their closing bracket. -/
theorem reads_items (items : Json.WrittenItems) (hitems : items.isPortable = true) {l : Lexer} (h : Tidy l)
    {depth : Nat} (hdepth : l.outerKeyMarks.length = depth + 1) {b : Blanks} {rest : List Char}
    (hrest : l.cursor.rest = b.chars ++ (items.text ++ rest)) : ∃ l', Reads l items.tokens rest depth l' := by
  match items with
  | .last item after =>
    have hitem : item.isPortable = true := hitems
    simp only [Json.WrittenItems.text, List.append_assoc, List.singleton_append] at hrest
    rcases reads_value item hitem h hdepth (by decide) hrest with ⟨b₁, l₁, h₁⟩
    rcases reads_close h₁.tidy h₁.depth h₁.rest (by decide) (fun _ => next_bracket.2.2.1) with ⟨l₂, h₂, _⟩
    exact ⟨l₂, h₁.append h₂⟩
  | .more item after before others =>
    rw [Json.WrittenItems.isPortable, Bool.and_eq_true] at hitems
    simp only [Json.WrittenItems.text, List.append_assoc, List.cons_append] at hrest
    rcases reads_value item hitems.1 h hdepth (by decide) hrest with ⟨b₁, l₁, h₁⟩
    rcases reads_comma h₁.tidy h₁.depth h₁.rest with ⟨l₂, h₂, _⟩
    rcases reads_items others hitems.2 h₂.tidy h₂.depth h₂.rest with ⟨l₃, h₃⟩
    exact ⟨l₃, h₁.append (h₂.append h₃)⟩

/-- Members are read with their closing bracket, where the first name may be a key. -/
theorem reads_members (members : Json.WrittenMembers) (hmembers : members.isPortable = true) {l : Lexer} (h : Tidy l)
    {depth : Nat} (hdepth : l.outerKeyMarks.length = depth + 1) (hallowed : l.keyAllowed = true) {b : Blanks}
    {rest : List Char} (hrest : l.cursor.rest = b.chars ++ (members.text ++ rest)) :
    ∃ l', Reads l members.tokens rest depth l' ∧ l'.keyAllowed = false := by
  match members with
  | .last name beforeColon afterColon value after =>
    simp only [Json.WrittenMembers.isPortable, Bool.and_eq_true] at hmembers
    simp only [Json.WrittenMembers.text, List.append_assoc, List.cons_append, List.nil_append] at hrest
    rcases reads_key h hdepth hallowed hmembers.1.1 hmembers.1.2 hrest with ⟨l₁, h₁⟩
    rcases reads_value value hmembers.2 h₁.tidy h₁.depth (by decide) h₁.rest with ⟨b₂, l₂, h₂⟩
    rcases reads_close h₂.tidy h₂.depth h₂.rest (by decide) (fun _ => next_bracket.2.2.2.1) with
      ⟨l₃, h₃, hclosed⟩
    exact ⟨l₃, h₁.append (h₂.append h₃), hclosed⟩
  | .more name beforeColon afterColon value after before others =>
    simp only [Json.WrittenMembers.isPortable, Bool.and_eq_true] at hmembers
    simp only [Json.WrittenMembers.text, List.append_assoc, List.cons_append] at hrest
    rcases reads_key h hdepth hallowed hmembers.1.1.1 hmembers.1.1.2 hrest with ⟨l₁, h₁⟩
    rcases reads_value value hmembers.1.2 h₁.tidy h₁.depth (by decide) h₁.rest with ⟨b₂, l₂, h₂⟩
    rcases reads_comma h₂.tidy h₂.depth h₂.rest with ⟨l₃, h₃, hallowed₃⟩
    rcases reads_members others hmembers.2 h₃.tidy h₃.depth hallowed₃ h₃.rest with ⟨l₄, h₄, hclosed⟩
    exact ⟨l₄, h₁.append (h₂.append (h₃.append h₄)), hclosed⟩

end

/-- An object is read, whether it stands between brackets or not. -/
theorem reads_object {w : Json.Written} (hobject : ∃ members, w.value = .object members) (hw : w.isPortable = true)
    {l : Lexer} (h : Tidy l) {b : Blanks} (htabs : l.TabsPass b.chars) {rest : List Char}
    (hrest : l.cursor.rest = b.chars ++ (w.text ++ rest)) :
    ∃ l', Reads l w.tokens rest l.outerKeyMarks.length l' ∧ l'.keyAllowed = false := by
  rcases hobject with ⟨members, hobject⟩
  cases w with
  | emptyObject inside =>
    simp only [Json.Written.text, List.cons_append, List.append_assoc] at hrest
    rcases reads_open h hrest (by decide) htabs (fun _ => next_bracket.2.1) with ⟨l₁, h₁, _⟩
    rcases reads_close h₁.tidy h₁.depth h₁.rest (by decide) (fun _ => next_bracket.2.2.2.1) with ⟨l₂, h₂, hclosed⟩
    exact ⟨l₂, h₁.append h₂, hclosed⟩
  | object before members =>
    simp only [Json.Written.text, List.cons_append, List.append_assoc] at hrest
    rcases reads_open h hrest (by decide) htabs (fun _ => next_bracket.2.1) with ⟨l₁, h₁, hallowed⟩
    rcases reads_members members hw h₁.tidy h₁.depth hallowed h₁.rest with ⟨l₂, h₂, hclosed⟩
    exact ⟨l₂, h₁.append h₂, hclosed⟩
  | _ => cases hobject

/-- At the end of the text nothing is left to close. -/
theorem run_end {l : Lexer} (h : Tidy l) {after : Blanks} (hrest : l.cursor.rest = after.chars)
    (htabs : l.TabsPass after.chars) (fuel : Nat) : run (fuel + 1) l = some l.tokens.reverse := by
  rw [← List.append_nil after.chars] at hrest
  rcases exists_settles h after.blank hrest (Json.stops_nil isGap) htabs with ⟨l', h', _⟩
  have hend : l'.cursor.atEnd = true := by
    rw [Cursor.atEnd, h'.rest]
    rfl
  rw [h'.run_eq, hend, if_pos rfl, finish, closeBlocks_eq h'.tidy (by omega), dropKey_eq h'.tidy]
  show some l'.tokens.reverse = _
  rw [h'.tokens]

end Sidecar.Yaml.Lexer

namespace Sidecar.Yaml

open Json (Blanks Piece)

/-- A portable text has the tokens of its object. -/
theorem tokens?_of_portable {s : String} {before after : Blanks} {w : Json.Written}
    (htext : s.toList = before.chars ++ (w.text ++ after.chars)) (hobject : ∃ members, w.value = .object members)
    (hw : w.isPortable = true) (hbefore : before.mayLead = true) (hafter : after.mayTrail = true) :
    tokens? s = some w.tokens := by
  let start : Lexer := { cursor := { rest := s.toList } }
  have htidy : Lexer.Tidy start := by
    refine ⟨rfl, rfl, ?_, ?_⟩
    · intro mark hmark
      cases hmark
    · intro m hm
      cases hm
  have hlead : start.TabsPass before.chars := by
    refine .inr (.inl fun x hx => ?_)
    simpa using List.all_eq_true.1 hbefore x hx
  rcases Lexer.reads_object hobject hw htidy hlead htext with ⟨l, hl, hclosed⟩
  have htrail : l.TabsPass after.chars := by
    refine .inr (.inr ⟨hclosed, fun x hx => ?_⟩)
    simpa using List.all_eq_true.1 hafter x hx
  -- the steps are fewer than the characters, so there is fuel for the last one
  rcases hl.run_eq with ⟨n, hn, hrun⟩
  have hfuel : s.toList.length + 2 = n + ((s.toList.length + 1 - n) + 1) := by
    have hstart : n + l.cursor.rest.length ≤ s.toList.length := hn
    omega
  have hread : Lexer.run (s.toList.length + 2) start = some w.tokens := by
    rw [hfuel, hrun, Lexer.run_end hl.tidy hl.rest htrail, hl.tokens]
    simp [start]
  have hprintable : s.toList.all isPrintable = true := by
    rw [htext, List.all_append, List.all_append, blanks_printable, value_printable w hw, blanks_printable]
    rfl
  have hmark : ({ rest := s.toList } : Cursor).sees '\uFEFF' = false := by
    rw [Cursor.sees_eq_seesAny]
    apply Cursor.seesAny_of_stops
    show Json.Stops _ s.toList
    rcases w.text_eq_cons with ⟨c, tail, hfirst, hc⟩
    rw [htext, hfirst]
    apply Json.stops_append_cons
    · intro x hx
      rw [beq_eq_false_iff_ne]
      rintro rfl
      exact absurd (before.blank _ hx) (by decide)
    · rw [beq_eq_false_iff_ne]
      rintro rfl
      exact absurd hc (by decide)
  rw [tokens?]
  simp only [hmark, Bool.false_eq_true, if_false, hprintable, if_true]
  exact hread

end Sidecar.Yaml
