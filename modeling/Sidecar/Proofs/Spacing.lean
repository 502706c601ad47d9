import Sidecar.Proofs.Gaps

/-!
# Between the tokens of a JSON text

Before each token the lexer passes over what stands between tokens, forgets the possible keys that it has left behind
and closes the blocks that end. `Settles` says what becomes of it where only the blanks of JSON stand between two tokens
and no block is open (`exists_settles`): its place changes, and it keeps the possible keys that are still near.

Tabs are passed over between brackets, and on a line where something has been read. `TabsPass` is that condition.
-/

namespace Sidecar.Yaml.Lexer

open Json (Stops stops_cons)

/-! ## Blanks -/

/-- Characters that go on what stands between tokens. -/
def isGap (c : Char) : Bool :=
  isBlank c || isBreak c || c == '#'

theorem stops_isBreak {more : List Char} (h : Stops isGap more) : Stops isBreak more := by
  intro x hx
  have hgap := h x hx
  simp only [isGap, Bool.or_eq_false_iff] at hgap
  exact hgap.1.2

/-- Whether blanks are passed over although there may be tabs among them. -/
def TabsPass (l : Lexer) (blanks : List Char) : Prop :=
  l.inFlow = true ∨ (∀ x ∈ blanks, x ≠ '\t') ∨
    l.keyAllowed = false ∧ ∀ x ∈ blanks.dropWhile (fun x => !isBreak x), x ≠ '\t'

/-- Whether a character is passed over inside of a line. -/
def passes (l : Lexer) (c : Char) : Bool :=
  c == ' ' || ((l.inFlow || !l.keyAllowed) && c == '\t')

theorem isBlank_of_passes {l : Lexer} {c : Char} (h : l.passes c = true) : isBlank c = true := by
  simp only [passes, isBlank, Bool.or_eq_true, Bool.and_eq_true] at h ⊢
  exact h.imp_right And.right

theorem passes_of_isBlank {l : Lexer} {c : Char} (h : isBlank c = true)
    (htab : c = '\t' → l.inFlow = true ∨ l.keyAllowed = false) : l.passes c = true := by
  simp only [isBlank, Bool.or_eq_true, beq_iff_eq] at h
  rcases h with rfl | rfl
  · rfl
  · rcases htab rfl with hflow | hkey
    · simp [passes, hflow]
    · simp [passes, hkey]

/-- The blanks of a line are passed over, and its end too if it comes to that. -/
theorem skipSpace_succ (fuel : Nat) (l : Lexer) :
    skipSpace (fuel + 1) l =
      let c := (l.cursor.skipWhile l.passes).skipComment
      if c.seesAny isBreak then
        skipSpace fuel { l with cursor := c.skipLine, keyAllowed := l.keyAllowed || !l.inFlow }
      else l.goTo c := by
  rw [skipSpace]
  rfl

/-- The blanks of a line are passed over up to its end, or up to a token. There is no comment. -/
theorem skipInline_eq {l : Lexer} {inline tail : List Char} (hinline : ∀ x ∈ inline, isBlank x = true)
    (htabs : ∀ x ∈ inline, x = '\t' → l.inFlow = true ∨ l.keyAllowed = false)
    (hrest : l.cursor.rest = inline ++ tail) (htail : Stops (fun x => isBlank x || x == '#') tail) :
    (l.cursor.skipWhile l.passes).skipComment = l.cursor.skip inline.length := by
  have hplace : (l.cursor.skip inline.length).rest = tail := by
    rw [Cursor.skip_rest, hrest, List.drop_left]
  have hstops : Stops l.passes tail := by
    intro x hx
    have hends := htail x hx
    rw [Bool.or_eq_false_iff] at hends
    rw [Bool.eq_false_iff]
    intro hpass
    rw [isBlank_of_passes hpass] at hends
    cases hends.1
  have hskip : l.cursor.skipWhile l.passes = l.cursor.skip inline.length := by
    rw [Cursor.skipWhile, hrest, hstops.takeWhile_append fun x hx => passes_of_isBlank (hinline x hx) (htabs x hx)]
  have hsees : (l.cursor.skip inline.length).sees '#' = false := by
    rw [Cursor.sees_eq_seesAny]
    apply Cursor.seesAny_of_stops
    intro x hx
    rw [hplace] at hx
    exact (Bool.or_eq_false_iff.1 (htail x hx)).2
  rw [hskip, Cursor.skipComment, hsees]
  rfl

/-- Blanks on one line are just passed over. -/
theorem skipSpace_inline (fuel : Nat) {l : Lexer} {inline more : List Char} (hinline : ∀ x ∈ inline, isBlank x = true)
    (htabs : ∀ x ∈ inline, x = '\t' → l.inFlow = true ∨ l.keyAllowed = false)
    (hrest : l.cursor.rest = inline ++ more) (hmore : Stops isGap more) :
    skipSpace (fuel + 1) l = l.goTo (l.cursor.skip inline.length) := by
  have hends : Stops (fun x => isBlank x || x == '#') more := by
    intro x hx
    have hgap := hmore x hx
    simp only [isGap, Bool.or_eq_false_iff] at hgap
    exact Bool.or_eq_false_iff.2 ⟨hgap.1.1, hgap.2⟩
  have hsees : (l.cursor.skip inline.length).seesAny isBreak = false := by
    apply Cursor.seesAny_of_stops
    rw [Cursor.skip_rest, hrest, List.drop_left]
    exact stops_isBreak hmore
  rw [skipSpace_succ, skipInline_eq hinline htabs hrest hends]
  dsimp only
  rw [hsees]
  rfl

/-- Where a line ends, the blanks are passed over from the next line on. -/
theorem skipSpace_line (fuel : Nat) {l : Lexer} {inline xs more : List Char} {x : Char}
    (hinline : ∀ y ∈ inline, isBlank y = true)
    (htabs : ∀ y ∈ inline, y = '\t' → l.inFlow = true ∨ l.keyAllowed = false) (hbreak : isBreak x = true)
    (hrest : l.cursor.rest = inline ++ x :: (xs ++ more)) (hmore : Stops isGap more) :
    ∃ ys c, ys <:+ xs ∧ c.rest = ys ++ more ∧
      skipSpace (fuel + 1) l = skipSpace fuel { l with cursor := c, keyAllowed := l.keyAllowed || !l.inFlow } := by
  have hplace : (l.cursor.skip inline.length).rest = x :: (xs ++ more) := by
    rw [Cursor.skip_rest, hrest, List.drop_left]
  rcases skipLine_blanks hplace (stops_isBreak hmore) with ⟨ys, hsuffix, hline⟩
  refine ⟨ys, _, hsuffix, hline, ?_⟩
  rw [skipSpace_succ, skipInline_eq hinline htabs hrest (stops_cons.2 (no_blank_of_isBreak hbreak))]
  dsimp only
  rw [Cursor.seesAny_cons hplace, hbreak]
  rfl

/-- Blanks are those of a line, and others that begin with its end. -/
theorem exists_inline {blanks : List Char} (hblanks : ∀ x ∈ blanks, Json.isSpace x = true) :
    ∃ inline others, blanks = inline ++ others ∧ (∀ x ∈ inline, isBlank x = true) ∧
      others = blanks.dropWhile (fun x => !isBreak x) ∧ ∀ x ∈ others.head?, isBreak x = true := by
  have hinline := List.all_eq_true.1 (List.all_takeWhile (p := fun x => !isBreak x) (l := blanks))
  have hnext := List.head?_dropWhile_not (fun x => !isBreak x) blanks
  refine ⟨_, _, List.takeWhile_append_dropWhile.symm, ?_, rfl, ?_⟩
  · intro x hx
    have hbreak : isBreak x = false := by simpa using hinline x hx
    exact (isBlank_or_isBreak (hblanks x (List.takeWhile_subset _ hx))).resolve_right (by simp [hbreak])
  · intro x hx
    rw [hx] at hnext
    simpa using hnext

theorem TabsPass.inline {l : Lexer} {inline others : List Char} (h : l.TabsPass (inline ++ others)) :
    ∀ x ∈ inline, x = '\t' → l.inFlow = true ∨ l.keyAllowed = false := by
  intro x hx htab
  rcases h with hflow | hnone | ⟨hkey, _⟩
  · exact .inl hflow
  · exact absurd htab (hnone x (List.mem_append_left others hx))
  · exact .inr hkey

/-- Behind the end of a line the tabs that are left are between brackets. -/
theorem TabsPass.next {l : Lexer} {blanks ys : List Char} (h : l.TabsPass blanks)
    (hys : ys ⊆ blanks.dropWhile (fun x => !isBreak x)) (c : Cursor) (k : Bool) :
    TabsPass { l with cursor := c, keyAllowed := k } ys := by
  rcases h with hflow | hnone | ⟨_, hnone⟩
  · exact .inl hflow
  · exact .inr (.inl fun y hy => hnone y ((List.dropWhile_suffix _).subset (hys hy)))
  · exact .inr (.inl fun y hy => hnone y (hys hy))

/-- Blanks are passed over. The lexer stays as it is but for its place, and where no break is passed over that is just
moved on; whether a key may begin does not change between brackets or if it may. -/
theorem skipSpace_blanks (fuel : Nat) (l : Lexer) {blanks more : List Char}
    (hblanks : ∀ x ∈ blanks, Json.isSpace x = true) (hfuel : blanks.length < fuel)
    (hrest : l.cursor.rest = blanks ++ more) (hmore : Stops isGap more) (htabs : l.TabsPass blanks) :
    ∃ c k, skipSpace fuel l = { l with cursor := c, keyAllowed := k } ∧ c.rest = more ∧
      (l.inFlow = true ∨ l.keyAllowed = true → k = l.keyAllowed) ∧
      ((∀ x ∈ blanks, isBreak x = false) → c = l.cursor.skip blanks.length) := by
  -- the fuel pays for the lines
  induction fuel generalizing l blanks with
  | zero => cases hfuel
  | succ fuel ih =>
    rcases exists_inline hblanks with ⟨inline, others, hsplit, hinline, hothers, hnext⟩
    rcases others with _ | ⟨x, xs⟩
    · rw [List.append_nil] at hsplit
      subst hsplit
      have hpass : ∀ y ∈ blanks, y = '\t' → l.inFlow = true ∨ l.keyAllowed = false := by
        rw [← List.append_nil blanks] at htabs
        exact htabs.inline
      refine ⟨l.cursor.skip blanks.length, l.keyAllowed, ?_, ?_, fun _ => rfl, fun _ => rfl⟩
      · exact skipSpace_inline fuel hinline hpass hrest hmore
      · rw [Cursor.skip_rest, hrest, List.drop_left]
    · have hbreak : isBreak x = true := hnext x rfl
      have hline : l.cursor.rest = inline ++ x :: (xs ++ more) := by
        rw [hrest, hsplit, List.append_assoc, List.cons_append]
      have hpass : ∀ y ∈ inline, y = '\t' → l.inFlow = true ∨ l.keyAllowed = false := by
        rw [hsplit] at htabs
        exact htabs.inline
      rcases skipSpace_line fuel hinline hpass hbreak hline hmore with ⟨ys, c₁, hsuffix, hrest₁, hread₁⟩
      have hys : ys ⊆ blanks.dropWhile (fun x => !isBreak x) := by
        rw [← hothers]
        exact fun y hy => List.mem_cons_of_mem x (hsuffix.subset hy)
      have hspaces : ∀ y ∈ ys, Json.isSpace y = true :=
        fun y hy => hblanks y ((List.dropWhile_suffix _).subset (hys hy))
      have hlength : ys.length < fuel := by
        have hshorter := hsuffix.length_le
        rw [hsplit, List.length_append, List.length_cons] at hfuel
        omega
      rcases ih _ hspaces hlength hrest₁ (htabs.next hys c₁ _) with ⟨c, k, hread, hc, hk, _⟩
      refine ⟨c, k, hread₁.trans hread, hc, ?_, ?_⟩
      · rintro (hflow | hallowed)
        · rw [hk (.inl hflow), hflow]
          simp
        · have hkept : (l.keyAllowed || !l.inFlow) = true := by rw [hallowed, Bool.true_or]
          exact (hk (.inr hkept)).trans (hkept.trans hallowed.symm)
      · intro hnone
        have hx := hnone x (by rw [hsplit]; exact List.mem_append_right inline List.mem_cons_self)
        rw [hx] at hbreak
        cases hbreak

/-! ## Possible keys -/

/-- A lexer outside of blocks, where no possible key has to be one. -/
structure Tidy (l : Lexer) : Prop where
  count : l.count = l.tokens.length
  indent : l.indent = -1
  optional : ∀ mark ∈ l.keyMark, mark.required = false
  outerOptional : ∀ m ∈ l.outerKeyMarks, ∀ mark ∈ m, mark.required = false

/-- A possible key that has not been left behind. -/
def fresh (c : Cursor) (m : Option KeyMark) : Option KeyMark :=
  m.filter fun mark => !KeyMark.isStale mark c

theorem mem_of_mem_fresh {c : Cursor} {m : Option KeyMark} {mark : KeyMark} (h : mark ∈ fresh c m) : mark ∈ m :=
  (Option.filter_eq_some_iff.1 h).1

theorem dropStale_eq {c : Cursor} {m : Option KeyMark} (h : ∀ mark ∈ m, mark.required = false) :
    dropStale c m = some (fresh c m) := by
  cases m with
  | none => rfl
  | some mark =>
    have hmark := h mark rfl
    rw [dropStale, fresh, Option.filter_some]
    cases KeyMark.isStale mark c with
    | true => simp [hmark]
    | false => rfl

/-- Possible keys that need not be keys are just forgotten. -/
theorem dropStaleKeys_eq {l : Lexer} (h : Tidy l) :
    l.dropStaleKeys = some { l with
      keyMark := fresh l.cursor l.keyMark, outerKeyMarks := l.outerKeyMarks.map (fresh l.cursor) } := by
  have houter : l.outerKeyMarks.mapM (dropStale l.cursor) = some (l.outerKeyMarks.map (fresh l.cursor)) := by
    have hall := h.outerOptional
    generalize l.outerKeyMarks = marks at hall
    induction marks with
    | nil => rfl
    | cons m rest ih =>
      have hothers := ih fun m' hm' => hall m' (List.mem_cons_of_mem m hm')
      rw [List.mapM_cons, dropStale_eq (hall m List.mem_cons_self), hothers]
      rfl
  rw [dropStaleKeys, dropStale_eq h.optional, houter]
  rfl

/-- No block is open that could be closed. -/
theorem closeBlocks_eq {l : Lexer} (h : Tidy l) {column : Int} (hcolumn : -1 ≤ column) : l.closeBlocks column = l := by
  have hindent : ¬column < l.indent := by
    rw [h.indent]
    omega
  unfold closeBlocks
  split
  · rfl
  · rw [closeBlocks.close.eq_def, if_neg hindent]

theorem dropKey_eq {l : Lexer} (h : Tidy l) : l.dropKey = some { l with keyMark := none } := by
  rcases l with ⟨cursor, tokens, count, indent, outerIndents, keyAllowed, keyMark, outerKeyMarks⟩
  cases keyMark with
  | none => rfl
  | some mark =>
    have hmark : mark.required = false := h.optional mark rfl
    simp [dropKey, hmark]

/-! ## Settling -/

/-- The lexer passes over what stands between tokens, up to a place with these characters left. -/
structure Settles (l : Lexer) (more : List Char) (l' : Lexer) : Prop where
  run_eq : ∀ fuel, run (fuel + 1) l = if l'.cursor.atEnd then l'.finish else l'.next.bind (run fuel)
  tidy : Tidy l'
  rest : l'.cursor.rest = more
  shorter : l'.cursor.rest.length ≤ l.cursor.rest.length
  tokens : l'.tokens = l.tokens
  depth : l'.outerKeyMarks.length = l.outerKeyMarks.length
  keyAllowed : l.inFlow = true ∨ l.keyAllowed = true → l'.keyAllowed = l.keyAllowed

/-- Blanks stand between tokens. -/
theorem exists_settles {l : Lexer} (h : Tidy l) {blanks more : List Char}
    (hblanks : ∀ x ∈ blanks, Json.isSpace x = true) (hrest : l.cursor.rest = blanks ++ more)
    (hmore : Stops isGap more) (htabs : l.TabsPass blanks) :
    ∃ l', Settles l more l' ∧ ((∀ x ∈ blanks, isBreak x = false) →
      l'.cursor = l.cursor.skip blanks.length ∧ l'.keyMark = fresh l'.cursor l.keyMark) := by
  have hlength : blanks.length < l.cursor.rest.length + 1 := by
    rw [hrest, List.length_append]
    omega
  rcases skipSpace_blanks (l.cursor.rest.length + 1) l hblanks hlength hrest hmore htabs with
    ⟨c, k, hskip, hc, hk, hinline⟩
  let skipped : Lexer := { l with cursor := c, keyAllowed := k }
  have hskipped : Tidy skipped := ⟨h.count, h.indent, h.optional, h.outerOptional⟩
  let l' : Lexer := { skipped with
    keyMark := fresh c l.keyMark, outerKeyMarks := l.outerKeyMarks.map (fresh c) }
  have htidy : Tidy l' := by
    refine ⟨h.count, h.indent, ?_, ?_⟩
    · intro mark hmark
      exact h.optional mark (mem_of_mem_fresh hmark)
    · intro m hm mark hmark
      rcases List.mem_map.1 hm with ⟨old, hold, rfl⟩
      exact h.outerOptional old hold mark (mem_of_mem_fresh hmark)
  have hshorter : l'.cursor.rest.length ≤ l.cursor.rest.length := by
    show c.rest.length ≤ _
    rw [hc, hrest, List.length_append]
    omega
  refine ⟨l', ⟨?_, htidy, hc, hshorter, rfl, List.length_map _, hk⟩, fun hnone => ⟨hinline hnone, rfl⟩⟩
  intro fuel
  have hcolumn : (-1 : Int) ≤ l'.cursor.column := by omega
  rw [run, hskip, dropStaleKeys_eq hskipped]
  show (if (l'.closeBlocks l'.cursor.column).cursor.atEnd then _ else _) = _
  rw [closeBlocks_eq htidy hcolumn]
  rfl

end Sidecar.Yaml.Lexer
