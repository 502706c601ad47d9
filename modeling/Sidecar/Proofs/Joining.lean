import Sidecar.Glob.Walk

/-!
# Patterns behind a path

A relative pattern is joined to a path before it is read. If no character of the path means anything in a pattern, the
path is read as itself: it becomes components without wildcards, and behind them the pattern is read as it would be on
its own. The one trace that the path leaves is in the positions of errors.

The main statement is `outcome_compile`. A pattern is read twice, as a whole and by its components, and so there are two
lemmas below it: `outcome_behind_plain` and `readComponents_append`.
-/

namespace Sidecar.Glob

/-! ## Reading behind a plain text -/

/-- Whether a character stands for itself wherever it is in a pattern. -/
def isPlain (c : Char) : Bool :=
  c ≠ '*' && c ≠ '?' && c ≠ '['

theorem compileFrom_plain {c : Char} (h : isPlain c = true) (position : Nat) (before : Option Char)
    (rest : List Char) :
    compileFrom position before (c :: rest) =
      (Token.char c :: ·) <$> compileFrom (position + 1) (some c) rest := by
  simp only [isPlain, Bool.and_eq_true, decide_eq_true_eq] at h
  rcases h with ⟨⟨hstar, hmark⟩, hbracket⟩
  rw [compileFrom, bind_pure_comp]
  all_goals simp [hstar, hmark, hbracket]

/-- What comes of reading a pattern, apart from the position of an error. -/
def outcome {α : Type} (result : Except PatternError α) : Except Fault α :=
  result.mapError PatternError.fault

theorem outcome_map {α β : Type} (f : α → β) (result : Except PatternError α) :
    outcome (f <$> result) = f <$> outcome result := by
  cases result <;> rfl

/-- Something that is made of what has been read has no influence on what comes of reading it. -/
theorem outcome_congr {α β : Type} {first second : Except PatternError α} (h : outcome first = outcome second)
    (f : α → β) : outcome (do return f (← first)) = outcome (do return f (← second)) := by
  rw [bind_pure_comp, bind_pure_comp, outcome_map, outcome_map, h]

/-- Where a pattern begins has no influence but on the positions of errors. -/
theorem outcome_compileFrom (position position' : Nat) (before : Option Char) (cs : List Char) :
    outcome (compileFrom position before cs) = outcome (compileFrom position' before cs) := by
  -- one case for each way in which reading goes on; the position is only passed on to errors
  fun_induction compileFrom position before cs generalizing position' with
  | case1 => rw [compileFrom]
  | case2 position before rest ih =>
    rw [compileFrom]
    exact outcome_congr (ih _) _
  | case3 =>
    rw [compileFrom]
    rfl
  | case4 position before rest hrest hbefore =>
    cases rest with
    | nil =>
      rw [compileFrom, if_pos hbefore]
      rfl
    | cons c rest =>
      rw [compileFrom.eq_5 _ _ _ _ hrest, if_pos hbefore]
      rfl
  | case5 position before hbefore =>
    rw [compileFrom, if_neg hbefore]
  | case6 position before hbefore rest hrest ih =>
    rw [compileFrom.eq_5 _ _ _ _ hrest, if_neg hbefore, if_pos rfl]
    exact outcome_congr (ih _) _
  | case7 position before hbefore c rest hc hrest =>
    rw [compileFrom.eq_5 _ _ _ _ hrest, if_neg hbefore, if_neg hc]
    rfl
  | case8 position before rest hstars hstar ih =>
    rw [compileFrom.eq_6 _ _ _ hstars hstar]
    exact outcome_congr (ih _) _
  | case9 position before rest token after hset _ ih =>
    rw [compileFrom]
    split
    · rename_i token' after' hset'
      rw [hset] at hset'
      cases hset'
      exact outcome_congr (ih _) _
    · rename_i hset'
      rw [hset] at hset'
      cases hset'
  | case10 position before rest hset =>
    rw [compileFrom]
    split
    · rename_i token' after' hset'
      rw [hset] at hset'
      cases hset'
    · rfl
  | case11 position before c rest hmark hstars hstar hstar' hbracket ih =>
    rw [compileFrom]
    · exact outcome_congr (ih _) _
    all_goals assumption

/-- A plain text in front of a pattern has no influence on what comes of it. -/
theorem outcome_behind_plain {cs : List Char} (hplain : ∀ c ∈ cs, isPlain c = true) (position : Nat)
    (before : Option Char) (rest : List Char) :
    outcome (compileFrom position before (cs ++ rest)) =
      (cs.map Token.char ++ ·) <$> outcome (compileFrom 0 (cs.getLast?.or before) rest) := by
  induction cs generalizing position before with
  | nil =>
    rw [List.nil_append, outcome_compileFrom position 0]
    exact (id_map _).symm
  | cons c cs ih =>
    have hlast : (c :: cs).getLast?.or before = cs.getLast?.or (some c) := by
      rw [List.getLast?_cons]
      cases cs.getLast? <;> rfl
    rw [List.cons_append, compileFrom_plain (hplain c List.mem_cons_self), outcome_map,
      ih fun d hd => hplain d (List.mem_cons_of_mem c hd), hlast, ← comp_map]
    rfl

/-- A plain text is a pattern for itself. -/
theorem compileFrom_of_plain {cs : List Char} (hplain : ∀ c ∈ cs, isPlain c = true) (position : Nat)
    (before : Option Char) : compileFrom position before cs = .ok (cs.map Token.char) := by
  induction cs generalizing position before with
  | nil => rw [compileFrom, List.map_nil]
  | cons c cs ih =>
    rw [compileFrom_plain (hplain c List.mem_cons_self), ih fun d hd => hplain d (List.mem_cons_of_mem c hd)]
    rfl

theorem ofTokens_chars (cs : List Char) : Component.ofTokens (cs.map .char) = .literal (String.ofList cs) := by
  have hliteral : literal? (cs.map .char) = some cs := by
    induction cs with
    | nil => rfl
    | cons c cs ih => rw [List.map_cons, literal?, ih, Option.map_some]
  rw [Component.ofTokens, hliteral]

/-! ## Components behind a directory -/

theorem splitPath_ne_nil {cs : List Char} (h : cs ≠ []) : splitPath cs ≠ [] := by
  cases cs with
  | nil => exact absurd rfl h
  | cons c cs =>
    rw [splitPath]
    split
    · exact List.cons_ne_nil _ _
    · split
      · exact List.cons_ne_nil _ _
      · exact List.cons_ne_nil _ _

/-- What is behind a separator is split on its own. -/
theorem splitPath_append (cs rest : List Char) :
    splitPath (cs ++ separator :: rest) = splitPath (cs ++ [separator]) ++ splitPath rest := by
  induction cs with
  | nil => rfl
  | cons c cs ih =>
    rw [List.cons_append, List.cons_append, splitPath, splitPath, ih]
    by_cases hseparator : c = separator
    · rw [if_pos hseparator, if_pos hseparator, List.cons_append]
    · rw [if_neg hseparator, if_neg hseparator]
      have hne : splitPath (cs ++ [separator]) ≠ [] := splitPath_ne_nil (by simp)
      cases hsplit : splitPath (cs ++ [separator]) with
      | nil => exact absurd hsplit hne
      | cons first others => rfl

/-- The components of a text are made of its characters. -/
theorem mem_of_mem_splitPath {cs component : List Char} {c : Char} (h : component ∈ splitPath cs)
    (hc : c ∈ component) : c ∈ cs := by
  induction cs generalizing component with
  | nil => cases h
  | cons d cs ih =>
    rw [splitPath] at h
    split at h
    · rcases List.mem_cons.1 h with rfl | h
      · cases hc
      · exact List.mem_cons_of_mem d (ih h hc)
    · split at h
      · rw [List.mem_singleton.1 h, List.mem_singleton] at hc
        rw [hc]
        exact List.mem_cons_self
      · rename_i first others hsplit
        rcases List.mem_cons.1 h with rfl | h
        · rcases List.mem_cons.1 hc with rfl | hc
          · exact List.mem_cons_self
          · exact List.mem_cons_of_mem d (ih (hsplit ▸ List.mem_cons_self) hc)
        · exact List.mem_cons_of_mem d (ih (hsplit ▸ List.mem_cons_of_mem first h) hc)

/-- Reads the components of a pattern. -/
def readComponents (cs : List Char) : Except PatternError (List Component) :=
  (splitPath cs).mapM fun component => Component.ofTokens <$> compileFrom 0 none component

/-- The components of a plain text are its names. -/
theorem readComponents_of_plain {cs : List Char} (hplain : ∀ c ∈ cs, isPlain c = true) :
    readComponents cs = .ok (((splitPath cs).map String.ofList).map .literal) := by
  have hcomponents : ∀ component ∈ splitPath cs, ∀ c ∈ component, isPlain c = true :=
    fun component hcomponent c hc => hplain c (mem_of_mem_splitPath hcomponent hc)
  unfold readComponents
  generalize splitPath cs = components at hcomponents
  induction components with
  | nil => rfl
  | cons component rest ih =>
    have hfirst : Component.ofTokens <$> compileFrom 0 none component = .ok (.literal (String.ofList component)) := by
      rw [compileFrom_of_plain (hcomponents component List.mem_cons_self), ← ofTokens_chars]
      rfl
    rw [List.mapM_cons, hfirst, ih fun other hother => hcomponents other (List.mem_cons_of_mem component hother)]
    rfl

/-- Behind a separator components are read on their own. -/
theorem readComponents_append {base : List Char} (hbase : base = [] ∨ base.getLast? = some separator)
    (rest : List Char) :
    readComponents (base ++ rest) = do
      let first ← readComponents base
      let second ← readComponents rest
      return first ++ second := by
  have hsplit : splitPath (base ++ rest) = splitPath base ++ splitPath rest := by
    rcases hbase with rfl | hlast
    · rfl
    · rcases List.getLast?_eq_some_iff.1 hlast with ⟨front, rfl⟩
      rw [List.append_assoc, List.singleton_append, splitPath_append]
  unfold readComponents
  rw [hsplit, List.mapM_append]

theorem outcome_bind {α β : Type} (result : Except PatternError α) (f : α → Except PatternError β) :
    outcome (result >>= f) = outcome result >>= fun a => outcome (f a) := by
  cases result <;> rfl

theorem ne_nil_of_readComponents {cs : List Char} {components : List Component}
    (h : readComponents cs = .ok components) (hcs : cs ≠ []) : components ≠ [] := by
  unfold readComponents at h
  cases hsplit : splitPath cs with
  | nil => exact absurd hsplit (splitPath_ne_nil hcs)
  | cons first rest =>
    rintro rfl
    rw [hsplit, List.mapM_cons] at h
    cases hfirst : Component.ofTokens <$> compileFrom 0 none first with
    | error e =>
      rw [hfirst] at h
      cases h
    | ok component =>
      rw [hfirst] at h
      cases hrest : rest.mapM fun component => Component.ofTokens <$> compileFrom 0 none component with
      | error e =>
        rw [hrest] at h
        cases h
      | ok others =>
        rw [hrest] at h
        cases h

/-- Reads a pattern that stands behind a separator: as a whole, and then its components. -/
def readRelative (pattern : String) : Except Fault (List Component) := do
  let _ ← outcome (compileFrom 0 (some separator) pattern.toList)
  outcome (readComponents pattern.toList)

theorem of_readRelative {pattern : String} {components : List Component} (h : readRelative pattern = .ok components) :
    readComponents pattern.toList = .ok components := by
  unfold readRelative at h
  cases hwhole : compileFrom 0 (some separator) pattern.toList with
  | error e =>
    rw [hwhole] at h
    cases h
  | ok tokens =>
    rw [hwhole] at h
    cases hread : readComponents pattern.toList with
    | error e =>
      rw [hread] at h
      cases h
    | ok components' =>
      rw [hread] at h
      cases h
      rfl

/-- A plain path that ends with a separator leads to its names, and behind them the pattern is read on its own. -/
theorem outcome_compile {path : AbsolutePath} {pattern : String} {base : List Char}
    (hbase : base = [] ∨ base.getLast? = some separator)
    (hplain : ∀ c ∈ base, isPlain c = true) (hpath : path.belowTop = base ++ pattern.toList) :
    outcome (PathPattern.compile path) = do
      let components ← readRelative pattern
      let all := ((splitPath base).map String.ofList).map Component.literal ++ components
      return ⟨if all.isEmpty then [.literal ""] else all, path.text.endsWith "/"⟩ := by
  have hlast : (separator :: base).getLast?.or none = some separator := by
    rcases hbase with rfl | hlast
    · rfl
    · rw [List.getLast?_cons, hlast]
      rfl
  have hplain' : ∀ c ∈ separator :: base, isPlain c = true := by
    intro c hc
    rcases List.mem_cons.1 hc with rfl | hc
    · rfl
    · exact hplain c hc
  have hwhole : outcome (Glob.compile path.text) = ((separator :: base).map Token.char ++ ·) <$>
      outcome (compileFrom 0 (some separator) pattern.toList) := by
    rw [Glob.compile, path.toList_text, hpath, ← List.cons_append, outcome_behind_plain hplain', hlast]
  have hcomponents : readComponents path.belowTop = do
      let components ← readComponents pattern.toList
      return ((splitPath base).map String.ofList).map Component.literal ++ components := by
    rw [hpath, readComponents_append hbase, readComponents_of_plain hplain]
    rfl
  unfold PathPattern.compile readRelative
  rw [outcome_bind, hwhole]
  change (_ >>= fun _ => outcome (readComponents path.belowTop >>= _)) = _
  rw [hcomponents]
  cases compileFrom 0 (some separator) pattern.toList with
  | error e => rfl
  | ok tokens =>
    cases readComponents pattern.toList with
    | error e => rfl
    | ok components => rfl

end Sidecar.Glob
