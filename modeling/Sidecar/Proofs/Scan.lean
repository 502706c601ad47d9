import Sidecar.Expression

/-!
# Expansion as one scan

The expansion of a text looks for references with patterns, copies what stands between them, and looks once more at
what stands behind the last of them. All this comes to a single pass over the text from left to right: a character
that does not open a reference is copied, a reference extends to the first closing brace behind its opening and is
replaced, and the first reference that is malformed or never closed ends the scan.

The main statement is `expand_eq_scan`. It rests on what the patterns match (`matchAt?_opening`, `matchAt?_reference`,
`isMatch_identifier`, `isMatch_shell`), and on `expandFrom_references`, which follows the references of a text.
-/

namespace Sidecar

open Text

/-! ## Patterns for a whole text -/

namespace Text

namespace Pattern

/-- A pattern matches a text from its start to its end. -/
def Spans (p : Pattern) (text : List Char) : Prop :=
  ∃ m, p.Takes (.empty (Place.start text)) m ∧ m.stop.rest = []

/-- A pattern that is bound to both ends of a text matches somewhere in it only if it matches all of it. -/
theorem isMatch_whole {p : Pattern} {text : List Char} :
    (atStart ++ p ++ atEnd).isMatch text = true ↔ p.Spans text := by
  unfold isMatch
  constructor
  · intro h
    obtain ⟨m, hm⟩ := Option.isSome_iff_exists.1 h
    obtain ⟨⟨between, ⟨first, ⟨hoffset, rfl⟩, hp⟩, hend, rfl⟩, skipped, hleads, -⟩ := search_eq_some hm
    -- the match begins at offset 0, so nothing has been skipped
    have hnothing : skipped = [] := by
      cases skipped with
      | nil => rfl
      | cons c skipped =>
        have hbytes := hleads.offset
        have hpos := c.utf8Size_pos
        simp only [byteLength_cons] at hbytes
        have : m.start.offset = 0 := hoffset
        omega
    subst hnothing
    have hstart : m.start = Place.start text := by
      obtain ⟨hrest, hoff⟩ := hleads
      cases hplace : m.start with
      | mk offset rest => simp_all [Place.start]
    exact ⟨m, hstart ▸ hp, hend⟩
  · rintro ⟨m, hp, hend⟩
    -- a search that found nothing would have tried the first place, too
    cases hsearch : (atStart ++ p ++ atEnd).search 0 text with
    | some _ => rfl
    | none =>
      have hnone := matchAt?_eq_none_iff.1 (search_eq_none hsearch (List.nil_append text).symm) m
      exact absurd ⟨m, ⟨_, ⟨rfl, rfl⟩, hp⟩, hend, rfl⟩ hnone

/-- A word takes a first character and others. -/
theorem takes_word {first others : Char → Bool} {m m' : Match} :
    (word first others).Takes m m' ↔
      ∃ c cs place, first c = true ∧ (∀ d ∈ cs, others d = true) ∧ m.stop.Leads (c :: cs) place ∧
        m' = m.moveTo place := by
  constructor
  · rintro ⟨between, ⟨c, place, hc, hfirst, rfl⟩, cs, place', hcs, hothers, rfl⟩
    exact ⟨c, cs, place', hc, hcs, hfirst.trans hothers, rfl⟩
  · rintro ⟨c, cs, place, hc, hcs, hleads, rfl⟩
    obtain ⟨between, hfirst, hothers⟩ := (show m.stop.Leads ([c] ++ cs) place from hleads).split
    exact ⟨m.moveTo between, ⟨c, between, hc, hfirst, rfl⟩, cs, place, hcs, hothers, rfl⟩

theorem spans_word {first others : Char → Bool} {text : List Char} :
    (word first others).Spans text ↔ ∃ c cs, text = c :: cs ∧ first c = true ∧ ∀ d ∈ cs, others d = true := by
  constructor
  · rintro ⟨m, htakes, hend⟩
    obtain ⟨c, cs, place, hc, hcs, hleads, rfl⟩ := takes_word.1 htakes
    have hrest : text = c :: cs ++ place.rest := hleads.rest
    have hplace : place.rest = [] := hend
    rw [hplace, List.append_nil] at hrest
    exact ⟨c, cs, hrest, hc, hcs⟩
  · rintro ⟨c, cs, rfl, hc, hcs⟩
    have hleads : (Place.start (c :: cs)).Leads (c :: cs) ⟨byteLength (c :: cs), []⟩ :=
      ⟨by simp [Place.start], by simp [Place.start]⟩
    exact ⟨_, takes_word.2 ⟨c, cs, _, hc, hcs, hleads, rfl⟩, rfl⟩

theorem spans_either {p q : Pattern} {text : List Char} : (either p q).Spans text ↔ p.Spans text ∨ q.Spans text := by
  constructor
  · rintro ⟨m, htakes | htakes, hend⟩
    · exact .inl ⟨m, htakes, hend⟩
    · exact .inr ⟨m, htakes, hend⟩
  · rintro (⟨m, htakes, hend⟩ | ⟨m, htakes, hend⟩)
    · exact ⟨m, .inl htakes, hend⟩
    · exact ⟨m, .inr htakes, hend⟩

end Pattern

end Text

namespace Expression

/-! ## The scan -/

/-- A letter or an underscore, and then letters, digits and underscores. -/
def isIdentifier : List Char → Bool
  | [] => false
  | c :: rest => isNameStart c && rest.all isNameChar

/-- Digits only, or something on one line that begins with a letter, `_`, `#` or `!`. -/
def isForShell : List Char → Bool
  | [] => false
  | c :: rest => (c :: rest).all Char.isDigit || (isShellStart c && !(c :: rest).contains '\n')

/-- What a reference with a name stands for, unless it is malformed. -/
def meaning? (vars : String → Option String) (name : List Char) : Option (List Char) :=
  if isIdentifier name then
    match vars (String.ofList name) with
    | some value => some value.toList
    | none => some (reference name)
  else if isForShell name then some (reference name)
  else none

/-- What stands in front of the first closing brace, and what stands behind it. -/
def closing? : List Char → Option (List Char × List Char)
  | [] => none
  | c :: rest =>
    if c = '\x7d' then some ([], rest)
    else (closing? rest).map fun (name, behind) => (c :: name, behind)

theorem closing?_eq_some {cs name behind : List Char} :
    closing? cs = some (name, behind) ↔ '\x7d' ∉ name ∧ cs = name ++ '\x7d' :: behind := by
  induction cs generalizing name with
  | nil => simp [closing?]
  | cons c rest ih =>
    simp only [closing?]
    by_cases hc : c = '\x7d'
    · subst hc
      cases name with
      | nil => simp [eq_comm]
      | cons d name =>
        simp only [if_true, Option.some.injEq, Prod.mk.injEq, List.cons_append, List.cons.injEq]
        grind
    · cases name with
      | nil => simp [hc]
      | cons d name =>
        simp only [hc, if_false, Option.map_eq_some_iff, Prod.exists, Prod.mk.injEq, List.cons.injEq,
          List.cons_append, List.mem_cons, not_or]
        constructor
        · rintro ⟨name', behind', h, ⟨rfl, rfl⟩, rfl⟩
          obtain ⟨hname, rfl⟩ := ih.1 h
          exact ⟨⟨fun h => hc h.symm, hname⟩, rfl, rfl⟩
        · rintro ⟨⟨-, hname⟩, rfl, rfl⟩
          exact ⟨name, behind, ih.2 ⟨hname, rfl⟩, ⟨rfl, rfl⟩, rfl⟩

theorem closing?_eq_none {cs : List Char} : closing? cs = none ↔ '\x7d' ∉ cs := by
  induction cs with
  | nil => simp [closing?]
  | cons c rest ih =>
    by_cases hc : c = '\x7d'
    · simp [closing?, hc]
    · have hc' : '\x7d' ≠ c := fun h => hc h.symm
      simp [closing?, hc, hc', ih]

/-- The result of a scan in front of which so many bytes have been passed, with some characters put in their place. -/
def resumed (bytes : Nat) (put : List Char) : Except ExpressionError (List Char) → Except ExpressionError (List Char)
  | .ok text => .ok (put ++ text)
  | .error (.malformed offset fragment) => .error (.malformed (bytes + offset) fragment)

/-- Passes once over a text. A failure tells how many bytes are in front of the malformed reference. -/
def scan (vars : String → Option String) : List Char → Except ExpressionError (List Char)
  | [] => .ok []
  | '$' :: '\x7b' :: rest =>
    match _h : closing? rest with
    | none => .error (.malformed 0 (String.ofList ('$' :: '\x7b' :: rest)))
    | some (name, behind) =>
      match meaning? vars name with
      | none => .error (.malformed 0 (String.ofList (reference name)))
      | some text => resumed (byteLength (reference name)) text (scan vars behind)
  | c :: rest => resumed c.utf8Size [c] (scan vars rest)
termination_by cs => cs.length
decreasing_by
  · obtain ⟨-, hrest⟩ := closing?_eq_some.1 _h
    have hlength := congrArg List.length hrest
    simp only [List.length_cons, List.length_append] at hlength ⊢
    omega
  · simp

@[simp] theorem resumed_zero (result : Except ExpressionError (List Char)) : resumed 0 [] result = result := by
  cases result with
  | ok text => rfl
  | error e => simp [resumed]

@[simp] theorem resumed_resumed (n k : Nat) (xs ys : List Char) (result : Except ExpressionError (List Char)) :
    resumed n xs (resumed k ys result) = resumed (n + k) (xs ++ ys) result := by
  cases result with
  | ok text => simp [resumed]
  | error e => simp [resumed, Nat.add_assoc]

theorem bind_resumed (n : Nat) (front put : List Char) (result : Except ExpressionError (List Char)) :
    (resumed n put result).bind (fun text => .ok (front ++ text)) = resumed n (front ++ put) result := by
  cases result with
  | ok text => simp [resumed, Except.bind]
  | error e => rfl

/-- A reference is opened where a text begins. -/
def Opens (cs : List Char) : Prop :=
  ∃ rest, cs = '$' :: '\x7b' :: rest

@[simp] theorem scan_nil (vars : String → Option String) : scan vars [] = .ok [] := by
  rw [scan]

/-- A reference that is never closed is malformed. -/
theorem scan_unclosed (vars : String → Option String) {rest : List Char} (h : '\x7d' ∉ rest) :
    scan vars ('$' :: '\x7b' :: rest) = .error (.malformed 0 (String.ofList ('$' :: '\x7b' :: rest))) := by
  rw [scan]
  split
  · rfl
  · rename_i name behind hclosing
    rw [closing?_eq_none.2 h] at hclosing
    cases hclosing

/-- A reference is replaced, or it is malformed. -/
theorem scan_reference (vars : String → Option String) {name : List Char} (h : '\x7d' ∉ name)
    (behind : List Char) :
    scan vars (reference name ++ behind) =
      match meaning? vars name with
      | none => .error (.malformed 0 (String.ofList (reference name)))
      | some text => resumed (byteLength (reference name)) text (scan vars behind) := by
  have hcs : reference name ++ behind = '$' :: '\x7b' :: (name ++ '\x7d' :: behind) := by
    simp [reference]
  rw [hcs, scan]
  split
  · rename_i hclosing
    rw [closing?_eq_some.2 ⟨h, rfl⟩] at hclosing
    cases hclosing
  · rename_i name' behind' hclosing
    rw [closing?_eq_some.2 ⟨h, rfl⟩] at hclosing
    cases hclosing
    rfl

/-- A character that does not open a reference is copied. -/
theorem scan_char (vars : String → Option String) {c : Char} {rest : List Char} (h : ¬Opens (c :: rest)) :
    scan vars (c :: rest) = resumed c.utf8Size [c] (scan vars rest) := by
  rw [scan]
  rintro rest' rfl rfl
  exact h ⟨rest', rfl⟩

/-- Characters none of which opens a reference are copied. -/
theorem scan_append_of_not_opens (vars : String → Option String) {copied rest : List Char}
    (h : ∀ xs c ys, copied = xs ++ c :: ys → ¬Opens (c :: ys ++ rest)) :
    scan vars (copied ++ rest) = resumed (byteLength copied) copied (scan vars rest) := by
  induction copied with
  | nil => simp
  | cons c copied ih =>
    have hrest : ∀ xs d ys, copied = xs ++ d :: ys → ¬Opens (d :: ys ++ rest) := by
      rintro xs d ys rfl
      exact h (c :: xs) d ys rfl
    have hc : ¬Opens (c :: (copied ++ rest)) := h [] c copied rfl
    rw [List.cons_append, scan_char vars hc, ih hrest, resumed_resumed, byteLength_cons]
    rfl

/-! ## What the patterns match -/

theorem opening_takes {m : Match} {place : Place} (h : m.stop.Leads ['$', '\x7b'] place) :
    openingPattern.Takes m (m.moveTo place) := by
  obtain ⟨between, hfirst, hsecond⟩ := (show m.stop.Leads (['$'] ++ ['\x7b']) place from h).split
  exact ⟨m.moveTo between, ⟨'$', between, rfl, hfirst, rfl⟩, '\x7b', place, rfl, hsecond, rfl⟩

theorem reference_takes {place stop : Place} {name : List Char} (hname : '\x7d' ∉ name)
    (h : place.Leads (reference name) stop) : ∃ m, referencePattern.Takes (.empty place) m := by
  obtain ⟨last, hnamed, hclosing⟩ := h.split
  obtain ⟨inside, hopening, hinside⟩ := (show place.Leads (['$', '\x7b'] ++ name) last from hnamed).split
  have haccepts : ∀ c ∈ name, (c != '\x7d') = true := by
    intro c hc
    rw [bne_iff_ne]
    rintro rfl
    exact hname hc
  exact ⟨_, _, ⟨_, opening_takes hopening, _, ⟨name, last, haccepts, hinside, rfl⟩, rfl⟩, '\x7d', stop, rfl, hclosing,
    rfl⟩

theorem matchAt?_opening {place : Place} : openingPattern.matchAt? place = none ↔ ¬Opens place.rest := by
  rw [Pattern.matchAt?_eq_none_iff]
  constructor
  · rintro h ⟨rest, hrest⟩
    have hleads : place.Leads ['$', '\x7b'] ⟨place.offset + byteLength ['$', '\x7b'], rest⟩ := ⟨hrest, rfl⟩
    exact h _ (opening_takes hleads)
  · rintro h m htakes
    obtain ⟨behind, hleads, -⟩ := takes_opening htakes
    exact h ⟨behind.rest, hleads.rest⟩

/-- A reference matches where it is opened, if it is closed at all. -/
theorem matchAt?_reference {place : Place} :
    referencePattern.matchAt? place = none ↔ ∀ rest, place.rest = '$' :: '\x7b' :: rest → '\x7d' ∉ rest := by
  rw [Pattern.matchAt?_eq_none_iff]
  constructor
  · intro h rest hrest
    rw [← closing?_eq_none]
    cases hclosing : closing? rest with
    | none => rfl
    | some split =>
      obtain ⟨name, behind⟩ := split
      obtain ⟨hname, rfl⟩ := closing?_eq_some.1 hclosing
      have hleads : place.Leads (reference name) ⟨place.offset + byteLength (reference name), behind⟩ :=
        ⟨by simp [hrest, reference], rfl⟩
      obtain ⟨m, hm⟩ := reference_takes hname hleads
      exact absurd hm (h m)
  · intro h m htakes
    obtain ⟨name, -, hleads, -⟩ := takes_reference htakes
    refine h (name ++ '\x7d' :: m.stop.rest) ?_ (by simp)
    rw [hleads.rest]
    simp [reference]

/-- The names of variables are the identifiers. -/
theorem isMatch_identifier (name : List Char) : identifierPattern.isMatch name = isIdentifier name := by
  rw [Bool.eq_iff_iff, identifierPattern, Pattern.isMatch_whole, Pattern.spans_word]
  cases name with
  | nil => simp [isIdentifier]
  | cons c cs => simp [isIdentifier, and_assoc]

theorem isNameChar_newline : isNameChar '\n' = false := by decide

theorem isShellStart_newline : isShellStart '\n' = false := by decide

/-- The characters of a name cannot be told from others on the same line. -/
theorem spans_line {text : List Char} :
    (Pattern.word isShellStart isNameChar ++ Pattern.many (· != '\n')).Spans text ↔
      ∃ c cs, text = c :: cs ∧ isShellStart c = true ∧ '\n' ∉ text := by
  constructor
  · rintro ⟨m, ⟨between, hword, ds, place, hds, hline, rfl⟩, hend⟩
    obtain ⟨c, cs, place', hc, hcs, hleads, rfl⟩ := Pattern.takes_word.1 hword
    have hrest : text = c :: cs ++ ds ++ place.rest := (hleads.trans hline).rest
    have hplace : place.rest = [] := hend
    rw [hplace, List.append_nil] at hrest
    refine ⟨c, cs ++ ds, hrest, hc, ?_⟩
    rw [hrest]
    intro hmem
    simp only [List.cons_append, List.mem_cons, List.mem_append] at hmem
    rcases hmem with rfl | hmem | hmem
    · simp [isShellStart_newline] at hc
    · simpa [isNameChar_newline] using hcs _ hmem
    · simpa using hds _ hmem
  · rintro ⟨c, cs, rfl, hc, hline⟩
    have haccepts : ∀ d ∈ cs, (d != '\n') = true := by
      intro d hd
      rw [bne_iff_ne]
      rintro rfl
      exact hline (List.mem_cons_of_mem _ hd)
    -- One way to match is enough: the word takes a single character, and the rest is left to the line.
    have hfirst : (Place.start (c :: cs)).Leads [c] ⟨c.utf8Size, cs⟩ := ⟨rfl, by simp [Place.start]⟩
    have hothers : Place.Leads ⟨c.utf8Size, cs⟩ cs ⟨c.utf8Size + byteLength cs, []⟩ := ⟨by simp, rfl⟩
    exact ⟨_, ⟨_, Pattern.takes_word.2 ⟨c, [], _, hc, by simp, hfirst, rfl⟩, cs, _, haccepts, hothers, rfl⟩, rfl⟩

/-- What a shell may expand are the names that are kept for it. -/
theorem isMatch_shell (name : List Char) : shellPattern.isMatch name = isForShell name := by
  rw [Bool.eq_iff_iff, shellPattern, Pattern.isMatch_whole, Pattern.spans_either, spans_line, Pattern.spans_word]
  cases name with
  | nil => simp [isForShell]
  | cons c cs => simp [isForShell, or_comm, and_assoc]

/-! ## The references of a text -/

/-- What is put in the place of a reference depends on its name alone. -/
theorem substitute_eq (vars : String → Option String) {m : Match} {name : List Char} (hpart : m.partText = name)
    (htext : m.text = reference name) :
    substitute vars m =
      match meaning? vars name with
      | none => .error (.malformed m.start.offset (String.ofList (reference name)))
      | some text => .ok text := by
  rw [substitute, hpart, htext, isMatch_identifier, isMatch_shell, meaning?]
  split
  · cases vars (String.ofList name) <;> rfl
  · split <;> rfl

/-- Expanding a text from reference to reference comes to the same as a scan. -/
theorem expandFrom_references (vars : String → Option String) (place : Place) :
    expandFrom vars place (references place) = resumed place.offset [] (scan vars place.rest) := by
  fun_induction references place with
  | case1 place hsearch =>
    -- There is no reference any more, and the tail decides.
    rw [expandFrom]
    cases hopening : openingPattern.search place.offset place.rest with
    | none =>
      have hcopied : ∀ xs c ys, place.rest = xs ++ c :: ys → ¬Opens (c :: ys ++ []) := by
        intro xs c ys hsplit
        rw [List.append_nil]
        exact matchAt?_opening.1 (Pattern.search_eq_none hopening hsplit)
      have hscan := scan_append_of_not_opens vars hcopied
      rw [List.append_nil] at hscan
      simp [hscan, resumed]
    | some m =>
      obtain ⟨htakes, skipped, hleads, hmiss⟩ := Pattern.search_eq_some hopening
      obtain ⟨behind, hopens, -⟩ := takes_opening htakes
      have hstart : m.start.rest = '$' :: '\x7b' :: behind.rest := hopens.rest
      have hplace : place.rest = skipped ++ m.start.rest := hleads.rest
      -- no reference is closed, so neither is the one that is opened first
      have hunclosed : '\x7d' ∉ behind.rest :=
        matchAt?_reference.1 (Pattern.search_eq_none hsearch hplace) behind.rest hstart
      have hcopied : ∀ xs c ys, skipped = xs ++ c :: ys → ¬Opens (c :: ys ++ m.start.rest) :=
        fun xs c ys hsplit => matchAt?_opening.1 (hmiss xs c ys hsplit)
      rw [hplace, scan_append_of_not_opens vars hcopied, hstart, scan_unclosed vars hunclosed, ← hstart]
      simp [resumed, hleads.offset]
  | case2 place m hsearch ih =>
    obtain ⟨htakes, skipped, hleads, hmiss⟩ := Pattern.search_eq_some hsearch
    obtain ⟨name, hname, hreference, hpart, -⟩ := takes_reference htakes
    have hplace : place.rest = skipped ++ m.start.rest := hleads.rest
    -- what is opened in front of the reference would be closed with it at the latest
    have hcopied : ∀ xs c ys, skipped = xs ++ c :: ys → ¬Opens (c :: ys ++ m.start.rest) := by
      rintro xs c ys hsplit ⟨rest, hopens⟩
      have hunclosed := matchAt?_reference.1 (hmiss xs c ys hsplit) rest hopens
      have hclosed : '\x7d' ∈ c :: ys ++ m.start.rest := by
        simp [hreference.rest, reference]
      rw [hopens] at hclosed
      simp [hunclosed] at hclosed
    rw [expandFrom, substitute_eq vars hpart hreference.upTo_eq, hleads.upTo_eq, ih, hplace,
      scan_append_of_not_opens vars hcopied, hreference.rest, scan_reference vars hname]
    cases meaning? vars name with
    | none =>
      show Except.error (ExpressionError.malformed m.start.offset _) = _
      simp [resumed, hleads.offset]
    | some text =>
      show (resumed m.stop.offset [] (scan vars m.stop.rest)).bind (fun later => .ok (skipped ++ text ++ later)) = _
      rw [bind_resumed, resumed_resumed, resumed_resumed, hreference.offset, hleads.offset]
      simp [Nat.add_assoc]

/-- At the beginning of a text, nothing has been passed. -/
theorem expandFrom_start (vars : String → Option String) (cs : List Char) :
    expandFrom vars (Place.start cs) (references (Place.start cs)) = scan vars cs := by
  rw [expandFrom_references]
  exact resumed_zero (scan vars cs)

/-- Expanding a text comes to scanning it once. -/
theorem expand_eq_scan (vars : String → Option String) (raw : String) :
    expand vars raw = (scan vars raw.toList).map String.ofList := by
  rw [expand, expandFrom_start]
  cases scan vars raw.toList with
  | ok text => rfl
  | error e => rfl

end Expression

end Sidecar
