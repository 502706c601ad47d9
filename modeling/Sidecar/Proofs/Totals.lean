import Mathlib.Algebra.GroupWithZero.Nat
import Sidecar.Report

/-!
# Totals of reports

What a summary comes to is known from its patterns one at a time. Each pattern has a fault, or files that are counted,
and the patterns before the first one with a fault are all that is looked at.

The main statement is `Workspace.summarize_adds_up`. It holds of every file system: directories that cannot be listed
and files that cannot be read are faults among others. What one pattern comes to is `ReportSummary.addPatterns_cons`,
and the rest is an induction over the patterns. The test cases of a report are counted at every place where a word
begins; since that word does not overlap with itself, these are the occurrences that are found from the left, each
behind the one before it (`ReportSummary.testCasesIn_eq`).
-/

namespace Sidecar

open Glob

namespace ReportSummary

/-! ## Occurrences that do not overlap -/

/-- The number of occurrences of a word in a text, each behind the end of the one before it. -/
def disjointOccurrences (word : List Char) : List Char → Nat
  | [] => 0
  | c :: rest =>
    if word.isPrefixOf (c :: rest) then disjointOccurrences word (rest.drop (word.length - 1)) + 1
    else disjointOccurrences word rest
termination_by text => text.length
decreasing_by
  · simp only [List.length_drop, List.length_cons]
    omega
  · simp

/-- What has been counted before is added. -/
theorem countOccurrences_eq_add (word : List Char) (count : Nat) (text : List Char) :
    countOccurrences word count text = count + countOccurrences word 0 text := by
  induction text generalizing count with
  | nil => rfl
  | cons c rest ih =>
    rw [countOccurrences, countOccurrences, ih]
    split
    · rw [ih 1]
      omega
    · rfl

/-- A word does not begin at characters that are not its first one. -/
theorem countOccurrences_append (first : Char) (others : List Char) (count : Nat) {skipped : List Char}
    (h : ∀ c ∈ skipped, c ≠ first) (text : List Char) :
    countOccurrences (first :: others) count (skipped ++ text) = countOccurrences (first :: others) count text := by
  induction skipped with
  | nil => rfl
  | cons c skipped ih =>
    have hc : first ≠ c := (h c List.mem_cons_self).symm
    have hprefix : (first :: others).isPrefixOf (c :: (skipped ++ text)) = false := by
      simp [List.isPrefixOf, hc]
    rw [List.cons_append, countOccurrences, hprefix]
    exact ih fun x hx => h x (List.mem_cons_of_mem _ hx)

/-- Of a word whose first character stands in it only once, no two occurrences overlap. -/
theorem countOccurrences_eq {first : Char} {others : List Char} (h : ∀ c ∈ others, c ≠ first) (text : List Char) :
    countOccurrences (first :: others) 0 text = disjointOccurrences (first :: others) text := by
  fun_induction disjointOccurrences (first :: others) text with
  | case1 => rfl
  | case2 c rest hprefix ih =>
    -- the rest of the word is passed over, and the next occurrence begins behind it
    rcases List.isPrefixOf_iff_prefix.1 hprefix with ⟨behind, hbehind⟩
    have hrest : rest = others ++ behind := (List.cons.inj hbehind).2.symm
    have hdrop : rest.drop ((first :: others).length - 1) = behind := by
      rw [hrest]
      exact List.drop_left
    rw [hdrop] at ih ⊢
    rw [countOccurrences, hprefix, if_pos rfl, countOccurrences_eq_add, hrest, countOccurrences_append first others 0 h,
      ih]
    omega
  | case3 c rest hprefix ih =>
    rw [countOccurrences, if_neg hprefix, ih]

/-- The test cases of a report are the occurrences of `<testcase`, none of which overlap. -/
theorem testCasesIn_eq (report : String) :
    testCasesIn report = disjointOccurrences "<testcase".toList report.toList := by
  have hfirst : ∀ c ∈ ['t', 'e', 's', 't', 'c', 'a', 's', 'e'], c ≠ '<' := by simp
  exact countOccurrences_eq hfirst report.toList

end ReportSummary

namespace Workspace

variable {φ : Type} [FileSystem φ]

/-! ## One pattern -/

/-- The files that a pattern matches, in the order of the search. -/
def filesFor (w : Workspace φ) (pattern : String) : List Place :=
  match FileSystem.search w.tree (w.absolutePattern pattern) with
  | .error _ => []
  | .ok found => (found.filterMap Except.toOption).filter (FileSystem.isFile w.tree)

/-- The error about a directory that cannot be listed. -/
def listingError? : Except Unlisted Place → Option CollectionError
  | .error unlisted => some (.read unlisted.path unlisted.cause)
  | .ok _ => none

/-- The error about a file that cannot be read. -/
def readingError? (w : Workspace φ) (p : Place) : Option CollectionError :=
  match FileSystem.readText w.tree p with
  | .error cause => some (.read p.shown cause)
  | .ok _ => none

/-- What keeps the files that a pattern matches from being known: that it cannot be read, or else the first directory
that cannot be listed. -/
def searchFault? (w : Workspace φ) (pattern : String) : Option CollectionError :=
  match FileSystem.search w.tree (w.absolutePattern pattern) with
  | .error cause => some (.pattern pattern cause)
  | .ok found => found.findSome? listingError?

/-- What is wrong with a pattern: the fault of its search, or else the first file that cannot be read. -/
def fault? (w : Workspace φ) (pattern : String) : Option CollectionError :=
  (w.searchFault? pattern).or ((w.filesFor pattern).findSome? w.readingError?)

/-- The number of test cases in a file. -/
def casesAt (w : Workspace φ) (p : Place) : Nat :=
  match FileSystem.readText w.tree p with
  | .error _ => 0
  | .ok report => ReportSummary.disjointOccurrences "<testcase".toList report.toList

/-- The files that patterns match, and the test cases in them. A file counts once for each pattern that matches it. -/
def total (w : Workspace φ) (patterns : List String) : ReportSummary where
  files := (patterns.map fun pattern => (w.filesFor pattern).length).sum
  testCases := (patterns.map fun pattern => ((w.filesFor pattern).map w.casesAt).sum).sum

/-- A warning for each pattern that matches no file. -/
def warnings (w : Workspace φ) (stepId : String) (patterns : List String) : List LogRecord :=
  (patterns.filter fun pattern => (w.filesFor pattern).isEmpty).map fun pattern =>
    { level := .warn,
      message := "no report files matched",
      fields := [("step_id", stepId), ("pattern", pattern)] }

/-- The patterns in front of the first one that has a fault. -/
def soundPatterns (w : Workspace φ) (patterns : List String) : List String :=
  patterns.takeWhile fun pattern => (w.fault? pattern).isNone

/-- What patterns come to: the total, or the fault of the first one that has any. -/
def verdict (w : Workspace φ) (patterns : List String) : Except CollectionError ReportSummary :=
  match patterns.findSome? w.fault? with
  | some e => .error e
  | none => .ok (w.total patterns)

/-- The files among what a search has come to are kept unless a directory could not be listed. -/
theorem keepFiles_eq (w : Workspace φ) (found : List (Except Unlisted Place)) :
    w.keepFiles found =
      match found.findSome? listingError? with
      | some e => .error e
      | none => .ok ((found.filterMap Except.toOption).filter (FileSystem.isFile w.tree)) := by
  induction found with
  | nil => rfl
  | cons entry rest ih =>
    cases entry with
    | error unlisted => rfl
    | ok p =>
      have hfind : (.ok p :: rest).findSome? listingError? = rest.findSome? listingError? := rfl
      have hplaces : (.ok p :: rest).filterMap (Except.toOption (ε := Unlisted)) =
          p :: rest.filterMap Except.toOption := rfl
      rw [keepFiles, ih, hfind, hplaces, List.filter_cons]
      cases rest.findSome? listingError? with
      | some e =>
        split
        · rfl
        · rfl
      | none =>
        split
        · rfl
        · rfl

theorem filesMatching_eq_filesFor (w : Workspace φ) (pattern : String) :
    w.filesMatching pattern =
      match w.searchFault? pattern with
      | some e => .error e
      | none => .ok (w.filesFor pattern) := by
  rw [filesMatching, searchFault?, filesFor]
  cases FileSystem.search w.tree (w.absolutePattern pattern) with
  | error cause => rfl
  | ok found => exact w.keepFiles_eq found

end Workspace

namespace ReportSummary

variable {φ : Type} [FileSystem φ]

instance : Add ReportSummary where
  add s t := ⟨s.files + t.files, s.testCases + t.testCases⟩

theorem ext_of_eq {s t : ReportSummary} (hfiles : s.files = t.files) (hcases : s.testCases = t.testCases) : s = t := by
  cases s
  cases t
  cases hfiles
  cases hcases
  rfl

theorem add_assoc (s t u : ReportSummary) : s + t + u = s + (t + u) :=
  ext_of_eq (Nat.add_assoc ..) (Nat.add_assoc ..)

theorem zero_add (s : ReportSummary) : ({} : ReportSummary) + s = s :=
  ext_of_eq (Nat.zero_add _) (Nat.zero_add _)

/-- Files are counted up to the first one that cannot be read. -/
theorem addFiles_eq (w : Workspace φ) (s : ReportSummary) (places : List Place) :
    s.addFiles w places =
      match places.findSome? w.readingError? with
      | some e => .error e
      | none => .ok (s + ⟨places.length, (places.map w.casesAt).sum⟩) := by
  induction places generalizing s with
  | nil => rfl
  | cons p rest ih =>
    rw [addFiles, Workspace.readText, List.findSome?_cons, Workspace.readingError?, List.map_cons, List.sum_cons,
      Workspace.casesAt]
    cases FileSystem.readText w.tree p with
    | error cause => rfl
    | ok report =>
      have hreport : s.addReport report =
          s + ⟨1, disjointOccurrences "<testcase".toList report.toList⟩ := by
        rw [addReport, testCasesIn_eq]
        rfl
      show (s.addReport report).addFiles w rest = _
      rw [ih, hreport]
      dsimp only
      cases rest.findSome? w.readingError? with
      | some e => rfl
      | none =>
        dsimp only
        rw [add_assoc]
        congr 2
        apply ext_of_eq
        · exact Nat.add_comm 1 rest.length
        · rfl

/-- What one pattern comes to, in front of others: its fault, or its files and a warning if there are none. -/
theorem addPatterns_cons (w : Workspace φ) (stepId : String) (s : ReportSummary) (pattern : String)
    (rest : List String) :
    s.addPatterns w stepId (pattern :: rest) =
      match w.fault? pattern with
      | some e => ⟨.error e, []⟩
      | none =>
        let following := (s + w.total [pattern]).addPatterns w stepId rest
        ⟨following.value, w.warnings stepId [pattern] ++ following.records⟩ := by
  have htotal : w.total [pattern] = ⟨(w.filesFor pattern).length, ((w.filesFor pattern).map w.casesAt).sum⟩ := rfl
  rw [addPatterns, w.filesMatching_eq_filesFor, Workspace.fault?, htotal, Workspace.warnings]
  cases w.searchFault? pattern with
  | some e => rfl
  | none =>
    dsimp only [Option.none_or]
    cases hfiles : w.filesFor pattern with
    | nil =>
      rw [List.filter_cons_of_pos (by simp [hfiles])]
      rfl
    | cons p places =>
      rw [List.filter_cons_of_neg (by simp [hfiles])]
      dsimp only
      rw [addFiles_eq]
      cases (p :: places).findSome? w.readingError? with
      | some e => rfl
      | none => rfl

/-- What patterns come to after others is known from each of them. -/
theorem addPatterns_eq (w : Workspace φ) (stepId : String) (s : ReportSummary) (patterns : List String) :
    s.addPatterns w stepId patterns =
      ⟨(w.verdict patterns).map (s + ·), w.warnings stepId (w.soundPatterns patterns)⟩ := by
  -- the induction is on the patterns, for whatever has been summed up before them
  induction patterns generalizing s with
  | nil => rfl
  | cons pattern rest ih =>
    rw [addPatterns_cons, Workspace.verdict, Workspace.soundPatterns, List.findSome?_cons, List.takeWhile_cons]
    cases w.fault? pattern with
    | some e => rfl
    | none =>
      dsimp only
      rw [ih, Workspace.verdict]
      apply Logged.ext
      · cases rest.findSome? w.fault? with
        | some e => rfl
        | none =>
          have htotal : s + w.total [pattern] + w.total rest = s + w.total (pattern :: rest) := by
            rw [add_assoc]
            rfl
          exact congrArg Except.ok htotal
      · show (List.map _ _ ++ List.map _ _) = List.map _ _
        rw [← List.map_append, ← List.filter_append]
        rfl

end ReportSummary

namespace Workspace

variable {φ : Type} [FileSystem φ]

/-! ## All patterns -/

/-- Two workspaces are alike for a pattern: its search comes to the same in both, and so does what is asked of the
places that it comes to. -/
structure AlikeFor (w v : Workspace φ) (pattern : String) : Prop where
  search : FileSystem.search v.tree (v.absolutePattern pattern) = FileSystem.search w.tree (w.absolutePattern pattern)
  files : ∀ found, FileSystem.search w.tree (w.absolutePattern pattern) = .ok found → ∀ p, .ok p ∈ found →
    FileSystem.isFile v.tree p = FileSystem.isFile w.tree p
  texts : ∀ p ∈ w.filesFor pattern, FileSystem.readText v.tree p = FileSystem.readText w.tree p

theorem AlikeFor.filesFor_eq {w v : Workspace φ} {pattern : String} (h : w.AlikeFor v pattern) :
    v.filesFor pattern = w.filesFor pattern := by
  rw [filesFor, filesFor, h.search]
  cases hsearch : FileSystem.search w.tree (w.absolutePattern pattern) with
  | error cause => rfl
  | ok found =>
    apply List.filter_congr
    intro p hp
    rcases List.mem_filterMap.1 hp with ⟨entry, hentry, hplace⟩
    cases entry with
    | error unlisted => cases hplace
    | ok q =>
      cases hplace
      exact h.files found hsearch p hentry

theorem AlikeFor.fault?_eq {w v : Workspace φ} {pattern : String} (h : w.AlikeFor v pattern) :
    v.fault? pattern = w.fault? pattern := by
  have hsearch : v.searchFault? pattern = w.searchFault? pattern := by
    rw [searchFault?, searchFault?, h.search]
  have hreading : (w.filesFor pattern).findSome? v.readingError? = (w.filesFor pattern).findSome? w.readingError? := by
    have hmap : (w.filesFor pattern).map v.readingError? = (w.filesFor pattern).map w.readingError? := by
      apply List.map_congr_left
      intro p hp
      rw [readingError?, readingError?, h.texts p hp]
    have hfirst := congrArg (List.findSome? id) hmap
    rwa [List.findSome?_map, List.findSome?_map, Function.id_comp, Function.id_comp] at hfirst
  rw [fault?, fault?, hsearch, h.filesFor_eq, hreading]

theorem warnings_eq_of_alike {w v : Workspace φ} {patterns : List String}
    (h : ∀ pattern ∈ patterns, w.AlikeFor v pattern) (stepId : String) :
    v.warnings stepId patterns = w.warnings stepId patterns := by
  have hfilter : patterns.filter (fun pattern => (v.filesFor pattern).isEmpty) =
      patterns.filter fun pattern => (w.filesFor pattern).isEmpty := by
    apply List.filter_congr
    intro pattern hpattern
    rw [(h pattern hpattern).filesFor_eq]
  rw [warnings, warnings, hfilter]

/-- With a fault behind sound patterns, nothing else is told. -/
theorem addPatterns_of_fault {w : Workspace φ} {before : List String} {pattern : String} {e : CollectionError}
    (hbefore : ∀ earlier ∈ before, w.fault? earlier = none) (hpattern : w.fault? pattern = some e)
    (after : List String) (stepId : String) :
    ({} : ReportSummary).addPatterns w stepId (before ++ pattern :: after) = ⟨.error e, w.warnings stepId before⟩ := by
  have hverdict : w.verdict (before ++ pattern :: after) = .error e := by
    have hfind : (before ++ pattern :: after).findSome? w.fault? = some e := by
      rw [List.findSome?_append, List.findSome?_eq_none_iff.2 hbefore, List.findSome?_cons, hpattern]
      rfl
    rw [verdict, hfind]
  have hsound : w.soundPatterns (before ++ pattern :: after) = before := by
    have hall : ∀ earlier ∈ before, (w.fault? earlier).isNone = true := by
      intro earlier hearlier
      rw [hbefore earlier hearlier]
      rfl
    rw [soundPatterns, List.takeWhile_append_of_pos hall, List.takeWhile_cons_of_neg (by simp [hpattern]),
      List.append_nil]
  rw [ReportSummary.addPatterns_eq, hverdict, hsound]
  rfl

/-- What is told about reports that have been summed up. -/
def told (stepId : String) (s : ReportSummary) : LogRecord where
  level := .info
  message := "collected test reports"
  fields := [("step_id", stepId), ("files", toString s.files), ("test_cases", toString s.testCases)]

/-- Gathering reports is summing them up, and a record about it if there is anything to do. -/
theorem collect_eq (w : Workspace φ) (declarations : List ReportDeclaration) (stepId : String) :
    w.collect declarations stepId =
      ⟨(w.summarize declarations stepId).value.map fun _ => (),
        (w.summarize declarations stepId).records ++
          if declarations.isEmpty then []
          else (w.summarize declarations stepId).value.toOption.toList.map (told stepId)⟩ := by
  cases declarations with
  | nil => rfl
  | cons declaration rest =>
    rw [collect, List.isEmpty_cons, if_neg Bool.false_ne_true]
    apply Logged.ext
    · rw [Logged.value_bind]
      cases (w.summarize (declaration :: rest) stepId).value with
      | error e => rfl
      | ok s => rfl
    · rw [Logged.records_bind]
      cases (w.summarize (declaration :: rest) stepId).value with
      | error e => rfl
      | ok s => rfl

/-- The files that a pattern matches in a file tree are the regular ones among the places of its search. -/
theorem mem_filesFor {w : Workspace} {pattern : String} {p : Place} :
    p ∈ w.filesFor pattern ↔
      (∃ compiled, PathPattern.compile (w.absolutePattern pattern) = .ok compiled ∧ p ∈ compiled.find w.tree) ∧
        ∃ content, w.tree.get? p.trail = some (.file content) := by
  have hsearch : FileSystem.search w.tree (w.absolutePattern pattern) =
      (PathPattern.compile (w.absolutePattern pattern)).map fun compiled => (compiled.find w.tree).map .ok := rfl
  have hfile : FileSystem.isFile w.tree p = true ↔ ∃ content, w.tree.get? p.trail = some (.file content) := by
    show ((w.tree.get? p.trail).bind FileTree.content?).isSome = true ↔ _
    cases w.tree.get? p.trail with
    | none => simp
    | some node =>
      cases node with
      | file content => simp [FileTree.content?]
      | dir entries => simp [FileTree.content?]
  rw [filesFor, hsearch, ← hfile]
  cases PathPattern.compile (w.absolutePattern pattern) with
  | error cause => simp [Except.map]
  | ok compiled =>
    have hplaces : ((compiled.find w.tree).map Except.ok).filterMap (Except.toOption (ε := Unlisted)) =
        compiled.find w.tree := by
      rw [List.filterMap_map]
      exact List.filterMap_some
    dsimp only [Except.map]
    rw [hplaces, List.mem_filter]
    simp

/-- A file of a file tree cannot be read if its bytes are no text. -/
theorem readingError?_of_file {w : Workspace} {p : Place} {content : List UInt8}
    (h : w.tree.get? p.trail = some (.file content)) :
    w.readingError? p = if (Text.Utf8.decode? content).isSome then none else some (.read p.shown .notText) := by
  rw [readingError?, FileTree.readText_eq, h]
  dsimp only [Option.bind_some, FileTree.content?]
  cases Text.Utf8.decode? content with
  | none => rfl
  | some text => rfl

/-- What is summed up is known from the patterns alone, however they are spread over declarations: the total of all of
them if none has a fault, and the fault of the first one that has any, with a warning for each pattern before it that
matches no file. What patterns behind that one would come to does not matter. Gathering the reports fails just where
summing them up does. In a file tree it is the regular files that count, and one whose bytes are no text is a fault. -/
theorem summarize_adds_up (w : Workspace φ) (declarations : List ReportDeclaration) (stepId : String) :
    let patterns := declarations.flatMap (·.paths)
    w.summarize declarations stepId = ⟨w.verdict patterns, w.warnings stepId (w.soundPatterns patterns)⟩ ∧
    (∀ regrouped : List ReportDeclaration, regrouped.flatMap (·.paths) = patterns →
      w.summarize regrouped stepId = w.summarize declarations stepId) ∧
    (∀ before pattern after e, patterns = before ++ pattern :: after →
      (∀ earlier ∈ before, w.fault? earlier = none) → w.fault? pattern = some e →
      w.summarize declarations stepId = ⟨.error e, w.warnings stepId before⟩ ∧
      ∀ (v : Workspace φ) (others : List ReportDeclaration) (later : List String),
        others.flatMap (·.paths) = before ++ pattern :: later →
        (∀ looked ∈ before ++ [pattern], w.AlikeFor v looked) →
        v.summarize others stepId = w.summarize declarations stepId) ∧
    w.collect declarations stepId =
      ⟨(w.summarize declarations stepId).value.map fun _ => (),
        (w.summarize declarations stepId).records ++
          if declarations.isEmpty then []
          else (w.summarize declarations stepId).value.toOption.toList.map (told stepId)⟩ ∧
    ∀ (t : Workspace) (pattern : String) (p : Place),
      (p ∈ t.filesFor pattern ↔
        (∃ compiled, PathPattern.compile (t.absolutePattern pattern) = .ok compiled ∧ p ∈ compiled.find t.tree) ∧
          ∃ content, t.tree.get? p.trail = some (.file content)) ∧
      ∀ content, t.tree.get? p.trail = some (.file content) →
        t.readingError? p = if (Text.Utf8.decode? content).isSome then none else some (.read p.shown .notText) := by
  intro patterns
  refine ⟨?_, ?_, ?_, ?_, ?_⟩
  · rw [w.summarize_eq, ReportSummary.addPatterns_eq]
    apply Logged.ext
    · cases w.verdict patterns with
      | error e => rfl
      | ok s => exact congrArg Except.ok (ReportSummary.zero_add s)
    · rfl
  · intro regrouped hregrouped
    rw [w.summarize_eq, w.summarize_eq, hregrouped]
  · intro before pattern after e hpatterns hbefore hpattern
    have hfails : w.summarize declarations stepId = ⟨.error e, w.warnings stepId before⟩ := by
      have hsplit : declarations.flatMap (·.paths) = before ++ pattern :: after := hpatterns
      rw [w.summarize_eq, hsplit, addPatterns_of_fault hbefore hpattern]
    refine ⟨hfails, ?_⟩
    intro v others later hothers halike
    have hbefore' : ∀ earlier ∈ before, v.fault? earlier = none := by
      intro earlier hearlier
      rw [(halike earlier (List.mem_append_left _ hearlier)).fault?_eq, hbefore earlier hearlier]
    have hpattern' : v.fault? pattern = some e := by
      rw [(halike pattern (List.mem_append_right _ List.mem_cons_self)).fault?_eq, hpattern]
    have hwarnings : v.warnings stepId before = w.warnings stepId before :=
      warnings_eq_of_alike (fun earlier hearlier => halike earlier (List.mem_append_left _ hearlier)) stepId
    rw [v.summarize_eq, hothers, addPatterns_of_fault hbefore' hpattern', hfails, hwarnings]
  · exact w.collect_eq declarations stepId
  · intro t pattern p
    refine ⟨mem_filesFor, ?_⟩
    intro content hcontent
    exact readingError?_of_file hcontent

/-- A workspace with a report of two test cases in a directory of a similar name, beside a file that is no text. -/
def mixed : Workspace :=
  let testCase : List UInt8 := [60, 116, 101, 115, 116, 99, 97, 115, 101]
  ⟨.dir [("w", .dir [("a.xml", .dir [("b.xml", .file (testCase ++ testCase))])]), ("bad.txt", .file [255])], "/w"⟩

/-- The report counts once for each pattern that matches it, and the directory for none. A pattern that fails decides,
whatever follows it. -/
theorem summarize_adds_up_mixed :
    let sound : List ReportDeclaration := [{ paths := ["*.xml", "a.xml/*.xml"] }, {}, { paths := ["**/b.xml"] }]
    let faulty : List ReportDeclaration := [{ paths := ["*.xml", "/bad.txt"] }, { paths := ["["] }]
    let unmatched : LogRecord := ⟨.warn, "no report files matched", [("step_id", "s"), ("pattern", "*.xml")], []⟩
    let summed : LogRecord :=
      ⟨.info, "collected test reports", [("step_id", "s"), ("files", "2"), ("test_cases", "4")], []⟩
    (mixed.summarize sound "s").value.toOption = some ⟨2, 4⟩ ∧
    (mixed.summarize sound "s").records = [unmatched] ∧
    (mixed.collect sound "s").records = [unmatched, summed] ∧
    mixed.summarize [{ paths := ["*.xml"] }, { paths := ["a.xml/*.xml", "**/b.xml"] }] "s" =
      mixed.summarize sound "s" ∧
    mixed.fault? "*.xml" = none ∧ mixed.fault? "/bad.txt" = some (.read "/bad.txt" .notText) ∧
    mixed.summarize faulty "s" = ⟨.error (.read "/bad.txt" .notText), [unmatched]⟩ := by
  intro sound faulty unmatched summed
  have hverdict : (mixed.verdict ["*.xml", "a.xml/*.xml", "**/b.xml"]).toOption = some ⟨2, 4⟩ := by decide +kernel
  have hwarnings : mixed.warnings "s" (mixed.soundPatterns ["*.xml", "a.xml/*.xml", "**/b.xml"]) = [unmatched] := by
    decide +kernel
  have hnone : mixed.fault? "*.xml" = none := by decide +kernel
  have hbad : mixed.fault? "/bad.txt" = some (.read "/bad.txt" .notText) := by decide +kernel
  have hempty : mixed.warnings "s" ["*.xml"] = [unmatched] := by decide +kernel
  have hbefore : ∀ earlier ∈ ["*.xml"], mixed.fault? earlier = none := by
    intro earlier hearlier
    rw [List.mem_singleton.1 hearlier]
    exact hnone
  rcases summarize_adds_up mixed sound "s" with ⟨hsound, hregrouped, -, hcollect, -⟩
  rcases summarize_adds_up mixed faulty "s" with ⟨-, -, hfaulty, -, -⟩
  rcases hfaulty ["*.xml"] "/bad.txt" ["["] _ rfl hbefore hbad with ⟨hfails, -⟩
  have hvalue : (mixed.summarize sound "s").value.toOption = some ⟨2, 4⟩ := by
    rw [hsound]
    exact hverdict
  have hrecords : (mixed.summarize sound "s").records = [unmatched] := by
    rw [hsound]
    exact hwarnings
  refine ⟨hvalue, hrecords, ?_, hregrouped _ rfl, hnone, hbad, ?_⟩
  · rw [hcollect, hvalue, hrecords]
    rfl
  · rw [hfails, hempty]

end Workspace

end Sidecar
