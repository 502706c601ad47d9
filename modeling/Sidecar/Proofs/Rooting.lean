import Sidecar.Proofs.Joining
import Sidecar.Proofs.Walking
import Sidecar.Report

/-!
# The root of a workspace

Where a workspace is, and what its directory is called, should make no difference for the reports that are found in it.
It makes none if no character of the root means anything in a pattern: what is summed up is known from what lies below
the root alone. With a character that does, it makes a difference, since the root is read as a part of each pattern.

The main statement is `Workspace.summarize_of_rooted`, and `Workspace.summarize_under_bracket` has the two ways in which
it fails for other roots. A pattern is read alike under all roots (`RootedAt.outcome_compile`), the walk over its
components is the same below all of them (`RootedAt.contents_visit`), and a summary is made of the contents of files
(`ReportSummary.blamed_addPatterns`).
-/

namespace Sidecar

open Glob

namespace Glob

/-! ## The way to a directory -/

/-- The place that names lead to one after the other, if there is one. -/
def Place.follow? (tree : FileTree) : List String → Place → Option Place
  | [], p => some p
  | name :: names, p => if p.hasStep tree name then follow? tree names (p.step name) else none

/-- A walk over names goes on from where they lead to. -/
theorem visit_names (tree : FileTree) (names : List String) (rest : List Component) (p : Place) :
    visit tree (names.map .literal ++ rest) p =
      match p.follow? tree names with
      | some q => visit tree rest q
      | none => [] := by
  induction names generalizing p with
  | nil => rfl
  | cons name names ih =>
    rw [List.map_cons, List.cons_append, visit_literal, Place.follow?]
    by_cases hstep : p.hasStep tree name = true
    · rw [if_pos hstep, if_pos hstep, ih]
    · rw [if_neg hstep, if_neg hstep]

theorem endsWith_separator (s : String) : s.endsWith "/" = true ↔ s.toList.getLast? = some separator := by
  rw [String.endsWith_eq_endsWith_toSlice, String.Slice.endsWith_string_iff, List.getLast?_eq_some_iff]
  constructor
  · rintro ⟨front, hfront⟩
    exact ⟨front, by simpa [separator] using hfront.symm⟩
  · rintro ⟨front, hfront⟩
    exact ⟨front, by simpa [separator] using hfront.symm⟩

/-- The text of a directory in front of what is joined to it ends with a separator. -/
theorem joinShown_toList (path name : String) :
    (joinShown path name).toList = (joinShown path "").toList ++ name.toList := by
  unfold joinShown
  split <;> simp

/-- Nothing but a separator is added when a path is joined to another one. -/
theorem of_mem_joinShown {path name : String} {c : Char} (h : c ∈ (joinShown path name).toList) :
    c ∈ path.toList ∨ c = separator ∨ c ∈ name.toList := by
  unfold joinShown at h
  split at h
  · rw [String.toList_append, List.mem_append] at h
    exact h.imp id .inr
  · simpa [separator, or_assoc] using h

theorem joinShown_getLast? (path : String) : (joinShown path "").toList.getLast? = some separator := by
  unfold joinShown
  split
  · rename_i h
    rw [String.append_empty]
    exact (endsWith_separator path).1 h
  · simp [separator]

theorem AbsolutePath.text_join_empty (directory : AbsolutePath) :
    (directory.join "").text = joinShown directory.text "" :=
  text_join_of_relative (by decide +kernel) directory

/-- A relative path is put behind a separator. -/
theorem AbsolutePath.belowTop_join {path : String} (h : path.startsWith "/" = false) (directory : AbsolutePath) :
    (directory.join path).belowTop = (directory.join "").belowTop ++ path.toList := by
  have hjoined := (directory.join path).toList_text
  rw [text_join_of_relative h, joinShown_toList, ← text_join_empty, toList_text] at hjoined
  exact (List.cons.inj hjoined).2.symm

/-- Whether a relative pattern asks for directories only. -/
def asksForDirs (pattern : String) : Bool :=
  pattern = "" || pattern.endsWith "/"

end Glob

/-! ## Workspaces with one content -/

namespace Workspace

/-- The names that the root of a workspace is made of. -/
def rootNames (w : Workspace) : List String :=
  (splitPath (w.rootPath.join "").belowTop).map String.ofList

/-- The root is the path of a directory with these entries, and has no characters that mean something in a pattern. The
trail is where the path leads to. -/
structure RootedAt (w : Workspace) (trail : List String) (entries : List (String × FileTree)) : Prop where
  plain : ∀ c ∈ w.root.toList, isPlain c = true
  leads : ∃ shown, Place.follow? w.tree w.rootNames ⟨"/", []⟩ = some ⟨shown, trail⟩
  holds : w.tree.get? trail = some (.dir entries)

/-- What the file at a place contains. -/
def contentAt (tree : FileTree) (p : Place) : Option (List UInt8) :=
  (tree.get? p.trail).bind FileTree.content?

/-- Whether a file stands at a place. -/
def isFile (tree : FileTree) (p : Place) : Bool :=
  (contentAt tree p).isSome

theorem isFile_iff {tree : FileTree} {p : Place} :
    isFile tree p = true ↔ ∃ content, tree.get? p.trail = some (.file content) := by
  unfold isFile contentAt
  cases tree.get? p.trail with
  | none => simp
  | some node =>
    cases node with
    | file content => simp [FileTree.content?]
    | dir entries => simp [FileTree.content?]

/-- A file is no directory. -/
theorem isDir_of_isFile {tree : FileTree} {p : Place} (h : isFile tree p = true) : p.isDir tree = false := by
  rcases isFile_iff.1 h with ⟨content, hcontent⟩
  rw [Place.isDir, hcontent]
  rfl

theorem filter_visitFiles (tree : FileTree) (components : List Component) (p : Place) :
    (visitFiles tree components p).filter (isFile tree) = (visit tree components p).filter (isFile tree) := by
  rw [visitFiles, List.filter_filter]
  apply List.filter_congr
  intro q _
  cases hfile : isFile tree q with
  | false => rfl
  | true => rw [isDir_of_isFile hfile, Bool.not_false, Bool.and_true]

section

variable {w : Workspace} {trail : List String} {entries : List (String × FileTree)}

/-- The absolute form of the root is plain if the root is. -/
theorem RootedAt.plain_rootPath (h : w.RootedAt trail entries) : ∀ c ∈ w.rootPath.text.toList, isPlain c = true := by
  intro c hc
  rw [rootPath, AbsolutePath.text_join] at hc
  split at hc
  · exact h.plain c hc
  · rcases of_mem_joinShown hc with hc | rfl | hc
    · rw [List.mem_singleton.1 hc]
      rfl
    · rfl
    · exact h.plain c hc

/-- The root with a separator at its end is a plain path. -/
theorem RootedAt.base (h : w.RootedAt trail entries) :
    let base := (w.rootPath.join "").belowTop
    (base = [] ∨ base.getLast? = some separator) ∧ ∀ c ∈ base, isPlain c = true := by
  intro base
  have hbase : (joinShown w.rootPath.text "").toList = separator :: base := by
    rw [← AbsolutePath.text_join_empty, AbsolutePath.toList_text]
  constructor
  · have hlast := joinShown_getLast? w.rootPath.text
    rw [hbase, List.getLast?_cons] at hlast
    cases hbelow : base.getLast? with
    | none => exact .inl (List.getLast?_eq_none_iff.1 hbelow)
    | some c =>
      rw [hbelow] at hlast
      exact .inr hlast
  · intro c hc
    have hmem : c ∈ (joinShown w.rootPath.text "").toList := by
      rw [hbase]
      exact List.mem_cons_of_mem _ hc
    rcases of_mem_joinShown hmem with hmem | rfl | hmem
    · exact h.plain_rootPath c hmem
    · rfl
    · cases hmem

/-- Whether a joined pattern asks for directories is known from the relative one. -/
theorem endsWith_absolutePattern {pattern : String} (hrelative : pattern.startsWith "/" = false) :
    (w.absolutePattern pattern).text.endsWith "/" = asksForDirs pattern := by
  have hjoined : (w.absolutePattern pattern).text.toList = (joinShown w.rootPath.text "").toList ++ pattern.toList := by
    rw [absolutePattern, AbsolutePath.text_join_of_relative hrelative, joinShown_toList]
  rw [Bool.eq_iff_iff, endsWith_separator, hjoined, List.getLast?_append, joinShown_getLast?]
  unfold asksForDirs
  rw [Bool.or_eq_true, decide_eq_true_eq, endsWith_separator, ← String.toList_eq_nil_iff]
  -- the last character is that of the pattern, or of the root if the pattern is empty
  cases hlast : pattern.toList.getLast? with
  | none => simp [List.getLast?_eq_none_iff.1 hlast]
  | some c =>
    have hne : pattern.toList ≠ [] := by
      intro hnil
      rw [hnil] at hlast
      cases hlast
    simp [hne]

/-- Reading a joined pattern comes to the same as reading the relative one. -/
theorem RootedAt.outcome_compile (h : w.RootedAt trail entries) {pattern : String}
    (hrelative : pattern.startsWith "/" = false) :
    outcome (PathPattern.compile (w.absolutePattern pattern)) = do
      let components ← readRelative pattern
      let all := w.rootNames.map Component.literal ++ components
      return ⟨if all.isEmpty then [.literal ""] else all, asksForDirs pattern⟩ := by
  rcases h.base with ⟨hlast, hplain⟩
  have hjoined : (w.absolutePattern pattern).belowTop = (w.rootPath.join "").belowTop ++ pattern.toList :=
    AbsolutePath.belowTop_join hrelative w.rootPath
  rw [Glob.outcome_compile hlast hplain hjoined, endsWith_absolutePattern hrelative]
  rfl

/-- A pattern that cannot be read is an error. -/
theorem RootedAt.filesMatching_of_error (h : w.RootedAt trail entries) {pattern : String} {fault : Fault}
    (hrelative : pattern.startsWith "/" = false) (hread : readRelative pattern = .error fault) :
    ∃ position, w.filesMatching pattern = .error (.pattern pattern ⟨position, fault⟩) := by
  have houtcome := h.outcome_compile hrelative
  rw [hread] at houtcome
  rw [filesMatching_eq]
  cases hcompile : PathPattern.compile (w.absolutePattern pattern) with
  | ok compiled =>
    rw [hcompile] at houtcome
    cases houtcome
  | error e =>
    rw [hcompile] at houtcome
    rcases e with ⟨position, fault'⟩
    cases houtcome
    exact ⟨position, rfl⟩

/-- The files that a pattern matches are those that a walk over its components comes to from the root. -/
theorem RootedAt.filesMatching_of_ok (h : w.RootedAt trail entries) {pattern : String} {components : List Component}
    (hrelative : pattern.startsWith "/" = false) (hread : readRelative pattern = .ok components) :
    ∃ p : Place, p.trail = trail ∧ w.filesMatching pattern =
      .ok (if asksForDirs pattern then [] else (visit w.tree components p).filter (isFile w.tree)) := by
  have houtcome := h.outcome_compile hrelative
  rw [hread] at houtcome
  rcases h.leads with ⟨shown, hleads⟩
  refine ⟨⟨shown, trail⟩, rfl, ?_⟩
  rw [filesMatching_eq]
  cases hcompile : PathPattern.compile (w.absolutePattern pattern) with
  | error e =>
    rw [hcompile] at houtcome
    cases houtcome
  | ok compiled =>
    rw [hcompile] at houtcome
    obtain rfl := Except.ok.inj houtcome
    unfold PathPattern.find
    dsimp only
    congr 1
    -- what is kept for a pattern that asks for directories are no files
    by_cases hdirs : asksForDirs pattern = true
    · rw [if_pos hdirs, List.filter_eq_nil_iff]
      intro p hp hfile
      rw [List.mem_filter, hdirs] at hp
      exact absurd hp.2 (by simp [isDir_of_isFile hfile])
    · -- the empty pattern asks for directories, so this one has a component
      have hne : components ≠ [] := by
        apply ne_nil_of_readComponents (of_readRelative hread)
        intro hnil
        simp [asksForDirs, String.toList_eq_nil_iff.1 hnil] at hdirs
      have hall : (w.rootNames.map Component.literal ++ components).isEmpty = false := by
        simp [hne]
      have hkept : ∀ p : Place, (!asksForDirs pattern || p.isDir w.tree) = true := by
        intro p
        simp [Bool.eq_false_iff.2 hdirs]
      rw [if_neg hdirs, hall, List.filter_eq_self.2 fun p _ => hkept p]
      simp only [Bool.false_eq_true, if_false]
      rw [visit_names, hleads]
      rfl

end

end Workspace

/-! ## Summaries -/

/-- What a failure to gather reports is about, apart from where the workspace is. -/
inductive Blame where
  | pattern (declared : String) (fault : Fault)
  | read (cause : SystemError)
deriving DecidableEq, Repr

/-- What an error is about. -/
def CollectionError.blame : CollectionError → Blame
  | .pattern declared cause => .pattern declared cause.fault
  | .read _ cause => .read cause

/-- A result whose error only says what it is about. -/
def blamed {α : Type} (result : Except CollectionError α) : Except Blame α :=
  result.mapError CollectionError.blame

/-- Two results that say the same are both errors about the same, or both there. -/
theorem of_blamed_eq {α : Type} {first second : Except CollectionError α} (h : blamed first = blamed second) :
    (∃ e e', first = .error e ∧ second = .error e' ∧ e.blame = e'.blame) ∨
      ∃ a, first = .ok a ∧ second = .ok a := by
  cases first with
  | error e =>
    cases second with
    | error e' => exact .inl ⟨e, e', rfl, rfl, Except.error.inj h⟩
    | ok b => cases h
  | ok a =>
    cases second with
    | error e' => cases h
    | ok b =>
      cases h
      exact .inr ⟨a, rfl, rfl⟩

/-- What a workspace has for a pattern: the contents of the files that match, or what is wrong. -/
def Workspace.offers (w : Workspace) (pattern : String) : Except Blame (List (Option (List UInt8))) :=
  blamed (List.map (Workspace.contentAt w.tree) <$> w.filesMatching pattern)

theorem Workspace.of_offers_eq {w v : Workspace} {pattern : String} (h : w.offers pattern = v.offers pattern) :
    (∃ e e', w.filesMatching pattern = .error e ∧ v.filesMatching pattern = .error e' ∧ e.blame = e'.blame) ∨
      ∃ ps qs, w.filesMatching pattern = .ok ps ∧ v.filesMatching pattern = .ok qs ∧
        ps.map (contentAt w.tree) = qs.map (contentAt v.tree) := by
  unfold offers at h
  cases hw : w.filesMatching pattern with
  | error e =>
    cases hv : v.filesMatching pattern with
    | error e' =>
      rw [hw, hv] at h
      exact .inl ⟨e, e', rfl, rfl, Except.error.inj h⟩
    | ok qs =>
      rw [hw, hv] at h
      cases h
  | ok ps =>
    cases hv : v.filesMatching pattern with
    | error e' =>
      rw [hw, hv] at h
      cases h
    | ok qs =>
      rw [hw, hv] at h
      exact .inr ⟨ps, qs, rfl, rfl, Except.ok.inj h⟩

namespace ReportSummary

variable {w v : Workspace}

/-- Files with the same contents come to the same summary. -/
theorem blamed_addFiles {ps qs : List Place}
    (h : ps.map (Workspace.contentAt w.tree) = qs.map (Workspace.contentAt v.tree)) (s : ReportSummary) :
    blamed (s.addFiles w ps) = blamed (s.addFiles v qs) := by
  induction ps generalizing qs s with
  | nil =>
    cases qs with
    | nil => rfl
    | cons q qs => cases h
  | cons p ps ih =>
    cases qs with
    | nil => cases h
    | cons q qs =>
      rcases List.cons.inj h with ⟨hfirst, hrest⟩
      unfold Workspace.contentAt at hfirst
      rw [addFiles, addFiles, Workspace.readText_eq, Workspace.readText_eq, hfirst]
      cases (v.tree.get? q.trail).bind FileTree.content? with
      | none => rfl
      | some bytes =>
        dsimp only
        cases Text.Utf8.decode? bytes with
        | none => rfl
        | some text => exact ih hrest _

/-- Workspaces that offer the same for all patterns come to the same summary. -/
theorem blamed_addPatterns {patterns : List String} (h : ∀ pattern ∈ patterns, w.offers pattern = v.offers pattern)
    (stepId : String) (s : ReportSummary) :
    blamed (s.addPatterns w stepId patterns).value = blamed (s.addPatterns v stepId patterns).value := by
  induction patterns generalizing s with
  | nil => rfl
  | cons pattern patterns ih =>
    have hrest := ih fun other hother => h other (List.mem_cons_of_mem pattern hother)
    rw [addPatterns, addPatterns]
    rcases Workspace.of_offers_eq (h pattern List.mem_cons_self) with
      ⟨e, e', hw, hv, hblame⟩ | ⟨ps, qs, hw, hv, hcontents⟩
    · rw [hw, hv]
      exact congrArg Except.error hblame
    · rw [hw, hv]
      cases ps with
      | nil =>
        cases qs with
        | nil => exact hrest s
        | cons q qs => cases hcontents
      | cons p ps =>
        cases qs with
        | nil => cases hcontents
        | cons q qs =>
          dsimp only
          rcases of_blamed_eq (blamed_addFiles hcontents s) with ⟨e, e', hp, hq, hblame⟩ | ⟨s', hp, hq⟩
          · rw [hp, hq]
            exact congrArg Except.error hblame
          · rw [hp, hq]
            exact hrest s'

/-- Further patterns are gone through with what the first ones have come to. -/
theorem addPatterns_append (first second : List String) (stepId : String) (s : ReportSummary) :
    (s.addPatterns w stepId (first ++ second)).value =
      (s.addPatterns w stepId first).value.bind fun s' => (s'.addPatterns w stepId second).value := by
  rw [addPatterns_append_eq, Logged.value_bind]
  cases (s.addPatterns w stepId first).value with
  | error e => rfl
  | ok s' => rfl

/-- A summary that fails does so on one of its patterns, behind others that succeed. -/
theorem addPatterns_eq_error {patterns : List String} {stepId : String} {s : ReportSummary} {e : CollectionError}
    (h : (s.addPatterns w stepId patterns).value = .error e) :
    ∃ before pattern after s', patterns = before ++ pattern :: after ∧
      (s.addPatterns w stepId before).value = .ok s' ∧ (s'.addPatterns w stepId [pattern]).value = .error e := by
  induction patterns generalizing s with
  | nil => cases h
  | cons pattern patterns ih =>
    have happend := addPatterns_append (w := w) [pattern] patterns stepId s
    rw [List.singleton_append, h] at happend
    cases hfirst : (s.addPatterns w stepId [pattern]).value with
    | error e' =>
      rw [hfirst] at happend
      cases happend
      exact ⟨[], pattern, patterns, s, rfl, rfl, hfirst⟩
    | ok s' =>
      rw [hfirst] at happend
      rcases ih happend.symm with ⟨before, failing, after, s'', hpatterns, hbefore, hfailing⟩
      refine ⟨pattern :: before, failing, after, s'', ?_, ?_, hfailing⟩
      · rw [hpatterns, List.cons_append]
      · rw [← List.singleton_append, addPatterns_append, hfirst]
        exact hbefore

end ReportSummary

/-! ## One content under two roots -/

/-- A pattern for what lies below the root of a workspace. Nothing is looked for from a parent directory: no component
in front of others is `..`, and none matches this entry. One like `.*` does, so it leads to files that are not below
the root. -/
structure StaysBelow (pattern : String) : Prop where
  relative : pattern.startsWith "/" = false
  descends : ∀ components, readRelative pattern = .ok components → Glob.descends false components = true

/-- A path below the root of a workspace matches a relative pattern: its names belong to the components of the
pattern. -/
def Matches (pattern : String) (names : List String) : Prop :=
  asksForDirs pattern = false ∧ ∃ components, readRelative pattern = .ok components ∧ Leads components names

namespace Workspace

section

variable {w : Workspace} {trail : List String} {entries : List (String × FileTree)}

/-- The files that a walk comes to have the contents of those that the same walk comes to in what lies below the
root. -/
theorem RootedAt.contents_visit (h : w.RootedAt trail entries) {components : List Component}
    (hdescends : descends false components = true) {p : Place} (hp : p.trail = trail) :
    ((visit w.tree components p).filter (isFile w.tree)).map (contentAt w.tree) =
      ((visit (.dir entries) components ⟨"/", []⟩).filter (isFile (.dir entries))).map
        (contentAt (.dir entries)) := by
  have hunder : p.Under trail ⟨"/", []⟩ := by
    rw [Place.Under, hp, List.append_nil]
  have hcontent : ∀ x y : Place, x.Under trail y → contentAt w.tree x = contentAt (.dir entries) y := by
    intro x y hxy
    rw [contentAt, contentAt, hxy.get? h.holds]
  have hvisit := visitFiles_under h.holds hdescends hunder
  have hfiles : List.Forall₂ (Place.Under trail) ((visit w.tree components p).filter (isFile w.tree))
      ((visit (.dir entries) components ⟨"/", []⟩).filter (isFile (.dir entries))) := by
    rw [← filter_visitFiles, ← filter_visitFiles]
    apply List.rel_filter _ hvisit
    intro x y hxy
    dsimp only
    rw [isFile, isFile, hcontent x y hxy]
  rw [← List.forall₂_eq_eq_eq, List.forall₂_map_left_iff, List.forall₂_map_right_iff]
  exact hfiles.imp hcontent

/-- What a workspace offers for a relative pattern is known from what lies below its root. -/
theorem RootedAt.offers_eq (h : w.RootedAt trail entries) {pattern : String} (hbelow : StaysBelow pattern) :
    w.offers pattern =
      match readRelative pattern with
      | .error fault => .error (.pattern pattern fault)
      | .ok components =>
        .ok (if asksForDirs pattern then [] else
          ((visit (.dir entries) components ⟨"/", []⟩).filter (isFile (.dir entries))).map
            (contentAt (.dir entries))) := by
  unfold offers
  cases hread : readRelative pattern with
  | error fault =>
    rcases h.filesMatching_of_error hbelow.relative hread with ⟨position, hfiles⟩
    rw [hfiles]
    rfl
  | ok components =>
    rcases h.filesMatching_of_ok hbelow.relative hread with ⟨p, hp, hfiles⟩
    have hcontents := h.contents_visit (hbelow.descends components hread) hp
    rw [hfiles]
    dsimp only
    rw [← hcontents]
    cases asksForDirs pattern with
    | true => rfl
    | false => rfl

/-- The files that are read for a relative pattern are those below the root whose path matches it. -/
theorem RootedAt.mem_filesMatching (h : w.RootedAt trail entries) {pattern : String} (hbelow : StaysBelow pattern)
    {places : List Place} (hfiles : w.filesMatching pattern = .ok places) :
    (∀ p ∈ places, ∃ names, p.trail = trail ++ names) ∧
    ∀ names, (∃ p ∈ places, p.trail = trail ++ names) ↔
      (∃ content, (FileTree.dir entries).get? names = some (.file content)) ∧ Matches pattern names := by
  cases hread : readRelative pattern with
  | error fault =>
    rcases h.filesMatching_of_error hbelow.relative hread with ⟨position, hfailed⟩
    rw [hfiles] at hfailed
    cases hfailed
  | ok components =>
    have hdescends := hbelow.descends components hread
    have hget : ∀ names, w.tree.get? (trail ++ names) = (FileTree.dir entries).get? names := by
      intro names
      rw [FileTree.get?_append, h.holds, Option.bind_some]
    rcases h.filesMatching_of_ok hbelow.relative hread with ⟨start, hstart, hfound⟩
    rw [hfiles, Except.ok.injEq] at hfound
    subst hfound
    cases hdirs : asksForDirs pattern with
    | true => simp [Matches, hdirs]
    | false =>
      simp only [Bool.false_eq_true, if_false, List.mem_filter]
      constructor
      · rintro p ⟨hp, hfile⟩
        rcases leads_of_mem_visit hdescends hp (isDir_of_isFile hfile) with ⟨names, htrail, -⟩
        exact ⟨names, hstart ▸ htrail⟩
      · intro names
        constructor
        · rintro ⟨p, ⟨hp, hfile⟩, htrail⟩
          rcases leads_of_mem_visit hdescends hp (isDir_of_isFile hfile) with ⟨names', htrail', hleads⟩
          rw [hstart, htrail] at htrail'
          rw [← List.append_cancel_left htrail'] at hleads
          rcases isFile_iff.1 hfile with ⟨content, hcontent⟩
          rw [htrail, hget] at hcontent
          exact ⟨⟨content, hcontent⟩, hdirs, components, hread, hleads⟩
        · rintro ⟨⟨content, hcontent⟩, -, components', hread', hleads⟩
          rw [hread] at hread'
          cases hread'
          rw [← hget, ← hstart] at hcontent
          rcases (mem_visit_iff hdescends hcontent).2 hleads with ⟨q, hq, htrail⟩
          exact ⟨q, ⟨hq, isFile_iff.2 ⟨content, htrail ▸ hcontent⟩⟩, hstart ▸ htrail⟩

end

/-- A summary fails on this pattern, after it has gone through others. -/
def FailsOn (w : Workspace) (stepId : String) (before : List String) (pattern : String) : Prop :=
  ∃ s e, (({} : ReportSummary).addPatterns w stepId before).value = .ok s ∧
    (s.addPatterns w stepId [pattern]).value = .error e

/-- With the same on offer for the patterns that are gone through, a summary fails on the same one. -/
theorem FailsOn.of_offers_eq {w v : Workspace} {stepId : String} {before : List String} {pattern : String}
    (h : w.FailsOn stepId before pattern) (hbefore : ∀ other ∈ before, w.offers other = v.offers other)
    (hpattern : w.offers pattern = v.offers pattern) : v.FailsOn stepId before pattern := by
  rcases h with ⟨s, e, hs, he⟩
  have hfirst := ReportSummary.blamed_addPatterns hbefore stepId {}
  have hlast : blamed (s.addPatterns w stepId [pattern]).value = blamed (s.addPatterns v stepId [pattern]).value := by
    apply ReportSummary.blamed_addPatterns
    intro other hother
    rw [List.mem_singleton.1 hother]
    exact hpattern
  rcases of_blamed_eq hfirst with ⟨e₁, -, hw₁, -, -⟩ | ⟨s₁, hw₁, hv₁⟩
  · rw [hs] at hw₁
    cases hw₁
  · rw [hs] at hw₁
    cases hw₁
    rcases of_blamed_eq hlast with ⟨-, e₂, -, hv₂, -⟩ | ⟨s₂, hw₂, -⟩
    · exact ⟨s, e₂, hv₁, hv₂⟩
    · rw [he] at hw₂
      cases hw₂

/-- What is summed up does not depend on where the root of a workspace is, or what it is called, as long as its path
has no characters that mean something in a pattern. With the same contents below two roots, both summaries are the
same, or both fail on the same pattern and for the same reason. The files that are read for a pattern are those below
the root whose path from there matches it. -/
theorem summarize_of_rooted {w v : Workspace} {trail trail' : List String} {entries : List (String × FileTree)}
    (hw : w.RootedAt trail entries) (hv : v.RootedAt trail' entries) (declarations : List ReportDeclaration)
    (hbelow : ∀ pattern ∈ declarations.flatMap (·.paths), StaysBelow pattern) (stepId : String) :
    blamed (w.summarize declarations stepId).value = blamed (v.summarize declarations stepId).value ∧
    (∀ e, (w.summarize declarations stepId).value = .error e →
      ∃ before pattern after, declarations.flatMap (·.paths) = before ++ pattern :: after ∧
        w.FailsOn stepId before pattern ∧ v.FailsOn stepId before pattern) ∧
    ∀ pattern ∈ declarations.flatMap (·.paths), ∀ places, w.filesMatching pattern = .ok places →
      (∀ p ∈ places, ∃ names, p.trail = trail ++ names) ∧
      ∀ names, (∃ p ∈ places, p.trail = trail ++ names) ↔
        (∃ content, (FileTree.dir entries).get? names = some (.file content)) ∧ Matches pattern names := by
  have hoffers : ∀ pattern ∈ declarations.flatMap (·.paths), w.offers pattern = v.offers pattern := by
    intro pattern hpattern
    rw [hw.offers_eq (hbelow pattern hpattern), hv.offers_eq (hbelow pattern hpattern)]
  rw [w.summarize_eq, v.summarize_eq]
  refine ⟨ReportSummary.blamed_addPatterns hoffers stepId {}, ?_, ?_⟩
  · intro e he
    rcases ReportSummary.addPatterns_eq_error he with ⟨before, pattern, after, s, hpatterns, hbefore, hfailing⟩
    have hfails : w.FailsOn stepId before pattern := ⟨s, e, hbefore, hfailing⟩
    rw [hpatterns] at hoffers
    refine ⟨before, pattern, after, hpatterns, hfails, ?_⟩
    apply hfails.of_offers_eq
    · exact fun other hother => hoffers other (List.mem_append_left _ hother)
    · exact hoffers pattern (List.mem_append_right _ List.mem_cons_self)
  · intro pattern hpattern places hplaces
    exact hw.mem_filesMatching (hbelow pattern hpattern) hplaces

/-- A file with one test case. -/
def oneCase : FileTree :=
  .file [60, 116, 101, 115, 116, 99, 97, 115, 101]

/-- A directory of a name at the top of a file system, with one report in it. -/
def housed (name : String) : Workspace :=
  ⟨.dir [(name, .dir [("a.xml", oneCase)])], "/" ++ name⟩

/-- The report is found under a root with a closing bracket in its name as it is under any other root. -/
theorem summarize_of_rooted_housed :
    let declarations : List ReportDeclaration := [{ paths := ["**/*.xml"] }]
    blamed ((housed "w]").summarize declarations "s").value = blamed ((housed "v").summarize declarations "s").value ∧
    ((housed "v").summarize declarations "s").value.toOption = some ⟨1, 1⟩ := by
  intro declarations
  have hw : (housed "w]").RootedAt ["w]"] [("a.xml", oneCase)] :=
    ⟨List.all_eq_true.1 (by decide +kernel), ⟨"/w]", by decide +kernel⟩, rfl⟩
  have hv : (housed "v").RootedAt ["v"] [("a.xml", oneCase)] :=
    ⟨List.all_eq_true.1 (by decide +kernel), ⟨"/v", by decide +kernel⟩, rfl⟩
  have hread : readRelative "**/*.xml" =
      .ok [.anyDirs, .wild [.anyText, .char '.', .char 'x', .char 'm', .char 'l']] := by decide +kernel
  have hbelow : StaysBelow "**/*.xml" := by
    refine ⟨by decide +kernel, ?_⟩
    intro components hcomponents
    rw [hread] at hcomponents
    cases hcomponents
    decide
  refine ⟨(summarize_of_rooted hw hv declarations ?_ "s").1, by decide +kernel⟩
  intro pattern hpattern
  cases List.mem_singleton.1 hpattern
  exact hbelow

/-- Of a root with an opening bracket in its name this is not true: the name is read as a part of the pattern. Where it
can be read, the report below it is not found, and where it cannot, every pattern is an error. -/
theorem summarize_under_bracket :
    let declarations : List ReportDeclaration := [{ paths := ["*.xml"] }]
    (housed "w[1]").tree.get? ["w[1]"] = (housed "v").tree.get? ["v"] ∧
    (housed "w[").tree.get? ["w["] = (housed "v").tree.get? ["v"] ∧
    ((housed "v").summarize declarations "s").value.toOption = some ⟨1, 1⟩ ∧
    ((housed "w[1]").summarize declarations "s").value.toOption = some ⟨0, 0⟩ ∧
    ((housed "w[").summarize declarations "s").value = .error (.pattern "*.xml" ⟨2, .range⟩) :=
  ⟨rfl, rfl, by decide +kernel, by decide +kernel, by decide +kernel⟩

end Workspace

end Sidecar
