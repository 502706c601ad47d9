import Mathlib.Data.List.Forall2
import Sidecar.Glob.Walk

/-!
# Walks below a directory

A walk that never goes on from a parent directory sees nothing but what lies below the directory where it begins. So it
comes to the same files in every file system that has the same contents there (`visitFiles_under`), and which ones these
are is known from the names alone: `mem_visit_iff` says so, with `Leads` for which names belong to which components.
-/

namespace Sidecar

/-! ## Places in a tree -/

namespace FileTree

theorem get?_cons (tree : FileTree) (name : String) (path : List String) :
    tree.get? (name :: path) = (tree.child? name).bind (·.get? path) := by
  rw [get?]
  cases tree.child? name with
  | none => rfl
  | some next => rfl

/-- What stands at a place below another one is found below it. -/
theorem get?_append (tree : FileTree) (path rest : List String) :
    tree.get? (path ++ rest) = (tree.get? path).bind (·.get? rest) := by
  induction path generalizing tree with
  | nil => rfl
  | cons name path ih =>
    rw [List.cons_append, get?_cons, get?_cons]
    cases tree.child? name with
    | none => rfl
    | some next => exact ih next

/-- Something stands at every place on the way to another one, and what stands there leads on to it. -/
theorem exists_of_append {tree : FileTree} {path rest : List String}
    (h : (tree.get? (path ++ rest)).isSome = true) :
    ∃ node, tree.get? path = some node ∧ (node.get? rest).isSome = true := by
  rw [get?_append, Option.isSome_iff_exists] at h
  rcases h with ⟨found, hfound⟩
  rcases Option.bind_eq_some_iff.1 hfound with ⟨node, hnode, hrest⟩
  exact ⟨node, hnode, Option.isSome_of_eq_some hrest⟩

theorem isSome_of_append {tree : FileTree} {path rest : List String}
    (h : (tree.get? (path ++ rest)).isSome = true) : (tree.get? path).isSome = true := by
  rcases exists_of_append h with ⟨node, hnode, -⟩
  exact Option.isSome_of_eq_some hnode

/-- The first name on the way to something is that of an entry. -/
theorem exists_child_of_cons {tree : FileTree} {name : String} {path : List String}
    (h : (tree.get? (name :: path)).isSome = true) : ∃ next, tree.child? name = some next := by
  rw [get?_cons] at h
  cases hnext : tree.child? name with
  | none =>
    rw [hnext] at h
    cases h
  | some next => exact ⟨next, rfl⟩

/-- What a name leads to is among the entries of the directory. -/
theorem mem_children_of_child? {tree next : FileTree} {name : String} (h : tree.child? name = some next) :
    (name, next) ∈ tree.children := by
  cases tree with
  | file content => cases h
  | dir entries =>
    have hlookup : entries.lookup name = some next := h
    rcases List.lookup_eq_some_iff.1 hlookup with ⟨before, after, hsplit, -⟩
    rw [children, List.mem_mergeSort, hsplit]
    simp

theorem isDir_of_child? {tree next : FileTree} {name : String} (h : tree.child? name = some next) :
    tree.isDir = true := by
  cases tree with
  | file content => cases h
  | dir entries => rfl

theorem entryDescendants_eq (entries : List (String × FileTree)) :
    entryDescendants entries = entries.map fun entry =>
      (entry.1, ([entry.1], entry.2) :: entry.2.descendants.map fun found => (entry.1 :: found.1, found.2)) := by
  induction entries with
  | nil => rfl
  | cons entry rest ih =>
    rw [entryDescendants, ih]
    rfl

/-- What is found below a directory is one of its entries, or is found below one of them. -/
theorem mem_descendants {tree : FileTree} {found : List String × FileTree} :
    found ∈ tree.descendants ↔ ∃ entry ∈ tree.children,
      found = ([entry.1], entry.2) ∨ ∃ below ∈ entry.2.descendants, found = (entry.1 :: below.1, below.2) := by
  cases tree with
  | file content => simp [descendants, children]
  | dir entries =>
    rw [descendants, List.mem_flatMap]
    simp only [children, List.mem_mergeSort, entryDescendants_eq, List.mem_map]
    constructor
    · rintro ⟨group, ⟨entry, hentry, rfl⟩, hfound⟩
      rcases List.mem_cons.1 hfound with rfl | hfound
      · exact ⟨entry, hentry, .inl rfl⟩
      · rcases List.mem_map.1 hfound with ⟨below, hbelow, rfl⟩
        exact ⟨entry, hentry, .inr ⟨below, hbelow, rfl⟩⟩
    · rintro ⟨entry, hentry, rfl | ⟨below, hbelow, rfl⟩⟩
      · exact ⟨_, ⟨entry, hentry, rfl⟩, List.mem_cons_self⟩
      · exact ⟨_, ⟨entry, hentry, rfl⟩, List.mem_cons_of_mem _ (List.mem_map_of_mem hbelow)⟩

theorem ne_nil_of_mem_descendants {tree : FileTree} {found : List String × FileTree} (h : found ∈ tree.descendants) :
    found.1 ≠ [] := by
  rcases mem_descendants.1 h with ⟨entry, -, rfl | ⟨below, -, rfl⟩⟩
  · exact List.cons_ne_nil _ _
  · exact List.cons_ne_nil _ _

/-- Everything that stands below a directory is found there. -/
theorem mem_descendants_of_get? {tree found : FileTree} {path : List String} (hpath : path ≠ [])
    (h : tree.get? path = some found) : (path, found) ∈ tree.descendants := by
  induction path generalizing tree with
  | nil => exact absurd rfl hpath
  | cons name path ih =>
    rw [get?_cons, Option.bind_eq_some_iff] at h
    rcases h with ⟨next, hnext, hfound⟩
    rw [mem_descendants]
    refine ⟨(name, next), mem_children_of_child? hnext, ?_⟩
    -- the entry itself comes before what is below it
    by_cases hlast : path = []
    · subst hlast
      cases hfound
      exact .inl rfl
    · exact .inr ⟨(path, found), ih hlast hfound, rfl⟩

end FileTree

namespace Glob

/-! ## Steps of a walk -/

section

variable (tree : FileTree) (p : Place)

theorem visit_nil : visit tree [] p = [p] := by
  rw [visit]

theorem visit_wild (tokens : List Token) (rest : List Component) :
    visit tree (.wild tokens :: rest) p =
      if p.isDir tree then
        (dotNames tokens).flatMap (fun name => visit tree rest (p.step name)) ++
          (p.children tree).flatMap fun entry =>
            if matchesAll tokens entry.1.toList then visit tree rest entry.2 else []
      else [] := by
  rw [visit]

/-- With nothing but directories wanted, all directories below are found. -/
theorem visit_anyDirs_last {rest : List Component} (h : rest.dropWhile (· = .anyDirs) = []) :
    visit tree (.anyDirs :: rest) p = ((p.below tree).map (·.2)).filter (·.isDir tree) := by
  rw [visit]
  split
  · rfl
  · rename_i next others hnext
    rw [h] at hnext
    cases hnext

/-- Behind any directories the next component is looked for in all of them. -/
theorem visit_anyDirs {rest others : List Component} {next : Component}
    (h : rest.dropWhile (· = .anyDirs) = next :: others) :
    visit tree (.anyDirs :: rest) p =
      (p.below tree).flatMap fun entry => if next.accepts entry.1 then visit tree others entry.2 else [] := by
  rw [visit]
  split
  · rename_i hnone
    rw [h] at hnone
    cases hnone
  · rename_i next' others' hnext
    rw [h] at hnext
    cases hnext
    rfl

/-- Another component for any directories changes nothing. -/
theorem visit_anyDirs_again (rest : List Component) :
    visit tree (.anyDirs :: .anyDirs :: rest) p = visit tree (.anyDirs :: rest) p := by
  have hskip : (Component.anyDirs :: rest).dropWhile (· = .anyDirs) = rest.dropWhile (· = .anyDirs) :=
    List.dropWhile_cons_of_pos (by simp)
  cases hrest : rest.dropWhile (· = .anyDirs) with
  | nil => rw [visit_anyDirs_last tree p hrest, visit_anyDirs_last tree p (hskip.trans hrest)]
  | cons next others => rw [visit_anyDirs tree p hrest, visit_anyDirs tree p (hskip.trans hrest)]

end

/-! ## Walks that do not climb -/

/-- Whether a component leads to the parent directory. -/
def Component.climbs : Component → Bool
  | .literal name => name == ".."
  | .anyDirs => false
  | .wild tokens => (dotNames tokens).contains ".."

/-- Whether a walk over components never goes on from a parent directory. The last component may lead to one, since no
file stands there. Behind a component for any directories a name is looked for among entries only. -/
def descends (behindDirs : Bool) : List Component → Bool
  | [] => true
  | .anyDirs :: rest => descends true rest
  | component :: rest => (behindDirs || rest.isEmpty || !component.climbs) && descends false rest

theorem descends_cons {component : Component} {rest : List Component} (hany : component ≠ .anyDirs) :
    descends false (component :: rest) = true ↔
      (rest = [] ∨ component.climbs = false) ∧ descends false rest = true := by
  cases component with
  | anyDirs => exact absurd rfl hany
  | literal name => simp [descends]
  | wild tokens => simp [descends]

theorem descends_behind {rest others : List Component} {next : Component} (h : descends true rest = true)
    (hnext : rest.dropWhile (· = .anyDirs) = next :: others) : descends false others = true := by
  induction rest with
  | nil => cases hnext
  | cons component rest ih =>
    by_cases hany : component = .anyDirs
    · subst hany
      rw [List.dropWhile_cons_of_pos (by simp)] at hnext
      exact ih h hnext
    · rw [List.dropWhile_cons_of_neg (by simpa using hany)] at hnext
      cases hnext
      cases next with
      | anyDirs => exact absurd rfl hany
      | literal name => exact (Bool.and_eq_true_iff.1 h).2
      | wild tokens => exact (Bool.and_eq_true_iff.1 h).2

/-- Where something stands below a place, there is a directory. -/
theorem Place.isDir_of_below {tree : FileTree} {p : Place} {names : List String} (hnames : names ≠ [])
    (h : (tree.get? (p.trail ++ names)).isSome = true) : p.isDir tree = true := by
  cases names with
  | nil => exact absurd rfl hnames
  | cons name names =>
    rcases FileTree.exists_of_append h with ⟨node, hnode, hbelow⟩
    rcases FileTree.exists_child_of_cons hbelow with ⟨next, hnext⟩
    unfold isDir
    rw [hnode, Option.map_some, FileTree.isDir_of_child? hnext]
    rfl

/-- Above a directory there are only directories. -/
theorem Place.isDir_parent {tree : FileTree} {p : Place} (h : p.isDir tree = true) :
    (p.step "..").isDir tree = true := by
  unfold isDir at h
  by_cases htop : p.trail = []
  · unfold isDir
    rw [htop] at h
    change ((tree.get? p.trail.dropLast).map FileTree.isDir).getD false = true
    rw [htop]
    exact h
  · have hexists : (tree.get? (p.trail.dropLast ++ [p.trail.getLast htop])).isSome = true := by
      rw [List.dropLast_append_getLast]
      cases hnode : tree.get? p.trail with
      | none =>
        rw [hnode] at h
        cases h
      | some node => rfl
    exact Place.isDir_of_below (p := p.step "..") (List.cons_ne_nil _ _) hexists

/-- A walk that ends at a parent directory comes to no file. -/
theorem isDir_of_mem_visit_parent {tree : FileTree} {p q : Place} (h : p.isDir tree = true)
    (hq : q ∈ visit tree [] (p.step "..")) : q.isDir tree = true := by
  rw [visit_nil, List.mem_singleton] at hq
  rw [hq]
  exact Place.isDir_parent h

/-- The places that a walk comes to, apart from directories. -/
def visitFiles (tree : FileTree) (components : List Component) (p : Place) : List Place :=
  (visit tree components p).filter fun q => !q.isDir tree

theorem visitFiles_parent {tree : FileTree} {p : Place} (h : p.isDir tree = true) :
    visitFiles tree [] (p.step "..") = [] := by
  rw [visitFiles, List.filter_eq_nil_iff]
  intro q hq
  simp [isDir_of_mem_visit_parent h hq]

/-- Two places in two trees, the first one below a directory as the second one is below the top. -/
def Place.Under (base : List String) (p q : Place) : Prop :=
  p.trail = base ++ q.trail

section

variable {tree top : FileTree} {base : List String} {p q : Place}

theorem Place.Under.get? (h : p.Under base q) (hbase : tree.get? base = some top) :
    tree.get? p.trail = top.get? q.trail := by
  rw [h, FileTree.get?_append, hbase, Option.bind_some]

theorem Place.Under.isDir (h : p.Under base q) (hbase : tree.get? base = some top) : p.isDir tree = q.isDir top := by
  rw [Place.isDir, Place.isDir, h.get? hbase]

theorem Place.Under.child (h : p.Under base q) (name : String) : (p.child name).Under base (q.child name) := by
  unfold Under at h ⊢
  rw [Place.child, Place.child, h, List.append_assoc]

/-- A name other than that of the parent directory leads to places that are like each other. -/
theorem Place.Under.step (h : p.Under base q) {name : String} (hname : name ≠ "..") :
    (p.step name).Under base (q.step name) := by
  unfold Place.step
  rw [if_neg hname, if_neg hname]
  by_cases hstay : name = "." ∨ name = ""
  · rw [if_pos hstay, if_pos hstay]
    exact h
  · rw [if_neg hstay, if_neg hstay]
    exact h.child name

theorem Place.Under.hasStep (h : p.Under base q) (hbase : tree.get? base = some top) (name : String) :
    p.hasStep tree name = q.hasStep top name := by
  have hget := (h.child name).get? hbase
  rw [Place.hasStep, Place.hasStep, h.isDir hbase]
  change tree.get? (p.trail ++ [name]) = top.get? (q.trail ++ [name]) at hget
  rw [hget]

theorem Place.Under.children (h : p.Under base q) (hbase : tree.get? base = some top) :
    List.Forall₂ (fun x y => x.1 = y.1 ∧ x.2.Under base y.2) (p.children tree) (q.children top) := by
  unfold Place.children
  rw [h.get? hbase]
  cases top.get? q.trail with
  | none => exact List.Forall₂.nil
  | some node =>
    rw [List.forall₂_map_left_iff, List.forall₂_map_right_iff]
    exact List.forall₂_same.2 fun entry _ => ⟨rfl, h.child entry.1⟩

theorem Place.Under.below (h : p.Under base q) (hbase : tree.get? base = some top) :
    List.Forall₂ (fun x y => x.1 = y.1 ∧ x.2.Under base y.2) (p.below tree) (q.below top) := by
  unfold Place.below
  rw [h.get? hbase]
  cases top.get? q.trail with
  | none => exact List.Forall₂.nil
  | some node =>
    rw [List.forall₂_map_left_iff, List.forall₂_map_right_iff]
    refine List.forall₂_same.2 fun found _ => ⟨rfl, ?_⟩
    unfold Place.Under at h ⊢
    rw [h, List.append_assoc]

end

/-- A step to a parent directory is the last one and leads to no file; any other one is left to the rest of the
walk. -/
theorem visitFiles_step_under {tree top : FileTree} {base : List String} (hbase : tree.get? base = some top)
    {p q : Place} (h : p.Under base q) {name : String} {rest : List Component} (hlast : name = ".." → rest = [])
    (hstep : name = ".." → p.isDir tree = true)
    (hnext : (p.step name).Under base (q.step name) →
      List.Forall₂ (Place.Under base) (visitFiles tree rest (p.step name)) (visitFiles top rest (q.step name))) :
    List.Forall₂ (Place.Under base) (visitFiles tree rest (p.step name)) (visitFiles top rest (q.step name)) := by
  by_cases hname : name = ".."
  · have hdir := hstep hname
    rw [hlast hname, hname, visitFiles_parent hdir, visitFiles_parent ((h.isDir hbase).symm.trans hdir)]
    exact List.Forall₂.nil
  · exact hnext (h.step hname)

/-- A walk that goes on from no parent directory comes to the same files wherever the directory with these contents
stands. -/
theorem visitFiles_under {tree top : FileTree} {base : List String} (hbase : tree.get? base = some top)
    {components : List Component} (hdescends : descends false components = true) {p q : Place} (h : p.Under base q) :
    List.Forall₂ (Place.Under base) (visitFiles tree components p) (visitFiles top components q) := by
  unfold visitFiles
  fun_induction visit tree components p generalizing q with
  | case1 p =>
    rw [visit_nil, List.filter_singleton, List.filter_singleton, h.isDir hbase]
    cases q.isDir top with
    | true => exact List.Forall₂.nil
    | false => exact List.Forall₂.cons h List.Forall₂.nil
  | case2 name rest p hstep ih =>
    rcases (descends_cons (by simp)).1 hdescends with ⟨hlast, hrest⟩
    rw [visit_literal, ← h.hasStep hbase, if_pos hstep]
    apply visitFiles_step_under hbase h
    · rintro rfl
      exact hlast.resolve_right (by simp [Component.climbs])
    · rintro rfl
      exact hstep
    · exact ih hrest
  | case3 name rest p hstep =>
    rw [visit_literal, ← h.hasStep hbase, if_neg hstep]
    exact List.Forall₂.nil
  | case4 tokens rest p hdir ihdot ih =>
    rcases (descends_cons (by simp)).1 hdescends with ⟨hlast, hrest⟩
    have hdots : List.Forall₂ (fun x y => x = y ∧ x ∈ dotNames tokens) (dotNames tokens) (dotNames tokens) :=
      List.forall₂_same.2 fun name hname => ⟨rfl, hname⟩
    -- the directory itself and its parent are no children, so there are two lists to compare
    rw [visit_wild, ← h.isDir hbase, if_pos hdir, List.filter_append, List.filter_append]
    simp only [List.filter_flatMap]
    apply List.rel_append
    · apply List.rel_flatMap hdots
      rintro name _ ⟨rfl, hname⟩
      apply visitFiles_step_under hbase h
      · rintro rfl
        exact hlast.resolve_right (by simp [Component.climbs, hname])
      · exact fun _ => hdir
      · exact ihdot name hrest
    · apply List.rel_flatMap (h.children hbase)
      rintro ⟨name, place⟩ ⟨name', place'⟩ ⟨hname, hplace⟩
      cases (hname : name = name')
      dsimp only
      split
      · exact ih (name, place) hrest hplace
      · exact List.Forall₂.nil
  | case5 tokens rest p hdir =>
    rw [visit_wild, ← h.isDir hbase, if_neg hdir]
    exact List.Forall₂.nil
  | case6 rest p hlast =>
    -- with nothing behind, only directories are found
    rw [visit_anyDirs_last top q hlast]
    simp only [List.filter_filter, Bool.not_and_self, List.filter_false]
    exact List.Forall₂.nil
  | case7 rest p next others hnext _ ih =>
    rw [visit_anyDirs top q hnext]
    simp only [List.filter_flatMap]
    apply List.rel_flatMap (h.below hbase)
    rintro ⟨name, place⟩ ⟨name', place'⟩ ⟨hname, hplace⟩
    cases (hname : name = name')
    dsimp only
    split
    · exact ih (name, place) (descends_behind hdescends hnext) hplace
    · exact List.Forall₂.nil

/-! ## Names and components -/

/-- The names that lead to a file from the directory where components are looked for. A component that stands for this
directory itself has no name of its own, but there is one behind it. -/
inductive Leads : List Component → List String → Prop
  | nil : Leads [] []
  | stay {name : String} {rest : List Component} {names : List String} (h : name = "." ∨ name = "")
      (hnames : names ≠ []) (later : Leads rest names) : Leads (.literal name :: rest) names
  | literal {name : String} {rest : List Component} {names : List String}
      (h : name ≠ "." ∧ name ≠ ".." ∧ name ≠ "") (later : Leads rest names) :
      Leads (.literal name :: rest) (name :: names)
  | wildDot {tokens : List Token} {rest : List Component} {names : List String} (h : "." ∈ dotNames tokens)
      (hnames : names ≠ []) (later : Leads rest names) : Leads (.wild tokens :: rest) names
  | wild {tokens : List Token} {rest : List Component} {name : String} {names : List String}
      (h : matchesAll tokens name.toList = true) (later : Leads rest names) :
      Leads (.wild tokens :: rest) (name :: names)
  | again {rest : List Component} {names : List String} (later : Leads (.anyDirs :: rest) names) :
      Leads (.anyDirs :: .anyDirs :: rest) names
  | among {next : Component} {others : List Component} {name : String} {names : List String} (dirs : List String)
      (hnext : next ≠ .anyDirs) (h : next.accepts name = true) (later : Leads others names) :
      Leads (.anyDirs :: next :: others) (dirs ++ name :: names)

/-- Several components that stand for any directories are like one. -/
theorem Leads.among_of_dropWhile {rest others : List Component} {next : Component}
    (hrest : rest.dropWhile (· = .anyDirs) = next :: others) {name : String} {names : List String} (dirs : List String)
    (h : next.accepts name = true) (later : Leads others names) :
    Leads (.anyDirs :: rest) (dirs ++ name :: names) := by
  induction rest with
  | nil => cases hrest
  | cons component rest ih =>
    by_cases hany : component = .anyDirs
    · subst hany
      rw [List.dropWhile_cons_of_pos (by simp)] at hrest
      exact .again (ih hrest)
    · rw [List.dropWhile_cons_of_neg (by simpa using hany)] at hrest
      cases hrest
      exact .among dirs hany h later

section

variable {tree : FileTree} {p : Place}

/-- Two names stand for the directory where they are looked for. -/
theorem Place.step_stay (tree : FileTree) (p : Place) {name : String} (h : name = "." ∨ name = "") :
    (p.step name).trail = p.trail ∧ p.hasStep tree name = p.isDir tree := by
  rcases h with rfl | rfl
  · exact ⟨rfl, rfl⟩
  · exact ⟨rfl, rfl⟩

/-- Any other name, except that of the parent directory, stands for an entry. -/
theorem Place.step_name (tree : FileTree) (p : Place) {name : String} (h : name ≠ "." ∧ name ≠ ".." ∧ name ≠ "") :
    p.step name = p.child name ∧ p.hasStep tree name = (tree.get? (p.trail ++ [name])).isSome := by
  rcases h with ⟨hdot, hdots, hempty⟩
  constructor
  · rw [step, if_neg hdots, if_neg (not_or.2 ⟨hdot, hempty⟩)]
  · rw [hasStep, if_neg (not_or.2 ⟨hdot, not_or.2 ⟨hdots, hempty⟩⟩)]

theorem of_mem_dotNames {tokens : List Token} {name : String} (h : name ∈ dotNames tokens) :
    name = ".." ∨ name = "." := by
  unfold dotNames at h
  split at h
  · simpa using (List.mem_filter.1 h).1
  · cases h

theorem Place.isDir_congr {q : Place} (h : q.trail = p.trail) : q.isDir tree = p.isDir tree := by
  rw [isDir, isDir, h]

/-- No file stands where there is a directory. -/
theorem ne_nil_of_isDir {q : Place} {names : List String} (hdir : p.isDir tree = true) (hfile : q.isDir tree = false)
    (htrail : q.trail = p.trail ++ names) : names ≠ [] := by
  rintro rfl
  rw [List.append_nil] at htrail
  rw [Place.isDir_congr htrail, hdir] at hfile
  cases hfile

/-- What stands in a directory is one of its entries. -/
theorem Place.mem_children {name : String} (h : (tree.get? (p.trail ++ [name])).isSome = true) :
    (name, p.child name) ∈ p.children tree := by
  rcases FileTree.exists_of_append h with ⟨node, hnode, hbelow⟩
  rcases FileTree.exists_child_of_cons hbelow with ⟨next, hnext⟩
  unfold children
  rw [hnode]
  exact List.mem_map.2 ⟨(name, next), FileTree.mem_children_of_child? hnext, rfl⟩

theorem Place.of_mem_children {name : String} {q : Place} (h : (name, q) ∈ p.children tree) :
    q.trail = p.trail ++ [name] := by
  unfold children at h
  cases hnode : tree.get? p.trail with
  | none =>
    rw [hnode] at h
    cases h
  | some node =>
    rw [hnode] at h
    rcases List.mem_map.1 h with ⟨entry, -, hentry⟩
    cases hentry
    rfl

/-- What stands below a directory is found below it under its last name. -/
theorem Place.mem_below {dirs : List String} {name : String}
    (h : (tree.get? (p.trail ++ (dirs ++ [name]))).isSome = true) :
    ∃ q, (name, q) ∈ p.below tree ∧ q.trail = p.trail ++ (dirs ++ [name]) := by
  rcases FileTree.exists_of_append h with ⟨node, hnode, hbelow⟩
  rcases Option.isSome_iff_exists.1 hbelow with ⟨found, hfound⟩
  have hmem := FileTree.mem_descendants_of_get? (by simp) hfound
  refine ⟨⟨(dirs ++ [name]).foldl joinShown p.shown, p.trail ++ (dirs ++ [name])⟩, ?_, rfl⟩
  unfold below
  rw [hnode]
  refine List.mem_map.2 ⟨_, hmem, ?_⟩
  simp

/-- What is found below a directory has been found under its last name. -/
theorem Place.of_mem_below {name : String} {q : Place} (h : (name, q) ∈ p.below tree) :
    ∃ dirs, q.trail = p.trail ++ (dirs ++ [name]) := by
  unfold below at h
  cases hnode : tree.get? p.trail with
  | none =>
    rw [hnode] at h
    cases h
  | some node =>
    rw [hnode] at h
    rcases List.mem_map.1 h with ⟨found, hfound, hentry⟩
    cases hentry
    have hne := FileTree.ne_nil_of_mem_descendants hfound
    refine ⟨found.1.dropLast, ?_⟩
    dsimp only
    rw [List.getLast?_eq_some_getLast hne, Option.getD_some, List.dropLast_append_getLast]

/-- A walk that goes on from no parent directory comes to no file but those that the names lead to. -/
theorem leads_of_mem_visit {components : List Component} (hdescends : descends false components = true) {q : Place}
    (hq : q ∈ visit tree components p) (hfile : q.isDir tree = false) :
    ∃ names, q.trail = p.trail ++ names ∧ Leads components names := by
  fun_induction visit tree components p with
  | case1 p =>
    cases List.mem_singleton.1 hq
    exact ⟨[], (List.append_nil _).symm, .nil⟩
  | case2 name rest p hstep ih =>
    rcases (descends_cons (by simp)).1 hdescends with ⟨hlast, hrest⟩
    have hname : name ≠ ".." := by
      rintro rfl
      rw [hlast.resolve_right (by simp [Component.climbs])] at hq
      rw [isDir_of_mem_visit_parent hstep hq] at hfile
      cases hfile
    rcases ih hrest hq with ⟨names, htrail, hleads⟩
    by_cases hstay : name = "." ∨ name = ""
    · rcases Place.step_stay tree p hstay with ⟨hsame, hdir⟩
      rw [hsame] at htrail
      rw [hdir] at hstep
      exact ⟨names, htrail, .stay hstay (ne_nil_of_isDir hstep hfile htrail) hleads⟩
    · have hplain : name ≠ "." ∧ name ≠ ".." ∧ name ≠ "" :=
        ⟨fun heq => hstay (.inl heq), hname, fun heq => hstay (.inr heq)⟩
      refine ⟨name :: names, ?_, .literal hplain hleads⟩
      rw [htrail, (Place.step_name tree p hplain).1, Place.child, List.append_assoc]
      rfl
  | case3 name rest p hstep => cases hq
  | case4 tokens rest p hdir ihdot ih =>
    rcases (descends_cons (by simp)).1 hdescends with ⟨hlast, hrest⟩
    rcases List.mem_append.1 hq with hq | hq
    · rcases List.mem_flatMap.1 hq with ⟨name, hname, hq⟩
      rcases of_mem_dotNames hname with rfl | rfl
      · rw [hlast.resolve_right (by simp [Component.climbs, hname])] at hq
        rw [isDir_of_mem_visit_parent hdir hq] at hfile
        cases hfile
      · rcases ihdot "." hrest hq with ⟨names, htrail, hleads⟩
        change q.trail = p.trail ++ names at htrail
        exact ⟨names, htrail, .wildDot hname (ne_nil_of_isDir hdir hfile htrail) hleads⟩
    · rcases List.mem_flatMap.1 hq with ⟨⟨name, place⟩, hentry, hq⟩
      dsimp only at hq
      split at hq
      · rename_i hmatches
        rcases ih (name, place) hrest hq with ⟨names, htrail, hleads⟩
        refine ⟨name :: names, ?_, .wild hmatches hleads⟩
        rw [htrail, Place.of_mem_children hentry]
        simp
      · cases hq
  | case5 tokens rest p hdir => cases hq
  | case6 rest p hlast =>
    have hdir := (List.mem_filter.1 hq).2
    rw [hfile] at hdir
    cases hdir
  | case7 rest p next others hnext _ ih =>
    rcases List.mem_flatMap.1 hq with ⟨⟨name, place⟩, hentry, hq⟩
    dsimp only at hq
    split at hq
    · rename_i haccepts
      rcases Place.of_mem_below hentry with ⟨dirs, hplace⟩
      rcases ih (name, place) (descends_behind hdescends hnext) hq with ⟨names, htrail, hleads⟩
      refine ⟨dirs ++ name :: names, ?_, .among_of_dropWhile hnext dirs haccepts hleads⟩
      rw [htrail, hplace]
      simp
    · cases hq

/-- A walk comes to every place that the names lead to, if something stands there. -/
theorem mem_visit_of_leads {components : List Component} {names : List String} (h : Leads components names)
    (hexists : (tree.get? (p.trail ++ names)).isSome = true) :
    ∃ q ∈ visit tree components p, q.trail = p.trail ++ names := by
  induction h generalizing p with
  | nil =>
    rw [visit_nil]
    exact ⟨p, List.mem_singleton_self p, (List.append_nil _).symm⟩
  | @stay name rest names h hnames later ih =>
    rcases Place.step_stay tree p h with ⟨hsame, hstep⟩
    rw [visit_literal, hstep, if_pos (Place.isDir_of_below hnames hexists), ← hsame]
    apply ih
    rw [hsame]
    exact hexists
  | @literal name rest names h later ih =>
    rcases Place.step_name tree p h with ⟨hsame, hstep⟩
    rw [List.append_cons] at hexists ⊢
    rw [visit_literal, hstep, if_pos (FileTree.isSome_of_append hexists), hsame]
    exact ih hexists
  | @wildDot tokens rest names h hnames later ih =>
    rcases ih (p := p.step ".") hexists with ⟨q, hq, htrail⟩
    refine ⟨q, ?_, htrail⟩
    rw [visit_wild, if_pos (Place.isDir_of_below hnames hexists)]
    exact List.mem_append_left _ (List.mem_flatMap.2 ⟨".", h, hq⟩)
  | @wild tokens rest name names h later ih =>
    have hdir := Place.isDir_of_below (List.cons_ne_nil _ _) hexists
    rw [List.append_cons] at hexists ⊢
    rcases ih (p := p.child name) hexists with ⟨q, hq, htrail⟩
    refine ⟨q, ?_, htrail⟩
    rw [visit_wild, if_pos hdir]
    apply List.mem_append_right
    refine List.mem_flatMap.2 ⟨_, Place.mem_children (FileTree.isSome_of_append hexists), ?_⟩
    rw [if_pos h]
    exact hq
  | @again rest names later ih =>
    rcases ih hexists with ⟨q, hq, htrail⟩
    refine ⟨q, ?_, htrail⟩
    rw [visit_anyDirs_again]
    exact hq
  | @among next others name names dirs hnext h later ih =>
    rw [List.append_cons dirs, ← List.append_assoc] at hexists ⊢
    rcases Place.mem_below (FileTree.isSome_of_append hexists) with ⟨place, hplace, hsame⟩
    rw [← hsame] at hexists ⊢
    rcases ih hexists with ⟨q, hq, htrail⟩
    refine ⟨q, ?_, htrail⟩
    rw [visit_anyDirs tree p (List.dropWhile_cons_of_neg (by simpa using hnext))]
    refine List.mem_flatMap.2 ⟨_, hplace, ?_⟩
    rw [if_pos h]
    exact hq

/-- The files that a walk comes to, if it goes on from no parent directory, are those to which names of the components
lead. -/
theorem mem_visit_iff {components : List Component} (hdescends : descends false components = true)
    {names : List String} {content : List UInt8} (hfile : tree.get? (p.trail ++ names) = some (.file content)) :
    (∃ q ∈ visit tree components p, q.trail = p.trail ++ names) ↔ Leads components names := by
  constructor
  · rintro ⟨q, hq, htrail⟩
    have hnotDir : q.isDir tree = false := by
      rw [Place.isDir, htrail, hfile]
      rfl
    rcases leads_of_mem_visit hdescends hq hnotDir with ⟨names', htrail', hleads⟩
    rw [htrail] at htrail'
    rw [List.append_cancel_left htrail']
    exact hleads
  · intro hleads
    apply mem_visit_of_leads hleads
    rw [hfile]
    rfl

end

end Glob

end Sidecar
