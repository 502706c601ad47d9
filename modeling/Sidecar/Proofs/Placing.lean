import Sidecar.Proofs.Walking

/-!
# Putting files into a tree

What is put at a place is found there (`get?_insert_self`), and nothing changes at a place that is neither on the way
to it nor below it (`get?_insert_of_apart`). Two places where files can be opened are always like that
(`Opens.apart`): nothing is below a file, and a new file needs a directory.
-/

namespace Sidecar.FileTree

/-! ## Insertion -/

theorem lookup_setEntry (name other : String) (tree : FileTree) (entries : List (String × FileTree)) :
    (setEntry name tree entries).lookup other = if other = name then some tree else entries.lookup other := by
  induction entries with
  | nil =>
    by_cases h : other = name
    · simp [setEntry, h]
    · simp [setEntry, List.lookup_cons, beq_eq_false_iff_ne.2 h, h]
  | cons entry rest ih =>
    obtain ⟨key, found⟩ := entry
    by_cases hkey : key = name
    · rw [setEntry, if_pos hkey, List.lookup_cons, List.lookup_cons, hkey]
      by_cases h : other = name
      · simp [h]
      · simp [beq_eq_false_iff_ne.2 h, h]
    · rw [setEntry, if_neg hkey, List.lookup_cons, List.lookup_cons, ih]
      by_cases h : other = key
      · simp [h, hkey]
      · simp [beq_eq_false_iff_ne.2 h]

/-- What is put at a place is found there. -/
theorem get?_insert_self (path : List String) (tree new : FileTree) : (tree.insert path new).get? path = some new := by
  induction path generalizing tree with
  | nil => rfl
  | cons name path ih =>
    rw [get?_cons]
    cases tree with
    | file content =>
      have hchild : ((file content).insert (name :: path) new).child? name = some (empty.insert path new) := by
        simp [insert, child?]
      rw [hchild]
      exact ih empty
    | dir entries =>
      have hchild : ((dir entries).insert (name :: path) new).child? name =
          some (((entries.lookup name).getD empty).insert path new) := by
        simp [insert, child?, lookup_setEntry]
      rw [hchild]
      exact ih _

theorem get?_empty_of_ne_nil {path : List String} (h : path ≠ []) : empty.get? path = none := by
  cases path with
  | nil => exact absurd rfl h
  | cons name path => rfl

/-- What is put at a place changes nothing at other places, unless one of the two is on the way to the other. -/
theorem get?_insert_of_apart {path other : List String} (hpath : ¬path <+: other) (hother : ¬other <+: path)
    (tree new : FileTree) : (tree.insert path new).get? other = tree.get? other := by
  induction path generalizing other tree with
  | nil => exact absurd List.nil_prefix hpath
  | cons name path ih =>
    cases other with
    | nil => exact absurd List.nil_prefix hother
    | cons name' other =>
      rw [get?_cons, get?_cons]
      by_cases hname : name' = name
      · subst hname
        have hpath' : ¬path <+: other := fun h => hpath (List.cons_prefix_cons.2 ⟨rfl, h⟩)
        have hother' : ¬other <+: path := fun h => hother (List.cons_prefix_cons.2 ⟨rfl, h⟩)
        have hne : other ≠ [] := by
          rintro rfl
          exact hother' List.nil_prefix
        cases tree with
        | file content =>
          have hchild : ((file content).insert (name' :: path) new).child? name' = some (empty.insert path new) := by
            simp [insert, child?]
          rw [hchild, Option.bind_some, ih hpath' hother', get?_empty_of_ne_nil hne]
          rfl
        | dir entries =>
          have hchild : ((dir entries).insert (name' :: path) new).child? name' =
              some (((entries.lookup name').getD empty).insert path new) := by
            simp [insert, child?, lookup_setEntry]
          rw [hchild, Option.bind_some, ih hpath' hother', child?]
          -- a directory that is made on the way holds nothing else
          cases entries.lookup name' with
          | none => exact get?_empty_of_ne_nil hne
          | some next => rfl
      · have hchild : (tree.insert (name :: path) new).child? name' = tree.child? name' := by
          cases tree with
          | file content => simp [insert, child?, List.lookup_cons, beq_eq_false_iff_ne.2 hname]
          | dir entries => simp [insert, child?, lookup_setEntry, hname]
        rw [hchild]

/-! ## Places for files -/

/-- A file can be opened for appending at a place: there is one, or nothing is there yet, in a directory. -/
def Opens (tree : FileTree) (path : List String) : Prop :=
  (∃ content, tree.get? path = some (.file content)) ∨
    tree.get? path = none ∧ ∃ front name entries, path = front ++ [name] ∧ tree.get? front = some (.dir entries)

section

variable {tree : FileTree} {path other : List String}

/-- Nothing is below a place where a file can be opened. -/
theorem Opens.get?_below (h : tree.Opens path) {rest : List String} (hrest : rest ≠ []) :
    tree.get? (path ++ rest) = none := by
  rw [get?_append]
  rcases h with ⟨content, hfile⟩ | ⟨hnone, -⟩
  · rw [hfile, Option.bind_some]
    cases rest with
    | nil => exact absurd rfl hrest
    | cons name rest => rfl
  · rw [hnone, Option.bind_none]

theorem Opens.ne_dir (h : tree.Opens path) (entries : List (String × FileTree)) :
    tree.get? path ≠ some (.dir entries) := by
  rcases h with ⟨content, hfile⟩ | ⟨hnone, -⟩
  · rw [hfile]
    intro hdir
    cases hdir
  · rw [hnone]
    intro hdir
    cases hdir

/-- Where files can be opened at two places, neither is on the way to the other. -/
theorem Opens.not_isPrefix (h : tree.Opens path) (hother : tree.Opens other) (hne : path ≠ other) :
    ¬path <+: other := by
  rintro ⟨rest, rfl⟩
  rcases List.eq_nil_or_concat rest with rfl | ⟨rest, name, rfl⟩
  · exact hne (List.append_nil path).symm
  · rw [List.concat_eq_append] at hother
    rcases hother with ⟨content, hfile⟩ | ⟨-, front, name', entries, hsplit, hdir⟩
    · rw [h.get?_below (by simp)] at hfile
      cases hfile
    · -- the directory of the new file would be the first place, or below it
      rw [← List.append_assoc] at hsplit
      obtain ⟨rfl, -⟩ := List.append_inj' hsplit rfl
      by_cases hrest : rest = []
      · rw [hrest, List.append_nil] at hdir
        exact h.ne_dir entries hdir
      · rw [h.get?_below hrest] at hdir
        cases hdir

theorem Opens.apart (h : tree.Opens path) (hother : tree.Opens other) (hne : path ≠ other) :
    ¬path <+: other ∧ ¬other <+: path :=
  ⟨h.not_isPrefix hother hne, hother.not_isPrefix h hne.symm⟩

end

end Sidecar.FileTree
