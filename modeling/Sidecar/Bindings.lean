/-!
# Bindings

Names bound to texts: the environment of a step, the variables of an expression, the outputs of a run. A
name is bound once, and the names stand in increasing order of their characters, which is also the order of
their UTF-8 bytes. So two `Bindings` that bind the same names to the same texts are equal.

`get?_insert` says what a lookup finds after a name has been bound.
-/

namespace Sidecar

/-- Names bound to texts, in the order of the names. -/
structure Bindings where
  toList : List (String × String)
  sorted : toList.Pairwise fun a b => a.1 < b.1
deriving DecidableEq, Repr

namespace Bindings

/-- No names. -/
protected def empty : Bindings :=
  ⟨[], .nil⟩

instance : EmptyCollection Bindings := ⟨Bindings.empty⟩

instance : Inhabited Bindings := ⟨∅⟩

/-- Of two different names one is the greater. -/
theorem lt_of_not_lt_of_ne {a b : String} (h : ¬a < b) (hne : a ≠ b) : b < a :=
  Decidable.byContradiction fun h' =>
    hne (String.le_antisymm (String.not_lt.1 h') (String.not_lt.1 h))

/-- Binds a name in a list that is in order. -/
def insertSorted (name text : String) : List (String × String) → List (String × String)
  | [] => [(name, text)]
  | entry :: rest =>
    if name < entry.1 then (name, text) :: entry :: rest
    else if name = entry.1 then (name, text) :: rest
    else entry :: insertSorted name text rest

theorem mem_insertSorted {name text : String} {entries : List (String × String)}
    {x : String × String} (h : x ∈ insertSorted name text entries) :
    x = (name, text) ∨ x ∈ entries := by
  induction entries with
  | nil => simpa [insertSorted] using h
  | cons entry rest ih =>
    simp only [insertSorted] at h
    split at h
    · simpa using h
    · split at h
      · rcases List.mem_cons.1 h with h | h
        · exact .inl h
        · exact .inr (List.mem_cons_of_mem _ h)
      · rcases List.mem_cons.1 h with h | h
        · exact .inr (h ▸ List.mem_cons_self)
        · exact (ih h).imp_right (List.mem_cons_of_mem _)

theorem pairwise_insertSorted (name text : String) {entries : List (String × String)}
    (h : entries.Pairwise fun a b => a.1 < b.1) :
    (insertSorted name text entries).Pairwise fun a b => a.1 < b.1 := by
  induction entries with
  | nil => simp [insertSorted]
  | cons entry rest ih =>
    obtain ⟨hfirst, hrest⟩ := List.pairwise_cons.1 h
    simp only [insertSorted]
    split
    · rename_i hlt
      refine List.pairwise_cons.2 ⟨fun x hx => ?_, h⟩
      rcases List.mem_cons.1 hx with rfl | hx
      · exact hlt
      · exact String.lt_trans hlt (hfirst x hx)
    · split
      · rename_i heq
        exact List.pairwise_cons.2 ⟨fun x hx => heq ▸ hfirst x hx, hrest⟩
      · rename_i hlt hne
        refine List.pairwise_cons.2 ⟨fun x hx => ?_, ih hrest⟩
        rcases mem_insertSorted hx with rfl | hx
        · exact lt_of_not_lt_of_ne hlt hne
        · exact hfirst x hx

/-- Binds a name; a former binding of the name is lost. -/
def insert (b : Bindings) (name text : String) : Bindings :=
  ⟨insertSorted name text b.toList, pairwise_insertSorted name text b.sorted⟩

/-- The text bound to a name. -/
def get? (b : Bindings) (name : String) : Option String :=
  b.toList.lookup name

/-- The names in their order. -/
def names (b : Bindings) : List String :=
  b.toList.map (·.1)

/-- The number of names. -/
def size (b : Bindings) : Nat :=
  b.toList.length

/-- Binds the names of a list one after the other, so that of two bindings of a name the later one holds. -/
def ofList (entries : List (String × String)) : Bindings :=
  entries.foldl (fun b entry => b.insert entry.1 entry.2) ∅

/-- Adds all bindings of `other`, which win over those of `b`. -/
def append (b other : Bindings) : Bindings :=
  other.toList.foldl (fun b entry => b.insert entry.1 entry.2) b

theorem lookup_insertSorted (name text : String) (entries : List (String × String)) (x : String) :
    (insertSorted name text entries).lookup x = if x = name then some text else entries.lookup x := by
  induction entries with
  | nil => by_cases h : x = name <;> simp [insertSorted, List.lookup_cons, h, beq_eq_false_iff_ne.2]
  | cons entry rest ih =>
    obtain ⟨key, value⟩ := entry
    simp only [insertSorted]
    split
    · by_cases h : x = name <;> simp [List.lookup_cons, h, beq_eq_false_iff_ne.2]
    · split
      · rename_i heq
        subst heq
        by_cases h : x = name <;> simp [List.lookup_cons, h, beq_eq_false_iff_ne.2]
      · rename_i hne
        by_cases hk : x = key
        · subst hk
          simp [Ne.symm hne]
        · simp [List.lookup_cons, beq_eq_false_iff_ne.2 hk, ih]

/-- A name that has just been bound is found with its new text, every other name as before. -/
@[simp] theorem get?_insert (b : Bindings) (name text x : String) :
    (b.insert name text).get? x = if x = name then some text else b.get? x :=
  lookup_insertSorted name text b.toList x

@[simp] theorem get?_empty (x : String) : (∅ : Bindings).get? x = none := rfl

end Bindings

end Sidecar
