/-!
# Patterns

Patterns of characters, and how they are found in a text. From a given place a pattern tries its ways in a fixed
order: a repetition takes as many characters as it can and gives them back one at a time, and of two alternatives
the first one goes first. What counts is the first way that leads to a match. A search takes the first place in the
text from which there is one.

Places are known by the number of bytes in front of them, and parts of the text are cut out between places.

`Takes` says what a pattern matches without saying in which order the ways are tried. That a run takes one of these
ways, and fails only if none of them is any good, is said by `takes_of_run` and `run_eq_none`; that a search goes to
the first place is said by `search_eq_some` and `search_eq_none`.
-/

namespace Sidecar.Text

/-! ## Places -/

/-- The number of bytes of some characters. -/
def byteLength (cs : List Char) : Nat :=
  cs.foldr (fun c length => c.utf8Size + length) 0

@[simp] theorem byteLength_nil : byteLength [] = 0 := rfl

@[simp] theorem byteLength_cons (c : Char) (cs : List Char) :
    byteLength (c :: cs) = c.utf8Size + byteLength cs := rfl

@[simp] theorem byteLength_append (xs ys : List Char) :
    byteLength (xs ++ ys) = byteLength xs + byteLength ys := by
  induction xs with
  | nil => simp
  | cons c xs ih => simp [ih, Nat.add_assoc]

/-- The characters in the first so many bytes. -/
def takeBytes (size : Nat) : List Char → List Char
  | [] => []
  | c :: rest => if size = 0 then [] else c :: takeBytes (size - c.utf8Size) rest

theorem takeBytes_byteLength (xs ys : List Char) : takeBytes (byteLength xs) (xs ++ ys) = xs := by
  induction xs with
  | nil => cases ys <;> simp [takeBytes]
  | cons c xs ih =>
    have hpos : c.utf8Size ≠ 0 := Nat.ne_of_gt c.utf8Size_pos
    simp [takeBytes, hpos, ih]

/-- A place in a text. -/
structure Place where
  /-- The number of bytes in front of it. -/
  offset : Nat
  /-- The text from there on. -/
  rest : List Char
deriving DecidableEq, Repr

namespace Place

/-- Where a text begins. -/
def start (text : List Char) : Place :=
  ⟨0, text⟩

/-- The text from a place to a later one. -/
def upTo (a b : Place) : List Char :=
  takeBytes (b.offset - a.offset) a.rest

/-- Some characters lead from a place to another one. -/
structure Leads (a : Place) (taken : List Char) (b : Place) : Prop where
  rest : a.rest = taken ++ b.rest
  offset : b.offset = a.offset + byteLength taken

namespace Leads

variable {a b c : Place} {xs ys : List Char}

theorem refl (a : Place) : a.Leads [] a :=
  ⟨rfl, rfl⟩

theorem trans (h : a.Leads xs b) (h' : b.Leads ys c) : a.Leads (xs ++ ys) c where
  rest := by rw [h.rest, h'.rest, List.append_assoc]
  offset := by rw [h'.offset, h.offset, byteLength_append, Nat.add_assoc]

/-- Behind the first character. -/
theorem next (offset : Nat) (c : Char) (rest : List Char) :
    Leads ⟨offset, c :: rest⟩ [c] ⟨offset + c.utf8Size, rest⟩ :=
  ⟨rfl, rfl⟩

/-- On the way behind some characters there is a place between each two of them. -/
theorem split (h : a.Leads (xs ++ ys) c) : ∃ b, a.Leads xs b ∧ b.Leads ys c := by
  refine ⟨⟨a.offset + byteLength xs, ys ++ c.rest⟩, ⟨?_, rfl⟩, ⟨rfl, ?_⟩⟩
  · rw [h.rest, List.append_assoc]
  · rw [h.offset, byteLength_append, Nat.add_assoc]

theorem length_le (h : a.Leads xs b) : b.rest.length ≤ a.rest.length := by
  rw [h.rest, List.length_append]
  exact Nat.le_add_left _ _

theorem upTo_eq (h : a.Leads xs b) : a.upTo b = xs := by
  rw [upTo, h.offset, Nat.add_sub_cancel_left, h.rest, takeBytes_byteLength]

end Leads

end Place

/-! ## Patterns and what they match -/

/-- A pattern. -/
inductive Pattern where
  /-- Where the text begins. -/
  | atStart
  /-- Where the text ends. -/
  | atEnd
  /-- A character of a kind. -/
  | one (accepts : Char → Bool)
  /-- Any number of characters of a kind. -/
  | many (accepts : Char → Bool)
  /-- A pattern and then another one. -/
  | append (p q : Pattern)
  /-- One of two patterns. -/
  | either (p q : Pattern)
  /-- A pattern whose part of the match is looked at by itself. -/
  | group (p : Pattern)

instance : Append Pattern := ⟨Pattern.append⟩

/-- A match, perhaps still under way. -/
structure Match where
  start : Place
  stop : Place
  /-- Where the part that is looked at by itself begins and ends. -/
  part : Option (Place × Place) := none

namespace Match

/-- A match that has taken nothing yet. -/
def empty (place : Place) : Match :=
  { start := place, stop := place }

/-- The match goes on to a place. -/
def moveTo (m : Match) (place : Place) : Match :=
  { m with stop := place }

@[simp] theorem empty_stop (place : Place) : (empty place).stop = place := rfl

@[simp] theorem moveTo_stop (m : Match) (place : Place) : (m.moveTo place).stop = place := rfl

/-- The text of a match. -/
def text (m : Match) : List Char :=
  m.start.upTo m.stop

/-- The text of the part that is looked at by itself. -/
def partText (m : Match) : List Char :=
  match m.part with
  | some (first, last) => first.upTo last
  | none => []

end Match

/-- Goes on behind as many characters of a kind as possible, or else behind fewer of them. -/
def runMany {α : Type} (accepts : Char → Bool) (next : Place → Option α) (offset : Nat) : List Char → Option α
  | [] => next ⟨offset, []⟩
  | c :: rest =>
    if accepts c then (runMany accepts next (offset + c.utf8Size) rest).or (next ⟨offset, c :: rest⟩)
    else next ⟨offset, c :: rest⟩

namespace Pattern

/-- A character of a kind and any number of characters of another kind. -/
def word (first others : Char → Bool) : Pattern :=
  one first ++ many others

/-- Extends a match by what a pattern matches, in the first way that `next` can do with. -/
def run {α : Type} : Pattern → (Match → Option α) → Match → Option α
  | atStart, next, m => if m.stop.offset = 0 then next m else none
  | atEnd, next, m => if m.stop.rest.isEmpty then next m else none
  | one accepts, next, m =>
    match m.stop.rest with
    | [] => none
    | c :: rest => if accepts c then next (m.moveTo ⟨m.stop.offset + c.utf8Size, rest⟩) else none
  | many accepts, next, m => runMany accepts (fun place => next (m.moveTo place)) m.stop.offset m.stop.rest
  | append p q, next, m => p.run (q.run next) m
  | either p q, next, m => (p.run next m).or (q.run next m)
  | group p, next, m => p.run (fun m' => next { m' with part := some (m.stop, m'.stop) }) m

/-- The match of a pattern from a place. -/
def matchAt? (p : Pattern) (place : Place) : Option Match :=
  p.run some (.empty place)

/-- The first match of a pattern from a place on. -/
def search (p : Pattern) (offset : Nat) : List Char → Option Match
  | [] => p.matchAt? ⟨offset, []⟩
  | c :: rest => (p.matchAt? ⟨offset, c :: rest⟩).or (p.search (offset + c.utf8Size) rest)

/-- Whether a pattern matches somewhere in a text. -/
def isMatch (p : Pattern) (text : List Char) : Bool :=
  (p.search 0 text).isSome

/-! ## Ways to match -/

/-- The ways in which a pattern extends a match. -/
def Takes : Pattern → Match → Match → Prop
  | atStart, m, m' => m.stop.offset = 0 ∧ m' = m
  | atEnd, m, m' => m.stop.rest = [] ∧ m' = m
  | one accepts, m, m' => ∃ c place, accepts c = true ∧ m.stop.Leads [c] place ∧ m' = m.moveTo place
  | many accepts, m, m' =>
    ∃ taken place, (∀ c ∈ taken, accepts c = true) ∧ m.stop.Leads taken place ∧ m' = m.moveTo place
  | append p q, m, m' => ∃ between, p.Takes m between ∧ q.Takes between m'
  | either p q, m, m' => p.Takes m m' ∨ q.Takes m m'
  | group p, m, m' => ∃ m'', p.Takes m m'' ∧ m' = { m'' with part := some (m.stop, m''.stop) }

variable {α : Type}

theorem leads_of_runMany {accepts : Char → Bool} {next : Place → Option α} {offset : Nat} {rest : List Char} {a : α}
    (h : runMany accepts next offset rest = some a) :
    ∃ taken place, (∀ c ∈ taken, accepts c = true) ∧ Place.Leads ⟨offset, rest⟩ taken place ∧
      next place = some a := by
  induction rest generalizing offset with
  | nil => exact ⟨[], _, by simp, .refl _, h⟩
  | cons c rest ih =>
    -- to give everything back is possible at every place
    have hnone : next ⟨offset, c :: rest⟩ = some a →
        ∃ taken place, (∀ d ∈ taken, accepts d = true) ∧ Place.Leads ⟨offset, c :: rest⟩ taken place ∧
          next place = some a := fun h => ⟨[], _, by simp, .refl _, h⟩
    simp only [runMany] at h
    split at h
    · rename_i hc
      rcases Option.or_eq_some_iff.1 h with hmore | ⟨-, hfewer⟩
      · obtain ⟨taken, place, htaken, hleads, hnext⟩ := ih hmore
        refine ⟨c :: taken, place, ?_, (Place.Leads.next offset c rest).trans hleads, hnext⟩
        simpa [hc] using htaken
      · exact hnone hfewer
    · exact hnone h

theorem runMany_eq_none {accepts : Char → Bool} {next : Place → Option α} {offset : Nat} {rest taken : List Char}
    {place : Place} (h : runMany accepts next offset rest = none) (htaken : ∀ c ∈ taken, accepts c = true)
    (hleads : Place.Leads ⟨offset, rest⟩ taken place) : next place = none := by
  induction taken generalizing offset rest with
  | nil =>
    have hplace : place = ⟨offset, rest⟩ := by
      obtain ⟨hrest, hoffset⟩ := hleads
      cases place
      simp_all
    subst hplace
    cases rest with
    | nil => exact h
    | cons c rest =>
      simp only [runMany] at h
      split at h
      · exact (Option.or_eq_none_iff.1 h).2
      · exact h
  | cons c taken ih =>
    obtain ⟨hrest, hoffset⟩ := hleads
    obtain rfl : rest = c :: (taken ++ place.rest) := hrest
    simp only [runMany, htaken c List.mem_cons_self, if_true] at h
    have hmore := (Option.or_eq_none_iff.1 h).1
    refine ih hmore (fun d hd => htaken d (List.mem_cons_of_mem _ hd)) ⟨rfl, ?_⟩
    rw [hoffset, byteLength_cons, Nat.add_assoc]

/-- A run takes one of the ways of its pattern. -/
theorem takes_of_run {p : Pattern} {next : Match → Option α} {m : Match} {a : α} (h : p.run next m = some a) :
    ∃ m', p.Takes m m' ∧ next m' = some a := by
  induction p generalizing next m with
  | atStart =>
    simp only [run] at h
    split at h
    · exact ⟨m, ⟨‹_›, rfl⟩, h⟩
    · cases h
  | atEnd =>
    simp only [run] at h
    split at h
    · exact ⟨m, ⟨List.isEmpty_iff.1 ‹_›, rfl⟩, h⟩
    · cases h
  | one accepts =>
    simp only [run] at h
    split at h
    · cases h
    · rename_i c rest hrest
      split at h
      · exact ⟨_, ⟨c, ⟨_, rest⟩, ‹_›, ⟨hrest, rfl⟩, rfl⟩, h⟩
      · cases h
  | many accepts =>
    obtain ⟨taken, place, htaken, hleads, hnext⟩ := leads_of_runMany h
    exact ⟨_, ⟨taken, place, htaken, hleads, rfl⟩, hnext⟩
  | append p q ihp ihq =>
    -- the rest of the run is what the first pattern is run for, so both hypotheses are used with other continuations
    obtain ⟨between, hp, hq⟩ := ihp h
    obtain ⟨m', hm', hnext⟩ := ihq hq
    exact ⟨m', ⟨between, hp, hm'⟩, hnext⟩
  | either p q ihp ihq =>
    rcases Option.or_eq_some_iff.1 h with h | ⟨-, h⟩
    · obtain ⟨m', hm', hnext⟩ := ihp h
      exact ⟨m', .inl hm', hnext⟩
    · obtain ⟨m', hm', hnext⟩ := ihq h
      exact ⟨m', .inr hm', hnext⟩
  | group p ih =>
    obtain ⟨m', hm', hnext⟩ := ih h
    exact ⟨_, ⟨m', hm', rfl⟩, hnext⟩

/-- A run fails only if none of the ways of its pattern is any good. -/
theorem run_eq_none {p : Pattern} {next : Match → Option α} {m m' : Match} (h : p.run next m = none)
    (ht : p.Takes m m') : next m' = none := by
  induction p generalizing next m m' with
  | atStart =>
    obtain ⟨hstart, rfl⟩ := ht
    simpa [run, hstart] using h
  | atEnd =>
    obtain ⟨hend, rfl⟩ := ht
    simpa [run, hend] using h
  | one accepts =>
    obtain ⟨c, place, hc, hleads, rfl⟩ := ht
    have hplace : place = ⟨m.stop.offset + c.utf8Size, place.rest⟩ := by
      rw [show m.stop.offset + c.utf8Size = place.offset from hleads.offset.symm]
    simp only [run, hleads.rest, List.singleton_append, hc, if_true] at h
    rw [hplace]
    exact h
  | many accepts =>
    obtain ⟨taken, place, htaken, hleads, rfl⟩ := ht
    exact runMany_eq_none h htaken hleads
  | append p q ihp ihq =>
    obtain ⟨between, hp, hq⟩ := ht
    exact ihq (ihp h hp) hq
  | either p q ihp ihq =>
    obtain ⟨hfirst, hsecond⟩ := Option.or_eq_none_iff.1 h
    rcases ht with ht | ht
    · exact ihp hfirst ht
    · exact ihq hsecond ht
  | group p ih =>
    obtain ⟨m'', ht, rfl⟩ := ht
    have hnext := ih h ht
    exact hnext

/-- A match never goes back in the text. -/
theorem Takes.leads {p : Pattern} {m m' : Match} (h : p.Takes m m') :
    m'.start = m.start ∧ ∃ taken, m.stop.Leads taken m'.stop := by
  induction p generalizing m m' with
  | atStart => exact ⟨by rw [h.2], [], h.2 ▸ .refl _⟩
  | atEnd => exact ⟨by rw [h.2], [], h.2 ▸ .refl _⟩
  | one accepts =>
    obtain ⟨c, place, -, hleads, rfl⟩ := h
    exact ⟨rfl, [c], hleads⟩
  | many accepts =>
    obtain ⟨taken, place, -, hleads, rfl⟩ := h
    exact ⟨rfl, taken, hleads⟩
  | append p q ihp ihq =>
    obtain ⟨between, hp, hq⟩ := h
    obtain ⟨hstart, xs, hxs⟩ := ihp hp
    obtain ⟨hstart', ys, hys⟩ := ihq hq
    exact ⟨hstart'.trans hstart, xs ++ ys, hxs.trans hys⟩
  | either p q ihp ihq => exact h.elim ihp ihq
  | group p ih =>
    obtain ⟨m'', htakes, rfl⟩ := h
    have hleads := ih htakes
    exact hleads

/-! ## Searches -/

theorem takes_of_matchAt? {p : Pattern} {place : Place} {m : Match} (h : p.matchAt? place = some m) :
    p.Takes (.empty place) m := by
  obtain ⟨m', htakes, hm'⟩ := takes_of_run h
  exact Option.some.inj hm' ▸ htakes

theorem matchAt?_eq_none_iff {p : Pattern} {place : Place} :
    p.matchAt? place = none ↔ ∀ m, ¬p.Takes (.empty place) m := by
  constructor
  · intro h m ht
    cases run_eq_none h ht
  · intro h
    cases hmatch : p.matchAt? place with
    | none => rfl
    | some m => exact absurd (takes_of_matchAt? hmatch) (h m)

/-- A search finds a match in the first place from which there is one. -/
theorem search_eq_some {p : Pattern} {offset : Nat} {rest : List Char} {m : Match}
    (h : p.search offset rest = some m) :
    p.Takes (.empty m.start) m ∧ ∃ skipped, Place.Leads ⟨offset, rest⟩ skipped m.start ∧
      ∀ xs c ys, skipped = xs ++ c :: ys →
        p.matchAt? ⟨offset + byteLength xs, c :: ys ++ m.start.rest⟩ = none := by
  have hhere : ∀ place, p.matchAt? place = some m → p.Takes (.empty m.start) m ∧ m.start = place := by
    intro place hmatch
    have htakes := takes_of_matchAt? hmatch
    have hstart : m.start = place := htakes.leads.1
    exact ⟨hstart ▸ htakes, hstart⟩
  induction rest generalizing offset with
  | nil =>
    obtain ⟨htakes, hstart⟩ := hhere _ h
    exact ⟨htakes, [], hstart ▸ .refl _, by simp⟩
  | cons c rest ih =>
    rcases Option.or_eq_some_iff.1 h with hmatch | ⟨hnone, hlater⟩
    · obtain ⟨htakes, hstart⟩ := hhere _ hmatch
      exact ⟨htakes, [], hstart ▸ .refl _, by simp⟩
    · obtain ⟨htakes, skipped, hleads, hmiss⟩ := ih hlater
      refine ⟨htakes, c :: skipped, (Place.Leads.next offset c rest).trans hleads, ?_⟩
      -- a place that was missed is this one or one behind it
      intro xs d ys hsplit
      cases xs with
      | nil =>
        obtain ⟨rfl, rfl⟩ := List.cons.inj hsplit
        have hrest : rest = skipped ++ m.start.rest := hleads.rest
        rw [hrest] at hnone
        exact hnone
      | cons x xs =>
        obtain ⟨rfl, htail⟩ := List.cons.inj hsplit
        rw [byteLength_cons, ← Nat.add_assoc]
        exact hmiss xs d ys htail

/-- A search that finds nothing has tried every place. -/
theorem search_eq_none {p : Pattern} {offset : Nat} {rest : List Char} (h : p.search offset rest = none)
    {xs ys : List Char} (hsplit : rest = xs ++ ys) : p.matchAt? ⟨offset + byteLength xs, ys⟩ = none := by
  induction rest generalizing offset xs with
  | nil =>
    obtain ⟨rfl, rfl⟩ := List.append_eq_nil_iff.1 hsplit.symm
    exact h
  | cons c rest ih =>
    obtain ⟨hhere, hlater⟩ := Option.or_eq_none_iff.1 h
    cases xs with
    | nil =>
      obtain rfl : c :: rest = ys := hsplit
      exact hhere
    | cons x xs =>
      obtain ⟨rfl, htail⟩ := List.cons.inj hsplit
      rw [byteLength_cons, ← Nat.add_assoc]
      exact ih hlater htail

/-- What is found lies in the text that is searched. -/
theorem length_search_le {p : Pattern} {offset : Nat} {rest : List Char} {m : Match}
    (h : p.search offset rest = some m) : m.start.rest.length ≤ rest.length := by
  obtain ⟨-, skipped, hleads, -⟩ := search_eq_some h
  exact hleads.length_le

end Pattern

end Sidecar.Text
