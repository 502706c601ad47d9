import Sidecar.Activity

/-!
# Courses

What can be said of the course of any activity, before anything is said about steps. An activity that is put
together from others has a course that is put together from theirs, and time never runs backwards in it.

The main statements are about going on with an activity up to a limit: `advance_entries` (what is seen until
then is the course, cut at the limit), `advance_finished_iff` and `advance_crashed_iff` (it ends in time exactly
if its course does), and `Standing.advance_entries` (going on later shows what the course has left).
-/

namespace Sidecar.Activity

variable {ι κ α β : Type}

/-! ## Entries -/

/-- The entries of items that are seen at one time. -/
def entriesAt (time : Nat) (items : List ι) : List (Entry ι) :=
  items.map fun item => ⟨time, item⟩

@[simp] theorem entriesAt_nil (time : Nat) : entriesAt time ([] : List ι) = [] := rfl

@[simp] theorem entriesAt_cons (time : Nat) (item : ι) (items : List ι) :
    entriesAt time (item :: items) = ⟨time, item⟩ :: entriesAt time items := rfl

@[simp] theorem entriesAt_append (time : Nat) (first second : List ι) :
    entriesAt time (first ++ second) = entriesAt time first ++ entriesAt time second := by
  simp [entriesAt]

/-! ## Endings -/

/-- The time of an ending, if there is one. -/
def Ending.time? : Ending α → Option Nat
  | .finished time _ => some time
  | .crashed time => some time
  | .never => none

/-- Whether an ending is one with a value. -/
def Ending.finishes : Ending α → Bool
  | .finished .. => true
  | .crashed _ => false
  | .never => false

theorem Ending.finished_or (e : Ending α) :
    (∃ time value, e = .finished time value) ∨ e.finishes = false := by
  cases e with
  | finished time value => exact .inl ⟨time, value, rfl⟩
  | crashed time => exact .inr rfl
  | never => exact .inr rfl

theorem Ending.finishes_iff {e : Ending α} : e.finishes = true ↔ ∃ time value, e = .finished time value := by
  cases e <;> simp [finishes]

/-- The ending of two activities in a row, given what the second one makes of the time and the value with
which the first one finishes. -/
def Ending.bind (e : Ending α) (f : Nat → α → Ending β) : Ending β :=
  match e with
  | .finished time value => f time value
  | .crashed time => .crashed time
  | .never => .never

@[simp] theorem Ending.finished_bind (time : Nat) (value : α) (f : Nat → α → Ending β) :
    (Ending.finished time value).bind f = f time value := rfl

@[simp] theorem Ending.crashed_bind (time : Nat) (f : Nat → α → Ending β) :
    (Ending.crashed time : Ending α).bind f = .crashed time := rfl

@[simp] theorem Ending.never_bind (f : Nat → α → Ending β) :
    (Ending.never : Ending α).bind f = .never := rfl

/-! ## Courses in a row -/

namespace Course

/-- A course with another one behind it, which begins when the first one finishes. -/
def andThen (c : Course ι α) (f : Nat → α → Course ι β) : Course ι β :=
  ⟨c.entries ++ (c.ending.andThen f).entries, (c.ending.andThen f).ending⟩

theorem andThen_ending (c : Course ι α) (f : Nat → α → Course ι β) :
    (c.andThen f).ending = c.ending.bind fun time value => (f time value).ending := by
  obtain ⟨entries, ending⟩ := c
  cases ending with
  | finished time value => rfl
  | crashed time => rfl
  | never => rfl

@[simp] theorem andThen_finished (entries : List (Entry ι)) (time : Nat) (value : α)
    (f : Nat → α → Course ι β) :
    (Course.mk entries (.finished time value)).andThen f =
      ⟨entries ++ (f time value).entries, (f time value).ending⟩ := rfl

@[simp] theorem andThen_crashed (entries : List (Entry ι)) (time : Nat) (f : Nat → α → Course ι β) :
    (Course.mk entries (.crashed time) : Course ι α).andThen f = ⟨entries, .crashed time⟩ := by
  simp [andThen, Ending.andThen]

@[simp] theorem andThen_never (entries : List (Entry ι)) (f : Nat → α → Course ι β) :
    (Course.mk entries .never : Course ι α).andThen f = ⟨entries, .never⟩ := by
  simp [andThen, Ending.andThen]

theorem andThen_of_finished {c : Course ι α} {time : Nat} {value : α} (h : c.ending = .finished time value)
    (f : Nat → α → Course ι β) :
    c.andThen f = ⟨c.entries ++ (f time value).entries, (f time value).ending⟩ := by
  obtain ⟨entries, ending⟩ := c
  subst h
  rfl

/-- Nothing follows a course that does not finish. -/
theorem andThen_of_not_finishes {c : Course ι α} (h : c.ending.finishes = false)
    (f : Nat → α → Course ι β) :
    (c.andThen f).entries = c.entries ∧ (c.andThen f).ending.finishes = false := by
  obtain ⟨entries, ending⟩ := c
  cases ending with
  | finished time value => simp [Ending.finishes] at h
  | crashed time => simp [Ending.finishes]
  | never => simp [Ending.finishes]

/-- Two courses in a row finish only if the first one does, and the second one after it. -/
theorem andThen_eq_finished {c : Course ι α} {f : Nat → α → Course ι β} {time : Nat} {value : β}
    (h : (c.andThen f).ending = .finished time value) :
    ∃ first a, c.ending = .finished first a ∧ (f first a).ending = .finished time value ∧
      (c.andThen f).entries = c.entries ++ (f first a).entries := by
  obtain ⟨entries, ending⟩ := c
  cases ending with
  | finished first a => exact ⟨first, a, rfl, h, rfl⟩
  | crashed first => simp at h
  | never => simp at h

theorem andThen_finishes {c : Course ι α} {f : Nat → α → Course ι β} :
    (c.andThen f).ending.finishes = true ↔
      ∃ time value, c.ending = .finished time value ∧ (f time value).ending.finishes = true := by
  obtain ⟨entries, ending⟩ := c
  cases ending with
  | finished time value =>
    constructor
    · intro h
      exact ⟨time, value, rfl, h⟩
    · rintro ⟨_, _, ⟨⟩, h⟩
      exact h
  | crashed time => simp [Ending.finishes]
  | never => simp [Ending.finishes]

theorem andThen_congr {c : Course ι α} {f g : Nat → α → Course ι β}
    (h : ∀ time value, f time value = g time value) : c.andThen f = c.andThen g := by
  have hfg : f = g := funext fun time => funext (h time)
  rw [hfg]

/-- What shows nothing changes nothing but the ending. -/
theorem andThen_ending_only (c : Course ι α) (e : Nat → α → Ending β) :
    (c.andThen fun time value => ⟨[], e time value⟩) = ⟨c.entries, c.ending.bind e⟩ := by
  obtain ⟨entries, ending⟩ := c
  cases ending with
  | finished time value => rw [andThen_finished, List.append_nil, Ending.finished_bind]
  | crashed time => rw [andThen_crashed, Ending.crashed_bind]
  | never => rw [andThen_never, Ending.never_bind]

/-- What is seen before a course has no influence on what follows it. -/
theorem append_andThen (entries : List (Entry ι)) (c : Course ι α) (f : Nat → α → Course ι β) :
    (Course.mk (entries ++ c.entries) c.ending).andThen f =
      ⟨entries ++ (c.andThen f).entries, (c.andThen f).ending⟩ := by
  simp [andThen]

theorem andThen_assoc {γ : Type} (c : Course ι α) (f : Nat → α → Course ι β)
    (g : Nat → β → Course ι γ) :
    (c.andThen f).andThen g = c.andThen fun time value => (f time value).andThen g := by
  obtain ⟨entries, ending⟩ := c
  cases ending with
  | finished time value => exact append_andThen entries (f time value) g
  | crashed time => simp
  | never => simp

end Course

/-! ## Kinds of items -/

namespace Course

/-- All items of a course are of some kind. -/
def Shows (kind : ι → Prop) (c : Course ι α) : Prop :=
  ∀ e ∈ c.entries, kind e.item

variable {kind : ι → Prop}

theorem shows_entriesAt {items : List ι} (h : ∀ item ∈ items, kind item) (time : Nat) (ending : Ending α) :
    Shows kind ⟨entriesAt time items, ending⟩ := by
  intro e he
  obtain ⟨item, hitem, rfl⟩ := List.mem_map.1 he
  exact h item hitem

/-- Only what follows the actual ending of a course is seen behind it. -/
theorem Shows.andThen_of_ending {c : Course ι α} {f : Nat → α → Course ι β} (hc : c.Shows kind)
    (hf : ∀ time value, c.ending = .finished time value → (f time value).Shows kind) : (c.andThen f).Shows kind := by
  obtain ⟨entries, ending⟩ := c
  cases ending with
  | finished time value =>
    intro e he
    rcases List.mem_append.1 he with he | he
    · exact hc e he
    · exact hf time value rfl e he
  | crashed time =>
    rw [andThen_crashed]
    exact hc
  | never =>
    rw [andThen_never]
    exact hc

theorem Shows.andThen {c : Course ι α} {f : Nat → α → Course ι β} (hc : c.Shows kind)
    (hf : ∀ time value, (f time value).Shows kind) : (c.andThen f).Shows kind :=
  hc.andThen_of_ending fun time value _ => hf time value

end Course

/-- The entries whose items are of a sort. -/
def only (sort : ι → Bool) (entries : List (Entry ι)) : List (Entry ι) :=
  entries.filter fun e => sort e.item

section

variable {sort : ι → Bool}

@[simp] theorem only_append (first second : List (Entry ι)) :
    only sort (first ++ second) = only sort first ++ only sort second :=
  List.filter_append _ _

theorem only_eq_self {entries : List (Entry ι)} (h : ∀ e ∈ entries, sort e.item = true) : only sort entries = entries :=
  List.filter_eq_self.2 h

theorem only_of_shows {c : Course ι α} (h : c.Shows fun item => sort item = false) : only sort c.entries = [] := by
  unfold only
  rw [List.filter_eq_nil_iff]
  intro e he
  simp [h e he]

theorem only_entriesAt {items : List ι} (h : ∀ item ∈ items, sort item = false) (time : Nat) :
    only sort (entriesAt time items) = [] :=
  only_of_shows (Course.shows_entriesAt h time (.never : Ending Unit))

/-- What is of a narrower sort is found among what is of a wider one. -/
theorem only_only {narrow : ι → Bool} (h : ∀ item, narrow item = true → sort item = true) (entries : List (Entry ι)) :
    only narrow (only sort entries) = only narrow entries := by
  unfold only
  rw [List.filter_filter]
  apply List.filter_congr
  intro e _
  cases hnarrow : narrow e.item with
  | false => rfl
  | true => simp [h _ hnarrow]

/-- What is of a sort among parts is what is of this sort in each part. -/
theorem only_flatMap {κ : Type} (parts : List κ) (f : κ → List (Entry ι)) :
    only sort (parts.flatMap f) = parts.flatMap fun part => only sort (f part) :=
  List.filter_flatMap

/-- What follows without anything of a sort has no influence on what is seen of it. -/
theorem only_andThen (c : Course ι α) {f : Nat → α → Course ι β}
    (hf : ∀ time value, (f time value).Shows fun item => sort item = false) :
    only sort (c.andThen f).entries = only sort c.entries := by
  obtain ⟨entries, ending⟩ := c
  cases ending with
  | finished time value => rw [Course.andThen_finished, only_append, only_of_shows (hf _ _), List.append_nil]
  | crashed time => rw [Course.andThen_crashed]
  | never => rw [Course.andThen_never]

end

namespace Course

/-! ## Courses that agree -/

/-- Two courses that show the same at the same times, and end alike. Their values, if there are any, are
related. -/
inductive Agree (related : α → β → Prop) : Course ι α → Course ι β → Prop
  | finished (entries : List (Entry ι)) (time : Nat) {a : α} {b : β} (h : related a b) :
    Agree related ⟨entries, .finished time a⟩ ⟨entries, .finished time b⟩
  | crashed (entries : List (Entry ι)) (time : Nat) :
    Agree related ⟨entries, .crashed time⟩ ⟨entries, .crashed time⟩
  | never (entries : List (Entry ι)) : Agree related ⟨entries, .never⟩ ⟨entries, .never⟩

section

variable {γ : Type} {related : β → γ → Prop}

/-- What has been seen before does not keep two courses from agreeing. -/
theorem Agree.append (entries : List (Entry ι)) {c : Course ι β} {d : Course ι γ} (h : Agree related c d) :
    Agree related ⟨entries ++ c.entries, c.ending⟩ ⟨entries ++ d.entries, d.ending⟩ := by
  cases h with
  | finished rest time h => exact .finished _ time h
  | crashed rest time => exact .crashed _ time
  | never rest => exact .never _

/-- Courses that begin with the same one agree if what follows it does. -/
theorem agree_andThen (c : Course ι α) {f : Nat → α → Course ι β} {g : Nat → α → Course ι γ}
    (h : ∀ time value, Agree related (f time value) (g time value)) :
    Agree related (c.andThen f) (c.andThen g) := by
  obtain ⟨entries, ending⟩ := c
  cases ending with
  | finished time value => exact (h time value).append entries
  | crashed time =>
    rw [andThen_crashed, andThen_crashed]
    exact .crashed entries time
  | never =>
    rw [andThen_never, andThen_never]
    exact .never entries

end

end Course

/-- The second of two activities begins when the first one finishes. -/
theorem course_bind_eq (x : Activity ι α) (f : α → Activity ι β) (now : Nat) :
    (x.bind f).course now = (x.course now).andThen fun time value => (f value).course time :=
  course_bind x f now

/-! ## Changed items -/

/-- A course whose items are changed. -/
def Course.mapItems (f : ι → κ) (c : Course ι α) : Course κ α :=
  ⟨c.entries.map fun e => ⟨e.time, f e.item⟩, c.ending⟩

/-- A change that no sort notices can be made before or after looking at the sort. -/
theorem only_mapItems {f : ι → ι} {sort : ι → Bool} (h : ∀ item, sort (f item) = sort item) (c : Course ι α) :
    only sort (c.mapItems f).entries = (only sort c.entries).map fun e => ⟨e.time, f e.item⟩ := by
  unfold only Course.mapItems
  rw [List.filter_map]
  congr 1
  apply List.filter_congr
  intro e _
  exact h e.item

/-- Changing the items that an activity shows changes nothing but the items of its course. -/
theorem course_mapItems (f : ι → κ) (x : Activity ι α) (now : Nat) :
    (x.mapItems f).course now = (x.course now).mapItems f := by
  induction x generalizing now with
  | done value => rfl
  | emit item rest ih => simp [Activity.mapItems, course, ih, Course.mapItems]
  | sleep millis resume ih => exact ih (now + millis) (now + millis)
  | crash => rfl
  | hang => rfl

/-! ## Time -/

/-- In a course that begins at a time, time never runs backwards. -/
structure Course.Ordered (now : Nat) (c : Course ι α) : Prop where
  notBefore : ∀ e ∈ c.entries, now ≤ e.time
  sorted : c.entries.Pairwise fun a b => a.time ≤ b.time
  endsNotBefore : ∀ time ∈ c.ending.time?, now ≤ time
  endsLast : ∀ time ∈ c.ending.time?, ∀ e ∈ c.entries, e.time ≤ time

/-- A course that begins later is in order from an earlier time on. -/
theorem Course.Ordered.mono {now later : Nat} {c : Course ι α} (h : c.Ordered later)
    (hle : now ≤ later) : c.Ordered now where
  notBefore e he := Nat.le_trans hle (h.notBefore e he)
  sorted := h.sorted
  endsNotBefore time ht := Nat.le_trans hle (h.endsNotBefore time ht)
  endsLast := h.endsLast

theorem course_ordered (x : Activity ι α) (now : Nat) : (x.course now).Ordered now := by
  induction x generalizing now with
  | done value =>
    exact ⟨by simp [course], by simp [course], by simp [course, Ending.time?], by simp [course]⟩
  | emit item rest ih =>
    have h := ih now
    refine ⟨?_, ?_, h.endsNotBefore, ?_⟩
    · intro e he
      rcases List.mem_cons.1 he with rfl | he
      · exact Nat.le_refl now
      · exact h.notBefore e he
    · exact List.pairwise_cons.2 ⟨h.notBefore, h.sorted⟩
    · intro time ht e he
      rcases List.mem_cons.1 he with rfl | he
      · exact h.endsNotBefore time ht
      · exact h.endsLast time ht e he
  | sleep millis resume ih => exact (ih (now + millis) (now + millis)).mono (Nat.le_add_right _ _)
  | crash =>
    exact ⟨by simp [course], by simp [course], by simp [course, Ending.time?], by simp [course]⟩
  | hang =>
    exact ⟨by simp [course], by simp [course], by simp [course, Ending.time?], by simp [course]⟩

/-! ## Going on up to a limit -/

/-- The entries that are seen before a time. -/
def entriesBefore (time : Nat) (entries : List (Entry ι)) : List (Entry ι) :=
  entries.filter fun e => e.time < time

@[simp] theorem entriesBefore_append (time : Nat) (first second : List (Entry ι)) :
    entriesBefore time (first ++ second) = entriesBefore time first ++ entriesBefore time second :=
  List.filter_append _ _

/-- The entries of a sort before a time can be picked out in either order. -/
theorem only_entriesBefore (sort : ι → Bool) (time : Nat) (entries : List (Entry ι)) :
    only sort (entriesBefore time entries) = entriesBefore time (only sort entries) := by
  unfold only entriesBefore
  rw [List.filter_filter, List.filter_filter]
  apply List.filter_congr
  intro e _
  exact Bool.and_comm _ _

theorem entriesBefore_eq_self {time : Nat} {entries : List (Entry ι)}
    (h : ∀ e ∈ entries, e.time < time) : entriesBefore time entries = entries := by
  rw [entriesBefore, List.filter_eq_self]
  intro e he
  exact decide_eq_true (h e he)

theorem entriesBefore_eq_nil {time : Nat} {entries : List (Entry ι)}
    (h : ∀ e ∈ entries, time ≤ e.time) : entriesBefore time entries = [] := by
  rw [entriesBefore, List.filter_eq_nil_iff]
  intro e he
  have hle := h e he
  simpa using hle

/-- The entries before an earlier time are among those before a later one. -/
theorem entriesBefore_entriesBefore {earlier later : Nat} (h : earlier ≤ later)
    (entries : List (Entry ι)) :
    entriesBefore earlier (entriesBefore later entries) = entriesBefore earlier entries := by
  rw [entriesBefore, entriesBefore, List.filter_filter, entriesBefore]
  apply List.filter_congr
  intro e _
  simp only [Bool.and_eq_left_iff_imp, decide_eq_true_eq]
  omega

/-- The course that an activity still has before it where it stands. -/
def Standing.course : Standing ι α → Course ι α
  | .finished time value => ⟨[], .finished time value⟩
  | .crashed time => ⟨[], .crashed time⟩
  | .hanging => ⟨[], .never⟩
  | .asleep wake resume => (resume wake).course wake

/-- What is seen up to a limit and what is left after it make up the course. -/
theorem course_eq_advance (x : Activity ι α) (limit now : Nat) :
    x.course now =
      ⟨(x.advance limit now).1 ++ (x.advance limit now).2.course.entries,
        (x.advance limit now).2.course.ending⟩ := by
  induction x generalizing now with
  | done value => rfl
  | emit item rest ih =>
    have h := ih now
    simp only [course, advance]
    rw [h]
    rfl
  | sleep millis resume ih =>
    simp only [course, advance]
    split
    · exact ih (now + millis) (now + millis)
    · rfl
  | crash => rfl
  | hang => rfl

/-- Where an activity stands that has gone on up to a limit: if it has ended, then before the limit, and if it
sleeps, then at least until the limit. -/
def Standing.Respects (limit : Nat) : Standing ι α → Prop
  | .finished time _ => time < limit
  | .crashed time => time < limit
  | .hanging => True
  | .asleep wake _ => limit ≤ wake

theorem advance_respects (x : Activity ι α) {limit now : Nat} (h : now < limit) :
    (x.advance limit now).2.Respects limit := by
  induction x generalizing now with
  | done value => exact h
  | emit item rest ih => exact ih h
  | sleep millis resume ih =>
    simp only [advance]
    split
    · rename_i hwake
      exact ih (now + millis) hwake
    · rename_i hwake
      exact Nat.not_lt.1 hwake
  | crash => exact h
  | hang => trivial

/-- What is left from where an activity stands is not seen before the limit. -/
theorem Standing.Respects.entries_not_before {limit : Nat} {standing : Standing ι α}
    (h : standing.Respects limit) : ∀ e ∈ standing.course.entries, limit ≤ e.time := by
  intro e he
  cases standing with
  | finished time value => simp [Standing.course] at he
  | crashed time => simp [Standing.course] at he
  | hanging => simp [Standing.course] at he
  | asleep wake resume => exact Nat.le_trans h ((course_ordered (resume wake) wake).notBefore e he)

/-- An activity that has gone on up to a limit shows nothing at the limit or after it. -/
theorem advance_entries_before (x : Activity ι α) {limit now : Nat} (h : now < limit) :
    ∀ e ∈ (x.advance limit now).1, e.time < limit := by
  induction x generalizing now with
  | done value => simp [advance]
  | emit item rest ih =>
    intro e he
    rcases List.mem_cons.1 he with rfl | he
    · exact h
    · exact ih h e he
  | sleep millis resume ih =>
    simp only [advance]
    split
    · rename_i hwake
      exact ih (now + millis) hwake
    · simp
  | crash => simp [advance]
  | hang => simp [advance]

/-- What an activity shows up to a limit is its course, cut at the limit. -/
theorem advance_entries (x : Activity ι α) {limit now : Nat} (h : now < limit) :
    (x.advance limit now).1 = entriesBefore limit (x.course now).entries := by
  have hseen := entriesBefore_eq_self (advance_entries_before x h)
  have hleft := entriesBefore_eq_nil (advance_respects x h).entries_not_before
  rw [course_eq_advance x limit now, entriesBefore_append, hseen, hleft, List.append_nil]

/-- Going on from where an activity stands shows what its course has left, cut at the new limit. -/
theorem Standing.advance_entries (standing : Standing ι α) (limit : Nat) :
    (standing.advance limit).1 = entriesBefore limit standing.course.entries := by
  cases standing with
  | finished time value => rfl
  | crashed time => rfl
  | hanging => rfl
  | asleep wake resume =>
    simp only [Standing.advance]
    split
    · rename_i hwake
      exact Activity.advance_entries (resume wake) hwake
    · rename_i hwake
      have hlate := (course_ordered (resume wake) wake).notBefore
      symm
      apply entriesBefore_eq_nil
      intro e he
      exact Nat.le_trans (Nat.not_lt.1 hwake) (hlate e he)

/-! ## Ending in time -/

/-- Whether an ending comes before a limit. -/
def Ending.Before (limit : Nat) (e : Ending α) : Prop :=
  ∃ time ∈ e.time?, time < limit

@[simp] theorem Ending.finished_before {limit time : Nat} {value : α} :
    (Ending.finished time value).Before limit ↔ time < limit := by
  simp [Before, time?]

@[simp] theorem Ending.crashed_before {limit time : Nat} :
    (Ending.crashed time : Ending α).Before limit ↔ time < limit := by
  simp [Before, time?]

@[simp] theorem Ending.not_never_before {limit : Nat} : ¬(Ending.never : Ending α).Before limit := by
  simp [Before, time?]

/-- An activity that sleeps beyond the limit does not end before it. -/
theorem Standing.Respects.not_before {limit wake : Nat} {resume : Nat → Activity ι α}
    (h : (Standing.asleep wake resume).Respects limit) :
    ¬(Standing.asleep wake resume).course.ending.Before limit := by
  rintro ⟨time, htime, hlt⟩
  have hwake := (course_ordered (resume wake) wake).endsNotBefore time htime
  have hlimit : limit ≤ wake := h
  omega

/-- Where an activity stands for good. -/
def Ending.standing : Ending α → Standing ι α
  | .finished time value => .finished time value
  | .crashed time => .crashed time
  | .never => .hanging

/-- An activity that ends before the limit stands at its ending there. -/
theorem advance_of_before (x : Activity ι α) {limit now : Nat} (h : now < limit)
    (hbefore : (x.course now).ending.Before limit) :
    (x.advance limit now).2 = (x.course now).ending.standing := by
  have hrespects := advance_respects x h
  rw [course_eq_advance x limit now] at hbefore ⊢
  dsimp only at hbefore ⊢
  cases hs : (x.advance limit now).2 with
  | finished time value => rfl
  | crashed time => rfl
  | hanging => rfl
  | asleep wake resume =>
    -- it would end when it wakes up, or later, and that is too late
    rw [hs] at hbefore hrespects
    exact absurd hbefore hrespects.not_before

theorem advance_finished_iff (x : Activity ι α) {limit now : Nat} (h : now < limit) {time : Nat}
    {value : α} :
    (x.advance limit now).2 = .finished time value ↔
      (x.course now).ending = .finished time value ∧ time < limit := by
  constructor
  · intro hfinished
    have hrespects := advance_respects x h
    rw [course_eq_advance x limit now]
    rw [hfinished] at hrespects ⊢
    exact ⟨rfl, hrespects⟩
  · rintro ⟨hending, hlt⟩
    rw [advance_of_before x h (by simpa [hending] using hlt), hending]
    rfl

theorem advance_crashed_iff (x : Activity ι α) {limit now : Nat} (h : now < limit) {time : Nat} :
    (x.advance limit now).2 = .crashed time ↔
      (x.course now).ending = .crashed time ∧ time < limit := by
  constructor
  · intro hcrashed
    have hrespects := advance_respects x h
    rw [course_eq_advance x limit now]
    rw [hcrashed] at hrespects ⊢
    exact ⟨rfl, hrespects⟩
  · rintro ⟨hending, hlt⟩
    rw [advance_of_before x h (by simpa [hending] using hlt), hending]
    rfl

/-- Going on from where an activity stands ends it in time exactly if its course does. -/
theorem Standing.advance_finished_iff {wake limit time : Nat} {resume : Nat → Activity ι α} {value : α} :
    ((Standing.asleep wake resume).advance limit).2 = .finished time value ↔
      ((resume wake).course wake).ending = .finished time value ∧ time < limit := by
  simp only [Standing.advance]
  split
  · rename_i hwake
    exact Activity.advance_finished_iff (resume wake) hwake
  · rename_i hwake
    constructor
    · intro h
      cases h
    · rintro ⟨hending, hlt⟩
      have htime := (course_ordered (resume wake) wake).endsNotBefore time (by simp [hending, Ending.time?])
      omega

end Sidecar.Activity
