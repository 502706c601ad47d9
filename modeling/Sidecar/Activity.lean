/-!
# Activities

Something that goes on in time. An activity does something visible, sleeps, and goes on, until it is done; it
may also crash, or wait for something that never comes. Time is a number of milliseconds that only passes
while an activity sleeps, so what happens between two sleeps happens at one instant.

What an activity does can be looked at in two ways. `Activity.course` is everything that it will ever do, with
the times. `Activity.advance` stops in front of a given time, and hands back what is left to do.

Main statement: `course_bind`, by which the course of two activities in a row is the course of the first one
with that of the second one behind it.
-/

namespace Sidecar

/-- An activity that shows items of type `ι` and ends with a value of type `α`. -/
inductive Activity (ι α : Type) where
  | done (value : α)
  | emit (item : ι) (rest : Activity ι α)
  /-- Sleeps, and then goes on knowing the time. -/
  | sleep (millis : Nat) (resume : Nat → Activity ι α)
  | crash
  | hang

namespace Activity

variable {ι κ α β γ : Type}

/-- One activity after the other. -/
protected def bind : Activity ι α → (α → Activity ι β) → Activity ι β
  | done value, f => f value
  | emit item rest, f => emit item (rest.bind f)
  | sleep millis resume, f => sleep millis fun now => (resume now).bind f
  | crash, _ => crash
  | hang, _ => hang

instance : Monad (Activity ι) where
  pure := done
  bind := Activity.bind

/-- Shows an item. -/
def perform (item : ι) : Activity ι Unit :=
  emit item (done ())

/-- Changes the items that an activity shows. -/
def mapItems (f : ι → κ) : Activity ι α → Activity κ α
  | done value => done value
  | emit item rest => emit (f item) (rest.mapItems f)
  | sleep millis resume => sleep millis fun now => (resume now).mapItems f
  | crash => crash
  | hang => hang

/-- Breaks an activity off when it has not ended after so many milliseconds. An activity that ends at that
very moment is not broken off. -/
def withTimeout (limit : Nat) : Activity ι α → Activity ι (Option α)
  | done value => done (some value)
  | emit item rest => emit item (rest.withTimeout limit)
  | sleep millis resume =>
    if millis ≤ limit then sleep millis fun now => (resume now).withTimeout (limit - millis)
    else sleep limit fun _ => done none
  | crash => crash
  | hang => sleep limit fun _ => done none

/-! ## Laws -/

@[simp] theorem pure_eq_done (a : α) : (pure a : Activity ι α) = done a := rfl

@[simp] theorem bind_eq (x : Activity ι α) (f : α → Activity ι β) : x >>= f = x.bind f := rfl

@[simp] theorem done_bind (a : α) (f : α → Activity ι β) : (done a).bind f = f a := rfl

@[simp] theorem bind_done (x : Activity ι α) : x.bind done = x := by
  induction x with
  | done value => rfl
  | emit item rest ih => simp [Activity.bind, ih]
  | sleep millis resume ih => simp [Activity.bind, ih]
  | crash => rfl
  | hang => rfl

theorem bind_assoc (x : Activity ι α) (f : α → Activity ι β) (g : β → Activity ι γ) :
    (x.bind f).bind g = x.bind fun a => (f a).bind g := by
  induction x with
  | done value => rfl
  | emit item rest ih => simp [Activity.bind, ih]
  | sleep millis resume ih => simp [Activity.bind, ih]
  | crash => rfl
  | hang => rfl

instance : LawfulMonad (Activity ι) :=
  LawfulMonad.mk' (Activity ι) bind_done done_bind bind_assoc

/-! ## The course of an activity -/

/-- An item with the time at which it is seen. -/
structure Entry (ι : Type) where
  time : Nat
  item : ι
deriving DecidableEq, Repr

/-- How an activity ends. -/
inductive Ending (α : Type) where
  | finished (time : Nat) (value : α)
  | crashed (time : Nat)
  | never
deriving DecidableEq, Repr

/-- Everything that an activity shows, and how it ends. -/
structure Course (ι α : Type) where
  entries : List (Entry ι)
  ending : Ending α
deriving DecidableEq, Repr

/-- The course of an activity that begins at a time. -/
def course (now : Nat) : Activity ι α → Course ι α
  | done value => ⟨[], .finished now value⟩
  | emit item rest =>
    let c := rest.course now
    ⟨⟨now, item⟩ :: c.entries, c.ending⟩
  | sleep millis resume => (resume (now + millis)).course (now + millis)
  | crash => ⟨[], .crashed now⟩
  | hang => ⟨[], .never⟩

/-- What follows an activity that ends in a certain way. -/
def Ending.andThen (e : Ending α) (f : Nat → α → Course ι β) : Course ι β :=
  match e with
  | .finished time value => f time value
  | .crashed time => ⟨[], .crashed time⟩
  | .never => ⟨[], .never⟩

/-- The course of two activities in a row is that of the first with that of the second behind it. -/
theorem course_bind (x : Activity ι α) (f : α → Activity ι β) (now : Nat) :
    (x.bind f).course now =
      let first := x.course now
      let second := first.ending.andThen fun time value => (f value).course time
      ⟨first.entries ++ second.entries, second.ending⟩ := by
  induction x generalizing now with
  | done value => rfl
  | emit item rest ih => simp [Activity.bind, course, ih]
  | sleep millis resume ih => simp [Activity.bind, course, ih]
  | crash => rfl
  | hang => rfl

/-! ## Going on for some time -/

/-- Where an activity stands. -/
inductive Standing (ι α : Type) where
  | finished (time : Nat) (value : α)
  | crashed (time : Nat)
  | hanging
  | asleep (wake : Nat) (resume : Nat → Activity ι α)

/-- Goes on with an activity as long as it does not sleep until the limit or beyond. -/
def advance (limit now : Nat) : Activity ι α → List (Entry ι) × Standing ι α
  | done value => ([], .finished now value)
  | emit item rest =>
    let (entries, standing) := rest.advance limit now
    (⟨now, item⟩ :: entries, standing)
  | sleep millis resume =>
    let wake := now + millis
    if wake < limit then (resume wake).advance limit wake else ([], .asleep wake resume)
  | crash => ([], .crashed now)
  | hang => ([], .hanging)

/-- Goes on from where an activity stands. -/
def Standing.advance (limit : Nat) : Standing ι α → List (Entry ι) × Standing ι α
  | .asleep wake resume =>
    if wake < limit then (resume wake).advance limit wake else ([], .asleep wake resume)
  | standing => ([], standing)

end Activity

end Sidecar
