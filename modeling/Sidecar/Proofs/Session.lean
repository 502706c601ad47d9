import Sidecar.Proofs.Observation

/-!
# Sessions

The courses of sessions: of two in a row, of those that only look at the clock or at the state, and of a
question to a collaborator (`consult_course`). How the answer comes decides how the question ends.
-/

namespace Sidecar

open Activity

variable {σ α β : Type}

/-! ## Sessions in a row -/

/-- The second of two sessions begins when the first one finishes, in the state that it leaves. -/
theorem session_bind_course (x : Session σ α) (f : α → Session σ β) (s : σ) (now : Nat) :
    ((x >>= f).run s).course now =
      ((x.run s).course now).andThen fun time result => ((f result.1).run result.2).course time :=
  course_bind_eq _ _ _

/-- What follows an activity that has no part in the state goes on from the same state. -/
theorem lift_bind_course (x : Activity Event α) (f : α → Session σ β) (s : σ) (now : Nat) :
    (((liftM x : Session σ α) >>= f).run s).course now =
      (x.course now).andThen fun time a => ((f a).run s).course time := by
  have hrun : ((liftM x : Session σ α) >>= f).run s = x.bind fun a => (f a).run s := by
    show (x.bind fun a => .done (a, s)).bind _ = _
    rw [bind_assoc]
    rfl
  rw [hrun]
  exact course_bind_eq _ _ _

/-- Looking at the clock takes no time. -/
theorem clock_bind_course (f : Nat → Session σ β) (s : σ) (now : Nat) :
    ((Session.clock >>= f).run s).course now = ((f now).run s).course now := rfl

theorem pause_bind_course (millis : Nat) (f : Unit → Session σ β) (s : σ) (now : Nat) :
    ((Session.pause millis >>= f).run s).course now = ((f ()).run s).course (now + millis) := rfl

theorem modify_bind_course (g : σ → σ) (f : Unit → Session σ β) (s : σ) (now : Nat) :
    ((modify g >>= f).run s).course now = ((f ()).run (g s)).course now := rfl

theorem modifyGet_bind_course (g : σ → α × σ) (f : α → Session σ β) (s : σ) (now : Nat) :
    ((modifyGet g >>= f).run s).course now = ((f (g s).1).run (g s).2).course now := rfl

/-- A span changes the items of a session and nothing else. -/
theorem within_course (span : String) (x : Session σ α) (s : σ) (now : Nat) :
    ((Session.within span x).run s).course now = ((x.run s).course now).mapItems (.within span) :=
  course_mapItems _ _ _

/-! ## Log records -/

/-- The records that a collaborator has written are seen at once. -/
theorem reportAll_course (records : List LogRecord) (now : Nat) :
    (Event.reportAll records).course now = ⟨entriesAt now (records.map .log), .finished now ()⟩ := by
  induction records with
  | nil => rfl
  | cons r records ih =>
    have hcons : Event.reportAll (r :: records) = emit (.log r) (Event.reportAll records) := rfl
    rw [hcons, course, ih]
    rfl

/-! ## Questions -/

/-- How waiting for an answer ends. -/
def Lag.ending (lag : Lag) (now : Nat) (answer : α) : Ending α :=
  if lag.crashes then .crashed (now + lag.millis)
  else if lag.hangs then .never
  else .finished (now + lag.millis) answer

/-- If waiting for an answer finishes, the answer has come. -/
theorem Lag.of_ending_eq_finished {lag : Lag} {now time : Nat} {answer a : α}
    (h : lag.ending now answer = .finished time a) : time = now + lag.millis ∧ a = answer := by
  unfold ending at h
  split at h
  · cases h
  · split at h
    · cases h
    · cases h
      exact ⟨rfl, rfl⟩

/-- Whether there is an answer in the end. -/
def Lag.comes (lag : Lag) : Bool :=
  !lag.crashes && !lag.hangs

theorem Lag.ending_of_comes {lag : Lag} (h : lag.comes = true) (now : Nat) (answer : α) :
    lag.ending now answer = .finished (now + lag.millis) answer := by
  simp only [comes, Bool.and_eq_true, Bool.not_eq_true'] at h
  unfold ending
  rw [h.1, h.2]
  rfl

theorem Lag.ending_finishes (lag : Lag) (now : Nat) (answer : α) : (lag.ending now answer).finishes = lag.comes := by
  unfold ending comes
  cases lag.crashes <;> cases lag.hangs <;> rfl

theorem Lag.wait_course (lag : Lag) (now : Nat) : lag.wait.course now = ⟨[], lag.ending now ()⟩ := by
  unfold wait ending
  cases lag.crashes with
  | true => rfl
  | false => cases lag.hangs <;> rfl

/-- What is made of an answer at once has no influence on how it comes. -/
theorem Lag.ending_andThen (lag : Lag) (entries : List (Entry Event)) (now : Nat) {answer : α} {b : β}
    {f : Nat → α → Course Event β} (h : ∀ time, f time answer = ⟨[], .finished time b⟩) :
    (Course.mk entries (lag.ending now answer)).andThen f = ⟨entries, lag.ending now b⟩ := by
  unfold ending
  cases lag.crashes with
  | true => simp
  | false => cases lag.hangs <;> simp [h]

/-- A question is seen when it is asked, and the state of the collaborators changes then. -/
theorem consult_course (c : Collaborators σ) (call : Call) (answer : σ → α × σ) (s : σ) (now : Nat) :
    ((c.consult call answer).run s).course now =
      ⟨[⟨now, .call call⟩], (c.lag call s).ending now (answer s)⟩ := by
  have hask : (Event.ask call).course now = ⟨[⟨now, .call call⟩], .finished now ()⟩ := rfl
  have hget : ∀ f : σ → Session σ α, ((get >>= f).run s).course now = ((f s).run s).course now :=
    fun _ => rfl
  unfold Collaborators.consult
  rw [lift_bind_course, hask, Course.andThen_finished, hget, modifyGet_bind_course, lift_bind_course,
    Lag.wait_course, Lag.ending_andThen (b := answer s)]
  · rfl
  · intro time
    rfl

end Sidecar
