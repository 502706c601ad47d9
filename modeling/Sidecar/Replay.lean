import Sidecar.Collaborators

/-!
# Replaying what has been seen

The state of the collaborators of a step at a given time. It is worked out from the calls that have been seen
until then, so it is also known of a step that is still running.
-/

namespace Sidecar

/-- The time at which the process ends that has been started last. -/
def closingTime? : List (Activity.Entry Event) → Option Nat
  | [] => none
  | ⟨time, .call .exited⟩ :: _ => some time
  | ⟨time, .call .kill⟩ :: _ => some time
  | _ :: rest => closingTime? rest

/-- The state of the collaborators at a time, after the calls that have been seen. -/
def Collaborators.replay {σ : Type} (c : Collaborators σ) (time : Nat) :
    List (Activity.Entry Event) → σ → σ
  | [], s => s
  | ⟨began, .call (.start invocation)⟩ :: rest, s =>
    let (reply, s) := c.start invocation s
    match reply with
    | .started process =>
      c.replay time rest (process.effect ((closingTime? rest).getD time - began) s)
    | _ => c.replay time rest s
  | ⟨_, .call (.lookup stepId image secret)⟩ :: rest, s =>
    c.replay time rest (c.lookup stepId image secret s).2
  | ⟨_, .call (.collect stepId declarations)⟩ :: rest, s =>
    c.replay time rest (c.collect declarations stepId s).2
  | _ :: rest, s => c.replay time rest s

end Sidecar
