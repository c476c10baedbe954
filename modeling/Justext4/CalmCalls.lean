import Justext4.Fallible

/-!
Calls that cannot panic. In the states of an invariant a calm call returns
something that is known, or fails, and the invariant holds again either way; a
call made of calm calls is calm.
-/
namespace Justext4.CalmCalls
open Justext4.Fallible
variable {σ ε α β : Type}

/-- The call has returned something known or has failed, with the invariant. -/
def Answers (kept : σ → Prop) (known : α → Prop) : Ended σ ε α → Prop
  | .ok a s => kept s ∧ known a
  | .err _ s => kept s
  | .panic => False

structure Calm (kept : σ → Prop) (known : α → Prop) (call : Prog σ ε α) : Prop where
  ends : ∀ s, kept s → Answers kept known (call.run s)

section
variable {kept : σ → Prop} {known : α → Prop} {later : β → Prop} {f : σ → Res ε α} {s : σ}

theorem calm_pure {a : α} (value : known a) : Calm kept known (pure a : Prog σ ε α) := ⟨fun _ before => ⟨before, value⟩⟩
theorem calm_bind {x : Prog σ ε α} {next : α → Prog σ ε β} (first : Calm kept known x)
    (second : ∀ a, known a → Calm kept later (next a)) : Calm kept later (x >>= next) := by
  constructor
  intro s before
  have ends := first.ends s before
  rw [run_bind]
  cases ran : x.run s with
  | ok a s' =>
    rw [ran] at ends
    exact (second a ends.2).ends s' ends.1
  | err e s' =>
    rw [ran] at ends
    exact ends
  | panic =>
    rw [ran] at ends
    exact ends
theorem calm_reads (quiet : ∀ s, kept s → NoPanic (f s)) (gives : ∀ s a, kept s → f s = .ok a → known a) :
    Calm kept known (reads f) := by
  constructor
  intro s before
  rw [run_reads]
  cases value : f s with
  | ok a => exact ⟨before, gives s a before value⟩
  | error fault =>
    cases fault with
    | err e => exact before
    | panic => exact absurd value (quiet s before)
theorem calm_lift {r : Res ε α} (quiet : NoPanic r) (gives : ∀ a, r = .ok a → known a) :
    Calm kept known (lift r : Prog σ ε α) := calm_reads (fun _ _ => quiet) fun _ a _ value => gives a value
theorem calm_change {f : σ → σ} (keeps : ∀ s, kept s → kept (f s)) :
    Calm kept (fun _ => True) (change f : Prog σ ε Unit) := ⟨fun s before => ⟨keeps s before, trivial⟩⟩
end

end Justext4.CalmCalls
