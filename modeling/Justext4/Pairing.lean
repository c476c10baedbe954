import Justext4.Fallible

/-!
Two computations that stop alike. A computation is paired with another one when
they fail with the same error or return values that are related; a program heeds
a verdict when it fails at once with the error that the verdict gives, and goes
on where the verdict lets it. Programs that read heed what their readings are
paired with, step by step.
-/
namespace Justext4.Pairing
open Justext4.Fallible
variable {σ ε α β γ δ : Type}

/-- Both fail with one error, or both return. -/
inductive Pairs (R : α → β → Prop) : Res ε α → Res ε β → Prop
  | ok {a : α} {b : β} (related : R a b) : Pairs R (.ok a) (.ok b)
  | err (e : ε) : Pairs R (.error (.err e)) (.error (.err e))

/-- The program fails at once with the error of the verdict, or it is let
    through and ends as it should. -/
inductive Heeds (done : Ended σ ε α → Prop) (s : σ) : Res ε Unit → Ended σ ε α → Prop
  | refused (e : ε) : Heeds done s (.error (.err e)) (.err e s)
  | through {r : Ended σ ε α} (ends : done r) : Heeds done s (.ok ()) r

section
variable {R R' : α → β → Prop} {S : γ → δ → Prop} {x : Res ε α} {y : Res ε β} {f : α → Res ε γ} {h : β → Res ε δ}

theorem pairs_ensure {c c' : Bool} (same : c = c') (e : ε) : Pairs (fun _ _ => c' = true) (ensure c e) (ensure c' e) := by
  subst same
  cases holds : c with
  | true => exact .ok rfl
  | false => exact .err e
/-- What does not panic is paired with itself. -/
theorem pairs_self {x : Res ε α} (quiet : NoPanic x) : Pairs (fun a b => a = b ∧ x = .ok a) x x := by
  cases x with
  | ok a => exact .ok ⟨rfl, rfl⟩
  | error fault =>
    cases fault with
    | err e => exact .err e
    | panic => exact absurd rfl quiet
theorem Pairs.bind (first : Pairs R x y) (later : ∀ a b, R a b → Pairs S (f a) (h b)) : Pairs S (x >>= f) (y >>= h) := by
  cases first with
  | ok related => exact later _ _ related
  | err e => exact .err e
theorem Pairs.mono (pairs : Pairs R x y) (weaker : ∀ a b, R a b → R' a b) : Pairs R' x y := by
  cases pairs with
  | ok related => exact .ok (weaker _ _ related)
  | err e => exact .err e
theorem Pairs.known (pairs : Pairs R x y) : Pairs (fun a b => R a b ∧ x = .ok a) x y := by
  cases pairs with
  | ok related => exact .ok ⟨related, rfl⟩
  | err e => exact .err e
/-- The values of a pair are a function of one another where the relation is. -/
theorem Pairs.map_eq {value : β → α} (pairs : Pairs R x y) (known : ∀ a b, R a b → a = value b) : x = value <$> y := by
  cases pairs with
  | ok related => rw [known _ _ related]; rfl
  | err e => rfl
end

section
variable {R : α → β → Prop} {done : Ended σ ε γ → Prop} {s : σ} {y : Res ε β} {judge : β → Res ε Unit}
  {next : α → Prog σ ε γ}

/-- A program heeds a verdict when what it reads first is paired with what the
    verdict asks first. -/
theorem heeds_reads {f : σ → Res ε α} (first : Pairs R (f s) y)
    (later : ∀ a b, R a b → Heeds done s (judge b) ((next a).run s)) :
    Heeds done s (y >>= judge) ((reads f >>= next).run s) := by
  rw [run_bind, run_reads]
  generalize f s = x at first
  cases first with
  | ok related => exact later _ _ related
  | err e => exact .refused e
theorem heeds_lift {x : Res ε α} (first : Pairs R x y) (later : ∀ a b, R a b → Heeds done s (judge b) ((next a).run s)) :
    Heeds done s (y >>= judge) ((lift x >>= next).run s) := heeds_reads first later
/-- What is read without a check on the other side. -/
theorem heeds_read {f : σ → Res ε α} {a : α} {verdict : Res ε Unit} (value : f s = .ok a)
    (later : Heeds done s verdict ((next a).run s)) : Heeds done s verdict ((reads f >>= next).run s) := by
  rw [run_bind, run_reads, value]
  exact later
/-- The last check of a verdict. -/
theorem heeds_last {f : σ → Res ε α} {verdict : Res ε Unit} {next : α → Prog σ ε γ}
    (last : Pairs (fun a _ => done ((next a).run s)) (f s) verdict) : Heeds done s verdict ((reads f >>= next).run s) := by
  rw [run_bind, run_reads]
  generalize f s = x at last
  cases last with
  | ok ends => exact .through ends
  | err e => exact .refused e
/-- A program goes on after another one. -/
theorem Heeds.andThen {done' : Ended σ ε δ → Prop} {verdict : Res ε Unit} {r : Ended σ ε γ} {next : γ → σ → Ended σ ε δ}
    (heeds : Heeds done s verdict r) (ends : done r → done' (r.andThen next)) : Heeds done' s verdict (r.andThen next) := by
  cases heeds with
  | refused e => exact .refused e
  | through before => exact .through (ends before)
end

end Justext4.Pairing
