import Justext4.Fallible

/-!
Two runs of one program. They end in the same way when what the program reads
is the same in both states; the states themselves stay related, by one relation
where the program returns and by another where it fails, so that the relation
may grow closer on the way, as writes go to both.
-/
namespace Justext4.TwoRuns
open Justext4 Justext4.Fallible
variable {σ ε α β : Type} {R R' E E' : σ → σ → Prop} {s t : σ}

/-- Both runs end in the same way, and in related states. -/
inductive Same (R E : σ → σ → Prop) : Ended σ ε α → Ended σ ε α → Prop
  | ok (a : α) {s t : σ} (related : R s t) : Same R E (.ok a s) (.ok a t)
  | err (e : ε) {s t : σ} (related : E s t) : Same R E (.err e s) (.err e t)
  | panic : Same R E .panic .panic

theorem Same.mono {r r' : Ended σ ε α} (same : Same R E r r') (value : ∀ s t, R s t → R' s t)
    (error : ∀ s t, E s t → E' s t) : Same R' E' r r' := by
  cases same with
  | ok a related => exact .ok a (value _ _ related)
  | err e related => exact .err e (error _ _ related)
  | panic => exact .panic
theorem Same.ok_run {r r' : Ended σ ε α} {a : α} (same : Same R E r r') (ran : r = .ok a s) :
    ∃ t, r' = .ok a t ∧ R s t := by
  subst ran
  cases same with
  | ok _ related => exact ⟨_, rfl, related⟩

theorem same_pure (related : R s t) (a : α) : Same R E ((pure a : Prog σ ε α).run s) ((pure a : Prog σ ε α).run t) :=
  .ok a related
/-- A program that goes on after a part that ends in the same way. -/
theorem same_bind {call : Prog σ ε β} {next : β → Prog σ ε α} (first : Same R E (call.run s) (call.run t))
    (later : ∀ b s' t', call.run s = .ok b s' → call.run t = .ok b t' → R s' t' →
      Same R' E ((next b).run s') ((next b).run t')) :
    Same R' E ((call >>= next).run s) ((call >>= next).run t) := by
  rw [run_bind, run_bind]
  generalize left : call.run s = r at first later
  generalize right : call.run t = r' at first later
  cases first with
  | ok b related => exact later b _ _ rfl rfl related
  | err e related => exact .err e related
  | panic => exact .panic
theorem same_change {f : σ → σ} (related : R (f s) (f t)) :
    Same R E ((change f : Prog σ ε Unit).run s) ((change f : Prog σ ε Unit).run t) := .ok () related

/-- A reading part before the rest of the program. -/
theorem same_reads_bind {f : σ → Res ε β} {next : β → Prog σ ε α} (failed : E s t) (same : f t = f s)
    (later : ∀ b, f s = .ok b → Same R E ((next b).run s) ((next b).run t)) :
    Same R E ((reads f >>= next).run s) ((reads f >>= next).run t) := by
  rw [run_bind, run_bind, run_reads, run_reads, same]
  cases value : f s with
  | ok b => exact later b value
  | error fault =>
    cases fault with
    | err e => exact .err e failed
    | panic => exact .panic
theorem same_lift_bind {r : Res ε β} {next : β → Prog σ ε α} (failed : E s t)
    (later : ∀ b, r = .ok b → Same R E ((next b).run s) ((next b).run t)) :
    Same R E ((lift r >>= next).run s) ((lift r >>= next).run t) := same_reads_bind failed rfl later

end Justext4.TwoRuns
