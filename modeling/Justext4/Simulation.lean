import Mathlib.Data.List.Induction

/-!
Runs of labelled steps. What every step keeps holds at the end of a run, and a
step of one relation that another relation can follow, label by label, makes
every run of the one a run of the other.
-/
namespace Justext4.Simulation
variable {σ τ ε : Type}

/-- A run of labelled steps, with its labels in order. -/
inductive Run (step : σ → ε → σ → Prop) (start : σ) : List ε → σ → Prop
  | start : Run step start [] start
  | next {events : List ε} {e : ε} {s s' : σ} (earlier : Run step start events s) (last : step s e s') :
      Run step start (events ++ [e]) s'

section
variable {step : σ → ε → σ → Prop} {start s s' : σ} {events later : List ε}

theorem Run.keeps {kept : σ → Prop} (keeps : ∀ {s e s'}, kept s → step s e s' → kept s') (run : Run step start events s)
    (first : kept start) : kept s := by
  induction run with
  | start => exact first
  | next _ last ih => exact keeps ih last
theorem Run.mono {step' : σ → ε → σ → Prop} (wider : ∀ {s e s'}, step s e s' → step' s e s')
    (run : Run step start events s) : Run step' start events s := by
  induction run with
  | start => exact .start
  | next _ last ih => exact .next ih (wider last)
theorem Run.single {e : ε} (only : step s e s') : Run step s [e] s' := .next .start only
/-- A run goes on with another. -/
theorem Run.append (first : Run step start events s) (second : Run step s later s') :
    Run step start (events ++ later) s' := by
  induction second with
  | start => rwa [List.append_nil]
  | next _ last ih =>
    rw [← List.append_assoc]
    exact .next ih last

/-- Every step from related states is followed by a step to related states. -/
def Follows (step : σ → ε → σ → Prop) (step' : τ → ε → τ → Prop) (related : σ → τ → Prop) : Prop :=
  ∀ ⦃s t e s'⦄, related s t → step s e s' → ∃ t', step' t e t' ∧ related s' t'

theorem Run.simulates {step' : τ → ε → τ → Prop} {related : σ → τ → Prop} {t : τ} (follows : Follows step step' related)
    (run : Run step start events s) (first : related start t) : ∃ t', Run step' t events t' ∧ related s t' := by
  induction run with
  | start => exact ⟨t, .start, first⟩
  | next _ last ih =>
    obtain ⟨t₁, run', related₁⟩ := ih
    obtain ⟨t', last', related'⟩ := follows related₁ last
    exact ⟨t', .next run' last', related'⟩
end

end Justext4.Simulation
