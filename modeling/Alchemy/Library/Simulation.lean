import Alchemy.Library.Interleaving

/-! What an observer sees of a run, and simulations between step functions.
Some steps show nothing. A simulation answers each step of one machine with steps of the other one
that show the same, so that every run has a counterpart that cannot be told from it.
-/

namespace Interleaving

variable {σ ρ α β ε δ ω : Type*}

/-- What the steps of a run show, oldest first. -/
def observed (observe : α × ε → Option ω) (trace : List (α × ε)) : List ω :=
  trace.filterMap observe

theorem observed_append (observe : α × ε → Option ω) (first second : List (α × ε))
    : observed observe (first ++ second) = observed observe first ++ observed observe second :=
  List.filterMap_append

/-- Steps from related states are answered by runs that show the same, into related states. -/
def Simulation (step : σ → α → Option (σ × ε)) (answer : ρ → β → Option (ρ × δ))
    (observe : α × ε → Option ω) (observe' : β × δ → Option ω) (related : σ → ρ → Prop)
    : Prop :=
  ∀ {state other action next event},
    related state other → step state action = some (next, event)
    → ∃ trace last, Run answer other trace last ∧ related next last
      ∧ observed observe' trace = observed observe [(action, event)]

variable {step : σ → α → Option (σ × ε)} {answer : ρ → β → Option (ρ × δ)}
  {observe : α × ε → Option ω} {observe' : β × δ → Option ω} {related : σ → ρ → Prop}

/-- Whole runs are answered, by induction on the run. -/
theorem Simulation.run (simulation : Simulation step answer observe observe' related)
    {init last : σ} {start : ρ} {trace : List (α × ε)} (initial : related init start)
    (run : Run step init trace last)
    : ∃ trace' last', Run answer start trace' last' ∧ related last last'
      ∧ observed observe' trace' = observed observe trace := by
  induction run with
  | start => exact ⟨[], start, .start, initial, rfl⟩
  | extend _ taken ih =>
      obtain ⟨before, middle, first, here, shown⟩ := ih
      obtain ⟨after, last', second, there, shows⟩ := simulation here taken
      refine ⟨before ++ after, last', first.trans second, there, ?_⟩
      rw [observed_append, observed_append, shown, shows]

end Interleaving
