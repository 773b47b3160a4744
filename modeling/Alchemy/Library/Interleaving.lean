import Mathlib.Data.List.Basic
import Mathlib.Data.List.Induction
import Mathlib.Logic.Function.Basic

/-! Runs of an executable step function under an arbitrary scheduler.
An action names the thread that moves together with every choice left to the machine,
so quantifying over action lists quantifies over interleavings and over their outcomes.
-/

namespace Interleaving

variable {σ α ε : Type*}

/-! ### Runs, and the executable replay of one action list -/

/-- `trace` lists the actions taken from `init` with the event each one reported, oldest
first; the index is the state they lead to.
-/
inductive Run (step : σ → α → Option (σ × ε)) (init : σ) : List (α × ε) → σ → Prop
  | start : Run step init [] init
  | extend {trace state action next event} (earlier : Run step init trace state)
    (taken : step state action = some (next, event))
    : Run step init (trace ++ [(action, event)]) next

/-- Replay an action list; an action that is not enabled stops the replay. -/
def exec (step : σ → α → Option (σ × ε)) : σ → List α → Option (σ × List (α × ε))
  | state, [] => some (state, [])
  | state, action :: rest =>
      match step state action with
      | none => none
      | some (next, event) =>
          (exec step next rest).map (fun result => (result.1, (action, event) :: result.2))

/-- A step that is enabled under a condition. -/
theorem guarded_eq_some {enabled : Prop} [Decidable enabled] {next other : σ} {event label : ε}
    : (if enabled then some (next, event) else none) = some (other, label)
      ↔ enabled ∧ next = other ∧ event = label := by
  simp

variable {step : σ → α → Option (σ × ε)}

/-- A run resumed where another one stopped is one run, by induction on the later part. -/
theorem Run.trans {init middle last : σ} {first second : List (α × ε)}
    (earlier : Run step init first middle) (later : Run step middle second last)
    : Run step init (first ++ second) last := by
  induction later with
  | start => simpa using earlier
  | extend _ taken ih => simpa using ih.extend taken

/-- A single enabled action is a run of length one. -/
theorem Run.single {state next : σ} {action : α} {event : ε}
    (taken : step state action = some (next, event))
    : Run step state [(action, event)] next :=
  Run.start.extend taken

/-- A successful replay is a run, by induction on the action list. -/
theorem exec_run {init last : σ} {actions : List α} {trace : List (α × ε)}
    (replay : exec step init actions = some (last, trace))
    : Run step init trace last := by
  induction actions generalizing init trace with
  | nil =>
      obtain ⟨rfl, rfl⟩ := Prod.mk.inj (Option.some.inj replay)
      exact .start
  | cons action rest ih =>
      cases taken : step init action with
      | none => simp [exec, taken] at replay
      | some result =>
          obtain ⟨next, event⟩ := result
          simp only [exec, taken, Option.map_eq_some_iff] at replay
          obtain ⟨⟨last', tail⟩, tailReplay, same⟩ := replay
          obtain ⟨rfl, rfl⟩ := Prod.mk.inj same
          exact (Run.single taken).trans (ih tailReplay)

/-- A replay whose outcome passes a test is a run to a state and trace that pass it. -/
theorem exec_reaches {init : σ} {actions : List α} (test : σ × List (α × ε) → Bool)
    (passed : (exec step init actions).any test = true)
    : ∃ trace last, Run step init trace last ∧ test (last, trace) = true := by
  cases replay : exec step init actions with
  | none => simp [replay] at passed
  | some result =>
      rw [replay] at passed
      exact ⟨result.2, result.1, exec_run replay, passed⟩

/-- Follow a choice of actions as long as it makes one that is enabled, and for so many actions at
most. The trace is kept newest first.
-/
def follow (step : σ → α → Option (σ × ε)) (choose : σ → Option α)
    : Nat → σ → List (α × ε) → σ × List (α × ε)
  | 0, state, past => (state, past)
  | most + 1, state, past =>
      match choose state with
      | none => (state, past)
      | some action =>
          match step state action with
          | none => (state, past)
          | some (next, event) => follow step choose most next ((action, event) :: past)

/-- Follow one choice after the other. -/
def direct (step : σ → α → Option (σ × ε))
    : List ((σ → Option α) × Nat) → σ → List (α × ε) → Option (σ × List (α × ε))
  | [], state, past => some (state, past.reverse)
  | (choose, most) :: rest, state, past =>
      match follow step choose most state past with
      | (next, past) => direct step rest next past

theorem follow_run {init state : σ} {choose : σ → Option α} {most : Nat} {past : List (α × ε)}
    (run : Run step init past.reverse state)
    : Run step init (follow step choose most state past).2.reverse
        (follow step choose most state past).1 := by
  induction most generalizing state past with
  | zero => exact run
  | succ most ih =>
      unfold follow
      split
      · exact run
      · split
        · exact run
        next taken =>
          refine ih ?_
          rw [List.reverse_cons]
          exact run.extend taken

/-- Where the choices lead is a run to a state and trace that pass the test, by induction on the
choices.
-/
theorem direct_reaches {init state : σ} {past : List (α × ε)}
    {choices : List ((σ → Option α) × Nat)} (run : Run step init past.reverse state)
    (test : σ × List (α × ε) → Bool) (passed : (direct step choices state past).any test = true)
    : ∃ trace last, Run step init trace last ∧ test (last, trace) = true := by
  induction choices generalizing state past with
  | nil => exact ⟨_, _, run, passed⟩
  | cons choice rest ih => exact ih (follow_run run) passed

/-- The empty trace leaves the initial state. -/
theorem Run.nil_state {init last : σ} (run : Run step init [] last) : last = init := by
  generalize empty : ([] : List (α × ε)) = trace at run
  cases run with
  | start => rfl
  | extend => simp at empty

/-- The last step of a nonempty trace, recovered from the run. -/
theorem Run.last_step {init last : σ} {trace : List (α × ε)} {action : α} {event : ε}
    (run : Run step init (trace ++ [(action, event)]) last)
    : ∃ state, Run step init trace state ∧ step state action = some (last, event) := by
  generalize same : trace ++ [(action, event)] = whole at run
  cases run with
  | start => simp at same
  | extend earlier taken =>
      obtain ⟨rfl, pair⟩ := List.append_inj' same rfl |>.imp id List.singleton_inj.mp
      obtain ⟨rfl, rfl⟩ := Prod.mk.inj pair
      exact ⟨_, earlier, taken⟩

/-- The trace determines the state, because the step function is one. -/
theorem Run.state_unique {init left right : σ} {trace : List (α × ε)}
    (first : Run step init trace left) (second : Run step init trace right)
    : left = right := by
  induction trace using List.reverseRecOn generalizing left right with
  | nil => rw [first.nil_state, second.nil_state]
  | append_singleton trace last ih =>
      obtain ⟨state, earlier, taken⟩ := first.last_step
      obtain ⟨state', earlier', taken'⟩ := second.last_step
      rw [ih earlier earlier', taken'] at taken
      exact (Prod.mk.inj (Option.some.inj taken)).1.symm

/-- Every prefix of a run is a run, by induction on what follows it. -/
theorem Run.split {init last : σ} {before after : List (α × ε)}
    (run : Run step init (before ++ after) last)
    : ∃ middle, Run step init before middle ∧ Run step middle after last := by
  induction after using List.reverseRecOn generalizing last with
  | nil => exact ⟨last, by simpa using run, .start⟩
  | append_singleton after pair ih =>
      rw [← List.append_assoc] at run
      obtain ⟨state, earlier, taken⟩ := run.last_step
      obtain ⟨middle, first, second⟩ := ih earlier
      exact ⟨middle, first, second.extend taken⟩

/-! ### Invariants of whole runs -/

/-- Every entry of the trace is a step from a state that the entries before it reach. -/
theorem Run.step_of_mem {init last : σ} {trace : List (α × ε)} {action : α} {event : ε}
    (run : Run step init trace last) (member : (action, event) ∈ trace)
    : ∃ before after state next,
        trace = before ++ (action, event) :: after
        ∧ Run step init before state
        ∧ step state action = some (next, event) := by
  obtain ⟨before, after, rfl⟩ := List.append_of_mem member
  rw [List.append_cons] at run
  obtain ⟨next, first, _⟩ := run.split
  obtain ⟨state, reached, taken⟩ := first.last_step
  exact ⟨before, after, state, next, rfl, reached, taken⟩

/-- What holds initially and survives every step holds in every state reached. -/
theorem Run.invariant {holds : σ → Prop} {init last : σ} {trace : List (α × ε)}
    (initial : holds init)
    (preserved
      : ∀ {state action next event},
          holds state → step state action = some (next, event) → holds next)
    (run : Run step init trace last)
    : holds last := by
  induction run with
  | start => exact initial
  | extend _ taken ih => exact preserved ih taken

/-! ### Properties of all steps and of all states along one run -/

/-- Every step of the run satisfies `holds`. -/
def Along (step : σ → α → Option (σ × ε)) (init : σ) (trace : List (α × ε))
    (holds : σ → α → ε → σ → Prop)
    : Prop :=
  ∀ before action event after state next,
    trace = before ++ (action, event) :: after
    → Run step init before state
    → step state action = some (next, event)
    → holds state action event next

/-- Every state of the run, the first and the last included, satisfies `holds`. -/
def Throughout (step : σ → α → Option (σ × ε)) (init : σ) (trace : List (α × ε))
    (holds : σ → Prop)
    : Prop :=
  ∀ before after state, trace = before ++ after → Run step init before state → holds state

/-- The empty run has no step. -/
theorem along_nil {init : σ} {holds : σ → α → ε → σ → Prop}
    : Along step init [] holds := by
  intro before action event after state next same
  simp at same

/-- What holds of every step holds of the steps of every first part of the run. -/
theorem along_left {init : σ} {before after : List (α × ε)} {holds : σ → α → ε → σ → Prop}
    (every : Along step init (before ++ after) holds)
    : Along step init before holds := by
  intro past action event rest state next same
  exact every past action event (rest ++ after) state next (by simp [same])

/-- A longer run satisfies a step property when its steps so far and the new one do. -/
theorem along_extend {init state next : σ} {trace : List (α × ε)} {action : α} {event : ε}
    {holds : σ → α → ε → σ → Prop} (earlier : Run step init trace state)
    (taken : step state action = some (next, event))
    : Along step init (trace ++ [(action, event)]) holds
      ↔ Along step init trace holds ∧ holds state action event next := by
  constructor
  · intro every
    exact ⟨along_left every, every trace action event [] state next rfl earlier taken⟩
  · rintro ⟨past, last⟩ before other label after source target same reached moved
    rcases List.eq_nil_or_concat after with rfl | ⟨rest, pair, rfl⟩
    · obtain ⟨rfl, pair⟩ := List.append_inj' same rfl |>.imp id List.singleton_inj.mp
      obtain ⟨rfl, rfl⟩ := Prod.mk.inj pair
      obtain rfl := reached.state_unique earlier
      rw [moved] at taken
      obtain ⟨rfl, _⟩ := Prod.mk.inj (Option.some.inj taken)
      exact last
    · rw [List.concat_eq_append, ← List.cons_append, ← List.append_assoc] at same
      exact past before other label rest source target
        (List.append_inj' same rfl).1 reached moved

/-- The same with the new step in front. -/
theorem along_cons {init next : σ} {trace : List (α × ε)} {action : α} {event : ε}
    {holds : σ → α → ε → σ → Prop} (taken : step init action = some (next, event))
    (first : holds init action event next) (rest : Along step next trace holds)
    : Along step init ((action, event) :: trace) holds := by
  intro before other label after source target same reached moved
  cases before with
  | nil =>
      obtain ⟨pair, rfl⟩ := List.cons.inj same
      obtain ⟨rfl, rfl⟩ := Prod.mk.inj pair
      obtain rfl := reached.nil_state
      rw [moved] at taken
      obtain ⟨rfl, _⟩ := Prod.mk.inj (Option.some.inj taken)
      exact first
  | cons pair before =>
      obtain ⟨rfl, tail⟩ := List.cons.inj same
      rw [← List.singleton_append] at reached
      obtain ⟨middle, one, reached⟩ := reached.split
      obtain rfl := one.state_unique (Run.single taken)
      exact rest before other label after source target tail reached moved

/-- Replay an action list and test every step before it is taken. -/
def passes (step : σ → α → Option (σ × ε)) (check : σ → α → Bool) : σ → List α → Bool
  | _, [] => true
  | state, action :: rest =>
      check state action
        && match step state action with
          | none => true
          | some (next, _) => passes step check next rest

/-- A replay whose steps all pass a test is a run along which the test holds. -/
theorem exec_along {init last : σ} {actions : List α} {trace : List (α × ε)}
    {check : σ → α → Bool} (replay : exec step init actions = some (last, trace))
    (passed : passes step check init actions = true)
    : Along step init trace (fun state action _ _ => check state action = true) := by
  induction actions generalizing init trace with
  | nil =>
      obtain ⟨rfl, rfl⟩ := Prod.mk.inj (Option.some.inj replay)
      exact along_nil
  | cons action rest ih =>
      cases taken : step init action with
      | none => simp [exec, taken] at replay
      | some result =>
          obtain ⟨next, event⟩ := result
          simp only [exec, taken, Option.map_eq_some_iff] at replay
          obtain ⟨⟨last', tail⟩, tailReplay, same⟩ := replay
          obtain ⟨rfl, rfl⟩ := Prod.mk.inj same
          simp only [passes, taken, Bool.and_eq_true] at passed
          exact along_cons taken passed.1 (ih tailReplay passed.2)

/-- The actions of a run are a replay, by induction on the trace. -/
theorem Run.exec {init last : σ} {trace : List (α × ε)} (run : Run step init trace last)
    : exec step init (trace.map Prod.fst) = some (last, trace) := by
  induction trace generalizing init with
  | nil => rw [run.nil_state, List.map_nil, Interleaving.exec]
  | cons entry rest ih =>
      rw [← List.singleton_append] at run
      obtain ⟨middle, first, later⟩ := run.split
      rw [← List.nil_append [entry]] at first
      obtain ⟨state, reached, taken⟩ := first.last_step
      rw [reached.nil_state] at taken
      simp [Interleaving.exec, taken, ih later]

/-- The two tests together: of every step, and of the outcome. -/
theorem exec_reaches_along {init : σ} {actions : List α} {check : σ → α → Bool}
    (test : σ × List (α × ε) → Bool)
    (passed : (exec step init actions).any test = true)
    (checked : passes step check init actions = true)
    : ∃ trace last, Run step init trace last ∧ test (last, trace) = true
      ∧ Along step init trace (fun state action _ _ => check state action = true) := by
  cases replay : exec step init actions with
  | none => simp [replay] at passed
  | some result =>
      rw [replay] at passed
      exact ⟨result.2, result.1, exec_run replay, passed, exec_along replay checked⟩

/-- Step properties that agree on reachable states agree along every run. -/
theorem along_congr {init : σ} {trace : List (α × ε)}
    {left right : σ → α → ε → σ → Prop}
    (agree
      : ∀ {past state action next event},
          Run step init past state
          → step state action = some (next, event)
          → (left state action event next ↔ right state action event next))
    : Along step init trace left ↔ Along step init trace right := by
  constructor
  · intro every before action event after state next same reached taken
    exact (agree reached taken).mp (every before action event after state next same reached taken)
  · intro every before action event after state next same reached taken
    exact (agree reached taken).mpr (every before action event after state next same reached taken)

/-- A longer run satisfies a state property when its states so far and the new one do. -/
theorem throughout_extend {init state next : σ} {trace : List (α × ε)} {action : α}
    {event : ε} {holds : σ → Prop} (earlier : Run step init trace state)
    (taken : step state action = some (next, event))
    : Throughout step init (trace ++ [(action, event)]) holds
      ↔ Throughout step init trace holds ∧ holds next := by
  constructor
  · intro every
    refine ⟨?_, every _ [] next (by simp) (earlier.extend taken)⟩
    intro before after reached same
    exact every before (after ++ [(action, event)]) reached (by simp [same])
  · rintro ⟨past, last⟩ before after reached same run
    rcases List.eq_nil_or_concat after with rfl | ⟨rest, pair, rfl⟩
    · rw [List.append_nil] at same
      subst same
      exact run.state_unique (earlier.extend taken) ▸ last
    · rw [List.concat_eq_append, ← List.append_assoc] at same
      exact past before rest reached (List.append_inj' same rfl).1 run

/-- The initial state is the only state of the empty run. -/
theorem throughout_nil {init : σ} {holds : σ → Prop}
    : Throughout step init [] holds ↔ holds init := by
  constructor
  · intro every
    exact every [] [] init rfl .start
  · intro initial before after state same run
    obtain ⟨rfl, rfl⟩ := List.append_eq_nil_iff.mp same.symm
    exact run.state_unique .start ▸ initial

end Interleaving
