import Alchemy.AsyncTask.Executor
import Mathlib.Data.Fintype.Card

/-! What the loop of `run_ready_tasks` counts, for futures that may never be ready: a slot is
emptied when its task is ready, and `ready_task` keeps the number of those slots in one byte.
-/

namespace Alchemy.AsyncTask

variable {F α : Type} {N : Nat} {poll : F → F × Poll α}

def Event.isReady : Event N → Bool
  | .ready _ => true
  | .pending _ | .initialised _ => false

/-- How many polls have answered `Ready`. -/
def readied (log : List (Event N)) : Nat :=
  log.countP Event.isReady

/-- The slots without a task. -/
def RunState.free (state : RunState F α N) : Finset (Fin N) :=
  Finset.univ.filter (fun slot => (state.taskQueue slot).isNone)

/-- Membership in the slots without a task. -/
theorem RunState.mem_free {state : RunState F α N} {slot : Fin N}
    : slot ∈ state.free ↔ state.taskQueue slot = none := by
  simp [RunState.free]

/-- The books of a run that began with a task in every slot: a slot is free exactly when its
task has been ready, its output is written by then, and `ready_task` is the number of free
slots, as far as a byte holds it.
-/
structure Tally (state : RunState F α N) (log : List (Event N)) : Prop where
  done : ∀ slot, state.taskQueue slot = none ↔ .ready slot ∈ log
  written : ∀ slot, state.taskQueue slot = none → (state.output slot).isSome
  emptied : readied log = state.free.card
  counted : state.readyTask.toNat = readied log % 256

variable {state : RunState F α N} {log : List (Event N)}

/-- No more tasks have been ready than there are slots. -/
theorem Tally.readied_le (tally : Tally state log) : readied log ≤ N := by
  have most := Finset.card_le_univ state.free
  rwa [Fintype.card_fin, ← tally.emptied] at most

/-- All the tasks have been ready exactly when no slot has one. -/
theorem Tally.readied_eq_iff (tally : Tally state log)
    : readied log = N ↔ ∀ slot, state.taskQueue slot = none := by
  have full := Finset.card_eq_iff_eq_univ state.free
  rw [Fintype.card_fin] at full
  rw [tally.emptied, full, Finset.eq_univ_iff_forall]
  simp only [RunState.mem_free]

/-- The loop's test compares the two counts by their low bytes. -/
theorem Tally.ready_iff (tally : Tally state log)
    : state.readyTask = N.toUInt8 ↔ readied log % 256 = N % 256 := by
  rw [← UInt8.toNat_inj, tally.counted]
  rfl

/-- Freeing a slot that had a task. -/
theorem RunState.card_free_insert {next : RunState F α N} {task : F}
    (held : state.taskQueue state.pos = some task)
    (freed : next.taskQueue = Function.update state.taskQueue state.pos none)
    : next.free.card = state.free.card + 1 := by
  have busy : state.pos ∉ state.free := by simp [RunState.mem_free, held]
  rw [← Finset.card_insert_of_notMem busy]
  congr 1
  ext slot
  by_cases same : slot = state.pos
  · simp [RunState.mem_free, freed, same]
  · simp [RunState.mem_free, freed, same]

/-- A visit keeps the books: only a `Ready` changes them, in its own slot. -/
theorem Tally.visit (poll : F → F × Poll α) (tally : Tally state log)
    : Tally (state.visit poll).1 (log ++ (state.visit poll).2) := by
  cases held : state.taskQueue state.pos with
  | none => simpa [RunState.visit, held] using tally
  | some task =>
      rcases answer : poll task with ⟨next, _ | sum⟩
      · -- a pending task stays where it is
        simp only [RunState.visit, held, answer]
        have same (slot : Fin N)
            : Function.update state.taskQueue state.pos (some next) slot = none
              ↔ state.taskQueue slot = none := by
          by_cases here : slot = state.pos
          · simp [here, held]
          · simp [here]
        have pending : readied (log ++ [.pending state.pos]) = readied log := by
          simp [readied, Event.isReady]
        refine ⟨fun slot => ?_, fun slot empty => tally.written slot ((same slot).mp empty), ?_, ?_⟩
        · simpa using (same slot).trans (tally.done slot)
        · rw [pending, tally.emptied]
          congr 1
          ext slot
          rw [RunState.mem_free, RunState.mem_free]
          exact (same slot).symm
        · rw [pending]
          exact tally.counted
      · simp only [RunState.visit, held, answer]
        have ready : readied (log ++ [.ready state.pos, .initialised state.pos])
            = readied log + 1 := by
          simp [readied, List.countP_cons, Event.isReady]
        refine ⟨fun slot => ?_, fun slot empty => ?_, ?_, ?_⟩
        · by_cases here : slot = state.pos
          · simp [here]
          · simpa [here] using tally.done slot
        · by_cases here : slot = state.pos
          · simp [here]
          · simpa [here] using tally.written slot (by simpa [here] using empty)
        · rw [ready, tally.emptied]
          exact (RunState.card_free_insert held rfl).symm
        · rw [ready, UInt8.toNat_add, tally.counted]
          exact Nat.mod_add_mod ..

/-- A visit makes at most one task ready. -/
theorem RunState.readied_visit (poll : F → F × Poll α) (state : RunState F α N)
    (log : List (Event N))
    : readied (log ++ (state.visit poll).2) ≤ readied log + 1 := by
  unfold RunState.visit
  split
  · simp
  · split <;> simp [readied, List.countP_cons, Event.isReady]

/-! ### The heads of the loop -/

/-- The locals of `run_ready_tasks` before its loop. -/
def Executor.start (self : Executor F N) (slots : 0 < N) : RunState F α N :=
  ⟨self.taskQueue, ⟨0, slots⟩, 0, fun _ => none⟩

/-- With a task in every slot the books are right before the loop. -/
theorem Executor.tally_start {self : Executor F N} (slots : 0 < N)
    (full : ∀ slot, self.taskQueue slot ≠ none)
    : Tally (self.start slots : RunState F α N) [] := by
  refine ⟨fun slot => by simpa [Executor.start] using full slot,
    fun slot empty => absurd empty (full slot), ?_, rfl⟩
  have none : (self.start slots : RunState F α N).free = ∅ :=
    Finset.eq_empty_of_forall_notMem (fun slot member => full slot (RunState.mem_free.mp member))
  rw [none]
  rfl

/-- What the loop returns if it stops after this visit. -/
def RunState.report (poll : F → F × Poll α) (state : RunState F α N) (log : List (Event N))
    : Report F α N :=
  ⟨(state.visit poll).1.output, ⟨(state.visit poll).1.taskQueue⟩, log ++ (state.visit poll).2⟩

/-- The loop after a visit: it returns, or goes on from the next slot. -/
theorem runLoop_succ (fuel : Nat) (state : RunState F α N) (log : List (Event N))
    : runLoop poll (fuel + 1) state log
      = if (state.visit poll).1.readyTask = N.toUInt8 then
          some (state.report poll log)
        else
          runLoop poll fuel (state.visit poll).1.advance (log ++ (state.visit poll).2) :=
  rfl

/-- The states in which an iteration of the loop begins, with the events before it. -/
inductive Head (poll : F → F × Poll α) (self : Executor F N)
    : RunState F α N → List (Event N) → Prop
  | start (slots : 0 < N) : Head poll self (self.start slots) []
  | next {earlier : RunState F α N} {past : List (Event N)} (head : Head poll self earlier past)
    (onward : (earlier.visit poll).1.readyTask ≠ N.toUInt8)
    : Head poll self (earlier.visit poll).1.advance (past ++ (earlier.visit poll).2)

variable {self : Executor F N}

/-- The loop gets to its heads, by induction on them. -/
theorem Head.reached (head : Head poll self state log)
    : ∃ used, ∀ fuel, self.runReadyTasks poll (fuel + used) = runLoop poll fuel state log := by
  induction head with
  | start slots => exact ⟨0, fun fuel => by rw [Executor.runReadyTasks, dif_pos slots]; rfl⟩
  | @next state log head onward ih =>
      obtain ⟨used, same⟩ := ih
      refine ⟨used + 1, fun fuel => ?_⟩
      have moved : fuel + (used + 1) = fuel + 1 + used := by omega
      rw [moved, same, runLoop_succ, if_neg onward]

/-- What the loop returns is the report of one of its heads, by induction on the fuel. -/
theorem Head.returned {fuel : Nat} {report : Report F α N} (head : Head poll self state log)
    (returns : runLoop poll fuel state log = some report)
    : ∃ last events, Head poll self last events
      ∧ (last.visit poll).1.readyTask = N.toUInt8
      ∧ report = last.report poll events := by
  induction fuel generalizing state log with
  | zero => cases returns
  | succ fuel ih =>
      rw [runLoop_succ] at returns
      split at returns
      next ready => exact ⟨state, log, head, ready, (Option.some.inj returns).symm⟩
      next onward => exact ih (head.next onward) returns

/-- The books are right at every head, by induction on the heads. -/
theorem Head.tally (full : ∀ slot, self.taskQueue slot ≠ none) (head : Head poll self state log)
    : Tally state log := by
  induction head with
  | start slots => exact Executor.tally_start slots full
  | next _ _ ih =>
      have visited := ih.visit poll
      exact ⟨visited.done, visited.written, visited.emptied, visited.counted⟩

/-- The byte has not turned over while the loop goes on: fewer tasks than the least positive
number with the low byte of `N` have been ready. Witness: induction on the heads; a visit adds
one at most, and the loop stops when that number is reached.
-/
theorem Head.readied_lt (full : ∀ slot, self.taskQueue slot ≠ none)
    (head : Head poll self state log)
    : readied log < (N - 1) % 256 + 1 := by
  induction head with
  | start slots => exact Nat.succ_pos _
  | @next state log head onward ih =>
      have more := state.readied_visit poll log
      have differ := mt ((head.tally full).visit poll).ready_iff.mpr onward
      have slots := state.pos.pos
      omega

/-! ### When the executor keeps its word -/

/-- The call comes back. -/
def Executor.Returns (poll : F → F × Poll α) (self : Executor F N) : Prop :=
  ∃ fuel report, self.runReadyTasks poll fuel = some report

/-- What `run_ready_tasks` owes its caller: when it returns every task has been ready and every
output is initialised, and after every visit `ready_task` is the number of tasks that have been
ready.
-/
structure Executor.Finishes (poll : F → F × Poll α) (executor : Executor F N) : Prop where
  done : ∀ fuel report, executor.runReadyTasks poll fuel = some report
    → ∀ slot, .ready slot ∈ report.log ∧ (report.output slot).isSome
  counts : ∀ state log, Head poll executor state log
    → (state.visit poll).1.readyTask.toNat = readied (log ++ (state.visit poll).2)

/-- A call that returns stops after a visit with the two low bytes equal. -/
theorem Executor.returned (full : ∀ slot, self.taskQueue slot ≠ none) {fuel : Nat}
    {report : Report F α N} (returns : self.runReadyTasks poll fuel = some report)
    : ∃ last, Tally last report.log ∧ last.output = report.output
      ∧ (∃ state log, Head poll self state log ∧ last = (state.visit poll).1
        ∧ report.log = log ++ (state.visit poll).2)
      ∧ readied report.log % 256 = N % 256 := by
  rw [Executor.runReadyTasks] at returns
  split at returns
  next slots =>
    obtain ⟨state, log, head, ready, rfl⟩ := (Head.start slots).returned returns
    have tally := (head.tally full).visit poll
    exact ⟨_, tally, rfl, ⟨state, log, head, rfl, rfl⟩, tally.ready_iff.mp ready⟩
  next => cases returns

/-- The call comes back from a head whose visit makes the two low bytes equal. -/
theorem Head.returns (head : Head poll self state log)
    (ready : (state.visit poll).1.readyTask = N.toUInt8)
    : self.Returns poll := by
  obtain ⟨used, same⟩ := head.reached
  exact ⟨1 + used, state.report poll log, by rw [same, runLoop_succ, if_pos ready]⟩

/-- The executor keeps its word exactly if a byte can count its tasks or it never returns. -/
theorem Executor.finishes_iff (full : ∀ slot, self.taskQueue slot ≠ none)
    : self.Finishes poll ↔ N ≤ 255 ∨ ¬ self.Returns poll := by
  constructor
  · intro finishes
    by_contra neither
    obtain ⟨large, returns⟩ := not_or.mp neither
    obtain ⟨fuel, report, returns⟩ := not_not.mp returns
    obtain ⟨last, tally, _, ⟨state, log, head, rfl, logged⟩, _⟩ := Executor.returned full returns
    have all : readied report.log = N := by
      rw [tally.readied_eq_iff]
      exact fun slot => (tally.done slot).mpr (finishes.done fuel report returns slot).1
    have counted := finishes.counts state log head
    rw [← logged, all] at counted
    have byte := (state.visit poll).1.readyTask.toNat_lt
    omega
  · intro either
    constructor
    · intro fuel report returns slot
      rcases either with small | never
      · obtain ⟨last, tally, output, _, ready⟩ := Executor.returned full returns
        have most := tally.readied_le
        have empty := tally.readied_eq_iff.mp (by omega) slot
        exact ⟨(tally.done slot).mp empty, output ▸ tally.written slot empty⟩
      · exact absurd ⟨fuel, report, returns⟩ never
    · intro state log head
      have tally := (head.tally full).visit poll
      rw [tally.counted]
      refine Nat.mod_eq_of_lt ?_
      rcases either with small | never
      · have most := tally.readied_le
        omega
      · by_contra turned
        -- the byte turns over only at 256, and then the loop stops
        have before := head.readied_lt full
        have more := state.readied_visit poll log
        have slots := state.pos.pos
        exact never (head.returns (tally.ready_iff.mpr (by omega)))

end Alchemy.AsyncTask
