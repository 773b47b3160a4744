import Mathlib.Data.List.FinRange
import Mathlib.Logic.Function.Basic

/-! The two executors of the asynchronous tasks. `block_on` drives one future to its end;
`Executor` polls a ring of `N` of them. A future is a value of its state type, and polling
it is a pure step on that state: futures share nothing.
-/

namespace Alchemy.AsyncTask

/-- What a call of `poll` answers. -/
inductive Poll (α : Type) where
  | pending
  | ready (out : α)
deriving DecidableEq, Repr

variable {F α : Type} {N : Nat}

/-! ### The futures of the crate -/

/-- Gives up the processor `remaining` more times. -/
structure DummySwitcher where
  remaining : Nat
deriving DecidableEq, Repr

/-- `DummySwitcher::poll` -/
def DummySwitcher.poll (self : DummySwitcher) : DummySwitcher × Poll Unit :=
  if self.remaining = 0 then (self, .ready ()) else (⟨self.remaining - 1⟩, .pending)

/-- A reference that is prefetched at the first poll and delivered at the second. -/
structure PrefetchRef (T : Type) where
  value : T
  fetched : Bool
deriving DecidableEq, Repr

/-- `PrefetchRef::poll` -/
def PrefetchRef.poll {T : Type} (self : PrefetchRef T) : PrefetchRef T × Poll T :=
  if self.fetched then (self, .ready self.value) else ({ self with fetched := true }, .pending)

/-! ### The executors -/

/-- `block_on`: poll one task until it is ready. The loop has no bound of its own, so the
number of polls allowed is an argument; `none` says that it was not enough.
-/
def blockOn (poll : F → F × Poll α) : Nat → F → Option α
  | 0, _ => none
  | fuel + 1, task =>
      match poll task with
      | (_, .ready out) => some out
      | (task, .pending) => blockOn poll fuel task

/-- The executor owns `N` slots for tasks. -/
structure Executor (F : Type) (N : Nat) where
  taskQueue : Fin N → Option F

/-- `Executor::new` -/
def Executor.new : Executor F N where
  taskQueue := fun _ => none

/-- `Executor::spawn`: the first free slot takes the task; `none` is the panic
"max executor queue reached!".
-/
def Executor.spawn (self : Executor F N) (task : F) : Option (Executor F N) :=
  ((List.finRange N).find? (fun i => (self.taskQueue i).isNone)).map
    (fun i => ⟨Function.update self.taskQueue i (some task)⟩)

/-- Spawn the tasks of a list, first to last. -/
def Executor.spawnAll (self : Executor F N) : List F → Option (Executor F N)
  | [] => some self
  | task :: rest => (self.spawn task).bind (fun spawned => spawned.spawnAll rest)

/-- What `run_ready_tasks` does to the slots: a poll with its answer, and the write of an
output slot.
-/
inductive Event (N : Nat) where
  | pending (slot : Fin N)
  | ready (slot : Fin N)
  | initialised (slot : Fin N)
deriving DecidableEq, Repr

/-- The slot an event is about. -/
def Event.slot : Event N → Fin N
  | .pending slot | .ready slot | .initialised slot => slot

/-- The locals of `run_ready_tasks` and the queue it works on. An output slot is `none`
while it is uninitialised.
-/
structure RunState (F α : Type) (N : Nat) where
  taskQueue : Fin N → Option F
  pos : Fin N
  readyTask : UInt8
  output : Fin N → Option α

/-- What a finished `run_ready_tasks` leaves: the array it returns, the executor, and the
events in order.
-/
structure Report (F α : Type) (N : Nat) where
  output : Fin N → Option α
  executor : Executor F N
  log : List (Event N)

/-- The body of the loop before `pos += 1`: poll the task at `pos`, if there is one. -/
def RunState.visit (poll : F → F × Poll α) (self : RunState F α N)
    : RunState F α N × List (Event N) :=
  match self.taskQueue self.pos with
  | none => (self, [])
  | some task =>
      match poll task with
      | (task, .pending) =>
          ({ self with taskQueue := Function.update self.taskQueue self.pos (some task) },
            [.pending self.pos])
      | (_, .ready sum) =>
          ({ self with
              readyTask := self.readyTask + 1
              output := Function.update self.output self.pos (some sum)
              taskQueue := Function.update self.taskQueue self.pos none },
            [.ready self.pos, .initialised self.pos])

/-- `pos += 1` and `pos %= N` -/
def RunState.advance (self : RunState F α N) : RunState F α N :=
  { self with pos := ⟨(self.pos + 1) % N, Nat.mod_lt _ self.pos.pos⟩ }

/-- The loop of `run_ready_tasks`, with a bound on its iterations. -/
def runLoop (poll : F → F × Poll α) : Nat → RunState F α N → List (Event N)
    → Option (Report F α N)
  | 0, _, _ => none
  | fuel + 1, state, log =>
      let (visited, events) := state.visit poll
      if visited.readyTask = N.toUInt8 then
        some ⟨visited.output, ⟨visited.taskQueue⟩, log ++ events⟩
      else
        runLoop poll fuel visited.advance (log ++ events)

/-- `Executor::run_ready_tasks`. Without slots the first `task_queue[pos]` panics. -/
def Executor.runReadyTasks (poll : F → F × Poll α) (fuel : Nat) (self : Executor F N)
    : Option (Report F α N) :=
  if slots : 0 < N then
    runLoop poll fuel ⟨self.taskQueue, ⟨0, slots⟩, 0, fun _ => none⟩ []
  else
    none

/-- Spawn a batch of `N` tasks and run them, then the next batch on the same executor. -/
def Executor.rounds (poll : F → F × Poll α) (fuel : Nat)
    : Executor F N → List (Fin N → F) → Option (List (Report F α N))
  | _, [] => some []
  | self, tasks :: rest => do
      let filled ← self.spawnAll (List.ofFn tasks)
      let report ← filled.runReadyTasks poll fuel
      let later ← report.executor.rounds poll fuel rest
      some (report :: later)

/-- Three switchers that need two, no and one more turn. -/
example
    : ((Executor.new (N := 3)).spawnAll [⟨2⟩, ⟨0⟩, ⟨1⟩]
        |>.bind (Executor.runReadyTasks DummySwitcher.poll 9)).map Report.log
      = some [.pending 0, .ready 1, .initialised 1, .pending 2, .pending 0, .ready 2,
          .initialised 2, .ready 0, .initialised 0] := by
  decide

end Alchemy.AsyncTask
