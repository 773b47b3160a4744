import Alchemy.AsyncTask.ReadyCount

/-! The ring of tasks runs every one of them as `block_on` would, in any number of rounds, as
long as a byte can count the tasks.
-/

namespace Alchemy.AsyncTask

variable {F α : Type} {N : Nat} {poll : F → F × Poll α}

/-- Polled again and again, the task is pending `count` times and then ready with `out`. -/
inductive Completes (poll : F → F × Poll α) : F → Nat → α → Prop
  | ready {task next out} (answer : poll task = (next, .ready out)) : Completes poll task 0 out
  | pending {task next count out} (answer : poll task = (next, .pending))
    (rest : Completes poll next count out)
    : Completes poll task (count + 1) out

/-- `block_on` returns the output of a task that completes, by induction on its polls. -/
theorem Completes.blockOn {task : F} {count : Nat} {out : α} (done : Completes poll task count out)
    {fuel : Nat} (enough : count < fuel)
    : blockOn poll fuel task = some out := by
  induction done generalizing fuel with
  | ready answer =>
      obtain ⟨fuel, rfl⟩ := Nat.exists_eq_add_one.mpr enough
      simp [AsyncTask.blockOn, answer]
  | pending answer _ ih =>
      obtain ⟨fuel, rfl⟩ := Nat.exists_eq_add_one.mpr (Nat.zero_lt_of_lt enough)
      simp [AsyncTask.blockOn, answer, ih (Nat.lt_of_succ_lt_succ enough)]

/-- Polled again and again, the task is ready at last. -/
def BecomesReady (poll : F → F × Poll α) (task : F) : Prop :=
  ∃ count out, Completes poll task count out

/-- A pending task has one poll more to go than what it becomes. -/
theorem completes_iff_of_pending {task next : F} {count : Nat} {out : α}
    (answer : poll task = (next, .pending))
    : Completes poll task count out ↔ 0 < count ∧ Completes poll next (count - 1) out := by
  constructor
  · intro done
    cases done with
    | ready other => simp [answer] at other
    | pending other rest =>
        obtain rfl : next = _ := congrArg Prod.fst (answer.symm.trans other)
        exact ⟨Nat.succ_pos _, rest⟩
  · rintro ⟨positive, rest⟩
    obtain ⟨count, rfl⟩ := Nat.exists_eq_add_one.mpr positive
    exact .pending answer rest

/-- A switcher completes after its remaining turns, by induction on them. -/
theorem DummySwitcher.completes (turns : Nat)
    : Completes DummySwitcher.poll ⟨turns⟩ turns () := by
  induction turns with
  | zero => exact .ready rfl
  | succ turns ih => exact .pending rfl ih

/-! ### Spawning -/

/-- The first `tasks.length` slots hold the tasks in order, the others are free. -/
def Executor.Holds (self : Executor F N) (tasks : List F) : Prop :=
  ∀ slot : Fin N, self.taskQueue slot = tasks[slot.val]?

/-- A free slot after the tasks takes the next one. -/
theorem Executor.Holds.spawn {self : Executor F N} {tasks : List F} (holds : self.Holds tasks)
    (room : tasks.length < N) (task : F)
    : ∃ spawned, self.spawn task = some spawned ∧ spawned.Holds (tasks ++ [task]) := by
  have first : (List.finRange N).find? (fun i => (self.taskQueue i).isNone)
      = some ⟨tasks.length, room⟩ := by
    rw [List.find?_eq_some_iff_getElem]
    refine ⟨by simp [holds _], tasks.length, by simpa using room, by simp, ?_⟩
    intro earlier before
    simp [holds _, before]
  refine ⟨⟨Function.update self.taskQueue ⟨tasks.length, room⟩ (some task)⟩, ?_, ?_⟩
  · rw [Executor.spawn, first]
    rfl
  intro slot
  by_cases same : slot = ⟨tasks.length, room⟩
  · subst same
    simp
  · have other : slot.val ≠ tasks.length := fun equal => same (Fin.ext equal)
    refine (Function.update_of_ne same _ _).trans ?_
    rw [holds slot]
    rcases Nat.lt_or_gt_of_ne other with before | after
    · rw [List.getElem?_append_left before]
    · rw [List.getElem?_eq_none (Nat.le_of_lt after), List.getElem?_eq_none]
      simpa using Nat.succ_le_of_lt after

/-- Spawning keeps the order of the tasks, by induction on those still to come. -/
theorem Executor.Holds.spawnAll {self : Executor F N} {tasks rest : List F}
    (holds : self.Holds tasks) (room : tasks.length + rest.length ≤ N)
    : ∃ filled, self.spawnAll rest = some filled ∧ filled.Holds (tasks ++ rest) := by
  induction rest generalizing self tasks with
  | nil => exact ⟨self, rfl, by simpa using holds⟩
  | cons task rest ih =>
      rw [List.length_cons] at room
      obtain ⟨spawned, took, held⟩ := holds.spawn (by omega) task
      obtain ⟨filled, rested, full⟩ := ih held (by simp; omega)
      exact ⟨filled, by simp [Executor.spawnAll, took, rested], by simpa using full⟩

/-- `N` tasks fill an executor without tasks. -/
theorem Executor.spawnAll_ofFn {self : Executor F N} (free : ∀ slot, self.taskQueue slot = none)
    (tasks : Fin N → F)
    : ∃ filled, self.spawnAll (List.ofFn tasks) = some filled
      ∧ ∀ slot, filled.taskQueue slot = some (tasks slot) := by
  have holds : self.Holds [] := fun slot => by simp [free slot]
  have room : ([] : List F).length + (List.ofFn tasks).length ≤ N := by simp
  obtain ⟨filled, spawned, full⟩ := holds.spawnAll room
  exact ⟨filled, spawned, fun slot => by simp [full slot]⟩

/-! ### One visit of a slot -/

/-- The stages of the slot of a task: what the queue and the output hold, and the events so
far. A pending task has become one that completes with that many polls less.
-/
inductive Stage (poll : F → F × Poll α) (slot : Fin N) (task : F)
    : Option F → Option α → List (Event N) → Prop
  | live {now polled}
    (onward : ∀ count out, Completes poll task count out
      ↔ polled ≤ count ∧ Completes poll now (count - polled) out)
    : Stage poll slot task (some now) none (List.replicate polled (.pending slot))
  | done {count out} (completes : Completes poll task count out)
    : Stage poll slot task none (some out)
        (List.replicate count (.pending slot) ++ [.ready slot, .initialised slot])

/-- The events of one slot. -/
def ofSlot (slot : Fin N) (log : List (Event N)) : List (Event N) :=
  log.filter (fun event => event.slot = slot)

/-- What holds at the heads of the loop: every slot is at a stage of its task. -/
def Underway (poll : F → F × Poll α) (tasks : Fin N → F) (state : RunState F α N)
    (log : List (Event N)) : Prop :=
  ∀ slot, Stage poll slot (tasks slot) (state.taskQueue slot) (state.output slot) (ofSlot slot log)

variable {tasks : Fin N → F} {state : RunState F α N} {log : List (Event N)}

/-- The events of the visited slot go to that slot alone. -/
theorem ofSlot_append {events : List (Event N)} {slot : Fin N}
    (mine : ∀ event ∈ events, event.slot = slot) (other : Fin N)
    : ofSlot other (log ++ events) = ofSlot other log ++ if other = slot then events else [] := by
  have appended : ofSlot other (log ++ events) = ofSlot other log ++ ofSlot other events :=
    List.filter_append ..
  rw [appended]
  congr 1
  split
  next same => exact List.filter_eq_self.mpr (fun event member => by simp [mine event member, same])
  next different =>
    exact List.filter_eq_nil_iff.mpr (fun event member => by
      simp [mine event member, Ne.symm different])

/-- A visit that only touches the current slot leaves the others at their stages. -/
theorem Underway.stages (underway : Underway poll tasks state log) {next : RunState F α N}
    {events : List (Event N)} (mine : ∀ event ∈ events, event.slot = state.pos)
    (queue : ∀ slot, slot ≠ state.pos → next.taskQueue slot = state.taskQueue slot)
    (output : ∀ slot, slot ≠ state.pos → next.output slot = state.output slot)
    (here : Stage poll state.pos (tasks state.pos) (next.taskQueue state.pos)
      (next.output state.pos) (ofSlot state.pos log ++ events))
    : Underway poll tasks next (log ++ events) := by
  intro slot
  rw [ofSlot_append mine]
  by_cases same : slot = state.pos
  · subst same
    simpa using here
  · rw [queue slot same, output slot same, if_neg same, List.append_nil]
    exact underway slot

/-- A visit of a free slot changes nothing; a visit of a task takes it one stage on. -/
theorem Underway.visit (underway : Underway poll tasks state log)
    : Underway poll tasks (state.visit poll).1 (log ++ (state.visit poll).2) := by
  have stage := underway state.pos
  generalize held : state.taskQueue state.pos = task at stage
  generalize wrote : state.output state.pos = output at stage
  generalize seen : ofSlot state.pos log = events at stage
  cases stage with
  | done => simpa [RunState.visit, held] using underway
  | @live now polled onward =>
      rcases answer : poll now with ⟨next, _ | out⟩
      · refine underway.stages (by simp [RunState.visit, held, answer, Event.slot]) ?_ ?_ ?_
        · exact fun slot other => by simp [RunState.visit, held, answer, other]
        · exact fun slot other => by simp [RunState.visit, held, answer]
        · have longer : Stage poll state.pos (tasks state.pos) (some next) none
              (List.replicate (polled + 1) (.pending state.pos)) := by
            refine .live (fun count out => ?_)
            rw [onward, completes_iff_of_pending answer, Nat.sub_sub, ← and_assoc]
            exact and_congr_left (fun _ => by omega)
          rw [List.replicate_succ'] at longer
          simpa [RunState.visit, held, answer, seen, wrote] using longer
      · refine underway.stages (by simp [RunState.visit, held, answer, Event.slot]) ?_ ?_ ?_
        · exact fun slot other => by simp [RunState.visit, held, answer, other]
        · exact fun slot other => by simp [RunState.visit, held, answer, other]
        · have completes : Completes poll (tasks state.pos) polled out := by
            rw [onward, Nat.sub_self]
            exact ⟨le_rfl, .ready answer⟩
          simpa [RunState.visit, held, answer, seen] using Stage.done completes

/-- What a pending task has become is ready at last iff the task is. -/
theorem Underway.becomesReady_iff (underway : Underway poll tasks state log) {slot : Fin N}
    {now : F} (held : state.taskQueue slot = some now)
    : BecomesReady poll now ↔ BecomesReady poll (tasks slot) := by
  have stage := underway slot
  rw [held] at stage
  generalize state.output slot = output at stage
  generalize ofSlot slot log = events at stage
  cases stage with
  | @live _ polled onward =>
      constructor
      · rintro ⟨count, out, completes⟩
        refine ⟨polled + count, out, (onward _ _).mpr ⟨Nat.le_add_right .., ?_⟩⟩
        rwa [Nat.add_sub_cancel_left]
      · rintro ⟨count, out, completes⟩
        exact ⟨_, out, ((onward _ _).mp completes).2⟩

/-- A free slot has the output and the events of its task. -/
theorem Underway.finished (underway : Underway poll tasks state log) {slot : Fin N}
    (free : state.taskQueue slot = none)
    : ∃ count out, Completes poll (tasks slot) count out ∧ state.output slot = some out
      ∧ ofSlot slot log
        = List.replicate count (.pending slot) ++ [.ready slot, .initialised slot] := by
  have stage := underway slot
  rw [free] at stage
  generalize state.output slot = output at stage ⊢
  generalize ofSlot slot log = events at stage ⊢
  cases stage with
  | done completes => exact ⟨_, _, completes, rfl, rfl⟩

/-- Every slot is at a stage of its task at every head, by induction on the heads. -/
theorem Head.underway {self : Executor F N} (full : ∀ slot, self.taskQueue slot = some (tasks slot))
    (head : Head poll self state log)
    : Underway poll tasks state log := by
  induction head with
  | start slots =>
      intro slot
      have live : Stage poll slot (tasks slot) (some (tasks slot)) none
          (List.replicate 0 (.pending slot)) := .live (fun count out => by simp)
      simpa [Executor.start, full slot, ofSlot] using live
  | next _ _ ih => exact ih.visit

/-! ### Every task has its turn -/

/-- The slot `distance` places ahead of the current one. -/
def RunState.ahead (state : RunState F α N) (distance : Nat) : Fin N :=
  ⟨(state.pos + distance) % N, Nat.mod_lt _ state.pos.pos⟩

/-- Every slot is some places ahead. -/
theorem RunState.exists_ahead (state : RunState F α N) (slot : Fin N)
    : ∃ distance, state.ahead distance = slot := by
  refine ⟨N - state.pos + slot, Fin.ext ?_⟩
  have inside := state.pos.isLt
  have whole : state.pos + (N - state.pos + slot) = N + slot.val := by omega
  simp only [RunState.ahead, whole, Nat.add_mod_left]
  exact Nat.mod_eq_of_lt slot.isLt

/-- One step on, everything is one place nearer. -/
theorem RunState.ahead_advance (state : RunState F α N) (distance : Nat)
    : (state.visit poll).1.advance.ahead distance = state.ahead (distance + 1) := by
  have stays : (state.visit poll).1.pos = state.pos := by
    unfold RunState.visit
    split
    · rfl
    · split <;> rfl
  refine Fin.ext ?_
  simp only [RunState.ahead, RunState.advance, stays, Nat.mod_add_mod]
  congr 1
  omega

/-- A visit leaves the other slots alone. -/
theorem RunState.visit_other (poll : F → F × Poll α) {slot : Fin N} (other : slot ≠ state.pos)
    : (state.visit poll).1.taskQueue slot = state.taskQueue slot := by
  unfold RunState.visit
  split
  · rfl
  · split <;> simp [other]

/-- A free slot stays free. -/
theorem RunState.free_subset (poll : F → F × Poll α) (state : RunState F α N)
    : state.free ⊆ (state.visit poll).1.free := by
  intro slot free
  rw [RunState.mem_free] at free ⊢
  by_cases here : slot = state.pos
  · rw [RunState.visit, ← here, free]
    exact free
  · rw [RunState.visit_other poll here, free]

section Turns

variable {self : Executor F N} (never : ¬ self.Returns poll)
include never

/-- A call that never returns goes on from every head. -/
theorem Head.onward (head : Head poll self state log)
    : Head poll self (state.visit poll).1.advance (log ++ (state.visit poll).2) :=
  head.next (fun ready => never (head.returns ready))

/-- The turn of every task comes, by induction on its distance. -/
theorem Head.turn {slot : Fin N} {task : F} (head : Head poll self state log)
    (held : state.taskQueue slot = some task)
    : ∃ later events, Head poll self later events ∧ later.pos = slot
      ∧ later.taskQueue slot = some task ∧ state.free ⊆ later.free := by
  obtain ⟨distance, there⟩ := state.exists_ahead slot
  induction distance generalizing state log with
  | zero =>
      have here : state.ahead 0 = state.pos := Fin.ext (Nat.mod_eq_of_lt state.pos.isLt)
      exact ⟨state, log, head, here.symm.trans there, held, Finset.Subset.rfl⟩
  | succ distance ih =>
      by_cases here : slot = state.pos
      · exact ⟨state, log, head, here.symm, held, Finset.Subset.rfl⟩
      · obtain ⟨later, events, reached, turn, still, more⟩ := ih (head.onward never)
          ((RunState.visit_other poll here).trans held) ((state.ahead_advance distance).trans there)
        exact ⟨later, events, reached, turn, still, (state.free_subset poll).trans more⟩

/-- A task that completes leaves its slot, by induction on its polls. -/
theorem Head.freed {slot : Fin N} {task : F} {count : Nat} {out : α}
    (completes : Completes poll task count out) (head : Head poll self state log)
    (held : state.taskQueue slot = some task)
    : ∃ later events, Head poll self later events ∧ slot ∈ later.free
      ∧ state.free ⊆ later.free := by
  induction completes generalizing state log with
  | ready answer =>
      obtain ⟨later, events, reached, rfl, still, more⟩ := head.turn never held
      refine ⟨_, _, reached.onward never, ?_, more.trans (later.free_subset poll)⟩
      simp [RunState.mem_free, RunState.advance, RunState.visit, still, answer]
  | pending answer _ ih =>
      obtain ⟨later, events, reached, rfl, still, more⟩ := head.turn never held
      obtain ⟨last, log, ended, free, most⟩ := ih (reached.onward never)
        (by simp [RunState.advance, RunState.visit, still, answer])
      exact ⟨last, log, ended, free, (more.trans (later.free_subset poll)).trans most⟩

/-- All the slots whose tasks complete are free at some head, by induction on the slots. -/
theorem Executor.frees (slots : 0 < N) (full : ∀ slot, self.taskQueue slot = some (tasks slot))
    {wanted : Finset (Fin N)} (ready : ∀ slot ∈ wanted, BecomesReady poll (tasks slot))
    : ∃ state log, Head poll self state log ∧ wanted ⊆ state.free := by
  induction wanted using Finset.induction_on with
  | empty => exact ⟨_, _, .start slots, Finset.empty_subset _⟩
  | insert slot wanted _ ih =>
      obtain ⟨state, log, head, freed⟩ :=
        ih (fun slot member => ready slot (Finset.mem_insert_of_mem member))
      cases held : state.taskQueue slot with
      | none => exact ⟨state, log, head, Finset.insert_subset (RunState.mem_free.mpr held) freed⟩
      | some now =>
          obtain ⟨count, out, completes⟩ := ((head.underway full).becomesReady_iff held).mpr
            (ready slot (Finset.mem_insert_self ..))
          obtain ⟨later, events, reached, free, more⟩ := head.freed never completes held
          exact ⟨later, events, reached, Finset.insert_subset free (freed.trans more)⟩

end Turns

/-! ### When the call returns -/

open Classical in
/-- The slots of the tasks that become ready. -/
noncomputable def finishing (poll : F → F × Poll α) (tasks : Fin N → F) : Finset (Fin N) :=
  Finset.univ.filter (fun slot => BecomesReady poll (tasks slot))

theorem mem_finishing {slot : Fin N}
    : slot ∈ finishing poll tasks ↔ BecomesReady poll (tasks slot) := by
  simp [finishing]

theorem card_finishing (finish : ∀ slot, BecomesReady poll (tasks slot))
    : (finishing poll tasks).card = N := by
  rw [Finset.eq_univ_iff_forall.mpr (fun slot => mem_finishing.mpr (finish slot)), Finset.card_univ,
    Fintype.card_fin]

section Returns

variable {self : Executor F N} (full : ∀ slot, self.taskQueue slot = some (tasks slot))
include full

/-- As long as no task has been ready, the first one was pending, by induction on the heads. -/
theorem Head.first_pending (slots : 0 < N) (head : Head poll self state log)
    (none : readied (log ++ (state.visit poll).2) = 0)
    : (poll (tasks ⟨0, slots⟩)).2 = .pending := by
  induction head with
  | start =>
      have first : self.taskQueue ⟨0, slots⟩ = some (tasks ⟨0, slots⟩) := full _
      rcases answer : poll (tasks ⟨0, slots⟩) with ⟨next, _ | out⟩
      · rfl
      · simp [Executor.start, RunState.visit, first, answer, readied, List.countP_cons,
          Event.isReady] at none
  | next _ _ ih =>
      refine ih ?_
      rw [readied, List.countP_append] at none
      exact (Nat.add_eq_zero_iff.mp none).1

/-- The call returns iff as many tasks become ready as the low byte of `N` says, 0 standing for
256, or that byte is 0 and the first visit finds a pending task.
-/
theorem Executor.returns_iff (slots : 0 < N)
    : self.Returns poll
      ↔ (N - 1) % 256 < (finishing poll tasks).card
        ∨ 256 ∣ N ∧ (poll (tasks ⟨0, slots⟩)).2 = .pending := by
  have tasked (slot : Fin N) : self.taskQueue slot ≠ none := by simp [full slot]
  constructor
  · rintro ⟨fuel, report, returns⟩
    obtain ⟨_, tally, _, ⟨state, log, head, rfl, logged⟩, ready⟩ :=
      Executor.returned tasked returns
    have underway := (head.underway full).visit
    rw [← logged] at underway
    have most : readied report.log ≤ (finishing poll tasks).card := by
      rw [tally.emptied]
      refine Finset.card_le_card (fun slot free => mem_finishing.mpr ?_)
      obtain ⟨count, out, completes, _⟩ := underway.finished (RunState.mem_free.mp free)
      exact ⟨count, out, completes⟩
    by_cases enough : (N - 1) % 256 < (finishing poll tasks).card
    · exact .inl enough
    · refine .inr ⟨by omega, head.first_pending full slots ?_⟩
      rw [← logged]
      omega
  · rintro (enough | ⟨whole, pending⟩)
    · by_contra never
      obtain ⟨state, log, head, freed⟩ :=
        Executor.frees never slots full (fun slot => mem_finishing.mp)
      have below := head.readied_lt tasked
      rw [(head.tally tasked).emptied] at below
      have counted := Finset.card_le_card freed
      omega
    · have head : Head poll self (self.start slots) [] := .start slots
      refine head.returns (((head.tally tasked).visit poll).ready_iff.mpr ?_)
      have first : self.taskQueue ⟨0, slots⟩ = some (tasks ⟨0, slots⟩) := full _
      have none : readied ([] ++ ((self.start slots : RunState F α N).visit poll).2) = 0 := by
        rcases answer : poll (tasks ⟨0, slots⟩) with ⟨next, _ | out⟩
        · simp [Executor.start, RunState.visit, first, answer, readied, Event.isReady]
        · simp [answer] at pending
      omega

end Returns

/-! ### Rounds -/

/-- The report says of each slot what running its task alone would have done: the output is
the one `block_on` returns; the task was polled until it was ready and never again, and its
output slot was written once, then; no task is left.
-/
structure Sequential (poll : F → F × Poll α) (tasks : Fin N → F) (report : Report F α N)
    : Prop where
  output : ∀ slot, ∃ out bound, report.output slot = some out
    ∧ ∀ fuel, bound ≤ fuel → blockOn poll fuel (tasks slot) = some out
  life : ∀ slot, ∃ count, ofSlot slot report.log
    = List.replicate count (.pending slot) ++ [.ready slot, .initialised slot]
  emptied : ∀ slot, report.executor.taskQueue slot = none

/-- More fuel gives the same report, by induction on the fuel. -/
theorem runLoop_mono {fuel more : Nat} {state : RunState F α N} {log : List (Event N)}
    {report : Report F α N} (returns : runLoop poll fuel state log = some report)
    (enough : fuel ≤ more)
    : runLoop poll more state log = some report := by
  induction fuel generalizing more state log with
  | zero => cases returns
  | succ fuel ih =>
      obtain ⟨more, rfl⟩ := Nat.exists_eq_add_one.mpr (Nat.zero_lt_of_lt enough)
      rw [runLoop_succ] at returns ⊢
      split
      next ready => rwa [if_pos ready] at returns
      next onward => exact ih (by rwa [if_neg onward] at returns) (Nat.le_of_succ_le_succ enough)

/-- One round on an executor without tasks. -/
theorem Executor.round_sequential {self : Executor F N} (slots : 0 < N) (small : N ≤ 255)
    (free : ∀ slot, self.taskQueue slot = none) {tasks : Fin N → F}
    (finish : ∀ slot, BecomesReady poll (tasks slot))
    : ∃ filled bound report, self.spawnAll (List.ofFn tasks) = some filled
      ∧ (∀ fuel, bound ≤ fuel → filled.runReadyTasks poll fuel = some report)
      ∧ Sequential poll tasks report := by
  obtain ⟨filled, spawned, full⟩ := Executor.spawnAll_ofFn free tasks
  have ready : (N - 1) % 256 < (finishing poll tasks).card := by
    rw [card_finishing finish]
    omega
  obtain ⟨bound, report, returns⟩ := (Executor.returns_iff full slots).mpr (.inl ready)
  rw [Executor.runReadyTasks, dif_pos slots] at returns
  obtain ⟨state, log, head, last, rfl⟩ := (Head.start slots).returned returns
  have tally := (head.tally (fun slot => by simp [full slot])).visit poll
  have empty := tally.readied_eq_iff.mp (by
    have low := tally.ready_iff.mp last
    have most := tally.readied_le
    omega)
  have finished := fun slot => (head.underway full).visit.finished (empty slot)
  refine ⟨filled, bound, state.report poll log, spawned, ?_, ?_, ?_, empty⟩
  · intro fuel enough
    rw [Executor.runReadyTasks, dif_pos slots]
    exact runLoop_mono returns enough
  · intro slot
    obtain ⟨count, out, completes, output, _⟩ := finished slot
    exact ⟨out, count + 1, output, fun fuel => completes.blockOn⟩
  · intro slot
    obtain ⟨count, _, _, _, life⟩ := finished slot
    exact ⟨count, life⟩

/-- Every round of `N` tasks on one executor returns and runs its tasks as `block_on` would,
by induction on the rounds.
-/
theorem Executor.rounds_sequential {self : Executor F N} (slots : 0 < N) (small : N ≤ 255)
    (free : ∀ slot, self.taskQueue slot = none) {batches : List (Fin N → F)}
    (finish : ∀ tasks ∈ batches, ∀ slot, BecomesReady poll (tasks slot))
    : ∃ bound reports, (∀ fuel, bound ≤ fuel → self.rounds poll fuel batches = some reports)
      ∧ List.Forall₂ (Sequential poll) batches reports := by
  induction batches generalizing self with
  | nil => exact ⟨0, [], fun _ _ => rfl, .nil⟩
  | cons tasks rest ih =>
      obtain ⟨filled, bound, report, spawned, returns, sequential⟩ :=
        Executor.round_sequential slots small free (finish tasks List.mem_cons_self)
      obtain ⟨later, reports, repeats, sequentials⟩ := ih sequential.emptied
        (fun tasks member => finish tasks (List.mem_cons_of_mem _ member))
      refine ⟨max bound later, report :: reports, ?_, .cons sequential sequentials⟩
      intro fuel enough
      simp [Executor.rounds, spawned, returns fuel (le_of_max_le_left enough),
        repeats fuel (le_of_max_le_right enough)]

/-- Interleaved execution equals sequential execution: for `1 ≤ N ≤ 255` and tasks that each
become ready after finitely many polls, `N` tasks spawned into a new executor all run to
their ends in one `run_ready_tasks`, each as `block_on` would run it, and so do any further
rounds of `N` tasks on the same executor.
-/
theorem executor_rounds_sequential (poll : F → F × Poll α) (slots : 1 ≤ N) (small : N ≤ 255)
    (batches : List (Fin N → F))
    (finish : ∀ tasks ∈ batches, ∀ slot, ∃ count out, Completes poll (tasks slot) count out)
    : ∃ bound reports,
        (∀ fuel, bound ≤ fuel → Executor.new.rounds poll fuel batches = some reports)
        ∧ List.Forall₂ (Sequential poll) batches reports :=
  Executor.rounds_sequential slots small (fun _ => rfl) finish

/-- Two rounds of three switchers on one executor. -/
theorem executor_rounds_sequential_switchers
    : ∃ bound reports,
        (∀ fuel, bound ≤ fuel
          → (Executor.new (N := 3)).rounds DummySwitcher.poll fuel
              [fun slot => ⟨2 * slot⟩, fun slot => ⟨2 - slot⟩] = some reports)
        ∧ List.Forall₂ (Sequential DummySwitcher.poll)
            [fun slot => ⟨2 * slot⟩, fun slot => ⟨2 - slot⟩] reports :=
  executor_rounds_sequential DummySwitcher.poll (by decide) (by decide) _
    (fun tasks _ slot => ⟨(tasks slot).remaining, (), DummySwitcher.completes _⟩)

/-! ### Executors of any size -/

/-- With `N` tasks spawned, `run_ready_tasks` returns only after every task has been ready and
every output is initialised, and counts the ready tasks without wrapping, exactly if `N` is at
most 255 or the call never returns: fewer tasks become ready than the low byte of `N` says, 0
standing for 256, and if it is 0 the first task is ready at its first poll. Tasks that all
become ready leave only the first.
-/
theorem executor_finishes_iff (poll : F → F × Poll α) (slots : 1 ≤ N) (tasks : Fin N → F)
    : ∃ filled : Executor F N, Executor.new.spawnAll (List.ofFn tasks) = some filled
      ∧ (filled.Finishes poll
        ↔ N ≤ 255
          ∨ (finishing poll tasks).card ≤ (N - 1) % 256
            ∧ (256 ∣ N → (poll (tasks ⟨0, slots⟩)).2 ≠ .pending))
      ∧ ((∀ slot, ∃ count out, Completes poll (tasks slot) count out)
        → (filled.Finishes poll ↔ N ≤ 255)) := by
  have free (slot : Fin N) : (Executor.new : Executor F N).taskQueue slot = none := rfl
  obtain ⟨filled, spawned, full⟩ := Executor.spawnAll_ofFn free tasks
  have keeps : filled.Finishes poll ↔ N ≤ 255 ∨ ¬ filled.Returns poll :=
    Executor.finishes_iff (fun slot => by simp [full slot])
  rw [Executor.returns_iff full slots, not_or, not_lt, not_and] at keeps
  refine ⟨filled, spawned, keeps, fun finish => keeps.trans ?_⟩
  rw [card_finishing finish]
  omega

/-- Three switchers come back only when all of them are done. -/
theorem executor_finishes_three_switchers
    : ∃ filled : Executor DummySwitcher 3,
        Executor.new.spawnAll (List.ofFn fun slot : Fin 3 => ⟨2 * slot⟩) = some filled
        ∧ filled.Finishes DummySwitcher.poll := by
  obtain ⟨filled, spawned, _, finishes⟩ := executor_finishes_iff DummySwitcher.poll (by decide)
    (fun slot : Fin 3 => ⟨2 * slot⟩)
  exact ⟨filled, spawned,
    (finishes (fun slot => ⟨2 * slot, (), DummySwitcher.completes _⟩)).mpr (by decide)⟩

/-- With 256 switchers the low byte of `N` is 0: the first visit finds a pending task, and the
call returns with no output written.
-/
theorem executor_returns_uninitialised
    : ∃ (filled : Executor DummySwitcher 256) (report : Report DummySwitcher Unit 256),
        Executor.new.spawnAll (List.ofFn fun _ : Fin 256 => ⟨1⟩) = some filled
        ∧ filled.runReadyTasks DummySwitcher.poll 1 = some report
        ∧ ∀ slot, Event.ready slot ∉ report.log ∧ report.output slot = none := by
  have free (slot : Fin 256) : (Executor.new : Executor DummySwitcher 256).taskQueue slot = none :=
    rfl
  obtain ⟨filled, spawned, full⟩ := Executor.spawnAll_ofFn free (fun _ => ⟨1⟩)
  refine ⟨filled, ⟨fun _ => none, ⟨Function.update filled.taskQueue 0 (some ⟨0⟩)⟩, [.pending 0]⟩,
    spawned, ?_, fun slot => ⟨by simp, rfl⟩⟩
  have first : filled.taskQueue 0 = some ⟨1⟩ := full 0
  rw [Executor.runReadyTasks, dif_pos (by decide), runLoop_succ]
  simp [RunState.report, RunState.visit, DummySwitcher.poll, first]

end Alchemy.AsyncTask
