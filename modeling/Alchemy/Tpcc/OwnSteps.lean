import Alchemy.Tpcc.Refinement
import Alchemy.Tpcc.Rows

/-! One transaction of a run: what each step changes, which steps are its own, and the locks that
are left when it has returned.
-/

namespace Alchemy.Tpcc

open ByteImage Cache Oid Interaction Interleaving

variable {A τ : Type} [Money A] [DecidableEq τ]

/-! ### What a step changes -/

/-- The operation that a step completes, if it changes shared data. -/
def DbEvent.change : DbEvent A → Option (Step A)
  | .did step => if step.op.changes then some step else none
  | _ => none

/-- No record, as seen through the cache, and no index is changed. -/
def Db.Unchanged (config : DbConfig) (before after : Db A τ) : Prop :=
  after.shared = before.shared
  ∧ ∀ table rid record, before.Shows config table rid record ↔ after.Shows config table rid record

/-- A step changes what its operation changes, and nothing else. -/
structure Db.Does (config : DbConfig) (before : Db A τ) (event : DbEvent A) (after : Db A τ)
    : Prop where
  answers : ∀ step, event.change = some step → before.shared.Answers config step.op step.answer
  shared : after.shared = event.change.elim before.shared before.shared.after
  written : ∀ table rid record, after.shared.rows table rid = some record
    → after.Shows config table rid record
  kept : ∀ table rid record,
    (∀ step, event.change = some step → touched step ≠ some (table, rid))
    → (before.Shows config table rid record ↔ after.Shows config table rid record)

section Steps

variable {config : DbConfig} {db next : Db A τ} {ledger after : Ledger A τ} {t : τ}
  {event : DbEvent A} {table : Table} {rid : Rid} {record : table.Record A}

omit [DecidableEq τ] in
theorem Db.Does.unchanged (does : db.Does config event next) (quiet : event.change = none)
    : db.Unchanged config next := by
  refine ⟨?_, fun table rid record => does.kept table rid record ?_⟩
  · rw [does.shared, quiet]
    rfl
  · intro step changes
    rw [quiet] at changes
    cases changes

theorem Ledger.Moves.change (moves : ledger.Moves config t after event)
    : (∀ step, event.change = some step → ledger.shared.Answers config step.op step.answer)
      ∧ after.shared = event.change.elim ledger.shared ledger.shared.after := by
  cases moves with
  | rest | begin | finish => exact ⟨(fun step changes => by cases changes), rfl⟩
  | release => exact ⟨(fun step changes => by cases changes), rfl⟩
  | @did activity op onward answer here calls answers =>
      cases changing : op.changes with
      | true =>
          have change : (DbEvent.did ⟨op, answer⟩).change = some ⟨op, answer⟩ := if_pos changing
          rw [change]
          refine ⟨fun step changes => ?_, rfl⟩
          cases changes
          exact answers.shared
      | false =>
          have change : (DbEvent.did ⟨op, answer⟩).change = none :=
            if_neg (by simpa using changing)
          rw [change]
          exact ⟨(fun step changes => by cases changes), Shared.after_of_quiet _ changing⟩

theorem Ledger.Moves.returned {txn : Transaction A} {log : List (Step A)}
    {outcome : Except Stop Unit} (moves : ledger.Moves config t after (.returned txn log outcome))
    : after.active t = none
      ∧ ∃ activity, ledger.active t = some activity ∧ activity.txn = txn ∧ activity.log = log := by
  cases moves with
  | finish here => exact ⟨setActive_active .., _, here, rfl, rfl⟩

/-- What is shown depends on the row only. -/
theorem Db.Sound.shows_congr (sound : db.Sound config) (sound' : next.Sound config)
    (same : next.shared.rows table rid = db.shared.rows table rid)
    (shows : db.Shows config table rid record)
    : next.Shows config table rid record := by
  obtain ⟨published, content⟩ := shows
  obtain ⟨row, here⟩ := ((sound table).published rid).mp published
  have shown := sound.shows_row here
  have shown' := sound'.shows_row (same.trans here)
  have fields := shown.2.unique (sound table).consistent published content
  exact ⟨shown'.1, shown'.2.same fields⟩

theorem Db.Sound.does {action : τ × DbMove A} (sound : db.Sound config)
    (taken : dbStep config db action = some (next, event))
    : db.Does config event next := by
  obtain ⟨moves, sound'⟩ := sound.step taken
  obtain ⟨answers, shared⟩ := moves.change
  have rows (table : Table) (rid : Rid)
      (untouched : ∀ step, event.change = some step → touched step ≠ some (table, rid))
      : next.shared.rows table rid = db.shared.rows table rid := by
    rw [show next.shared = _ from shared]
    cases changes : event.change with
    | none => rfl
    | some step => exact Shared.after_rows (untouched step changes)
  refine ⟨answers, shared, fun table rid record row => sound'.shows_row row, ?_⟩
  intro table rid record untouched
  have same := rows table rid untouched
  exact ⟨sound.shows_congr sound' same, sound'.shows_congr sound same.symm⟩

/-- A task that is in no transaction holds no lock. -/
theorem Db.Sound.unlocked (sound : db.Sound config) (idle : db.tasks t = none)
    (table : Table) (rid : Rid) (kind : GuardKind)
    : ⟨t, kind⟩ ∉ ((db.caches table).oids rid).guards := by
  have resting : (db.caches table).pc t = .idle := by
    rcases (sound table).inside t with resting | ⟨_, _, _, _, running, _⟩
    · exact resting
    · rw [idle] at running
      cases running
  intro member
  have held := (sound table).accounted.mem_held (by rw [resting]; cases kind <;> rfl) member
  have none : db.ledger.active t = none := congrArg (Option.map Task.toActivity) idle
  rw [Ledger.held, none] at held
  cases held

end Steps

/-! ### One transaction -/

def DbEvent.isReturned : DbEvent A → Bool
  | .returned _ _ _ => true
  | _ => false

/-- In a reachable state a task begins a transaction. It takes its steps among those of other
tasks, and returns.
-/
structure Execution (config : DbConfig) (t : τ) (txn : Transaction A) where
  storage : Table → Rid → Image Byte
  hand : Table → τ → Nat
  earlier : List ((τ × DbMove A) × DbEvent A)
  before : Db A τ
  start : Db A τ
  trace : List ((τ × DbMove A) × DbEvent A)
  last : Db A τ
  move : DbMove A
  final : Db A τ
  log : List (Step A)
  outcome : Except Stop Unit
  reached : Run (dbStep config) (Db.empty storage hand) earlier before
  begun : dbStep config before (t, .begin txn) = some (start, .began txn)
  went : Run (dbStep config) start trace last
  inside : ∀ entry ∈ history trace, entry.1 = t → entry.2.isReturned = false
  returned : dbStep config last (t, move) = some (final, .returned txn log outcome)

/-- The operations that a task has completed. -/
def ownSteps (t : τ) (past : History A τ) : List (Step A) :=
  past.filterMap (fun entry => if entry.1 = t then entry.2.step? else none)

/-- Those of them that change shared data. -/
def ownChanges (t : τ) (past : History A τ) : List (Step A) :=
  (ownSteps t past).filter (fun step => step.op.changes)

theorem ownSteps_append (t mover : τ) (past : History A τ) (event : DbEvent A)
    : ownSteps t (past ++ [(mover, event)])
      = ownSteps t past ++ if mover = t then event.step?.toList else [] := by
  rw [ownSteps, List.filterMap_append, ownSteps]
  by_cases same : mover = t
  · cases step : event.step? <;> simp [same, step]
  · simp [same]

/-- A task is in this transaction, and has logged its own steps. -/
def LogsOwn (t : τ) (txn : Transaction A) (past : History A τ) (ledger : Ledger A τ) : Prop :=
  ∃ activity, ledger.active t = some activity ∧ activity.txn = txn
    ∧ activity.log.reverse = ownSteps t past

section Own

variable {config : DbConfig} {t mover : τ} {txn : Transaction A} {past : History A τ}
  {ledger next : Ledger A τ} {event : DbEvent A}

theorem LogsOwn.step (logs : LogsOwn t txn past ledger)
    (moves : ledger.Moves config mover next event)
    (inside : mover = t → event.isReturned = false)
    : LogsOwn t txn (past ++ [(mover, event)]) next := by
  obtain ⟨activity, here, isTxn, logged⟩ := logs
  by_cases same : mover = t
  · subst same
    have own (step : Step A) (rest : Remainder A) (did : event.step? = some step)
        : LogsOwn mover txn (past ++ [(mover, event)])
            (ledger.record mover activity step rest) := by
      refine ⟨_, Ledger.record_active .., isTxn, ?_⟩
      rw [List.reverse_cons, logged, ownSteps_append, if_pos rfl, did]
      rfl
    cases moves with
    | rest =>
        refine ⟨activity, here, isTxn, ?_⟩
        rw [logged, ownSteps_append, if_pos rfl]
        simp [DbEvent.step?]
    | begin idle =>
        rw [here] at idle
        cases idle
    | did active =>
        obtain rfl := Option.some.inj (here.symm.trans active)
        exact own _ _ rfl
    | release active =>
        obtain rfl := Option.some.inj (here.symm.trans active)
        exact own _ _ rfl
    | finish => exact absurd (inside rfl) (by simp [DbEvent.isReturned])
  · refine ⟨activity, (moves.active_other (Ne.symm same)).trans here, isTxn, ?_⟩
    rw [logged, ownSteps_append, if_neg same, List.append_nil]

end Own

namespace Execution

variable {config : DbConfig} {t : τ} {txn : Transaction A} (execution : Execution config t txn)

/-- What has happened when the transaction has returned. -/
def past : History A τ :=
  history (execution.earlier ++ [((t, .begin txn), .began txn)] ++ execution.trace
    ++ [((t, execution.move), .returned txn execution.log execution.outcome)])

theorem run_start
    : Run (dbStep config) (Db.empty execution.storage execution.hand)
        (execution.earlier ++ [((t, .begin txn), .began txn)]) execution.start :=
  execution.reached.extend execution.begun

theorem run_final
    : Run (dbStep config) (Db.empty execution.storage execution.hand)
        (execution.earlier ++ [((t, .begin txn), .began txn)] ++ execution.trace
          ++ [((t, execution.move), .returned txn execution.log execution.outcome)])
        execution.final :=
  (execution.run_start.trans execution.went).extend execution.returned

theorem ledger_final : Ledger.Run config execution.past execution.final.ledger :=
  (ledger_run execution.run_final).2

theorem returned_mem : (t, .returned txn execution.log execution.outcome) ∈ execution.past := by
  rw [past, history, List.map_append]
  exact List.mem_append_right _ List.mem_cons_self

theorem sound_last : execution.last.Sound config :=
  (ledger_run (execution.run_start.trans execution.went)).1

theorem moves_begun
    : execution.before.ledger.Moves config t execution.start.ledger (.began txn) :=
  ((ledger_run execution.reached).1.step execution.begun).1

theorem moves_returned
    : execution.last.ledger.Moves config t execution.final.ledger
        (.returned txn execution.log execution.outcome) :=
  (execution.sound_last.step execution.returned).1

/-- Every step changes what its event says. -/
theorem does
    : Along (dbStep config) execution.start execution.trace
        (fun before _ event after => before.Does config event after) := by
  intro earlier action event later before after _ reached taken
  exact (ledger_run (execution.run_start.trans reached)).1.does taken

/-- The task of the transaction holds no lock in the end. -/
theorem unlocked (table : Table) (rid : Rid) (kind : GuardKind)
    : ⟨t, kind⟩ ∉ ((execution.final.caches table).oids rid).guards := by
  exact (ledger_run execution.run_final).1.unlocked
    (Option.map_eq_none_iff.mp execution.moves_returned.returned.1) table rid kind

/-- The log of the transaction are its own steps. -/
theorem log_eq : execution.log.reverse = ownSteps t (history execution.trace) := by
  have begun : LogsOwn t txn (history ([] : List ((τ × DbMove A) × DbEvent A)))
      execution.start.ledger := by
    have moves := execution.moves_begun
    generalize execution.start.ledger = ledger at moves
    cases moves with
    | begin => exact ⟨_, Ledger.setActive_active .., rfl, rfl⟩
  have logs {trace : List ((τ × DbMove A) × DbEvent A)} {db : Db A τ}
      (run : Run (dbStep config) execution.start trace db)
      (inside : ∀ entry ∈ history trace, entry.1 = t → entry.2.isReturned = false)
      : LogsOwn t txn (history trace) db.ledger := by
    induction run with
    | start => exact begun
    | @extend trace db action next event earlier taken ih =>
        have sound := (ledger_run (execution.run_start.trans earlier)).1
        rw [history, List.map_append] at inside ⊢
        refine (ih (fun entry member => inside entry (List.mem_append_left _ member))).step
          (sound.step taken).1 ?_
        exact inside _ (List.mem_append_right _ List.mem_cons_self)
  obtain ⟨activity, here, _, logged⟩ := logs execution.went execution.inside
  obtain ⟨_, returning, active, _, same⟩ := execution.moves_returned.returned
  rw [Option.some.inj (here.symm.trans active), same] at logged
  exact logged

/-- Its changes are its own changes. -/
theorem changes_eq : changes execution.log = ownChanges t (history execution.trace) := by
  rw [ownChanges, ← execution.log_eq, changes, List.filter_reverse]

/-- If the transaction changes nothing, none of its steps does. -/
theorem unchanged (nothing : changes execution.log = [])
    : Along (dbStep config) execution.start execution.trace
        (fun before action _ after => action.1 = t → before.Unchanged config after) := by
  intro earlier action event later before after split reached taken own
  refine (execution.does earlier action event later before after split reached taken).unchanged ?_
  cases event with
  | pending | began | returned => rfl
  | did step =>
      refine if_neg (fun changing => ?_)
      have member : step ∈ ownChanges t (history execution.trace) := by
        refine List.mem_filter.mpr ⟨List.mem_filterMap.mpr ⟨(t, .did step), ?_, if_pos rfl⟩, changing⟩
        rw [split, history]
        exact List.mem_map.mpr ⟨(action, .did step), by simp, by rw [own]⟩
      rw [← execution.changes_eq, nothing] at member
      cases member

end Execution

/-! ### Every transaction of a run -/

section Runs

variable {config : DbConfig} {t : τ} {txn : Transaction A} {ledger after : Ledger A τ}
  {event : DbEvent A} {db next : Db A τ} {storage : Table → Rid → Image Byte}
  {hand : Table → τ → Nat} {trace : List ((τ × DbMove A) × DbEvent A)}

/-- A transaction begins with `begin`. -/
theorem began_move {move : DbMove A} (idle : db.tasks t = none)
    (taken : dbStep config db (t, move) = some (next, .began txn))
    : move = .begin txn := by
  cases move with
  | begin other =>
      simp only [dbStep, Db.step, idle, Option.some.injEq, Prod.mk.injEq, DbEvent.began.injEq]
        at taken
      rw [taken.2]
  | go | release => simp [dbStep, Db.step, Db.go, idle] at taken
  | shift => simp [dbStep, Db.step] at taken

/-- In the run to this state the task has begun the transaction, and has not returned since. -/
def Begun (config : DbConfig) (storage : Table → Rid → Image Byte) (hand : Table → τ → Nat)
    (t : τ) (txn : Transaction A) (trace : List ((τ × DbMove A) × DbEvent A)) (db : Db A τ)
    : Prop :=
  ∃ earlier before start since,
    trace = earlier ++ [((t, .begin txn), .began txn)] ++ since
    ∧ Run (dbStep config) (Db.empty storage hand) earlier before
    ∧ dbStep config before (t, .begin txn) = some (start, .began txn)
    ∧ Run (dbStep config) start since db
    ∧ ∀ entry ∈ history since, entry.1 = t → entry.2.isReturned = false

theorem Begun.step {action : τ × DbMove A} (begun : Begun config storage hand t txn trace db)
    (taken : dbStep config db action = some (next, event))
    (inside : action.1 = t → event.isReturned = false)
    : Begun config storage hand t txn (trace ++ [(action, event)]) next := by
  obtain ⟨earlier, before, start, since, rfl, reached, begun, went, all⟩ := begun
  refine ⟨earlier, before, start, since ++ [(action, event)], by simp, reached, begun,
    went.extend taken, fun entry member own => ?_⟩
  rw [history, List.map_append] at member
  rcases List.mem_append.mp member with sooner | now
  · exact all entry sooner own
  · cases List.mem_singleton.mp now
    exact inside own

/-- A task that is in a transaction has begun it. -/
theorem begun_of_active {activity : Activity A}
    (run : Run (dbStep config) (Db.empty storage hand) trace db)
    (here : db.ledger.active t = some activity)
    : Begun config storage hand t activity.txn trace db := by
  induction run generalizing activity with
  | start => cases here
  | @extend trace db action next event earlier taken ih =>
      have moves := ((ledger_run earlier).1.step taken).1
      obtain ⟨mover, move⟩ := action
      cases moves.comes here with
      | stays here resting => exact (ih here).step taken (fun own => by rw [resting own]; rfl)
      | begins idle =>
          obtain rfl := began_move (Option.map_eq_none_iff.mp idle) taken
          exact ⟨trace, db, next, [], by simp, earlier, taken, .start, by simp [history]⟩
      | did active | release active =>
          have begun := ih active
          exact begun.step taken (fun _ => rfl)

/-- A transaction that has returned has an execution. -/
theorem exists_execution_of_mem {log : List (Step A)} {outcome : Except Stop Unit}
    (run : Run (dbStep config) (Db.empty storage hand) trace db)
    (returned : (t, .returned txn log outcome) ∈ history trace)
    : ∃ execution : Execution config t txn, execution.outcome = outcome ∧ execution.log = log
      ∧ execution.past <+: history trace := by
  obtain ⟨⟨⟨_, move⟩, _⟩, member, same⟩ := List.mem_map.mp returned
  obtain ⟨rfl, rfl⟩ := Prod.mk.inj same
  obtain ⟨before, after, rfl⟩ := List.append_of_mem member
  rw [List.append_cons] at run
  obtain ⟨middle, first, _⟩ := run.split
  obtain ⟨state, reached, taken⟩ := first.last_step
  obtain ⟨_, activity, here, rfl, _⟩ := ((ledger_run reached).1.step taken).1.returned
  obtain ⟨earlier, start, began, since, rfl, loads, begun, went, inside⟩ :=
    begun_of_active reached here
  refine ⟨⟨storage, hand, earlier, start, began, since, state, move, middle, log, outcome, loads,
    begun, went, inside, taken⟩, rfl, rfl, ?_⟩
  simp [Execution.past, history]

end Runs

end Alchemy.Tpcc
