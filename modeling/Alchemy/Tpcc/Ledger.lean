import Alchemy.Cache.Callers
import Alchemy.Tpcc.Database

/-! The database without caches: records, indexes and the logs of the running transactions.
An operation takes one step here. Its answer is what the records and the indexes say, and a
lock is granted only if it is free. The locks give every transaction that holds a guard a
record nobody else writes to, which is all a program relies on.
-/

namespace Alchemy.Tpcc

open Cache Oid Interaction

variable {A τ : Type} [Money A] [DecidableEq τ]

/-! ### The machine -/

/-- Records and indexes, and the transactions that run. -/
structure Ledger (A τ : Type) [Money A] where
  shared : Shared A
  active : τ → Option (Activity A)

namespace Ledger

def empty : Ledger A τ where
  shared := .empty
  active := fun _ => none

def setActive (ledger : Ledger A τ) (t : τ) (activity : Option (Activity A)) : Ledger A τ :=
  { ledger with active := Function.update ledger.active t activity }

/-- A task logs a returned operation and goes on. -/
def record (ledger : Ledger A τ) (t : τ) (activity : Activity A) (step : Step A)
    (rest : Remainder A)
    : Ledger A τ where
  shared := ledger.shared.after step
  active :=
    Function.update ledger.active t
      (some { txn := activity.txn, log := step :: activity.log, rest })

/-- The guards of a task on a table. -/
def held (ledger : Ledger A τ) (t : τ) (table : Table) : List (Rid × GuardKind) :=
  match ledger.active t with
  | none => []
  | some activity => guards table activity.log

/-- No task holds a guard that excludes one of this kind. -/
def Free (ledger : Ledger A τ) (table : Table) (rid : Rid) (kind : GuardKind) : Prop :=
  Unheld (fun t => ledger.held t table) rid kind

/-- What an operation of task `t` can answer. -/
def Answers (config : DbConfig) (ledger : Ledger A τ) (t : τ) : (op : Op A) → op.Answer → Prop
  | .get table key, answer => answer = (ledger.shared.index table)[key]?
  | .lock table rid kind, .ok _ =>
      ledger.Free table rid kind ∧ ∃ record, ledger.shared.rows table rid = some record
  | .lock _ _ _, .error error => Busy error
  | .read _ _ _, _ => True
  | .readAndPromote _ _ _, _ => True
  | .getValue table rid query name, answer =>
      (∃ kind, (rid, kind) ∈ ledger.held t table)
      ∧ ∃ record, ledger.shared.rows table rid = some record
        ∧ Table.Reads record query name answer
  | .getValueMut table rid query name _, answer =>
      (rid, .write) ∈ ledger.held t table
      ∧ ∃ record, ledger.shared.rows table rid = some record
        ∧ Table.Reads record query name answer
  | .insert table _, rid =>
      ledger.Free table rid .write ∧ ledger.shared.rows table rid = none
  | .indexInsert table key _, answer => answer = (ledger.shared.index table)[key]?
  | .drop table rid kind, _ => (rid, kind) ∈ ledger.held t table
  | .range table low high length, answer =>
      answer = (config.scan.range (ledger.shared.index table) low high length).map Prod.snd
  | .lastNameInsert key _, answer => answer = ledger.shared.cLastIdx[key]?
  | .lastNameRange low high length, answer =>
      answer = (config.scan.range ledger.shared.cLastIdx low high length).map Prod.snd
  | .newOrderInsert key _, answer => answer = ledger.shared.newOrder[key]?
  | .newOrderRange low high length, answer =>
      answer = config.scan.range ledger.shared.newOrder low high length
  | .newOrderRemove key, answer => answer = ledger.shared.newOrder[key]?

/-- One step of task `t`. A finished program releases its guards, in any order, and returns. -/
inductive Moves (config : DbConfig) (ledger : Ledger A τ) (t : τ)
    : Ledger A τ → DbEvent A → Prop
  | rest : Moves config ledger t ledger .pending
  | begin {txn : Transaction A} (idle : ledger.active t = none)
    : Moves config ledger t
        (ledger.setActive t (some { txn, log := [], rest := txn.program })) (.began txn)
  | did {activity : Activity A} {op : Op A} {next : op.Answer → Remainder A}
    {answer : op.Answer} (here : ledger.active t = some activity)
    (calls : activity.rest = .call op next) (answers : ledger.Answers config t op answer)
    : Moves config ledger t (ledger.record t activity ⟨op, answer⟩ (next answer))
        (.did ⟨op, answer⟩)
  | release {activity : Activity A} {outcome : Except Stop Unit} {table : Table} {rid : Rid}
    {kind : GuardKind} (here : ledger.active t = some activity)
    (ended : activity.rest = .pure outcome) (member : (rid, kind) ∈ guards table activity.log)
    : Moves config ledger t
        (ledger.record t activity ⟨.drop table rid kind, ()⟩ activity.rest)
        (.did ⟨.drop table rid kind, ()⟩)
  | finish {activity : Activity A} {outcome : Except Stop Unit}
    (here : ledger.active t = some activity) (ended : activity.rest = .pure outcome)
    (free : ∀ table, guards table activity.log = [])
    : Moves config ledger t (ledger.setActive t none)
        (.returned activity.txn activity.log outcome)

/-- The ledgers that can be reached from the empty one, with what the tasks did. -/
inductive Run (config : DbConfig) : History A τ → Ledger A τ → Prop
  | start : Run config [] empty
  | extend {past ledger t next event} (earlier : Run config past ledger)
    (moves : ledger.Moves config t next event)
    : Run config (past ++ [(t, event)]) next

end Ledger

/-! ### Guards -/

/-- The guard an operation takes. -/
def gained : Step A → Option (Table × Rid × GuardKind)
  | ⟨.lock table rid kind, .ok _⟩ => some (table, rid, kind)
  | ⟨.insert table _, rid⟩ => some (table, rid, .write)
  | _ => none

omit [Money A] in
/-- A guard that is there after an operation was there before, or the operation took it. -/
theorem mem_guardsAfter {table : Table} {held : List (Rid × GuardKind)} {step : Step A}
    {rid : Rid} {kind : GuardKind} (member : (rid, kind) ∈ guardsAfter table held step)
    : (rid, kind) ∈ held ∨ gained step = some (table, rid, kind) := by
  obtain ⟨op, answer⟩ := step
  cases op with
  | lock target other taken =>
      cases answer with
      | error error => exact .inl member
      | ok =>
          simp only [guardsAfter] at member
          split at member
          · next same =>
              subst same
              rcases List.mem_cons.mp member with new | old
              · obtain ⟨rfl, rfl⟩ := Prod.mk.inj new
                exact .inr rfl
              · exact .inl old
          · exact .inl member
  | insert target record =>
      simp only [guardsAfter] at member
      split at member
      · next same =>
          subst same
          rcases List.mem_cons.mp member with new | old
          · obtain ⟨rfl, rfl⟩ := Prod.mk.inj new
            exact .inr rfl
          · exact .inl old
      · exact .inl member
  | drop target other taken =>
      simp only [guardsAfter] at member
      split at member
      · exact .inl (List.mem_of_mem_erase member)
      · exact .inl member
  | _ => exact .inl member

namespace Ledger

variable {config : DbConfig} {ledger next : Ledger A τ} {t other : τ} {event : DbEvent A}
  {past : History A τ} {activity : Activity A} {step : Step A} {rest : Remainder A}
  {table : Table} {rid : Rid} {kind : GuardKind}

omit [DecidableEq τ] in
theorem held_of_active (here : ledger.active t = some activity) (table : Table)
    : ledger.held t table = guards table activity.log := by
  rw [held, here]

theorem record_active (ledger : Ledger A τ) (t : τ) (activity : Activity A) (step : Step A)
    (rest : Remainder A)
    : (ledger.record t activity step rest).active t
      = some { txn := activity.txn, log := step :: activity.log, rest } :=
  Function.update_self ..

theorem record_other (different : other ≠ t)
    : (ledger.record t activity step rest).active other = ledger.active other :=
  Function.update_of_ne different ..

theorem held_record (here : ledger.active t = some activity) (table : Table)
    : (ledger.record t activity step rest).held t table
      = guardsAfter table (ledger.held t table) step := by
  rw [held_of_active (record_active ..), held_of_active here]
  rfl

theorem setActive_active (ledger : Ledger A τ) (t : τ) (activity : Option (Activity A))
    : (ledger.setActive t activity).active t = activity :=
  Function.update_self ..

theorem setActive_other {activity : Option (Activity A)} (different : other ≠ t)
    : (ledger.setActive t activity).active other = ledger.active other :=
  Function.update_of_ne different ..

/-- A step is a step of one task. -/
theorem Moves.active_other (moves : ledger.Moves config t next event) (different : other ≠ t)
    : next.active other = ledger.active other := by
  cases moves with
  | rest => rfl
  | begin | finish => exact setActive_other different
  | did | release => exact record_other different

/-- How a task comes to what it is doing after a step: it was there and has not moved, or it was its
step.
-/
inductive Comes (config : DbConfig) (ledger : Ledger A τ) (t : τ)
    : τ → DbEvent A → Activity A → Prop
  | stays {mover event activity} (here : ledger.active t = some activity)
    (resting : mover = t → event = .pending)
    : Comes config ledger t mover event activity
  | begins {txn : Transaction A} (idle : ledger.active t = none)
    : Comes config ledger t t (.began txn) { txn, log := [], rest := txn.program }
  | did {before : Activity A} {op : Op A} {onward : op.Answer → Remainder A} {answer : op.Answer}
    (here : ledger.active t = some before) (calls : before.rest = .call op onward)
    (answers : ledger.Answers config t op answer)
    : Comes config ledger t t (.did ⟨op, answer⟩)
        { txn := before.txn, log := ⟨op, answer⟩ :: before.log, rest := onward answer }
  | release {before : Activity A} {outcome : Except Stop Unit} {table : Table} {rid : Rid}
    {kind : GuardKind} (here : ledger.active t = some before)
    (ended : before.rest = .pure outcome) (member : (rid, kind) ∈ guards table before.log)
    : Comes config ledger t t (.did ⟨.drop table rid kind, ()⟩)
        { txn := before.txn, log := ⟨.drop table rid kind, ()⟩ :: before.log, rest := before.rest }

theorem Moves.comes {mover : τ} {activity : Activity A}
    (moves : ledger.Moves config mover next event) (here : next.active t = some activity)
    : ledger.Comes config t mover event activity := by
  by_cases same : t = mover
  · subst same
    cases moves with
    | rest => exact .stays here (fun _ => rfl)
    | begin idle =>
        rw [setActive_active] at here
        cases here
        exact .begins idle
    | finish =>
        rw [setActive_active] at here
        cases here
    | did active calls answers =>
        rw [record_active] at here
        cases here
        exact .did active calls answers
    | release active ended member =>
        rw [record_active] at here
        cases here
        exact .release active ended member
  · exact .stays ((moves.active_other same).symm.trans here) (fun own => absurd own.symm same)

theorem Moves.held_other (moves : ledger.Moves config t next event) (different : other ≠ t)
    (table : Table)
    : next.held other table = ledger.held other table := by
  rw [Ledger.held, Ledger.held, moves.active_other different]

omit [DecidableEq τ] in
/-- A lock or an insertion finds its record free. -/
theorem Answers.free {op : Op A} {answer : op.Answer}
    (answers : ledger.Answers config t op answer)
    (taken : gained ⟨op, answer⟩ = some (table, rid, kind))
    : ledger.Free table rid kind := by
  cases op with
  | lock target other mode =>
      cases answer with
      | error error => cases taken
      | ok =>
          cases taken
          exact answers.1
  | insert target record =>
      cases taken
      exact answers.1
  | _ => cases taken

/-- What a task holds after a step it held before, or it has just taken what was free. -/
theorem Moves.held (moves : ledger.Moves config t next event)
    (member : (rid, kind) ∈ next.held other table)
    : (rid, kind) ∈ ledger.held other table
      ∨ (other = t ∧ ledger.Free table rid kind
        ∧ ∃ step, event = .did step ∧ gained step = some (table, rid, kind)) := by
  by_cases same : other = t
  · subst same
    cases moves with
    | rest => exact .inl member
    | begin =>
        rw [held_of_active (setActive_active ..)] at member
        cases member
    | finish =>
        rw [Ledger.held, setActive_active] at member
        cases member
    | did here calls answers =>
        rw [held_record here] at member
        exact (mem_guardsAfter member).imp id
          (fun taken => ⟨rfl, answers.free taken, _, rfl, taken⟩)
    | release here =>
        rw [held_record here] at member
        exact .inl ((mem_guardsAfter member).resolve_right (by simp [gained]))
  · rw [moves.held_other same] at member
    exact .inl member

/-- A writer is alone. -/
def Exclusive (ledger : Ledger A τ) : Prop :=
  ∀ t other table rid kind, (rid, .write) ∈ ledger.held t table
    → (rid, kind) ∈ ledger.held other table → other = t ∧ kind = .write

theorem Moves.exclusive (moves : ledger.Moves config t next event)
    (exclusive : ledger.Exclusive)
    : next.Exclusive := by
  intro first second table rid kind writes holds
  rcases moves.held writes with before | ⟨rfl, free, step, rfl, took⟩
  · rcases moves.held holds with also | ⟨rfl, free, _⟩
    · exact exclusive first second table rid kind before also
    · cases kind with
      | read => exact absurd before (free first)
      | write => exact absurd before (free first .write)
  · rcases moves.held holds with also | ⟨rfl, _, _, ⟨⟩, also⟩
    · exact absurd also (free second kind)
    · rw [took] at also
      cases also
      exact ⟨rfl, rfl⟩

theorem Run.exclusive (run : Run config past ledger) : ledger.Exclusive := by
  induction run with
  | start =>
      intro first second table rid kind writes
      cases writes
  | extend _ moves ih => exact moves.exclusive ih

end Ledger

/-! ### Records -/

/-- The record an operation inserts or writes to. -/
def touched : Step A → Option (Table × Rid)
  | ⟨.insert table _, rid⟩ => some (table, rid)
  | ⟨.getValueMut table rid _ _ _, _⟩ => some (table, rid)
  | _ => none

namespace Shared

variable {shared : Shared A} {step : Step A} {table : Table} {rid : Rid}

omit [Money A] in
@[simp]
theorem setRow_rows (shared : Shared A) (table : Table) (rid : Rid)
    (record : Option (table.Record A))
    : (shared.setRow table rid record).rows table rid = record := by
  simp [setRow]

omit [Money A] in
theorem setRow_other {target : Table} {written : Rid} {record : Option (target.Record A)}
    (apart : (target, written) ≠ (table, rid))
    : (shared.setRow target written record).rows table rid = shared.rows table rid := by
  by_cases same : table = target
  · subst same
    have different : rid ≠ written := by
      rintro rfl
      exact apart rfl
    simp [setRow, different]
  · simp [setRow, same]

omit [Money A] in
theorem after_rows (apart : touched step ≠ some (table, rid))
    : (shared.after step).rows table rid = shared.rows table rid := by
  obtain ⟨op, answer⟩ := step
  cases op with
  | insert target record => exact setRow_other (fun same => apart (congrArg some same))
  | getValueMut target written query name value =>
      exact setRow_other (fun same => apart (congrArg some same))
  | _ => rfl

end Shared

namespace Ledger

variable {config : DbConfig} {ledger next : Ledger A τ} {t other : τ} {event : DbEvent A}
  {past : History A τ} {activity : Activity A} {step : Step A} {rest : Remainder A}
  {table : Table} {rid : Rid} {kind : GuardKind} {record : table.Record A}

omit [DecidableEq τ] in
/-- An operation inserts a record that is not there, or writes to one under a write guard. -/
theorem Answers.touches {op : Op A} {answer : op.Answer}
    (answers : ledger.Answers config t op answer)
    (touches : touched ⟨op, answer⟩ = some (table, rid))
    : ledger.shared.rows table rid = none ∨ (rid, .write) ∈ ledger.held t table := by
  cases op with
  | insert target row =>
      cases touches
      exact .inl answers.2
  | getValueMut target written query name value =>
      cases touches
      exact .inr answers.1
  | _ => cases touches

/-- Nobody writes to a record on which another task holds a guard. -/
theorem Moves.row_kept (moves : ledger.Moves config t next event)
    (exclusive : ledger.Exclusive) (different : other ≠ t)
    (holds : (rid, kind) ∈ ledger.held other table)
    (row : ledger.shared.rows table rid = some record)
    : next.shared.rows table rid = some record := by
  cases moves with
  | rest | begin | finish | release => exact row
  | did here calls answers =>
      refine (Shared.after_rows ?_).trans row
      intro touches
      rcases answers.touches touches with absent | writes
      · rw [row] at absent
        cases absent
      · exact different (exclusive t other table rid kind writes holds).1

/-- The value a task has just read is still there. -/
def LastRead (ledger : Ledger A τ) : Prop :=
  ∀ t activity table rid query name value earlier,
    ledger.active t = some activity
    → activity.log = ⟨.getValue table rid query name, some value⟩ :: earlier
    → name ∈ query → table.Kept name
    → (∃ kind, (rid, kind) ∈ ledger.held t table)
      ∧ ∃ record, ledger.shared.rows table rid = some record ∧ record name = value

theorem Moves.lastRead (moves : ledger.Moves config t next event)
    (exclusive : ledger.Exclusive) (lastRead : ledger.LastRead)
    : next.LastRead := by
  intro reader activity table rid query name value earlier running logged asked kept
  by_cases same : reader = t
  · subst same
    cases moves with
    | rest =>
        exact lastRead reader activity table rid query name value earlier running logged asked
          kept
    | begin =>
        rw [setActive_active] at running
        cases running
        cases logged
    | finish =>
        rw [setActive_active] at running
        cases running
    | did here calls answers =>
        rw [record_active] at running
        cases running
        cases logged
        obtain ⟨⟨kind, holds⟩, record, row, reads⟩ := answers
        obtain ⟨found, ⟨⟩, sure⟩ := reads.1 asked
        refine ⟨⟨kind, ?_⟩, record, row, (sure kept).symm⟩
        rw [held_record here]
        exact holds
    | release =>
        rw [record_active] at running
        cases running
        cases logged
  · have before := (moves.active_other same).symm.trans running
    obtain ⟨⟨kind, holds⟩, record, row, reads⟩ :=
      lastRead reader activity table rid query name value earlier before logged asked kept
    refine ⟨⟨kind, ?_⟩, record, moves.row_kept exclusive same holds row, reads⟩
    rw [held_of_active running, ← held_of_active before]
    exact holds

theorem Run.lastRead (run : Run config past ledger) : ledger.LastRead := by
  induction run with
  | start =>
      intro reader activity table rid query name value earlier running
      cases running
  | extend earlier moves ih => exact moves.lastRead earlier.exclusive ih

end Ledger

/-! ### What a program relies on -/

/-- A lock fails only because it is busy, a write lock is not granted twice, a field of a query
is found, and a store right after a load of the same field overwrites the value loaded.
-/
def Rely (log : List (Step A)) : (op : Op A) → op.Answer → Prop
  | .lock table rid kind, .ok _ => kind = .write → ∀ other, (rid, other) ∉ guards table log
  | .lock _ _ _, .error error => Busy error
  | .getValue _ _ query name, answer => name ∈ query → ∃ value, answer = some value
  | .getValueMut table rid query name _, answer =>
      name ∈ query → table.Kept name
      → ∀ value earlier, log = ⟨.getValue table rid query name, some value⟩ :: earlier
      → answer = some value
  | _, _ => True

namespace Ledger

variable {config : DbConfig} {ledger next : Ledger A τ} {t : τ} {event : DbEvent A}
  {past : History A τ} {activity : Activity A}

omit [DecidableEq τ] in
/-- The machine keeps its side. -/
theorem LastRead.rely (lastRead : ledger.LastRead) {op : Op A} {answer : op.Answer}
    (here : ledger.active t = some activity) (answers : ledger.Answers config t op answer)
    : Rely activity.log op answer := by
  cases op with
  | lock table rid kind =>
      cases answer with
      | ok =>
          intro writes other member
          subst writes
          rw [← held_of_active here] at member
          exact answers.1 t other member
      | error error => exact answers
  | getValue table rid query name =>
      intro asked
      obtain ⟨_, record, _, reads⟩ := answers
      obtain ⟨value, found, _⟩ := reads.1 asked
      exact ⟨value, found⟩
  | getValueMut table rid query name new =>
      intro asked kept value earlier logged
      obtain ⟨_, record, row, reads⟩ := answers
      obtain ⟨found, rfl, sure⟩ := reads.1 asked
      obtain ⟨_, record', row', same⟩ :=
        lastRead t activity table rid query name value earlier here logged asked kept
      obtain rfl := Option.some.inj (row.symm.trans row')
      rw [sure kept, same]
  | _ => trivial

/-- Releasing guards does not spoil what a program has achieved. -/
def Stable (post : List (Step A) → Except Stop Unit → Prop) : Prop :=
  ∀ log outcome table rid kind, post log outcome
    → post (⟨.drop table rid kind, ()⟩ :: log) outcome

/-- Every running transaction still does what its program does. -/
theorem Run.meets {obliged : Transaction A → List (Step A) → Op A → Prop}
    {post : Transaction A → List (Step A) → Except Stop Unit → Prop}
    (programs : ∀ txn, Prog.Meets Rely (obliged txn) (post txn) txn.program [])
    (stable : ∀ txn, Stable (post txn)) (run : Run config past ledger)
    (here : ledger.active t = some activity)
    : activity.rest.Meets Rely (obliged activity.txn) (post activity.txn) activity.log := by
  induction run generalizing t activity with
  | start => cases here
  | @extend past ledger mover next event earlier moves ih =>
      cases moves.comes here with
      | stays here => exact ih here
      | begins => exact programs _
      | @did before op onward answer active calls answers =>
          have meets := ih active
          rw [calls] at meets
          exact meets.2 answer (earlier.lastRead.rely active answers)
      | @release before outcome table rid kind active ended member =>
          have meets := ih active
          rw [ended] at meets ⊢
          exact stable _ _ outcome table rid kind meets

end Ledger

end Alchemy.Tpcc
