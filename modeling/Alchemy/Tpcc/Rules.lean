import Alchemy.Tpcc.Ledger

/-! One rule for each function that the transactions call: what is left to show when a
transaction calls it. Stretches that only read are summed up by `Reading`.
-/

namespace Alchemy.Tpcc

open Cache Oid Interaction Txn

variable {A : Type}

/-! ### Logs -/

/-- Operations that change nothing and give up no guard. -/
def Op.reads : Op A → Bool
  | .get _ _ | .lock _ _ _ | .read _ _ _ | .readAndPromote _ _ _ | .getValue _ _ _ _
  | .range _ _ _ _ | .lastNameRange _ _ _ | .newOrderRange _ _ _ => true
  | _ => false

/-- The operations of a log that change shared data, oldest first. -/
def changes (log : List (Step A)) : List (Step A) :=
  (log.filter (fun step => step.op.changes)).reverse

/-- The table on which an operation did not get what it asked for: a key that is not there, a
lock that is busy, a last name nobody has.
-/
def refusal : Step A → Option Table
  | ⟨.get table _, none⟩ => some table
  | ⟨.lock table _ _, .error _⟩ => some table
  | ⟨.lastNameRange _ _ _, []⟩ => some .customer
  | _ => none

/-- The refusals a transaction has met, newest first. -/
def refusals (log : List (Step A)) : List Table :=
  log.filterMap refusal

/-- `later` is `log` after operations that only read and were not refused. -/
inductive Reading (log : List (Step A)) : List (Step A) → Prop
  | refl : Reading log log
  | step {later : List (Step A)} {step : Step A} (earlier : Reading log later)
    (reads : step.op.reads = true) (granted : refusal step = none)
    : Reading log (step :: later)

section Logs

variable {log middle later : List (Step A)} {step : Step A} {table : Table}

theorem changes_cons
    : changes (step :: log) = if step.op.changes then changes log ++ [step] else changes log := by
  cases changing : step.op.changes <;> simp [changes, changing]

theorem changes_cons_of_changes (changing : step.op.changes = true)
    : changes (step :: log) = changes log ++ [step] := by
  simp [changes, changing]

theorem changes_cons_of_quiet (quiet : step.op.changes = false)
    : changes (step :: log) = changes log := by
  simp [changes, quiet]

theorem mem_changes : step ∈ changes log ↔ step ∈ log ∧ step.op.changes = true := by
  simp [changes]

theorem Op.changes_of_reads {op : Op A} (reads : op.reads = true) : op.changes = false := by
  cases op <;> first | rfl | cases reads

namespace Reading

theorem trans (first : Reading log middle) (second : Reading middle later)
    : Reading log later := by
  induction second with
  | refl => exact first
  | step _ reads granted ih => exact ih.step reads granted

theorem changes (reading : Reading log later) : changes later = Tpcc.changes log := by
  induction reading with
  | refl => rfl
  | step _ reads _ ih => rw [changes_cons_of_quiet (Op.changes_of_reads reads), ih]

theorem refusals (reading : Reading log later) : refusals later = Tpcc.refusals log := by
  induction reading with
  | refl => rfl
  | step _ _ granted ih => rw [Tpcc.refusals, List.filterMap_cons_none granted, ← ih]; rfl

theorem mem (reading : Reading log later) (member : step ∈ log) : step ∈ later := by
  induction reading with
  | refl => exact member
  | step _ _ _ ih => exact List.mem_cons_of_mem _ ih

/-- Guards are kept. -/
theorem guards {pair : Rid × GuardKind} (reading : Reading log later)
    (member : pair ∈ guards table log)
    : pair ∈ Tpcc.guards table later := by
  induction reading with
  | refl => exact member
  | @step later step _ reads _ ih =>
      obtain ⟨op, answer⟩ := step
      cases op with
      | lock target rid kind =>
          cases answer with
          | error => exact ih
          | ok =>
              simp only [Tpcc.guards, guardsAfter]
              split
              · exact List.mem_cons_of_mem _ ih
              · exact ih
      | insert | drop => cases reads
      | _ => exact ih

end Reading

/-- `later` is `log` after operations of which `more` are the changes, none of them refused. -/
structure Grown (log more later : List (Step A)) : Prop where
  changed : changes later = changes log ++ more
  refusals : refusals later = refusals log
  kept : ∀ step ∈ log, step ∈ later

theorem Reading.grown (reading : Reading log later) : Grown log [] later where
  changed := by rw [reading.changes, List.append_nil]
  refusals := reading.refusals
  kept := fun _ => reading.mem

theorem Grown.same (grown : Grown log [] later) : changes later = changes log := by
  rw [grown.changed, List.append_nil]

theorem Grown.trans {more rest : List (Step A)} (first : Grown log more middle)
    (second : Grown middle rest later)
    : Grown log (more ++ rest) later where
  changed := by rw [second.changed, first.changed, List.append_assoc]
  refusals := second.refusals.trans first.refusals
  kept := fun step member => second.kept step (first.kept step member)

theorem Grown.of_changes (changing : step.op.changes = true)
    : Grown log [step] (step :: log) where
  changed := changes_cons_of_changes changing
  refusals := by
    obtain ⟨op, answer⟩ := step
    cases op <;> first | rfl | cases changing
  kept := fun _ => List.mem_cons_of_mem _

theorem Grown.of_quiet (quiet : step.op.changes = false) (granted : refusal step = none)
    : Grown log [] (step :: log) where
  changed := by rw [changes_cons_of_quiet quiet, List.append_nil]
  refusals := List.filterMap_cons_none granted
  kept := fun _ => List.mem_cons_of_mem _

/-- A lock that was not taken, and the error this is. -/
inductive Refused (table : Table) (log : List (Step A))
    : List (Step A) → TransactionError → Prop
  | missing {later key} (reading : Reading log later)
    : Refused table log (⟨.get table key, none⟩ :: later) .indexNotFound
  | busy {later rid kind error} (reading : Reading log later) (busy : Busy error)
    : Refused table log (⟨.lock table rid kind, .error error⟩ :: later) error

namespace Refused

variable {error : TransactionError}

theorem changes (refused : Refused table log later error) : changes later = Tpcc.changes log := by
  cases refused with
  | missing reading | busy reading => exact (changes_cons_of_quiet rfl).trans reading.changes

theorem refusals (refused : Refused table log later error)
    : refusals later = table :: Tpcc.refusals log := by
  cases refused with
  | missing reading | busy reading => exact congrArg (table :: ·) reading.refusals

theorem trans (reading : Reading log middle) (refused : Refused table middle later error)
    : Refused table log later error := by
  cases refused with
  | missing more => exact .missing (reading.trans more)
  | busy more busy => exact .busy (reading.trans more) busy

end Refused

end Logs

/-! ### Rules -/

/-- Operations that are open to every transaction at any point: those that read, except that
orders are not looked up by key.
-/
def Op.free : Op A → Bool
  | .get table _ => table ≠ .order
  | op => op.reads

/-- What is open to every transaction is allowed. -/
def Permits (obliged : List (Step A) → Op A → Prop) : Prop :=
  ∀ log op, op.free = true → obliged log op

section Rules

variable {α : Type} {obliged : List (Step A) → Op A → Prop} {log : List (Step A)}
  {table : Table} {kind : GuardKind} {rid : Rid} {key : UInt64}

theorem meets_performs {op : Op A} {post : List (Step A) → Except Stop op.Answer → Prop}
    (allowed : obliged log op)
    (done : ∀ answer, Rely log op answer → post (⟨op, answer⟩ :: log) (.ok answer))
    : Prog.Meets Rely obliged post (Txn.perform op) log :=
  ⟨allowed, done⟩

theorem meets_change {op : Op A} {post : List (Step A) → Except Stop op.Answer → Prop}
    (changing : op.changes = true) (allowed : obliged log op)
    (done : ∀ answer later, Grown log [⟨op, answer⟩] later → post later (.ok answer))
    : Prog.Meets Rely obliged post (Txn.perform op) log :=
  meets_performs allowed (fun answer _ => done answer _ (.of_changes changing))

/-- A scan that finds nobody is a refusal. -/
theorem meets_lastNameRange {low high : UInt64} {length : Nat}
    {post : List (Step A) → Except Stop (List Rid) → Prop}
    (allowed : obliged log (.lastNameRange low high length))
    (some
      : ∀ first rest later, Reading log later
        → ⟨.lastNameRange low high length, first :: rest⟩ ∈ later
        → post later (.ok (first :: rest)))
    (none
      : ∀ later, changes later = changes log → refusals later = .customer :: refusals log
        → post later (.ok []))
    : Prog.Meets Rely obliged post (Txn.perform (.lastNameRange low high length)) log := by
  refine meets_performs allowed ?_
  intro rids _
  cases rids with
  | nil => exact none _ (changes_cons_of_quiet rfl) rfl
  | cons first rest => exact some first rest _ (.step .refl rfl rfl) List.mem_cons_self

section Locks

variable {post : List (Step A) → Except Stop Rid → Prop}

/-- A lock was taken; a write lock, on a record without a guard of one's own. -/
structure Locked (table : Table) (kind : GuardKind) (log : List (Step A)) (rid : Rid)
    (later : List (Step A))
    : Prop where
  reading : Reading log later
  granted : ⟨.lock table rid kind, .ok ()⟩ ∈ later
  guard : (rid, kind) ∈ guards table later
  free : kind = .write → ∀ other, (rid, other) ∉ guards table log

/-- The lock on a record is granted or busy. -/
theorem meets_tryLockRid (permits : Permits obliged)
    (locked : ∀ later, Locked table kind log rid later → post later (.ok rid))
    (busy
      : ∀ error, Busy error
        → post (⟨.lock table rid kind, .error error⟩ :: log) (.error (.err error)))
    : Prog.Meets Rely obliged post (lockRid table kind rid) log := by
  refine (meets_then _ _).mpr (meets_performs (permits _ _ rfl) ?_)
  intro answer relied
  cases answer with
  | ok =>
      exact locked _
        { reading := .step .refl rfl rfl
          granted := List.mem_cons_self
          guard := by simp [guards, guardsAfter]
          free := relied }
  | error error => exact busy error relied

theorem meets_lockRid (permits : Permits obliged)
    (locked : ∀ later, Locked table kind log rid later → post later (.ok rid))
    (fails : ∀ error later, Refused table log later error → post later (.error (.err error)))
    : Prog.Meets Rely obliged post (lockRid table kind rid) log :=
  meets_tryLockRid permits locked (fun error busy => fails error _ (.busy .refl busy))

/-- A key is looked up and its record locked; the key may not be there, and the lock busy. -/
theorem meets_lookup (asks : obliged log (.get table key)) (permits : Permits obliged)
    (locked
      : ∀ rid later, Locked table kind log rid later → ⟨.get table key, some rid⟩ ∈ later
        → post later (.ok rid))
    (missing : post (⟨.get table key, none⟩ :: log) (.error (.err .indexNotFound)))
    (busy
      : ∀ rid error later, Reading log later → Busy error
        → post (⟨.lock table rid kind, .error error⟩ :: later) (.error (.err error)))
    : Prog.Meets Rely obliged post (lockKey table kind key) log := by
  refine (meets_then _ _).mpr (meets_performs asks ?_)
  intro answer _
  cases answer with
  | none => exact missing
  | some rid =>
      have found : Reading log (⟨.get table key, some rid⟩ :: log) := .step .refl rfl rfl
      refine (meets_then _ _).mpr (meets_performs (permits _ _ rfl) ?_)
      intro answer relied
      cases answer with
      | ok =>
          exact locked rid _
            { reading := .step found rfl rfl
              granted := List.mem_cons_self
              guard := by simp [guards, guardsAfter]
              free := relied }
            (List.mem_cons_of_mem _ List.mem_cons_self)
      | error error => exact busy rid error _ found relied

theorem meets_lockKey (asks : obliged log (.get table key)) (permits : Permits obliged)
    (locked
      : ∀ rid later, Locked table kind log rid later → ⟨.get table key, some rid⟩ ∈ later
        → post later (.ok rid))
    (fails : ∀ error later, Refused table log later error → post later (.error (.err error)))
    : Prog.Meets Rely obliged post (lockKey table kind key) log :=
  meets_lookup asks permits locked (fails _ _ (.missing .refl))
    (fun _ error _ reading busy => fails error _ (.busy reading busy))

/-- An index that misses is turned into an abort. -/
def aborting (post : List (Step A) → Except Stop α → Prop) (log : List (Step A))
    : Except Stop α → Prop
  | .error (.err .indexNotFound) => post log (.error (.err .userAbort))
  | result => post log result

theorem meets_notFoundAborts {part : Txn A α} {post : List (Step A) → Except Stop α → Prop}
    (meets : Prog.Meets Rely obliged (aborting post) part log)
    : Prog.Meets Rely obliged post (notFoundAborts part) log := by
  refine (Prog.meets_bind _ _).mpr (meets.mono (fun _ _ allowed => allowed) ?_)
  intro later result holds
  cases result with
  | ok value => exact holds
  | error stop =>
      cases stop with
      | panic => exact holds
      | err error => cases error <;> exact holds

end Locks

section Values

variable {value : QueryValue table} {name : table.Name}

theorem meets_read {query : List table.Name}
    {post : List (Step A) → Except Stop (QueryValue table) → Prop} (permits : Permits obliged)
    (done : ∀ later, Reading log later → post later (.ok ⟨rid, query⟩))
    : Prog.Meets Rely obliged post (Txn.read table rid query) log :=
  (meets_then _ _).mpr (meets_performs (permits _ _ rfl) (fun _ _ => done _ (.step .refl rfl rfl)))

theorem meets_readAndPromote {query : List table.Name}
    {post : List (Step A) → Except Stop (QueryValue table) → Prop} (permits : Permits obliged)
    (done : ∀ later, Reading log later → post later (.ok ⟨rid, query⟩))
    : Prog.Meets Rely obliged post (readAndPromote table rid query) log :=
  (meets_then _ _).mpr (meets_performs (permits _ _ rfl) (fun _ _ => done _ (.step .refl rfl rfl)))

/-- A load of a field of the query does not panic. -/
theorem meets_getValue {post : List (Step A) → Except Stop ((table.type name).Value A) → Prop}
    (permits : Permits obliged) (asked : name ∈ value.query)
    (done
      : ∀ found,
          post (⟨.getValue table value.rid value.query name, some found⟩ :: log) (.ok found))
    : Prog.Meets Rely obliged post (getValue value name) log := by
  refine (meets_then _ _).mpr (meets_performs (permits _ _ rfl) ?_)
  intro answer relied
  obtain ⟨found, rfl⟩ := relied asked
  exact done found

/-- The same, for a load whose place in the log does not matter. -/
theorem meets_load {post : List (Step A) → Except Stop ((table.type name).Value A) → Prop}
    (permits : Permits obliged) (asked : name ∈ value.query)
    (done
      : ∀ found later, Reading log later
        → ⟨.getValue table value.rid value.query name, some found⟩ ∈ later
        → post later (.ok found))
    : Prog.Meets Rely obliged post (getValue value name) log :=
  meets_getValue permits asked
    (fun found => done found _ (.step .refl rfl rfl) List.mem_cons_self)

/-- A load of a field that may not be at hand. -/
theorem meets_tryLoad {post : List (Step A) → Except Stop ((table.type name).Value A) → Prop}
    (permits : Permits obliged)
    (done : ∀ outcome later, Reading log later → post later outcome)
    : Prog.Meets Rely obliged post (getValue value name) log := by
  refine (meets_then _ _).mpr (meets_performs (permits _ _ rfl) ?_)
  intro answer _
  cases answer with
  | none => exact done _ _ (.step .refl rfl rfl)
  | some found => exact done _ _ (.step .refl rfl rfl)

variable {post : List (Step A) → Except Stop Unit → Prop}

theorem meets_setValue {new : (table.type name).Value A}
    (allowed : obliged log (.getValueMut table value.rid value.query name new))
    (done
      : ∀ old later, Rely log (.getValueMut table value.rid value.query name new) old
        → Grown log [⟨.getValueMut table value.rid value.query name new, old⟩] later
        → post later (.ok ()))
    : Prog.Meets Rely obliged post (setValue value name new) log :=
  (meets_then _ _).mpr
    (meets_performs allowed (fun old relied => done old _ relied (.of_changes rfl)))

/-- An update overwrites the value it is computed from. -/
theorem meets_update {change : (table.type name).Value A → (table.type name).Value A}
    (permits : Permits obliged) (asked : name ∈ value.query) (kept : table.Kept name)
    (allowed
      : ∀ old,
          obliged (⟨.getValue table value.rid value.query name, some old⟩ :: log)
            (.getValueMut table value.rid value.query name (change old)))
    (done
      : ∀ old later,
          Grown log [⟨.getValueMut table value.rid value.query name (change old), some old⟩] later
        → post later (.ok ()))
    : Prog.Meets Rely obliged post (update value name change) log := by
  refine (meets_then _ _).mpr (meets_getValue permits asked ?_)
  intro old
  refine meets_setValue (allowed old) ?_
  intro answer later relied grown
  obtain rfl := relied asked kept old log rfl
  exact done old later ((Grown.of_quiet rfl rfl).trans grown)

theorem meets_touch {names : List table.Name} (permits : Permits obliged)
    (asked : ∀ name ∈ names, name ∈ value.query)
    (done : ∀ later, Reading log later → post later (.ok ()))
    : Prog.Meets Rely obliged post (touch value names) log := by
  induction names generalizing log with
  | nil => exact done log .refl
  | cons name rest ih =>
      refine (meets_then _ _).mpr (meets_load permits (asked name List.mem_cons_self) ?_)
      intro _ middle first _
      refine ih (fun other member => asked other (List.mem_cons_of_mem _ member)) ?_
      intro later second
      exact done later (first.trans second)

theorem meets_drop (allowed : obliged log (.drop table rid kind))
    (done : ∀ later, Grown log [] later → post later (.ok ()))
    : Prog.Meets Rely obliged post (Txn.drop table kind rid) log :=
  meets_performs allowed (fun _ _ => done _ (.of_quiet rfl rfl))

end Values

section Inserts

variable {record : table.Record A}

/-- The two changes of an insertion. -/
def insertSteps (table : Table) (record : table.Record A) (rid : Rid) (replaced : Option Rid)
    : List (Step A) :=
  [⟨.insert table record, rid⟩, ⟨.indexInsert table (table.key record) rid, replaced⟩]

theorem meets_insert {post : List (Step A) → Except Stop Rid → Prop}
    (allowed : obliged log (.insert table record))
    (indexed
      : ∀ rid,
          obliged (⟨.insert table record, rid⟩ :: log) (.indexInsert table (table.key record) rid))
    (done
      : ∀ rid replaced later, Grown log (insertSteps table record rid replaced) later
        → post later (.ok rid))
    : Prog.Meets Rely obliged post (Txn.insert table record) log := by
  refine (meets_then _ _).mpr (meets_performs allowed ?_)
  intro rid _
  refine (meets_then _ _).mpr (meets_performs (indexed rid) ?_)
  intro replaced _
  exact done rid replaced _ ((Grown.of_changes rfl).trans (.of_changes rfl))

theorem meets_insertAndDrop {post : List (Step A) → Except Stop Unit → Prop}
    (allowed : obliged log (.insert table record))
    (indexed
      : ∀ rid,
          obliged (⟨.insert table record, rid⟩ :: log) (.indexInsert table (table.key record) rid))
    (drops : ∀ rid later, obliged later (.drop table rid .write))
    (done
      : ∀ rid replaced later, Grown log (insertSteps table record rid replaced) later
        → post later (.ok ()))
    : Prog.Meets Rely obliged post (insertAndDrop table record) log := by
  refine (meets_then _ _).mpr (meets_insert allowed indexed ?_)
  intro rid replaced middle inserted
  refine meets_drop (drops rid _) ?_
  intro later dropped
  exact done rid replaced later (by simpa using inserted.trans dropped)

end Inserts

end Rules

end Alchemy.Tpcc
