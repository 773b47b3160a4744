import Alchemy.Library.Calls
import Alchemy.Tpcc.Rules

/-! Which operations the functions call that transactions are made of. -/

namespace Alchemy.Tpcc

open Cache Oid Interaction Txn

variable {A α : Type} {allowed : Op A → Prop} {table : Table} {rid : Rid} {kind : GuardKind}
  {key : UInt64}

/-- Operations on a record under a guard. -/
def Op.accesses : Op A → Bool
  | .read _ _ _ | .readAndPromote _ _ _ | .getValue _ _ _ _ | .getValueMut _ _ _ _ _ => true
  | _ => false

theorem calls_perform {op : Op A} (holds : allowed op) : Prog.Calls allowed (Txn.perform op) :=
  ⟨holds, fun _ => trivial⟩

theorem calls_check {result : Except TransactionError Unit}
    : Prog.Calls allowed (Txn.check result : Txn A Unit) := by
  cases result with
  | ok => exact calls_ok
  | error => exact calls_throw

theorem calls_notFoundAborts {part : Txn A α} (calls : Prog.Calls allowed part)
    : Prog.Calls allowed (notFoundAborts part) := by
  refine Prog.calls_bind calls ?_
  intro result
  cases result with
  | ok => exact trivial
  | error stop =>
      cases stop with
      | panic => exact trivial
      | err error => cases error <;> exact trivial

theorem calls_lockRid (locks : allowed (.lock table rid kind))
    : Prog.Calls allowed (lockRid table kind rid) :=
  calls_then (calls_perform locks) (fun _ => calls_then calls_check (fun _ => calls_ok))

theorem calls_lockKey (gets : allowed (.get table key))
    (locks : ∀ rid, allowed (.lock table rid kind))
    : Prog.Calls allowed (lockKey table kind key) := by
  refine calls_then (calls_perform gets) ?_
  intro found
  cases found with
  | none => exact calls_throw
  | some rid => exact calls_lockRid (locks rid)

section Values

variable (accesses : ∀ op : Op A, op.accesses = true → allowed op) {value : QueryValue table}
  {name : table.Name} {query : List table.Name}

include accesses

theorem calls_read : Prog.Calls allowed (Txn.read table rid query) :=
  calls_then (calls_perform (accesses _ rfl)) (fun _ => calls_ok)

theorem calls_readAndPromote : Prog.Calls allowed (readAndPromote table rid query) :=
  calls_then (calls_perform (accesses _ rfl)) (fun _ => calls_ok)

theorem calls_getValue : Prog.Calls allowed (getValue (A := A) value name) := by
  refine calls_then (calls_perform (accesses _ rfl)) ?_
  intro found
  cases found with
  | none => exact calls_throw
  | some found => exact calls_ok

theorem calls_setValue {new : (table.type name).Value A}
    : Prog.Calls allowed (setValue value name new) :=
  calls_then (calls_perform (accesses _ rfl)) (fun _ => calls_ok)

theorem calls_update {change : (table.type name).Value A → (table.type name).Value A}
    : Prog.Calls allowed (update value name change) :=
  calls_then (calls_getValue accesses) (fun _ => calls_setValue accesses)

theorem calls_touch {names : List table.Name} : Prog.Calls allowed (touch (A := A) value names) := by
  induction names with
  | nil => exact calls_ok
  | cons name rest ih => exact calls_then (calls_getValue accesses) (fun _ => ih)

end Values

theorem calls_insertAndDrop {record : table.Record A} (inserts : allowed (.insert table record))
    (indexes : ∀ rid, allowed (.indexInsert table (table.key record) rid))
    (drops : ∀ rid, allowed (.drop table rid .write))
    : Prog.Calls allowed (insertAndDrop table record) := by
  refine calls_then (calls_then (calls_perform inserts) ?_) (fun rid => calls_perform (drops rid))
  intro rid
  exact calls_then (calls_perform (indexes rid)) (fun _ => calls_ok)

end Alchemy.Tpcc
