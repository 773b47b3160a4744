import Alchemy.Library.Program
import Alchemy.Oid.LockSteps
import Alchemy.Tpcc.Keys

/-! The operations a TPC-C transaction is made of: those of `DbTable`, of the query values and
guards it hands out, and of the two extra indexes. A transaction is a program that calls them
one after the other and can stop with an error or a panic.
-/

namespace Alchemy.Tpcc

open Cache Oid Interaction

/-! ### Operations -/

/-- The operations. A query value is named by the record it is for and the fields of its
query; `getValueMut` is a store through the reference it returns.
-/
inductive Op (A : Type)
  | get (table : Table) (key : UInt64)
  | lock (table : Table) (rid : Rid) (kind : GuardKind)
  | read (table : Table) (rid : Rid) (query : List table.Name)
  | readAndPromote (table : Table) (rid : Rid) (query : List table.Name)
  | getValue (table : Table) (rid : Rid) (query : List table.Name) (name : table.Name)
  | getValueMut (table : Table) (rid : Rid) (query : List table.Name) (name : table.Name)
    (value : (table.type name).Value A)
  | insert (table : Table) (record : table.Record A)
  | indexInsert (table : Table) (key : UInt64) (rid : Rid)
  | drop (table : Table) (rid : Rid) (kind : GuardKind)
  | range (table : Table) (low high : UInt64) (length : Nat)
  | lastNameInsert (key : UInt64) (rid : Rid)
  | lastNameRange (low high : UInt64) (length : Nat)
  | newOrderInsert (key value : UInt64)
  | newOrderRange (low high : UInt64) (length : Nat)
  | newOrderRemove (key : UInt64)

/-- What an operation returns. An index insertion returns the value it replaces, and a store
through a reference the value it overwrites; the transactions ignore both.
-/
abbrev Op.Answer {A : Type} : Op A → Type
  | .get _ _ => Option Rid
  | .lock _ _ _ => Except TransactionError Unit
  | .read _ _ _ | .readAndPromote _ _ _ | .drop _ _ _ => Unit
  | .getValue table _ _ name | .getValueMut table _ _ name _ =>
      Option ((table.type name).Value A)
  | .insert _ _ => Rid
  | .indexInsert _ _ _ | .lastNameInsert _ _ => Option Rid
  | .range _ _ _ _ | .lastNameRange _ _ _ => List Rid
  | .newOrderInsert _ _ | .newOrderRemove _ => Option UInt64
  | .newOrderRange _ _ _ => List (UInt64 × UInt64)

/-- A returned operation of a transaction. -/
abbrev Step (A : Type) := Done (Op.Answer (A := A))

/-- Why a transaction stops early. -/
inductive Stop
  | err (error : TransactionError)
  | panic
deriving DecidableEq, Repr

/-- A part of a transaction. -/
abbrev Txn (A : Type) := ExceptT Stop (Prog (Op.Answer (A := A)))

/-! ### The shared data -/

/-- An index: `congee::ArtRaw`, which keeps its keys in order. -/
abbrev Index (V : Type) := Std.TreeMap UInt64 V

/-- All entries between two keys, both included, smallest key first. -/
def Index.between {V : Type} (index : Index V) (low high : UInt64) : List (UInt64 × V) :=
  index.toList.filter (fun entry => decide (low ≤ entry.1 ∧ entry.1 ≤ high))

/-- The scan of an index, by what is assumed of it: it returns the entries of its range, smallest
key first, up to the length of the buffer. Whether the upper end belongs to the range is up to the
index.
-/
structure IndexScan where
  closed : Bool
  range {V : Type} : Index V → UInt64 → UInt64 → Nat → List (UInt64 × V)
  range_eq {V : Type} (index : Index V) (low high : UInt64) (length : Nat)
    : range index low high length
      = ((index.between low high).filter (fun entry => closed || decide (entry.1 ≠ high))).take
          length

/-- The scan that computes just this. -/
def IndexScan.sorted (closed : Bool) : IndexScan where
  closed
  range index low high length :=
    ((index.between low high).filter (fun entry => closed || decide (entry.1 ≠ high))).take length
  range_eq _ _ _ _ := rfl

/-- The records, as they are seen through the caches, and the indexes. -/
structure Shared (A : Type) where
  rows : (table : Table) → Rid → Option (table.Record A)
  index : Table → Index Rid
  cLastIdx : Index Rid
  newOrder : Index UInt64

variable {A : Type}

def Shared.empty : Shared A where
  rows := fun _ _ => none
  index := fun _ => ∅
  cLastIdx := ∅
  newOrder := ∅

namespace Shared

def setRow (shared : Shared A) (table : Table) (rid : Rid) (record : Option (table.Record A))
    : Shared A :=
  { shared with
    rows := Function.update shared.rows table (Function.update (shared.rows table) rid record) }

def setIndex (shared : Shared A) (table : Table) (index : Index Rid) : Shared A :=
  { shared with index := Function.update shared.index table index }

/-- What a returned operation has changed. -/
def after (shared : Shared A) : Step A → Shared A
  | ⟨.insert table record, rid⟩ => shared.setRow table rid (some record)
  | ⟨.getValueMut table rid _ name value, _⟩ =>
      shared.setRow table rid
        ((shared.rows table rid).map (fun record => Function.update record name value))
  | ⟨.indexInsert table key rid, _⟩ =>
      shared.setIndex table ((shared.index table).insert key rid)
  | ⟨.lastNameInsert key rid, _⟩ => { shared with cLastIdx := shared.cLastIdx.insert key rid }
  | ⟨.newOrderInsert key value, _⟩ =>
      { shared with newOrder := shared.newOrder.insert key value }
  | ⟨.newOrderRemove key, _⟩ => { shared with newOrder := shared.newOrder.erase key }
  | _ => shared

end Shared

/-- Operations that change shared data. -/
def Op.changes : Op A → Bool
  | .insert _ _ | .getValueMut _ _ _ _ _ | .indexInsert _ _ _ | .lastNameInsert _ _
  | .newOrderInsert _ _ | .newOrderRemove _ => true
  | _ => false

theorem Shared.after_of_quiet (shared : Shared A) {step : Step A}
    (quiet : step.op.changes = false)
    : shared.after step = shared := by
  obtain ⟨op, answer⟩ := step
  cases op with
  | get | lock | read | readAndPromote | getValue | drop | range | lastNameRange
  | newOrderRange => rfl
  | _ => cases quiet

/-! ### Guards -/

/-- What a returned operation does to the guards of its transaction on one table. -/
def guardsAfter (table : Table) (held : List (Rid × GuardKind)) : Step A → List (Rid × GuardKind)
  | ⟨.lock target rid kind, .ok _⟩ => if target = table then (rid, kind) :: held else held
  | ⟨.insert target _, rid⟩ => if target = table then (rid, .write) :: held else held
  | ⟨.drop target rid kind, _⟩ => if target = table then held.erase (rid, kind) else held
  | _ => held

/-- The guards a transaction holds on a table after the operations in its log. -/
def guards (table : Table) : List (Step A) → List (Rid × GuardKind)
  | [] => []
  | step :: log => guardsAfter table (guards table log) step

/-! ### The functions the transactions call -/

namespace Txn

/-- Call an operation. -/
def perform (op : Op A) : Txn A op.Answer :=
  ExceptT.lift (Prog.perform op)

/-- The `?` of the source: an error ends the transaction. -/
def check (result : Except TransactionError Unit) : Txn A Unit :=
  match result with
  | .ok () => pure ()
  | .error error => throw (.err error)

/-- `lock_rid_r` and `lock_rid_w` -/
def lockRid (table : Table) (kind : GuardKind) (rid : Rid) : Txn A Rid := do
  check (← perform (.lock table rid kind))
  pure rid

/-- `read_oid`, `write_oid` and their `_sync` variants. -/
def lockKey (table : Table) (kind : GuardKind) (key : UInt64) : Txn A Rid := do
  match ← perform (.get table key) with
  | none => throw (.err .indexNotFound)
  | some rid => lockRid table kind rid

def readOid (table : Table) (key : UInt64) : Txn A Rid :=
  lockKey table .read key

def writeOid (table : Table) (key : UInt64) : Txn A Rid :=
  lockKey table .write key

/-- A query value in the hands of a transaction. -/
structure QueryValue (table : Table) where
  rid : Rid
  query : List table.Name

def read (table : Table) (rid : Rid) (query : List table.Name) : Txn A (QueryValue table) := do
  perform (.read table rid query)
  pure ⟨rid, query⟩

def readAndPromote (table : Table) (rid : Rid) (query : List table.Name)
    : Txn A (QueryValue table) := do
  perform (.readAndPromote table rid query)
  pure ⟨rid, query⟩

/-- A load through `get_value`; its `expect` fails if the field is not at hand. -/
def getValue {table : Table} (value : QueryValue table) (name : table.Name)
    : Txn A ((table.type name).Value A) := do
  match ← perform (.getValue table value.rid value.query name) with
  | none => throw .panic
  | some found => pure found

/-- A store through `get_value_mut`. -/
def setValue {table : Table} (value : QueryValue table) (name : table.Name)
    (new : (table.type name).Value A)
    : Txn A Unit := do
  let _ ← perform (.getValueMut table value.rid value.query name new)

/-- A load and a store through the reference that `get_value_mut` returns. -/
def update {table : Table} (value : QueryValue table) (name : table.Name)
    (change : (table.type name).Value A → (table.type name).Value A)
    : Txn A Unit := do
  let old ← getValue value name
  setValue value name (change old)

/-- Touch every field of the query. -/
def touch {table : Table} (value : QueryValue table) : List table.Name → Txn A Unit
  | [] => pure ()
  | name :: rest => do
      let _ ← getValue value name
      touch value rest

def drop (table : Table) (kind : GuardKind) (rid : Rid) : Txn A Unit :=
  perform (.drop table rid kind)

/-- `DbTable::insert`. The write guard it returns is the caller's to drop. -/
def insert (table : Table) (record : table.Record A) : Txn A Rid := do
  let rid ← perform (.insert table record)
  let _ ← perform (.indexInsert table (table.key record) rid)
  pure rid

/-- An insertion whose guard is dropped at once: `let _ = table.insert(..)`. -/
def insertAndDrop (table : Table) (record : table.Record A) : Txn A Unit := do
  let rid ← insert table record
  drop table .write rid

end Txn

end Alchemy.Tpcc
