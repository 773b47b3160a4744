import Alchemy.Tpcc.Accounts

/-! The rows of `load`. Its loops run over the ids, so no row and no order is loaded twice. Five
tables get rows from `load` only, and there a key leads to the one row that has it.
-/

namespace Alchemy.Tpcc

open Cache Oid Interaction

variable {A τ : Type} [Money A]

/-- Tables that get rows from `load` only. -/
def Table.Fixed (table : Table) : Prop :=
  table ≠ .order ∧ table ≠ .orderLine

/-- The row that a transaction loads. Orders go by their number in the district. -/
def Transaction.loads : Transaction A → Option (Table × UInt64)
  | .loadWarehouse row => some (.warehouse, Table.warehouse.key row.record)
  | .loadDistrict row => some (.district, Table.district.key row.record)
  | .loadCustomer row => some (.customer, Table.customer.key row.record)
  | .loadItem row => some (.item, Table.item.key row.record)
  | .loadStock row => some (.stock, Table.stock.key row.record)
  | .loadOrder row => some (.order, NewOrderTuple.makeKey row.wId row.dId row.oId 0)
  | _ => none

def DbEvent.loads : DbEvent A → Option (Table × UInt64)
  | .began txn => txn.loads
  | _ => none

/-- No row is loaded twice. -/
def LoadsOnce (past : History A τ) : Prop :=
  (past.filterMap (fun entry => entry.2.loads)).Nodup

instance (past : History A τ) : Decidable (LoadsOnce past) :=
  inferInstanceAs (Decidable (List.Nodup _))

/-- The record that is inserted into a table under a key. -/
def insertedAt (table : Table) (key : UInt64) : Step A → Option Rid
  | ⟨.insert target record, rid⟩ =>
      if target = table ∧ target.key record = key then some rid else none
  | _ => none

section Steps

variable {txn : Transaction A} {log : List (Step A)} {step : Step A} {table : Table}
  {key : UInt64} {rid : Rid}

omit [Money A] in
theorem insertedAt_eq_some
    : insertedAt table key step = some rid
      ↔ ∃ record, step = ⟨.insert table record, rid⟩ ∧ table.key record = key := by
  constructor
  · intro inserted
    unfold insertedAt at inserted
    split at inserted
    · next target record other =>
        split at inserted
        · next same =>
            obtain ⟨rfl, same⟩ := same
            cases inserted
            exact ⟨record, rfl, same⟩
        · cases inserted
    · cases inserted
  · rintro ⟨record, rfl, same⟩
    simp [insertedAt, same]

/-- A row of `load` is the first change of its transaction. -/
theorem Transaction.Allows.loads {record : table.Record A} (fixed : table.Fixed)
    (allows : txn.Allows log (.insert table record))
    : txn.loads = some (table, table.key record) ∧ changes log = [] := by
  cases txn with
  | newOrder input =>
      cases allows with
      | reads reads => cases reads
      | order => exact absurd rfl fixed.1
      | line => exact absurd rfl fixed.2
  | payment | delivery | orderStatus | stockLevel =>
      cases allows with
      | reads reads => cases reads
  | loadWarehouse | loadDistrict | loadItem | loadStock =>
      cases allows with
      | insert first => exact ⟨rfl, first⟩
  | loadCustomer row =>
      cases allows with
      | row allowed =>
          cases allowed with
          | insert first => exact ⟨rfl, first⟩
  | loadOrder row =>
      cases allows with
      | row allowed =>
          cases allowed with
          | insert => exact absurd rfl fixed.1
      | line => exact absurd rfl fixed.2

/-- A transaction inserts a row of `load` once, and only the one it loads. -/
theorem Transaction.Obeyed.insertedAt (obeyed : txn.Obeyed log) (fixed : table.Fixed)
    (key : UInt64)
    : (log.filterMap (insertedAt table key)).length
      ≤ if txn.loads = some (table, key) then 1 else 0 := by
  induction obeyed with
  | nil => exact Nat.zero_le _
  | release earlier ih => rwa [List.filterMap_cons_none rfl]
  | @perform log op answer earlier allows relied ih =>
      cases inserted : Tpcc.insertedAt table key ⟨op, answer⟩ with
      | none => rwa [List.filterMap_cons_none inserted]
      | some rid =>
          obtain ⟨record, same, rfl⟩ := insertedAt_eq_some.mp inserted
          cases same
          obtain ⟨loads, first⟩ := allows.loads fixed
          have nothing := filterMap_changes (Tpcc.insertedAt table (table.key record)) log
            (fun step rid inserted => by
              obtain ⟨_, rfl, _⟩ := insertedAt_eq_some.mp inserted
              rfl)
          rw [first] at nothing
          rw [List.filterMap_cons_some inserted, List.reverse_eq_nil_iff.mp nothing.symm,
            if_pos loads]
          exact Nat.le_refl 1

end Steps

namespace Ledger

variable [DecidableEq τ] {config : DbConfig} {ledger : Ledger A τ} {past : History A τ}
  {table : Table} {key : UInt64} {rid other : Rid}

omit [DecidableEq τ] in
/-- What is loaded is loaded once. -/
theorem sum_loads_le (once : LoadsOnce past) (row : Table × UInt64)
    : (past.map (fun entry => entry.2.adds
        (fun txn => if txn.loads = some row then 1 else 0) (fun _ => 0))).sum ≤ 1 := by
  have counted : (past.map (fun entry => entry.2.adds
      (fun txn => if txn.loads = some row then 1 else 0) (fun _ => 0))).sum
      = (past.filterMap (fun entry => entry.2.loads)).count row := by
    clear once
    induction past with
    | nil => rfl
    | cons entry rest ih =>
        obtain ⟨t, event⟩ := entry
        rw [List.map_cons, List.sum_cons, ih]
        cases event with
        | began txn =>
            cases loads : txn.loads with
            | none => simp [DbEvent.adds, DbEvent.loads, loads]
            | some row =>
                simp only [DbEvent.adds, DbEvent.loads, loads, Option.some.injEq,
                  List.filterMap_cons_some, List.count_cons, beq_iff_eq]
                exact Nat.add_comm _ _
        | pending | did | returned => simp [DbEvent.adds, DbEvent.loads]
  rw [counted]
  exact List.nodup_iff_count_le_one.mp once _

/-- A row of `load` is inserted once. -/
theorem Run.inserted_once (run : Run config past ledger) (once : LoadsOnce past)
    (fixed : table.Fixed) (key : UInt64)
    : ((steps past).filterMap (insertedAt table key)).length ≤ 1 := by
  have bound := run.logWorth_le (fun txn => if txn.loads = some (table, key) then 1 else 0)
    (hits (insertedAt table key)) (fun _ => 0)
    (fun txn log obeyed => by
      rw [logWorth_hits]
      exact Nat.le_trans (obeyed.insertedAt fixed key) (Nat.le_add_right _ _))
  rw [logWorth_hits] at bound
  exact Nat.le_trans bound (sum_loads_le once (table, key))

omit [Money A] [DecidableEq τ] in
/-- A list of at most one element. -/
theorem eq_of_short {α : Type} {short : List α} {left right : α} (one : short.length ≤ 1)
    (first : left ∈ short) (second : right ∈ short)
    : left = right := by
  match short, one with
  | [only], _ => rw [List.mem_singleton.mp first, List.mem_singleton.mp second]

/-- Rows of `load` with the same key are one row. -/
theorem Run.inserted_unique {first second : table.Record A} (run : Run config past ledger)
    (once : LoadsOnce past) (fixed : table.Fixed)
    (left : ⟨.insert table first, rid⟩ ∈ steps past)
    (right : ⟨.insert table second, other⟩ ∈ steps past)
    (same : table.key first = table.key second)
    : rid = other := by
  have short := run.inserted_once once fixed (table.key second)
  have left : rid ∈ (steps past).filterMap (insertedAt table (table.key second)) :=
    List.mem_filterMap.mpr ⟨_, left, insertedAt_eq_some.mpr ⟨first, rfl, same⟩⟩
  have right : other ∈ (steps past).filterMap (insertedAt table (table.key second)) :=
    List.mem_filterMap.mpr ⟨_, right, insertedAt_eq_some.mpr ⟨second, rfl, rfl⟩⟩
  exact eq_of_short short left right

/-- Lookups of the same key find the same row. -/
theorem Run.found_unique (run : Run config past ledger) (once : LoadsOnce past)
    (fixed : table.Fixed) (left : ⟨.get table key, some rid⟩ ∈ steps past)
    (right : ⟨.get table key, some other⟩ ∈ steps past)
    : rid = other := by
  obtain ⟨chronicle, _⟩ := run.chronicle
  obtain ⟨first, inserted, key⟩ := chronicle.found left
  obtain ⟨second, inserted', key'⟩ := chronicle.found right
  exact run.inserted_unique once fixed inserted inserted' (key.trans key'.symm)

/-- A lookup finds the row that has the key. -/
theorem Run.found_iff {record : table.Record A} (run : Run config past ledger)
    (once : LoadsOnce past) (fixed : table.Fixed)
    (found : ⟨.get table key, some other⟩ ∈ steps past)
    (row : ledger.shared.rows table rid = some record)
    : other = rid ↔ key = table.key record := by
  obtain ⟨chronicle, same⟩ := run.chronicle
  rw [same] at row
  obtain ⟨original, inserted, agree⟩ := chronicle.row_inserted row
  obtain ⟨target, targeted, rfl⟩ := chronicle.found found
  rw [agree.key]
  constructor
  · rintro rfl
    rw [chronicle.insert_unique inserted targeted]
  · exact run.inserted_unique once fixed targeted inserted

end Ledger

end Alchemy.Tpcc
