import Alchemy.Tpcc.Delivery
import Alchemy.Tpcc.NewOrder
import Alchemy.Tpcc.Payment

/-! What each transaction does, whatever the machine answers: the two that only read, the rows
of `load`, and all of them together. In a run of the database every transaction keeps to it.
-/

namespace Alchemy.Tpcc

open Cache Oid Interaction Txn

variable {A : Type}

/-! ### order_status and stock_level -/

/-- What a transaction that only reads may do. -/
inductive ReaderAllows : List (Step A) → Op A → Prop
  | reads {log op} (reads : op.free = true) : ReaderAllows log op
  | drop {log table rid kind} : ReaderAllows log (.drop table rid kind)

theorem readerPermits : Permits (ReaderAllows (A := A)) :=
  fun _ _ reads => .reads reads

section Readers

variable {log : List (Step A)}

theorem meets_readEach {table : Table} {query : List table.Name} {rids : List Rid}
    {post : List (Step A) → Except Stop Unit → Prop}
    (done : ∀ outcome later, changes later = changes log → post later outcome)
    : Prog.Meets Rely ReaderAllows post (readEach table query rids) log := by
  induction rids generalizing log with
  | nil => exact done _ log rfl
  | cons rid rest ih =>
      refine (meets_then _ _).mpr (meets_lockRid readerPermits ?_
        (fun error later refused => done _ later refused.changes))
      intro _ locked
      refine (meets_then _ _).mpr (meets_read readerPermits ?_)
      intro _ read
      refine (meets_then _ _).mpr (meets_touch readerPermits (by simp) ?_)
      intro _ touched
      refine (meets_then _ _).mpr (meets_drop .drop ?_)
      intro middle dropped
      have reading := ((locked.reading.trans read).trans touched).grown.trans dropped
      refine ih (fun outcome later same => done outcome later (same.trans ?_))
      simpa using reading.changed

theorem meets_countShort {input : StockLevelInput} {rids : List Rid} {resultCnt : Nat}
    {post : List (Step A) → Except Stop Nat → Prop}
    (done : ∀ outcome later, changes later = changes log → post later outcome)
    : Prog.Meets Rely ReaderAllows post (countShort input rids resultCnt) log := by
  induction rids generalizing log resultCnt with
  | nil => exact done _ log rfl
  | cons rid rest ih =>
      refine (meets_then _ _).mpr (meets_lockRid readerPermits ?_
        (fun error later refused => done _ later refused.changes))
      intro _ locked
      refine (meets_then _ _).mpr (meets_read readerPermits ?_)
      intro _ olRead
      refine (meets_then _ _).mpr (meets_load readerPermits (by simp) ?_)
      intro _ _ loaded _
      have line := (locked.reading.trans olRead).trans loaded
      refine (meets_then _ _).mpr (meets_lockKey (readerPermits _ _ rfl) readerPermits ?_
        (fun error later refused => done _ later (refused.trans line).changes))
      intro _ _ stock _
      refine (meets_then _ _).mpr (meets_read readerPermits ?_)
      intro _ sRead
      have soFar := (line.trans stock.reading).trans sRead
      refine (meets_then _ _).mpr (meets_tryLoad readerPermits ?_)
      intro outcome _ tried
      have soFar := soFar.trans tried
      cases outcome with
      | error stop => exact done _ _ soFar.changes
      | ok sQuantity =>
          refine (meets_then _ _).mpr (meets_drop .drop ?_)
          intro _ sDropped
          refine (meets_then _ _).mpr (meets_drop .drop ?_)
          intro _ olDropped
          have grown := soFar.grown.trans (sDropped.trans olDropped)
          refine ih (fun outcome later same => done outcome later (same.trans ?_))
          simpa using grown.changed

theorem meets_stockLevel (input : StockLevelInput)
    : Prog.Meets Rely (ReaderAllows (A := A)) (fun later _ => changes later = [])
        (stockLevel input) [] := by
  refine (meets_then _ _).mpr (meets_lockKey (readerPermits _ _ rfl) readerPermits ?_
    (fun error later refused => refused.changes))
  intro _ _ district _
  refine (meets_then _ _).mpr (meets_read readerPermits ?_)
  intro _ dRead
  refine (meets_then _ _).mpr (meets_load readerPermits (by simp) ?_)
  intro dNextOId _ loaded _
  have soFar := (district.reading.trans dRead).trans loaded
  refine meets_ite (fun _ => soFar.changes) (fun _ => ?_)
  refine (meets_then _ _).mpr (meets_performs (readerPermits _ _ rfl) ?_)
  intro rids _
  refine (meets_then _ _).mpr (meets_countShort ?_)
  intro outcome later same
  have same := same.trans ((changes_cons_of_quiet rfl).trans soFar.changes)
  cases outcome with
  | ok | error => exact same

theorem meets_orderStatus (input : OrderStatusInput)
    : Prog.Meets Rely (ReaderAllows (A := A)) (fun later _ => changes later = [])
        (orderStatus input) [] := by
  refine (meets_then _ _).mpr (meets_findCustomer readerPermits ?_
    (fun later same _ => same) (fun error later same _ => same))
  intro cRid _ found _
  refine (meets_then _ _).mpr (meets_readAndPromote readerPermits ?_)
  intro _ cRead
  refine (meets_then _ _).mpr (meets_touch readerPermits (by simp) ?_)
  intro _ cTouched
  refine (meets_then _ _).mpr (meets_load readerPermits (by simp) ?_)
  intro cId _ loaded _
  have customer := ((found.trans cRead).trans cTouched).trans loaded
  refine (meets_then _ _).mpr (meets_performs (readerPermits _ _ rfl) ?_)
  intro scanned _
  have scannedChanges : changes (⟨.range .order _ _ 12, scanned⟩ :: _) = [] :=
    (changes_cons_of_quiet rfl).trans customer.changes
  cases last : scanned.getLast? with
  | none =>
      simp only [upon_ok, last]
      exact scannedChanges
  | some mostRecent =>
      simp only [upon_ok, last]
      refine (meets_then _ _).mpr (meets_lockRid readerPermits ?_
        (fun error later refused => refused.changes.trans scannedChanges))
      intro _ order
      refine (meets_then _ _).mpr (meets_read readerPermits ?_)
      intro _ oRead
      refine (meets_then _ _).mpr (meets_touch readerPermits (by simp) ?_)
      intro _ oTouched
      refine (meets_then _ _).mpr (meets_load readerPermits (by simp) ?_)
      intro oId _ loaded _
      have soFar := ((order.reading.trans oRead).trans oTouched).trans loaded
      refine (meets_then _ _).mpr (meets_performs (readerPermits _ _ rfl) ?_)
      intro rids _
      refine meets_readEach ?_
      intro outcome later same
      exact same.trans ((changes_cons_of_quiet rfl).trans (soFar.changes.trans scannedChanges))

end Readers

/-! ### load -/

/-- A row that is inserted, once, and indexed right away. -/
inductive RowAllows {table : Table} (record : table.Record A) : List (Step A) → Op A → Prop
  | insert {log} (first : changes log = []) : RowAllows record log (.insert table record)
  | index {earlier rid} (first : changes earlier = [])
    : RowAllows record (⟨.insert table record, rid⟩ :: earlier)
        (.indexInsert table (table.key record) rid)

/-- The row is inserted and indexed. -/
def RowLoaded {table : Table} (record : table.Record A) (log : List (Step A)) : Prop :=
  ∃ rid replaced, ∀ step ∈ insertSteps table record rid replaced, step ∈ log

variable [Money A]

/-- What the load of a customer may do. -/
inductive CustomerRow.Allows (row : CustomerRow A) : List (Step A) → Op A → Prop
  | row {log op} (allowed : RowAllows row.record log op) : Allows row log op
  | lastName {log key rid} : Allows row log (.lastNameInsert key rid)

namespace OrderRow

variable (row : OrderRow A)

/-- A line of the order is inserted and indexed. -/
def Lined (log : List (Step A)) (ol : Nat) : Prop :=
  ∃ rid replaced, ∀ step ∈ insertSteps .orderLine (row.orderLine ol) rid replaced, step ∈ log

/-- The order is inserted and indexed. -/
def Ordered (log : List (Step A)) : Prop :=
  ∃ rid replaced, ∀ step ∈ insertSteps .order row.order rid replaced, step ∈ log

/-- The order lines inserted so far are the first ones of the order. -/
def LinesDone (log : List (Step A)) (number : Nat) : Prop :=
  ∀ record rid, ⟨.insert .orderLine record, rid⟩ ∈ log
    → ∃ ol < number, record = row.orderLine ol

/-- What the load of an order may do. The entry comes last. -/
inductive Allows : List (Step A) → Op A → Prop
  | row {log op} (allowed : RowAllows row.order log op) : Allows log op
  | line {log ol} (small : ol < row.oOlCnt.toNat) (done : row.LinesDone log ol)
    : Allows log (.insert .orderLine (row.orderLine ol))
  | lineIndex {earlier ol rid} (small : ol < row.oOlCnt.toNat) (done : row.LinesDone earlier ol)
    : Allows (⟨.insert .orderLine (row.orderLine ol), rid⟩ :: earlier)
        (.indexInsert .orderLine (Table.orderLine.key (row.orderLine ol)) rid)
  | enter {log} (undelivered : row.undelivered = true) (ordered : row.Ordered log)
    (lined : ∀ ol < row.oOlCnt.toNat, row.Lined log ol)
    (once : ∀ key value replaced, ⟨.newOrderInsert key value, replaced⟩ ∉ log)
    : Allows log (.newOrderInsert row.newOrderKey row.newOrderKey)
  | drop {log rid kind} : Allows log (.drop .orderLine rid kind)

end OrderRow

section Loads

variable {log : List (Step A)}

omit [Money A] in
theorem meets_loadRow {table : Table} {record : table.Record A}
    : Prog.Meets Rely (RowAllows record) (fun log _ => RowLoaded record log)
        (loadRow table record) [] := by
  refine (meets_then _ _).mpr (meets_insert (.insert rfl) (fun rid => .index rfl) ?_)
  intro rid replaced later inserted
  refine ⟨rid, replaced, fun step member => (mem_changes.mp ?_).1⟩
  rw [inserted.changed]
  exact member

theorem meets_loadOneCustomer (row : CustomerRow A)
    : Prog.Meets Rely row.Allows (fun _ _ => True) (loadOneCustomer row) [] := by
  refine (meets_then _ _).mpr (meets_insert (.row (.insert rfl)) (fun rid => .row (.index rfl)) ?_)
  intro rid replaced later inserted
  exact (meets_then _ _).mpr (meets_performs .lastName (fun _ _ => trivial))

namespace OrderRow

variable {row : OrderRow A}

theorem LinesDone.mono {number : Nat} {later more : List (Step A)}
    (done : row.LinesDone log number) (grown : Grown log more later)
    (other : ∀ record rid, ⟨.insert .orderLine record, rid⟩ ∈ more → record = row.orderLine number)
    : row.LinesDone later (number + 1) := by
  intro record rid inserted
  have member := mem_changes.mpr ⟨inserted, rfl⟩
  rw [grown.changed] at member
  rcases List.mem_append.mp member with before | new
  · obtain ⟨ol, small, same⟩ := done record rid (mem_changes.mp before).1
    exact ⟨ol, Nat.lt_succ_of_lt small, same⟩
  · exact ⟨number, Nat.lt_succ_self number, other record rid new⟩

/-- The lines one after the other, by induction on those that are left. -/
theorem meets_loadLines {post : List (Step A) → Except Stop Unit → Prop} {number count : Nat}
    (inside : number + count ≤ row.oOlCnt.toNat) (earlier : row.LinesDone log number)
    (done
      : ∀ later, (∀ step ∈ log, step ∈ later)
        → (∀ key value replaced, ⟨.newOrderInsert key value, replaced⟩ ∈ later
            → ⟨.newOrderInsert key value, replaced⟩ ∈ log)
        → (∀ ol, number ≤ ol → ol < number + count → row.Lined later ol)
        → post later (.ok ()))
    : Prog.Meets Rely row.Allows post (loadLines row (List.range' number count)) log := by
  induction count generalizing log number with
  | zero => exact done log (fun _ => id) (fun _ _ _ => id) (fun ol low high => by omega)
  | succ count ih =>
      have small : number < row.oOlCnt.toNat := by omega
      refine (meets_then _ _).mpr (meets_insertAndDrop (.line small earlier)
        (fun rid => .lineIndex small earlier) (fun rid later => .drop) ?_)
      intro rid replaced middle inserted
      have lined : row.Lined middle number := by
        refine ⟨rid, replaced, fun step member => (mem_changes.mp ?_).1⟩
        rw [inserted.changed]
        exact List.mem_append_right _ member
      have more : row.LinesDone middle (number + 1) := by
        refine earlier.mono inserted (fun record other member => ?_)
        simp only [insertSteps, List.mem_cons, Done.mk.injEq, Op.insert.injEq, heq_eq_eq,
          true_and, reduceCtorEq, false_and, List.not_mem_nil, or_false] at member
        exact member.1
      refine ih (by omega) more ?_
      intro later kept entries lines
      refine done later (fun step member => kept step (inserted.kept step member)) ?_ ?_
      · intro key value old member
        have member := mem_changes.mpr ⟨entries key value old member, rfl⟩
        rw [inserted.changed] at member
        refine (mem_changes.mp ((List.mem_append.mp member).resolve_right ?_)).1
        simp [insertSteps]
      · intro ol low high
        rcases Nat.eq_or_lt_of_le low with rfl | above
        · obtain ⟨rid, replaced, both⟩ := lined
          exact ⟨rid, replaced, fun step member => kept step (both step member)⟩
        · exact lines ol above (by omega)

theorem meets_loadOrder (row : OrderRow A)
    : Prog.Meets Rely row.Allows (fun _ _ => True) (loadOrder row) [] := by
  refine (meets_then _ _).mpr (meets_insert (.row (.insert rfl)) (fun rid => .row (.index rfl)) ?_)
  intro rid replaced middle inserted
  have changed : changes middle = insertSteps .order row.order rid replaced := inserted.changed
  have none : row.LinesDone middle 0 := by
    intro record other member
    have member := mem_changes.mpr ⟨member, rfl⟩
    rw [changed] at member
    simp [insertSteps] at member
  have range : List.range row.oOlCnt.toNat = List.range' 0 row.oOlCnt.toNat :=
    List.range_eq_range'
  rw [range]
  refine (meets_then _ _).mpr (meets_loadLines (Nat.le_of_eq (Nat.zero_add _)) none ?_)
  intro later kept entries lined
  refine meets_ite ?_ (fun _ => trivial)
  intro undelivered
  have ordered : row.Ordered later := by
    refine ⟨rid, replaced, fun step member => kept step (mem_changes.mp ?_).1⟩
    rw [changed]
    exact member
  refine (meets_then _ _).mpr (meets_performs
    (.enter undelivered ordered (fun ol small => lined ol (Nat.zero_le ol) (by omega)) ?_)
    (fun _ _ => trivial))
  intro key value old member
  have member := mem_changes.mpr ⟨entries key value old member, rfl⟩
  rw [changed] at member
  simp [insertSteps] at member

end OrderRow

end Loads

/-! ### All of them -/

namespace Transaction

/-- What a transaction may do after the operations of its log. -/
def Allows : Transaction A → List (Step A) → Op A → Prop
  | .newOrder input => input.Allows
  | .payment input => input.Allows
  | .delivery input _ => input.Allows
  | .orderStatus _ | .stockLevel _ => ReaderAllows
  | .loadWarehouse row => RowAllows row.record
  | .loadDistrict row => RowAllows row.record
  | .loadCustomer row => row.Allows
  | .loadItem row => RowAllows row.record
  | .loadStock row => RowAllows row.record
  | .loadOrder row => row.Allows

/-- How a transaction ends. -/
def Ends : Transaction A → List (Step A) → Except Stop Unit → Prop
  | .newOrder input, log, outcome => input.Ends log outcome
  | .payment input, log, outcome => input.Ends log outcome
  | .delivery input deliveryTime, log, outcome => input.Ends deliveryTime log outcome
  | .orderStatus _, log, _ | .stockLevel _, log, _ => changes log = []
  | .loadWarehouse row, log, _ => RowLoaded row.record log
  | .loadDistrict row, log, _ => RowLoaded row.record log
  | .loadItem row, log, _ => RowLoaded row.record log
  | .loadStock row, log, _ => RowLoaded row.record log
  | .loadCustomer _, _, _ | .loadOrder _, _, _ => True

/-- Every transaction does what is promised. -/
theorem meets_program (txn : Transaction A)
    : Prog.Meets Rely txn.Allows txn.Ends txn.program [] := by
  cases txn with
  | newOrder input => exact input.meets_newOrder
  | payment input => exact input.meets_payment
  | delivery input deliveryTime => exact input.meets_delivery deliveryTime
  | orderStatus input => exact meets_orderStatus input
  | stockLevel input => exact meets_stockLevel input
  | loadWarehouse row | loadDistrict row | loadItem row | loadStock row => exact meets_loadRow
  | loadCustomer row => exact meets_loadOneCustomer row
  | loadOrder row => exact OrderRow.meets_loadOrder row

/-- What a transaction has done stays done while its guards are released. -/
theorem ends_stable (txn : Transaction A) : Ledger.Stable txn.Ends := by
  intro log outcome table rid kind ends
  have grown : Grown log [] (⟨.drop table rid kind, ()⟩ :: log) := .of_quiet rfl rfl
  cases txn with
  | newOrder input => exact NewOrderInput.Ends.mono ends grown
  | payment input => exact PaymentInput.Ends.mono ends grown
  | delivery input deliveryTime => exact DeliveryInput.Ends.mono ends grown (List.suffix_cons _ _)
  | orderStatus input | stockLevel input => exact grown.same.trans ends
  | loadWarehouse | loadDistrict | loadItem | loadStock =>
      obtain ⟨rid, replaced, both⟩ := ends
      exact ⟨rid, replaced, fun step member => List.mem_cons_of_mem _ (both step member)⟩
  | loadCustomer | loadOrder => trivial

end Transaction

/-- In a run every transaction keeps to what it is allowed. -/
theorem Ledger.Run.allows {τ : Type} [DecidableEq τ] {config : DbConfig} {past : History A τ}
    {ledger : Ledger A τ} {t : τ} {activity : Activity A} {op : Op A}
    {next : op.Answer → Remainder A} (run : Run config past ledger)
    (here : ledger.active t = some activity) (calls : activity.rest = .call op next)
    : activity.txn.Allows activity.log op := by
  have meets := run.meets Transaction.meets_program Transaction.ends_stable here
  rw [calls] at meets
  exact meets.1

/-- How a transaction ends whose program is finished. -/
theorem Ledger.Run.ends {τ : Type} [DecidableEq τ] {config : DbConfig} {past : History A τ}
    {ledger : Ledger A τ} {t : τ} {activity : Activity A} {outcome : Except Stop Unit}
    (run : Run config past ledger) (here : ledger.active t = some activity)
    (ended : activity.rest = .pure outcome)
    : activity.txn.Ends activity.log outcome := by
  have meets := run.meets Transaction.meets_program Transaction.ends_stable here
  rw [ended] at meets
  exact meets

end Alchemy.Tpcc
