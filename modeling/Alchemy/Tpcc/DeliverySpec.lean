import Alchemy.Tpcc.OrderStatus
import Mathlib.Data.List.MinMax

/-! What `delivery` is for, as a function of records and indexes: in each district of the
warehouse the undelivered order with the smallest id is delivered, and a district without one is
passed over.
-/

namespace Alchemy.Tpcc

open Cache Oid

/-! ### Changing the rows of a table -/

section Rows

variable {A : Type} {shared : Shared A} {table : Table}

def Shared.mapRows (shared : Shared A) (table : Table)
    (change : Rid → table.Record A → table.Record A)
    : Shared A :=
  { shared with
    rows :=
      Function.update shared.rows table (fun rid => (shared.rows table rid).map (change rid)) }

theorem Shared.rows_mapRows (change : Rid → table.Record A → table.Record A) (rid : Rid)
    : (shared.mapRows table change).rows table rid
      = (shared.rows table rid).map (change rid) := by
  have rows : (shared.mapRows table change).rows table
      = fun rid => (shared.rows table rid).map (change rid) :=
    Function.update_self ..
  rw [rows]

theorem Shared.rows_mapRows_of_ne {other : Table}
    (change : Rid → table.Record A → table.Record A) (different : other ≠ table)
    : (shared.mapRows table change).rows other = shared.rows other :=
  Function.update_of_ne different _ _

/-- Only what happens to the rows that exist matters. -/
theorem Shared.mapRows_congr {change other : Rid → table.Record A → table.Record A}
    (same : ∀ rid record, shared.rows table rid = some record
      → change rid record = other rid record)
    : shared.mapRows table change = shared.mapRows table other := by
  have rows : (fun rid => (shared.rows table rid).map (change rid))
      = fun rid => (shared.rows table rid).map (other rid) := by
    funext rid
    cases row : shared.rows table rid with
    | none => rfl
    | some record => simp only [Option.map_some, same rid record row]
  rw [mapRows, rows, mapRows]

theorem Shared.mapRows_mapRows (change other : Rid → table.Record A → table.Record A)
    : (shared.mapRows table change).mapRows table other
      = shared.mapRows table (fun rid record => other rid (change rid record)) := by
  simp [mapRows, Function.comp_def]

/-- A store to one row. -/
theorem Shared.setRow_eq_mapRows {rid : Rid} {record : table.Record A}
    (row : shared.rows table rid = some record)
    (change : table.Record A → table.Record A)
    : shared.setRow table rid (some (change record))
      = shared.mapRows table (fun other old => if other = rid then change old else old) := by
  have rows : Function.update (shared.rows table) rid (some (change record))
      = fun other =>
          (shared.rows table other).map (fun old => if other = rid then change old else old) := by
    funext other
    by_cases here : other = rid
    · subst here
      simp [row]
    · simp [here]
  rw [setRow, rows, mapRows]

theorem Shared.setRow_setRow {rid : Rid} (first second : Option (table.Record A))
    : (shared.setRow table rid first).setRow table rid second = shared.setRow table rid second := by
  simp [setRow]

end Rows

/-! ### The ids of a row -/

section Ids

variable {A : Type} {shared later last : Shared A} {table : Table}

/-- Two states whose rows have the same ids, under the same index. -/
structure Shared.SameIds (shared later : Shared A) : Prop where
  index : later.index = shared.index
  ids : ∀ table rid, (later.rows table rid).map table.ids = (shared.rows table rid).map table.ids

namespace Shared.SameIds

theorem trans (first : shared.SameIds later) (second : later.SameIds last)
    : shared.SameIds last :=
  ⟨second.index.trans first.index,
    fun table rid => (second.ids table rid).trans (first.ids table rid)⟩

theorem symm (same : shared.SameIds later) : later.SameIds shared :=
  ⟨same.index.symm, fun table rid => (same.ids table rid).symm⟩

/-- Changes that spare the ids. -/
theorem mapRows {change : Rid → table.Record A → table.Record A}
    (spared : ∀ rid record, table.ids (change rid record) = table.ids record)
    : shared.SameIds (shared.mapRows table change) where
  index := rfl
  ids other rid := by
    by_cases here : other = table
    · subst here
      rw [rows_mapRows, Option.map_map]
      congr 1
      funext record
      exact spared rid record
    · rw [rows_mapRows_of_ne change here]

/-- A row has a row with its ids in the other state. -/
theorem row (same : shared.SameIds later) {rid : Rid} {record : table.Record A}
    (found : later.rows table rid = some record)
    : ∃ original, shared.rows table rid = some original
      ∧ table.ids original = table.ids record := by
  have ids := same.ids table rid
  rw [found, Option.map_some] at ids
  exact Option.map_eq_some_iff.mp ids.symm

theorem indexed (same : shared.SameIds later) (indexed : shared.Indexed table)
    : later.Indexed table where
  found entry := by
    rw [same.index] at entry
    obtain ⟨record, found, keyed⟩ := indexed.found entry
    obtain ⟨new, here, ids⟩ := same.symm.row found
    exact ⟨new, here, (Table.key_of_ids ids).trans keyed⟩
  listed found := by
    obtain ⟨original, there, ids⟩ := same.row found
    rw [same.index, ← Table.key_of_ids ids]
    exact indexed.listed there

/-- Rows that are selected by their ids. -/
theorem rowsWhere (same : shared.SameIds later) {select : table.Record A → Bool}
    (byIds : ∀ first second, table.ids first = table.ids second → select first = select second)
    : later.rowsWhere table select = shared.rowsWhere table select := by
  rw [Shared.rowsWhere, Shared.rowsWhere, same.index]
  refine List.filter_congr (fun entry _ => ?_)
  cases here : later.rows table entry.2 with
  | none =>
      have ids := same.ids table entry.2
      rw [here, Option.map_none, eq_comm, Option.map_eq_none_iff] at ids
      rw [ids]
  | some record =>
      obtain ⟨original, there, ids⟩ := same.row here
      rw [there, Option.any_some, Option.any_some, byIds _ _ ids]

end Shared.SameIds

/-- Ids belong to one row. -/
theorem Shared.Indexed.rid_of_ids (indexed : shared.Indexed table) {rid other : Rid}
    {record found : table.Record A} (row : shared.rows table rid = some record)
    (row' : shared.rows table other = some found) (same : table.ids record = table.ids found)
    : rid = other := by
  have entry := indexed.listed row
  rw [Table.key_of_ids same, indexed.listed row'] at entry
  exact (Option.some.inj entry).symm

end Ids

/-! ### States to deliver from -/

variable {A : Type}

/-- The entries for the undelivered orders of a district, smallest key first. -/
def Shared.newOrdersOf (shared : Shared A) (w d : UInt64) : List (UInt64 × UInt64) :=
  shared.newOrder.toList.filter (fun entry =>
    let (oId, cId) := NewOrderTuple.oCIdFromKey entry.1
    decide (NewOrderTuple.makeKey w d oId cId = entry.1))

/-- The undelivered order of a district with the smallest id, and its customer. -/
def Shared.oldest (shared : Shared A) (w d : UInt64) : Option (UInt64 × UInt64) :=
  ((shared.newOrdersOf w d).map (fun entry => NewOrderTuple.oCIdFromKey entry.1)).argmin
    (fun order => order.1.toNat)

/-- Indexes and rows agree, the ids fit their keys, orders have lines as `new_order` and
`load_order` insert them, and every entry of the new-order index has its order and its customer.
-/
structure Shared.Deliverable (shared : Shared A) : Prop where
  orders : shared.Indexed .order
  lines : shared.Indexed .orderLine
  customers : shared.Indexed .customer
  ordersFit : shared.OrdersFit
  linesFit : shared.LinesFit
  customersFit : ∀ rid (customer : Table.customer.Record A),
    shared.rows .customer rid = some customer
      → Within [16, 16, 16] [customer .cWId, customer .cDId, customer .cId]
  items : ∀ rid (line : Table.orderLine.Record A), shared.rows .orderLine rid = some line
    → (line .olIId : UInt64).toNat < itemScale
  short : ∀ w d o, (shared.linesOf w d o).length ≤ 20
  entries : ∀ (key value : UInt64), shared.newOrder[key]? = some value
    → ∃ w d o c, key = NewOrderTuple.makeKey w d o c
      ∧ Within [16, 16, 16, 16] [w, d, o, c]
      ∧ c.toNat < customerScale
      ∧ (∃ rid order, shared.rows .order rid = some order
        ∧ Table.order.ids order = [w, d, c, o])
      ∧ ∃ rid customer, shared.rows .customer rid = some customer
        ∧ Table.customer.ids customer = [w, d, c]

section Deliverable

theorem ofOrder_ids (w d o : UInt64) (first second : Table.orderLine.Record A)
    (same : Table.orderLine.ids first = Table.orderLine.ids second)
    : ofOrder w d o first = ofOrder w d o second := by
  simp only [Table.ids, List.cons.injEq] at same
  obtain ⟨isW, isD, isO, _⟩ := same
  rw [ofOrder, ofOrder, isW, isD, isO]

variable {shared later : Shared A} {w d o c : UInt64}

/-- The scan of `delivery` for the lines of an order returns all of them. -/
theorem Shared.Deliverable.lines_range (ready : shared.Deliverable)
    (asked : Within [16, 8, 20] [w, d, o]) (scan : IndexScan)
    : scan.range (shared.index .orderLine) (OrderLineTuple.makeKey w d o 0)
        (OrderLineTuple.makeKey w d o itemScale.toUInt64) 20
      = shared.linesOf w d o := by
  have top : Within [16, 8, 20, 20] [w, d, o, itemScale.toUInt64] :=
    ⟨asked.1, asked.2.1, asked.2.2.1, by decide, trivial⟩
  rw [← List.take_of_length_le (ready.short w d o)]
  refine ready.lines.toBacked.range_eq_rowsWhere 20 ?_
  intro rid line row
  have within := ready.linesFit rid line row
  have item := ready.items rid line row
  have below : Table.orderLine.key line ≠ OrderLineTuple.makeKey w d o itemScale.toUInt64 := by
    intro same
    have parts := (OrderLineTuple.sameOrder within top).same.mp same
    simp only [List.cons.injEq, and_true] at parts
    rw [parts.2.2.2] at item
    exact absurd item (by decide)
  rw [ofOrder_iff, and_iff_left (Or.inr below)]
  refine (orderLine_scanned asked within (Nat.le_of_lt item)).trans ?_
  simp only [List.cons.injEq, and_true]

theorem Shared.SameIds.within (same : shared.SameIds later) {table : Table} (widths : List Nat)
    (fit : ∀ rid record, shared.rows table rid = some record → Within widths (table.ids record))
    (rid : Rid) (record : table.Record A) (row : later.rows table rid = some record)
    : Within widths (table.ids record) := by
  obtain ⟨original, there, ids⟩ := same.row row
  rw [← ids]
  exact fit rid original there

/-- All of it is about ids, so it lasts while entries are only taken out. -/
theorem Shared.Deliverable.frame (ready : shared.Deliverable) (same : shared.SameIds later)
    (fewer
      : ∀ key value : UInt64, later.newOrder[key]? = some value
        → shared.newOrder[key]? = some value)
    : later.Deliverable where
  orders := same.indexed ready.orders
  lines := same.indexed ready.lines
  customers := same.indexed ready.customers
  ordersFit := same.within [16, 16, 16, 16] ready.ordersFit
  linesFit := same.within [16, 8, 20, 20] ready.linesFit
  customersFit := same.within [16, 16, 16] ready.customersFit
  items rid line row := by
    obtain ⟨original, there, ids⟩ := same.row row
    have item : original .olIId = line .olIId := by
      simp only [Table.ids, List.cons.injEq] at ids
      exact ids.2.2.2.1
    rw [← item]
    exact ready.items rid original there
  short w d o := by
    rw [linesOf, same.rowsWhere (ofOrder_ids w d o)]
    exact ready.short w d o
  entries key value entry := by
    obtain ⟨w, d, o, c, keyed, within, small, order, customer⟩ :=
      ready.entries key value (fewer key value entry)
    obtain ⟨rid, order, row, ids⟩ := order
    obtain ⟨rid', customer, row', ids'⟩ := customer
    obtain ⟨newOrder, here, kept⟩ := same.symm.row row
    obtain ⟨newCustomer, here', kept'⟩ := same.symm.row row'
    exact ⟨w, d, o, c, keyed, within, small, ⟨rid, newOrder, here, kept.trans ids⟩,
      rid', newCustomer, here', kept'.trans ids'⟩

/-- Without one of the entries. -/
theorem Shared.Deliverable.erase {key : UInt64} (ready : shared.Deliverable)
    : { shared with newOrder := shared.newOrder.erase key }.Deliverable := by
  refine ready.frame ⟨rfl, fun _ _ => rfl⟩ ?_
  intro other value entry
  change (shared.newOrder.erase key)[other]? = some value at entry
  rw [Std.TreeMap.getElem?_erase] at entry
  split at entry
  · cases entry
  · exact entry

/-- The index of a table and these rows of it agree, and their ids fit the key. -/
def Shared.keeps (shared : Shared A) (table : Table) (widths : List Nat) (rids : List Rid) : Bool :=
  (shared.index table).toList.all (fun entry =>
    (shared.rows table entry.2).any (fun record => table.key record == entry.1))
  && rids.all (fun rid => (shared.rows table rid).all (fun record =>
    (shared.index table)[table.key record]? == some rid
    && decide (Within widths (table.ids record))))

/-- The same as a finite check, in a state that has these rows. -/
def Shared.deliverable (shared : Shared A) (rids : Table → List Rid) : Bool :=
  shared.keeps .order [16, 16, 16, 16] (rids .order)
  && shared.keeps .orderLine [16, 8, 20, 20] (rids .orderLine)
  && shared.keeps .customer [16, 16, 16] (rids .customer)
  && (rids .orderLine).all (fun rid => (shared.rows .orderLine rid).all (fun line =>
    decide ((line .olIId).toNat < itemScale)))
  && decide ((rids .orderLine).length ≤ 20)
  && shared.newOrder.toList.all (fun entry =>
    (rids .order).any (fun rid => (shared.rows .order rid).any (fun order =>
      decide (NewOrderTuple.makeKey (order .oWId) (order .oDId) (order .oId) (order .oCId) = entry.1
        ∧ (order .oCId).toNat < customerScale)
      && (rids .customer).any (fun rid => (shared.rows .customer rid).any (fun customer =>
        Table.customer.ids customer == [order .oWId, order .oDId, order .oCId])))))

theorem Shared.keeps_sound {table : Table} {widths : List Nat} {rids : List Rid}
    (checked : shared.keeps table widths rids = true)
    (only : ∀ rid record, shared.rows table rid = some record → rid ∈ rids)
    : shared.Indexed table
      ∧ ∀ rid record, shared.rows table rid = some record → Within widths (table.ids record) := by
  simp only [keeps, Bool.and_eq_true, List.all_eq_true, Option.any_eq_true, Option.all_eq_true,
    beq_iff_eq, decide_eq_true_eq] at checked
  exact ⟨⟨⟨fun found => checked.1 _ (Index.mem_toList.mpr found)⟩,
    fun row => (checked.2 _ (only _ _ row) _ row).1⟩,
    fun rid record row => (checked.2 rid (only rid record row) record row).2⟩

theorem Shared.deliverable_sound {rids : Table → List Rid}
    (checked : shared.deliverable rids = true)
    (only : ∀ table rid record, shared.rows table rid = some record → rid ∈ rids table)
    : shared.Deliverable := by
  simp only [deliverable, Bool.and_eq_true, List.all_eq_true, List.any_eq_true,
    Option.all_eq_true, Option.any_eq_true, decide_eq_true_eq, beq_iff_eq] at checked
  obtain ⟨⟨⟨⟨⟨orders, lines⟩, customers⟩, items⟩, short⟩, entries⟩ := checked
  obtain ⟨orders, ordersFit⟩ := keeps_sound orders (only _)
  obtain ⟨lines, linesFit⟩ := keeps_sound lines (only _)
  obtain ⟨customers, customersFit⟩ := keeps_sound customers (only _)
  refine ⟨orders, lines, customers, ordersFit, linesFit, customersFit,
    fun rid line row => items rid (only _ _ _ row) line row, ?_, ?_⟩
  · intro w d o
    have fewer : (shared.linesOf w d o).map Prod.snd ⊆ rids .orderLine := by
      intro rid member
      obtain ⟨line, row, _⟩ := lines.toBacked.mem_rids.mp member
      exact only _ _ _ row
    have count := (lines.toBacked.rids_nodup.subperm fewer).length_le
    rw [List.length_map] at count
    exact Nat.le_trans count short
  · intro key value entry
    obtain ⟨rid, _, order, row, ⟨keyed, small⟩, rid', _, customer, row', ids⟩ :=
      entries (key, value) (Index.mem_toList.mpr entry)
    have within := ordersFit rid order row
    exact ⟨_, _, _, _, keyed.symm,
      ⟨within.1, within.2.1, within.2.2.2.1, within.2.2.1, trivial⟩, small,
      ⟨rid, order, row, rfl⟩, rid', customer, row', ids⟩

section Oldest

variable (ready : shared.Deliverable) (asked : Within [16, 16] [w, d])
include ready asked

/-- The entries of a district are those whose keys the scan of `delivery` meets. -/
theorem newOrdersOf_between
    : shared.newOrder.between (NewOrderTuple.makeKey w d 0 0)
        (NewOrderTuple.makeKey w d 0xffff 0xffff)
      = shared.newOrdersOf w d := by
  refine List.filter_congr (fun entry member => ?_)
  obtain ⟨key, value⟩ := entry
  obtain ⟨w', d', o, c, rfl, within, _⟩ := ready.entries key value (Index.mem_toList.mp member)
  have here : Within [16, 16, 16, 16] [w, d, o, c] :=
    ⟨asked.1, asked.2.1, within.2.2.1, within.2.2.2.1, trivial⟩
  have leading : NewOrderTuple.makeKey w d o c = NewOrderTuple.makeKey w' d' o c
      ↔ [w', d'] = [w, d] := by
    rw [(NewOrderTuple.sameOrder here within).same]
    simp only [List.cons.injEq, and_true, eq_comm]
  rw [NewOrderTuple.oCIdFromKey_makeKey within]
  exact decide_eq_decide.mpr ((newOrder_scanned asked within).trans leading.symm)

/-- An entry of a district is that of an order and its customer. -/
theorem mem_newOrdersOf {entry : UInt64 × UInt64} (member : entry ∈ shared.newOrdersOf w d)
    : ∃ o c, entry.1 = NewOrderTuple.makeKey w d o c
      ∧ NewOrderTuple.oCIdFromKey entry.1 = (o, c)
      ∧ Within [16, 16, 16, 16] [w, d, o, c]
      ∧ c.toNat < customerScale
      ∧ (∃ rid order, shared.rows .order rid = some order
        ∧ Table.order.ids order = [w, d, c, o])
      ∧ ∃ rid customer, shared.rows .customer rid = some customer
        ∧ Table.customer.ids customer = [w, d, c] := by
  obtain ⟨key, value⟩ := entry
  have scanned := newOrdersOf_between ready asked ▸ member
  obtain ⟨found, inScan⟩ := Index.mem_between.mp scanned
  obtain ⟨w', d', o, c, rfl, within, small, order, customer⟩ := ready.entries key value found
  have same := (newOrder_scanned asked within).mp inScan
  simp only [List.cons.injEq, and_true] at same
  obtain ⟨rfl, rfl⟩ := same
  exact ⟨o, c, rfl, NewOrderTuple.oCIdFromKey_makeKey within, within, small, order, customer⟩

/-- The scan returns the first of them. -/
theorem newOrder_range (scan : IndexScan)
    : scan.range shared.newOrder (NewOrderTuple.makeKey w d 0 0)
        (NewOrderTuple.makeKey w d 0xffff 0xffff) 1
      = (shared.newOrdersOf w d).take 1 := by
  rw [scan.range_eq, newOrdersOf_between ready asked]
  congr 1
  refine List.filter_eq_self.mpr (fun entry member => ?_)
  obtain ⟨o, c, keyed, _, within, small, _⟩ := mem_newOrdersOf ready asked member
  have top : Within [16, 16, 16, 16] [w, d, 0xffff, 0xffff] :=
    ⟨asked.1, asked.2.1, by decide, by decide, trivial⟩
  have apart : entry.1 ≠ NewOrderTuple.makeKey w d 0xffff 0xffff := by
    intro same
    rw [keyed] at same
    have parts := (NewOrderTuple.sameOrder within top).same.mp same
    simp only [List.cons.injEq, and_true, true_and] at parts
    rw [parts.2] at small
    exact absurd small (by decide)
  simp [apart]

/-- Entries in the order of their keys are in the order of their order ids. -/
theorem newOrder_le (first second : UInt64 × UInt64) (member : first ∈ shared.newOrdersOf w d)
    (member' : second ∈ shared.newOrdersOf w d) (less : first.1 < second.1)
    : (NewOrderTuple.oCIdFromKey first.1).1.toNat
      ≤ (NewOrderTuple.oCIdFromKey second.1).1.toNat := by
  obtain ⟨o, c, keyed, decoded, within, _⟩ := mem_newOrdersOf ready asked member
  obtain ⟨o', c', keyed', decoded', within', _⟩ := mem_newOrdersOf ready asked member'
  rw [decoded, decoded']
  rw [keyed, keyed', (NewOrderTuple.sameOrder within within').less] at less
  simp only [List.cons_lt_cons_iff, UInt64.lt_irrefl, false_or, true_and] at less
  rcases less with smaller | ⟨same, _⟩
  · exact Nat.le_of_lt (UInt64.lt_iff_toNat_lt.mp smaller)
  · rw [same]

/-- The first entry has the smallest order id. -/
theorem oldest_eq_head
    : shared.oldest w d
      = (shared.newOrdersOf w d).head?.map (fun entry => NewOrderTuple.oCIdFromKey entry.1) := by
  have sorted : (shared.newOrdersOf w d).Pairwise (fun first second => first.1 < second.1) :=
    Index.toList_sorted.filter _
  have ordered := newOrder_le ready asked
  rw [Shared.oldest]
  cases orders : shared.newOrdersOf w d with
  | nil => rfl
  | cons first rest =>
      rw [orders] at sorted ordered
      rw [List.map_cons, List.argmin_cons, List.head?_cons, Option.map_some]
      cases smallest : (rest.map (fun entry => NewOrderTuple.oCIdFromKey entry.1)).argmin
          (fun order => order.1.toNat) with
      | none => rfl
      | some order =>
          obtain ⟨entry, later, rfl⟩ := List.mem_map.mp (List.argmin_mem smallest)
          have above := ordered first entry (by simp) (by simp [later])
            ((List.pairwise_cons.mp sorted).1 entry later)
          exact if_neg (Nat.not_lt.mpr above)

/-- The oldest order of a district has an entry. -/
theorem oldest_found
    (oldest : shared.oldest w d = some (o, c))
    : Within [16, 16, 16, 16] [w, d, o, c]
      ∧ ∃ value rest, shared.newOrdersOf w d = (NewOrderTuple.makeKey w d o c, value) :: rest := by
  rw [oldest_eq_head ready asked] at oldest
  cases orders : shared.newOrdersOf w d with
  | nil =>
      rw [orders] at oldest
      cases oldest
  | cons first rest =>
      obtain ⟨o', c', keyed, decoded, within, _⟩ :=
        mem_newOrdersOf ready asked (orders ▸ List.mem_cons_self : first ∈ shared.newOrdersOf w d)
      rw [orders, List.head?_cons, Option.map_some, decoded] at oldest
      cases oldest
      exact ⟨within, first.2, rest, by rw [← keyed]⟩

end Oldest

end Deliverable

/-! ### Delivering -/

variable [Money A]

/-- The amount of an order line. -/
def Shared.amountAt (shared : Shared A) (rid : Rid) : A :=
  (shared.rows .orderLine rid).elim 0 (fun line => line .olAmount)

/-- The sum of the amounts of all lines of an order. -/
def Shared.orderAmount (shared : Shared A) (w d o : UInt64) : A :=
  ((shared.linesOf w d o).map (fun entry => shared.amountAt entry.2)).sum

/-- The order with the carrier that takes it. -/
def carried (w d c o carrier : UInt64) (order : Table.order.Record A) : Table.order.Record A :=
  if ofCustomer w d c order = true ∧ order .oId = o then
    Function.update order .oCarrierId carrier
  else order

/-- A line of the order with the time of the delivery. -/
def stamped (w d o deliveryTime : UInt64) (line : Table.orderLine.Record A)
    : Table.orderLine.Record A :=
  if ofOrder w d o line = true then Function.update line .olDeliveryD deliveryTime else line

/-- The customer with the amount of a delivered order. -/
def credited (w d c : UInt64) (amount : A) (customer : Table.customer.Record A)
    : Table.customer.Record A :=
  if customer .cWId = w ∧ customer .cDId = d ∧ customer .cId = c then
    Function.update (Function.update customer .cBalance (customer .cBalance + amount : A))
      .cDeliveryCnt (customer .cDeliveryCnt + 1 : UInt32)
  else customer

/-- An order is delivered: it has its carrier, its lines the time, and its customer the amount. -/
def Shared.serve (shared : Shared A) (carrier deliveryTime w d o c : UInt64) : Shared A :=
  ((shared.mapRows .order (fun _ => carried w d c o carrier)).mapRows
      .orderLine (fun _ => stamped w d o deliveryTime)).mapRows
    .customer (fun _ => credited w d c (shared.orderAmount w d o))

/-- Its entry is taken out of the new-order index, too. -/
def Shared.deliver (shared : Shared A) (carrier deliveryTime w d o c : UInt64) : Shared A :=
  { shared with newOrder := shared.newOrder.erase (NewOrderTuple.makeKey w d o c) }.serve
    carrier deliveryTime w d o c

/-- The state after the oldest order of each of some districts is delivered. -/
def Shared.deliverEach (carrier deliveryTime w : UInt64) : List Nat → Shared A → Shared A
  | [], shared => shared
  | dId :: rest, shared =>
      match shared.oldest w dId.toUInt64 with
      | none => deliverEach carrier deliveryTime w rest shared
      | some (oId, cId) =>
          deliverEach carrier deliveryTime w rest
            (shared.deliver carrier deliveryTime w dId.toUInt64 oId cId)

section Deliver

variable {shared : Shared A} {carrier deliveryTime w d o c : UInt64}

omit [Money A] in
theorem carried_ids (order : Table.order.Record A)
    : Table.order.ids (carried w d c o carrier order) = Table.order.ids order := by
  unfold carried
  split <;> simp [Table.ids]

omit [Money A] in
theorem stamped_ids (line : Table.orderLine.Record A)
    : Table.orderLine.ids (stamped w d o deliveryTime line) = Table.orderLine.ids line := by
  unfold stamped
  split <;> simp [Table.ids]

theorem credited_ids (amount : A) (customer : Table.customer.Record A)
    : Table.customer.ids (credited w d c amount customer) = Table.customer.ids customer := by
  unfold credited
  split <;> simp [Table.ids]

theorem Shared.serve_sameIds : shared.SameIds (shared.serve carrier deliveryTime w d o c) := by
  have first : shared.SameIds (shared.mapRows .order (fun _ => carried w d c o carrier)) :=
    .mapRows (fun _ => carried_ids)
  exact (first.trans (.mapRows (fun _ => stamped_ids))).trans (.mapRows (fun _ => credited_ids _))

theorem Shared.Deliverable.deliver (ready : shared.Deliverable)
    : (shared.deliver carrier deliveryTime w d o c).Deliverable :=
  ready.erase.frame serve_sameIds (fun _ _ entry => entry)

/-- The other districts keep their entries. -/
theorem newOrdersOf_deliver {d' : UInt64} (ready : shared.Deliverable)
    (asked : Within [16, 16] [w, d']) (within : Within [16, 16, 16, 16] [w, d, o, c])
    (other : d' ≠ d)
    : (shared.deliver carrier deliveryTime w d o c).newOrdersOf w d' = shared.newOrdersOf w d' := by
  have erased : (shared.deliver carrier deliveryTime w d o c).newOrder
      = shared.newOrder.erase (NewOrderTuple.makeKey w d o c) :=
    rfl
  rw [Shared.newOrdersOf, erased, Index.toList_erase, List.filter_filter]
  refine List.filter_congr (fun entry member => unrestricted ?_)
  intro mine
  have member : entry ∈ shared.newOrdersOf w d' := List.mem_filter.mpr ⟨member, mine⟩
  obtain ⟨o', c', keyed, _, within', _⟩ := mem_newOrdersOf ready asked member
  rw [decide_eq_true_eq, keyed]
  intro same
  have parts := (NewOrderTuple.sameOrder within' within).same.mp same
  simp only [List.cons.injEq, true_and] at parts
  exact other parts.1

theorem oldest_deliver {d' : UInt64} (ready : shared.Deliverable)
    (asked : Within [16, 16] [w, d']) (within : Within [16, 16, 16, 16] [w, d, o, c])
    (other : d' ≠ d)
    : (shared.deliver carrier deliveryTime w d o c).oldest w d' = shared.oldest w d' := by
  rw [Shared.oldest, newOrdersOf_deliver ready asked within other, Shared.oldest]

/-- A delivery takes one entry away. -/
theorem size_deliver (ready : shared.Deliverable) (asked : Within [16, 16] [w, d])
    (oldest : shared.oldest w d = some (o, c))
    : (shared.deliver carrier deliveryTime w d o c).newOrder.size < shared.newOrder.size := by
  obtain ⟨_, value, rest, orders⟩ := oldest_found ready asked oldest
  have member : (NewOrderTuple.makeKey w d o c, value) ∈ shared.newOrdersOf w d := by
    rw [orders]
    exact List.mem_cons_self ..
  have entry := List.mem_of_mem_filter member
  have found : shared.newOrder.contains (NewOrderTuple.makeKey w d o c) = true := by
    rw [Std.TreeMap.contains_eq_isSome_getElem?, Index.mem_toList.mp entry]
    rfl
  have filled := List.length_pos_of_mem entry
  rw [Std.TreeMap.length_toList] at filled
  change (shared.newOrder.erase (NewOrderTuple.makeKey w d o c)).size < shared.newOrder.size
  rw [Std.TreeMap.size_erase, if_pos found]
  exact Nat.sub_lt filled Nat.one_pos

omit [Money A] in
theorem toNat_district {dId : Nat} (small : dId < districtScale) : dId.toUInt64.toNat = dId :=
  UInt64.toNat_ofNat_of_lt (Nat.lt_trans small (by decide))

omit [Money A] in
theorem district_within {dId : Nat} (warehouse : w.toNat < 2 ^ 16) (small : dId < districtScale)
    : Within [16, 16] [w, dId.toUInt64] := by
  have here := toNat_district small
  exact ⟨warehouse, by rw [here]; exact Nat.lt_trans small (by decide), trivial⟩

theorem size_deliverEach (districts : List Nat)
    : (shared.deliverEach carrier deliveryTime w districts).newOrder.size
      ≤ shared.newOrder.size := by
  induction districts generalizing shared with
  | nil => exact Nat.le_refl _
  | cons district rest ih =>
      cases oldest : shared.oldest w district.toUInt64 with
      | none =>
          rw [Shared.deliverEach, oldest]
          exact ih
      | some order =>
          rw [Shared.deliverEach, oldest]
          exact Nat.le_trans ih Std.TreeMap.size_erase_le

/-- Nothing changes if and only if no district has an order to deliver. -/
theorem deliverEach_eq_self_iff (ready : shared.Deliverable) (warehouse : w.toNat < 2 ^ 16)
    {districts : List Nat} (small : ∀ dId ∈ districts, dId < districtScale)
    : shared.deliverEach carrier deliveryTime w districts = shared
      ↔ ∀ dId ∈ districts, shared.oldest w dId.toUInt64 = none := by
  induction districts with
  | nil => exact iff_of_true rfl (fun _ member => by cases member)
  | cons district rest ih =>
      obtain ⟨here, smallRest⟩ := List.forall_mem_cons.mp small
      rw [List.forall_mem_cons]
      cases oldest : shared.oldest w district.toUInt64 with
      | none =>
          rw [Shared.deliverEach, oldest, and_iff_right rfl]
          exact ih smallRest
      | some order =>
          refine iff_of_false (fun same => ?_) (fun empty => by cases empty.1)
          rw [Shared.deliverEach, oldest] at same
          have size := congrArg (fun later => later.newOrder.size) same
          exact Nat.ne_of_lt (Nat.lt_of_le_of_lt (size_deliverEach rest)
            (size_deliver ready (district_within warehouse here) oldest)) size

end Deliver

end Alchemy.Tpcc
