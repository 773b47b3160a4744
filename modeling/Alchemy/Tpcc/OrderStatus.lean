import Alchemy.Tpcc.Scans

/-! `order_status` run alone: which order of the customer it reads, and which lines of that
order. Both come from a scan into a buffer of twelve rids.
-/

namespace Alchemy.Tpcc

open Cache Oid Interaction

variable {A : Type} {config : DbConfig} {base solo : Solo A} {shared : Shared A}
  {seen : List Look}

/-! ### The transaction -/

/-- The customer that `findCustomer` finds. -/
def Shared.customerFor (config : DbConfig) (shared : Shared A) (wId dId : UInt32)
    : CustomerQuery → Option Rid
  | .id cId =>
      (shared.index .customer)[CustomerTuple.makeKey wId.toUInt64 dId.toUInt64 cId.toUInt64]?
  | .lastName seed =>
      let rids :=
        (config.scan.range shared.cLastIdx
          (CustomerTuple.idxKeyLastname wId.toUInt16 dId.toUInt16 seed.toUInt16 0)
          (CustomerTuple.idxKeyLastname wId.toUInt16 dId.toUInt16 seed.toUInt16
            customerScale.toUInt16) 8).map Prod.snd
      rids[rids.length / 2]?

/-- A part that succeeds is not affected by what its errors are turned into. -/
theorem alone_notFoundAborts {α : Type} {part : Txn A α} {post : Solo A → Except Stop α → Prop}
    (succeeds
      : Alone config (fun later result => ∃ value, result = .ok value ∧ post later (.ok value))
          part solo)
    : Alone config post (notFoundAborts part) solo := by
  refine (Prog.ensures_bind _ _).mpr (Prog.Ensures.mono succeeds ?_)
  rintro later _ ⟨value, rfl, holds⟩
  exact holds

theorem alone_findCustomer {wId dId : UInt32} {cQuery : CustomerQuery} {cRid : Rid}
    {customer : Table.customer.Record A} {post : Solo A → Except Stop (Option Rid) → Prop}
    (here : base.Leads shared seen solo)
    (found : shared.customerFor config wId dId cQuery = some cRid)
    (row : shared.rows .customer cRid = some customer)
    (onward : ∀ later, base.Leads shared seen later → post later (.ok (some cRid)))
    : Alone config post (findCustomer wId dId cQuery) solo := by
  cases cQuery with
  | id cId =>
      rw [findCustomer, alone_then]
      exact alone_lockKey here found row onward
  | lastName seed =>
      simp only [findCustomer]
      rw [alone_then]
      refine alone_answer here _ (fun other => Iff.rfl) ?_
      intro later leads
      simp only [Shared.customerFor] at found
      simp only [settles, found]
      rw [alone_then]
      refine alone_notFoundAborts (alone_lockRid (leads.quiet rfl rfl) row ?_)
      intro last here
      exact ⟨cRid, rfl, onward last here⟩

theorem alone_readEach {table : Table} {query : List table.Name} {rids : List Rid}
    {post : Solo A → Except Stop Unit → Prop} (here : base.Leads shared seen solo)
    (rows : ∀ rid ∈ rids, ∃ record, shared.rows table rid = some record)
    (onward : ∀ later, base.Leads shared (seen ++ rids.map (.read table)) later
      → post later (.ok ()))
    : Alone config post (readEach table query rids) solo := by
  induction rids generalizing solo seen with
  | nil => exact onward solo (by simpa using here)
  | cons rid rest ih =>
      obtain ⟨record, row⟩ := rows rid (by simp)
      refine (alone_then _ _).mpr (alone_lockRid here row (fun _ here => ?_))
      refine (alone_then _ _).mpr (alone_read here (fun _ here => ?_))
      refine (alone_then _ _).mpr (alone_touch here row (fun _ member => member) ?_)
      refine fun _ here => (alone_then _ _).mpr (alone_drop here (fun _ here => ?_))
      refine ih here (fun other member => rows other (List.mem_cons_of_mem _ member)) ?_
      intro last here
      exact onward last (by simpa using here)

namespace OrderStatusInput

/-- What the scan for the orders of a customer returns. -/
def orderScan (config : DbConfig) (shared : Shared A) (input : OrderStatusInput) (cId : UInt64)
    : List Rid :=
  (config.scan.range (shared.index .order)
    (OrderTuple.makeKey input.wId.toUInt64 input.dId.toUInt64 cId 0)
    (OrderTuple.makeKey input.wId.toUInt64 input.dId.toUInt64 cId 0xffff) 12).map Prod.snd

/-- What the scan for the lines of an order returns. -/
def lineScan (config : DbConfig) (shared : Shared A) (input : OrderStatusInput) (oId : UInt64)
    : List Rid :=
  (config.scan.range (shared.index .orderLine)
    (OrderLineTuple.makeKey input.wId.toUInt64 input.dId.toUInt64 oId 0)
    (OrderLineTuple.makeKey input.wId.toUInt64 input.dId.toUInt64 oId 0xffff) 12).map Prod.snd

end OrderStatusInput

/-- All that `order_status` looks at. -/
theorem alone_orderStatus [Money A] {input : OrderStatusInput} {cRid : Rid}
    {customer : Table.customer.Record A} {post : Solo A → Except Stop Unit → Prop}
    (here : base.Leads shared seen solo)
    (found : shared.customerFor config input.wId input.dId input.cQuery = some cRid)
    (row : shared.rows .customer cRid = some customer) (orders : shared.Backed .order)
    (lines : shared.Backed .orderLine)
    (nothing
      : (input.orderScan config shared (customer .cId)).getLast? = none
        → ∀ later,
            base.Leads shared
              (seen ++ [.read .customer cRid]
                ++ [.scan .order (input.orderScan config shared (customer .cId))]) later
            → post later (.error .panic))
    (reads
      : ∀ mostRecent order,
          (input.orderScan config shared (customer .cId)).getLast? = some mostRecent
          → shared.rows .order mostRecent = some order
          → ∀ later,
              base.Leads shared
                (seen ++ [.read .customer cRid]
                  ++ [.scan .order (input.orderScan config shared (customer .cId))]
                  ++ [.read .order mostRecent]
                  ++ [.scan .orderLine (input.lineScan config shared (order .oId))]
                  ++ (input.lineScan config shared (order .oId)).map (.read .orderLine)) later
              → post later (.ok ()))
    : Alone config post (orderStatus input) solo := by
  refine (alone_then _ _).mpr (alone_findCustomer here found row (fun _ here => ?_))
  refine (alone_then _ _).mpr (alone_readAndPromote here (fun _ here => ?_))
  refine (alone_then _ _).mpr (alone_touch here row (fun _ member => member) (fun _ here => ?_))
  refine (alone_then _ _).mpr (alone_getValue here row (by simp) trivial (fun _ here => ?_))
  refine (alone_then _ _).mpr (alone_range here (fun scanned same _ here => ?_))
  obtain rfl : scanned = input.orderScan config shared (customer .cId) := same
  cases last : (input.orderScan config shared (customer .cId)).getLast? with
  | none =>
      simp only [settles, last]
      exact nothing last _ here
  | some mostRecent =>
      simp only [settles, last]
      obtain ⟨order, orderRow⟩ := orders.scanned_row (List.mem_of_getLast? last)
      refine (alone_then _ _).mpr (alone_lockRid here orderRow (fun _ here => ?_))
      refine (alone_then _ _).mpr (alone_read here (fun _ here => ?_))
      refine (alone_then _ _).mpr
        (alone_touch here orderRow (fun _ member => member) (fun _ here => ?_))
      refine (alone_then _ _).mpr
        (alone_getValue here orderRow (by simp) trivial (fun _ here => ?_))
      refine (alone_then _ _).mpr (alone_range here (fun lineRids same _ here => ?_))
      obtain rfl : lineRids = input.lineScan config shared (order .oId) := same
      exact alone_readEach here (fun rid member => lines.scanned_row member)
        (fun later here => reads mostRecent order last orderRow later here)

theorem rowsRead_append (table : Table) (seen more : List Look)
    : rowsRead table (seen ++ more) = rowsRead table seen ++ rowsRead table more := by
  simp [rowsRead]

theorem rowsRead_map_read (table : Table) (rids : List Rid)
    : rowsRead table (rids.map (.read table)) = rids := by
  induction rids with
  | nil => rfl
  | cons rid rest ih => simp [rowsRead]

theorem rowsRead_map_other {table other : Table} (different : other ≠ table) (rids : List Rid)
    : rowsRead table (rids.map (.read other)) = [] := by
  induction rids with
  | nil => rfl
  | cons rid rest ih => simp [rowsRead, different]

section Alone

variable [Money A] (input : OrderStatusInput) {cRid : Rid} {customer : Table.customer.Record A}

/-- The order that `order_status` reads is the last one of its scan. -/
theorem orderStatus_orders (found : shared.customerFor config input.wId input.dId input.cQuery
      = some cRid) (row : shared.rows .customer cRid = some customer)
    (orders : shared.Backed .order) (lines : shared.Backed .orderLine)
    : Alone config
        (fun last _ =>
          rowsRead .order (looks last.log)
            = (input.orderScan config shared (customer .cId)).getLast?.toList)
        (orderStatus input) ⟨shared, []⟩ := by
  refine alone_orderStatus (.refl _) found row orders lines ?_ ?_
  · intro none later here
    rw [here.looks, none]
    simp [looks, rowsRead]
  · intro mostRecent order last _ later here
    rw [here.looks, last]
    simp only [rowsRead_append, rowsRead_map_other (by decide : Table.orderLine ≠ .order)]
    simp [looks, rowsRead]

/-- What `order_status` does with the orders it reads is decided by its scan. -/
theorem orderStatus_orders_iff (found : shared.customerFor config input.wId input.dId input.cQuery
      = some cRid) (row : shared.rows .customer cRid = some customer)
    (orders : shared.Backed .order) (lines : shared.Backed .orderLine)
    (holds : List Rid → Prop)
    : Alone config (fun last _ => holds (rowsRead .order (looks last.log))) (orderStatus input)
        ⟨shared, []⟩
      ↔ holds (input.orderScan config shared (customer .cId)).getLast?.toList := by
  have reads := orderStatus_orders input found row orders lines
  constructor
  · intro ensures
    obtain ⟨last, _, kept, same⟩ := Prog.Ensures.meet ensures reads
    rwa [same] at kept
  · intro kept
    exact Prog.Ensures.mono reads (fun last _ same => same ▸ kept)

end Alone

/-! ### The newest order -/

/-- The order is one of the customer's. -/
def ofCustomer (w d c : UInt64) (order : Table.order.Record A) : Bool :=
  decide (order .oWId = w ∧ order .oDId = d ∧ order .oCId = c)

/-- The orders of a customer. -/
def Shared.ordersOf (shared : Shared A) (w d c : UInt64) : List (UInt64 × Rid) :=
  shared.rowsWhere .order (ofCustomer w d c)

/-- No order of the customer has a larger id. -/
def Shared.Newest (shared : Shared A) (w d c : UInt64) (rid : Rid) : Prop :=
  ∃ order, shared.rows .order rid = some order ∧ ofCustomer w d c order = true
    ∧ ∀ other record, shared.rows .order other = some record → ofCustomer w d c record = true
      → (record .oId : UInt64) ≤ order .oId

/-- Orders whose ids fit their keys. -/
def Shared.OrdersFit (shared : Shared A) : Prop :=
  ∀ rid (order : Table.order.Record A), shared.rows .order rid = some order
    → Within [16, 16, 16, 16] [order .oWId, order .oDId, order .oCId, order .oId]

section Newest

variable {w d c : UInt64} {rid : Rid}

theorem ofCustomer_iff {order : Table.order.Record A}
    : ofCustomer w d c order = true ↔ order .oWId = w ∧ order .oDId = d ∧ order .oCId = c :=
  decide_eq_true_iff

/-- The orders of one customer have keys in the order of their ids. -/
theorem orderKey_lt_iff {order other : Table.order.Record A} (fit : shared.OrdersFit)
    {rid' : Rid} (row : shared.rows .order rid = some order)
    (row' : shared.rows .order rid' = some other) (mine : ofCustomer w d c order = true)
    (mine' : ofCustomer w d c other = true)
    : Table.order.key order < Table.order.key other
      ↔ (order .oId : UInt64) < other .oId := by
  have less := (NewOrderTuple.sameOrder (fit rid order row) (fit rid' other row')).less
  obtain ⟨w₁, d₁, c₁⟩ := ofCustomer_iff.mp mine
  obtain ⟨w₂, d₂, c₂⟩ := ofCustomer_iff.mp mine'
  rw [w₁, d₁, c₁, w₂, d₂, c₂] at less
  simp only [Table.key, OrderTuple.makeKey_eq, w₁, d₁, c₁, w₂, d₂, c₂, less,
    List.cons_lt_cons_iff, List.not_lt_nil, UInt64.lt_irrefl, and_false, or_false, false_or,
    true_and]

theorem newest_iff (orders : shared.Indexed .order) (fit : shared.OrdersFit)
    : shared.Newest w d c rid
      ↔ ∃ entry, (shared.ordersOf w d c).getLast? = some entry ∧ entry.2 = rid := by
  constructor
  · rintro ⟨order, row, mine, largest⟩
    refine ⟨(Table.order.key order, rid), ?_, rfl⟩
    refine (getLast?_eq_some_iff_largest Shared.rowsWhere_sorted).mpr
      ⟨orders.mem_rowsWhere.mpr ⟨order, row, rfl, mine⟩, ?_⟩
    rintro ⟨_, other⟩ member
    obtain ⟨record, row', rfl, mine'⟩ := orders.mem_rowsWhere.mp member
    rw [← UInt64.not_lt, orderKey_lt_iff fit row row' mine mine', UInt64.not_lt]
    exact largest other record row' mine'
  · rintro ⟨⟨_, _⟩, last, rfl⟩
    obtain ⟨member, largest⟩ := (getLast?_eq_some_iff_largest Shared.rowsWhere_sorted).mp last
    obtain ⟨order, row, rfl, mine⟩ := orders.mem_rowsWhere.mp member
    refine ⟨order, row, mine, ?_⟩
    intro other record row' mine'
    have below := largest _ (orders.mem_rowsWhere.mpr ⟨record, row', rfl, mine'⟩)
    rwa [← UInt64.not_lt, orderKey_lt_iff fit row row' mine mine', UInt64.not_lt] at below

/-- The range of the scan for orders holds the orders of the customer. -/
theorem ordersOf_between (orders : shared.Backed .order) (fit : shared.OrdersFit)
    (asked : Within [16, 16, 16] [w, d, c])
    : (shared.index .order).between (OrderTuple.makeKey w d c 0) (OrderTuple.makeKey w d c 0xffff)
      = shared.ordersOf w d c := by
  refine orders.between_eq ?_
  intro rid order row
  rw [ofCustomer_iff]
  exact order_scanned asked (fit rid order row)

/-- The id at the upper end of the scan. -/
theorem orderKey_top_iff {order : Table.order.Record A} (fit : shared.OrdersFit)
    (row : shared.rows .order rid = some order) (mine : ofCustomer w d c order = true)
    : Table.order.key order = OrderTuple.makeKey w d c 0xffff ↔ order .oId = 0xffff := by
  obtain ⟨rfl, rfl, rfl⟩ := ofCustomer_iff.mp mine
  have within := fit rid order row
  have top : Within [16, 16, 16, 16] [order .oWId, order .oDId, order .oCId, 0xffff] :=
    ⟨within.1, within.2.1, within.2.2.1, by decide, trivial⟩
  have same := (NewOrderTuple.sameOrder within top).same
  simp only [Table.key, OrderTuple.makeKey_eq, same, List.cons.injEq, true_and, and_true]

theorem ordersOf_sorted
    : (shared.ordersOf w d c).Pairwise (fun first second => first.1 < second.1) :=
  Shared.rowsWhere_sorted

theorem ordersOf_bounded (orders : shared.Backed .order) (fit : shared.OrdersFit)
    (asked : Within [16, 16, 16] [w, d, c])
    : ∀ entry ∈ shared.ordersOf w d c, entry.1 ≤ OrderTuple.makeKey w d c 0xffff := by
  rintro ⟨key, rid⟩ member
  rw [← ordersOf_between orders fit asked] at member
  exact (Index.mem_between.mp member).2.2

/-- No order has the id at the upper end of the scan. -/
theorem ordersOf_below_iff (orders : shared.Indexed .order) (fit : shared.OrdersFit)
    : (∀ entry ∈ shared.ordersOf w d c, entry.1 ≠ OrderTuple.makeKey w d c 0xffff)
      ↔ ∀ rid order, shared.rows .order rid = some order → ofCustomer w d c order = true
        → order .oId ≠ (0xffff : UInt64) := by
  constructor
  · intro below rid order row mine top
    exact below _ (orders.mem_rowsWhere.mpr ⟨order, row, rfl, mine⟩)
      ((orderKey_top_iff fit row mine).mpr top)
  · rintro below ⟨_, rid⟩ member top
    obtain ⟨order, row, rfl, mine⟩ := orders.mem_rowsWhere.mp member
    exact below rid order row mine ((orderKey_top_iff fit row mine).mp top)

/-- The last entry of a scan is the newest order if the customer has no more orders than the
scan has room for and none has the id at the end of the range, unless the end belongs to it.
-/
theorem scan_newest_iff (orders : shared.Indexed .order) (fit : shared.OrdersFit)
    {someRid : Rid} {someOrder : Table.order.Record A}
    (someRow : shared.rows .order someRid = some someOrder)
    (mine : ofCustomer w d c someOrder = true) (scan : IndexScan) (length : Nat)
    : (∃ rid,
        ((scan.range (shared.index .order) (OrderTuple.makeKey w d c 0)
            (OrderTuple.makeKey w d c 0xffff) length).map Prod.snd).getLast?.toList = [rid]
        ∧ shared.Newest w d c rid)
      ↔ (shared.ordersOf w d c).length ≤ length
        ∧ (scan.closed = true
          ∨ ∀ rid order, shared.rows .order rid = some order → ofCustomer w d c order = true
            → order .oId ≠ (0xffff : UInt64)) := by
  obtain ⟨isW, isD, isC⟩ := ofCustomer_iff.mp mine
  have within := fit someRid someOrder someRow
  rw [isW, isD, isC] at within
  have asked : Within [16, 16, 16] [w, d, c] := ⟨within.1, within.2.1, within.2.2.1, trivial⟩
  have member : (Table.order.key someOrder, someRid) ∈ shared.ordersOf w d c :=
    orders.mem_rowsWhere.mpr ⟨someOrder, someRow, rfl, mine⟩
  rw [← ordersOf_below_iff orders fit,
    ← getLast?_scan_iff ordersOf_sorted (ordersOf_bounded orders.toBacked fit asked)
      (List.ne_nil_of_mem member),
    scan.range_eq, ordersOf_between orders.toBacked fit asked, List.getLast?_map]
  simp only [newest_iff orders fit]
  obtain ⟨newest, last⟩ :=
    Option.isSome_iff_exists.mp (List.getLast?_isSome.mpr (List.ne_nil_of_mem member))
  rw [last]
  constructor
  · rintro ⟨rid, read, entry, final, same⟩
    cases final
    obtain ⟨found, scanned, rfl⟩ := Option.map_eq_some_iff.mp
      (Option.toList_eq_singleton_iff.mp read)
    have kept := List.mem_of_mem_filter (List.mem_of_mem_take (List.mem_of_getLast? scanned))
    rw [scanned, orders.toBacked.entry_unique kept (List.mem_of_getLast? last) same.symm]
  · intro scanned
    exact ⟨newest.2, by rw [scanned]; rfl, newest, rfl, rfl⟩

end Newest

/-- The customer exists and has an order. `order_status` reads the newest one exactly if the
customer has no more than twelve orders and, should the range leave out its upper end, none with
the id `0xffff`.
-/
theorem order_status_newest_iff [Money A] (input : OrderStatusInput) {cRid : Rid}
    {customer : Table.customer.Record A}
    (found : shared.customerFor config input.wId input.dId input.cQuery = some cRid)
    (row : shared.rows .customer cRid = some customer) (orders : shared.Indexed .order)
    (lines : shared.Backed .orderLine) (fit : shared.OrdersFit)
    (ordered
      : ∃ rid order, shared.rows .order rid = some order
        ∧ ofCustomer input.wId.toUInt64 input.dId.toUInt64 (customer .cId) order = true)
    : Alone config
        (fun last _ =>
          ∃ rid, rowsRead .order (looks last.log) = [rid]
            ∧ shared.Newest input.wId.toUInt64 input.dId.toUInt64 (customer .cId) rid)
        (orderStatus input) ⟨shared, []⟩
      ↔ (shared.ordersOf input.wId.toUInt64 input.dId.toUInt64 (customer .cId)).length ≤ 12
        ∧ (config.scan.closed = true
          ∨ ∀ rid order, shared.rows .order rid = some order
            → ofCustomer input.wId.toUInt64 input.dId.toUInt64 (customer .cId) order = true
            → order .oId ≠ (0xffff : UInt64)) := by
  obtain ⟨someRid, someOrder, someRow, mine⟩ := ordered
  rw [orderStatus_orders_iff input found row orders.toBacked lines (fun rids =>
    ∃ rid, rids = [rid]
      ∧ shared.Newest input.wId.toUInt64 input.dId.toUInt64 (customer .cId) rid)]
  exact scan_newest_iff orders fit someRow mine config.scan 12

/-- A customer, all of whose fields are zero, with this many orders. -/
def manyOrders (count : Nat) : List (StoredRow UInt64) :=
  ⟨.customer, 0, Table.customer.zeroed⟩
    :: (List.range count).map (fun oId =>
      ⟨.order, BitVec.ofNat 32 oId, Function.update Table.order.zeroed .oId oId.toUInt64⟩)

theorem storing_ordersFit {rows : List (StoredRow UInt64)}
    (fit : ∀ order ∈ recordsOf .order rows, Within [16, 16, 16, 16] (Table.order.ids order))
    : (Shared.storing rows).OrdersFit :=
  fun _ order row => fit order (Shared.mem_recordsOf row)

theorem order_status_newest_of_twelve
    : Alone (.wholeTuples true)
        (fun last _ =>
          ∃ rid, rowsRead .order (looks last.log) = [rid]
            ∧ (Shared.storing (manyOrders 12)).Newest 0 0 0 rid)
        (orderStatus ⟨0, 0, .id 0⟩) ⟨Shared.storing (manyOrders 12), []⟩ := by
  have indexed := Shared.indexed_storing
    (by decide +kernel : (manyOrders 12).Pairwise StoredRow.Apart)
  have customer : (Shared.storing (manyOrders 12)).rows .customer 0 = some Table.customer.zeroed :=
    rfl
  have found
      : (Shared.storing (manyOrders 12)).customerFor (.wholeTuples true) 0 0 (.id 0) = some 0 := by
    decide +kernel
  refine (order_status_newest_iff ⟨0, 0, .id 0⟩ found customer (indexed .order)
    (indexed .orderLine).toBacked (storing_ordersFit (by decide +kernel)) ?_).mpr
    ⟨by decide +kernel, Or.inl rfl⟩
  exact ⟨0, Function.update Table.order.zeroed .oId (0 : UInt64), rfl, by decide +kernel⟩

/-- The thirteenth order of a customer does not fit the buffer of the scan, so the twelfth is
read.
-/
theorem thirteenth_order_missed
    : (Shared.storing (manyOrders 13)).Indexed .order
      ∧ (Shared.storing (manyOrders 13)).Indexed .orderLine
      ∧ (Shared.storing (manyOrders 13)).OrdersFit
      ∧ Alone (.wholeTuples true)
          (fun last _ =>
            rowsRead .order (looks last.log) = [11]
              ∧ (Shared.storing (manyOrders 13)).Newest 0 0 0 12
              ∧ ¬(Shared.storing (manyOrders 13)).Newest 0 0 0 11)
          (orderStatus ⟨0, 0, .id 0⟩) ⟨Shared.storing (manyOrders 13), []⟩ := by
  have indexed := Shared.indexed_storing
    (by decide +kernel : (manyOrders 13).Pairwise StoredRow.Apart)
  have fit : (Shared.storing (manyOrders 13)).OrdersFit := storing_ordersFit (by decide +kernel)
  have customer : (Shared.storing (manyOrders 13)).rows .customer 0 = some Table.customer.zeroed :=
    rfl
  have newest : ((Shared.storing (manyOrders 13)).ordersOf 0 0 0).getLast? = some (12, 12) := by
    decide +kernel
  refine ⟨indexed .order, indexed .orderLine, fit, ?_⟩
  refine Prog.Ensures.mono (orderStatus_orders _ (by decide +kernel) customer
    (indexed .order).toBacked (indexed .orderLine).toBacked) ?_
  intro last _ same
  refine ⟨same.trans (by decide +kernel), ?_, ?_⟩
  · exact (newest_iff (indexed .order) fit).mpr ⟨(12, 12), newest, rfl⟩
  · intro other
    obtain ⟨entry, final, eleventh⟩ := (newest_iff (indexed .order) fit).mp other
    rw [newest] at final
    cases final
    exact absurd eleventh (by decide)

/-! ### The lines of the order -/

/-- The line is one of the order's. -/
def ofOrder (w d o : UInt64) (line : Table.orderLine.Record A) : Bool :=
  decide (line .olWId = w ∧ line .olDId = d ∧ line .olOId = o)

/-- The lines of an order. -/
def Shared.linesOf (shared : Shared A) (w d o : UInt64) : List (UInt64 × Rid) :=
  shared.rowsWhere .orderLine (ofOrder w d o)

/-- Order lines whose ids fit their keys. -/
def Shared.LinesFit (shared : Shared A) : Prop :=
  ∀ rid (line : Table.orderLine.Record A), shared.rows .orderLine rid = some line
    → Within [16, 8, 20, 20] [line .olWId, line .olDId, line .olOId, line .olIId]

/-- Items below the `0xffff` at the upper end of the scan. -/
def itemInReach (closed : Bool) (item : UInt64) : Bool :=
  decide (item < 0xffff) || closed && decide (item = 0xffff)

section Lines

variable {w d o : UInt64} {rid : Rid}

theorem ofOrder_iff {line : Table.orderLine.Record A}
    : ofOrder w d o line = true ↔ line .olWId = w ∧ line .olDId = d ∧ line .olOId = o :=
  decide_eq_true_iff

/-- The scan for the lines of an order meets those with small items. -/
theorem lines_range (lines : shared.Backed .orderLine) (fit : shared.LinesFit)
    (asked : Within [16, 8, 20] [w, d, o]) (scan : IndexScan) (length : Nat)
    : scan.range (shared.index .orderLine) (OrderLineTuple.makeKey w d o 0)
        (OrderLineTuple.makeKey w d o 0xffff) length
      = (shared.rowsWhere .orderLine
          (fun line => ofOrder w d o line && itemInReach scan.closed (line .olIId))).take length := by
  obtain ⟨wide, district, order, _⟩ := asked
  have bottom : Within [16, 8, 20, 20] [w, d, o, 0] :=
    ⟨wide, district, order, by decide, trivial⟩
  have top : Within [16, 8, 20, 20] [w, d, o, 0xffff] :=
    ⟨wide, district, order, by decide, trivial⟩
  refine lines.range_eq_rowsWhere length ?_
  intro rid line row
  have within := fit rid line row
  rw [Table.key, orderLine_inScan_iff bottom top within, Ne,
    (OrderLineTuple.sameOrder within top).same]
  simp only [ofOrder, itemInReach, Bool.and_eq_true, Bool.or_eq_true, decide_eq_true_eq,
    List.cons.injEq, and_true, UInt64.lt_iff_toNat_lt, UInt64.le_iff_toNat_le, ← UInt64.toNat_inj]
  cases scan.closed with
  | false =>
      simp only [Bool.false_eq_true, false_and, false_or, or_false]
      omega
  | true =>
      simp only [true_and, true_or, and_true]
      omega

end Lines

section

variable [Money A] (input : OrderStatusInput) {cRid oRid : Rid}
  {customer : Table.customer.Record A} {order : Table.order.Record A}

/-- The lines that `order_status` reads are those of its scan. -/
theorem orderStatus_lines
    (found : shared.customerFor config input.wId input.dId input.cQuery = some cRid)
    (row : shared.rows .customer cRid = some customer) (orders : shared.Backed .order)
    (lines : shared.Backed .orderLine)
    (latest : (input.orderScan config shared (customer .cId)).getLast? = some oRid)
    (orderRow : shared.rows .order oRid = some order)
    : Alone config
        (fun last _ =>
          rowsRead .orderLine (looks last.log) = input.lineScan config shared (order .oId))
        (orderStatus input) ⟨shared, []⟩ := by
  refine alone_orderStatus (.refl _) found row orders lines ?_ ?_
  · intro none
    rw [latest] at none
    cases none
  · intro mostRecent other last otherRow later here
    obtain rfl := Option.some.inj (latest.symm.trans last)
    obtain rfl := Option.some.inj (orderRow.symm.trans otherRow)
    rw [here.looks]
    simp only [rowsRead_append, rowsRead_map_read]
    simp [looks, rowsRead]

/-- The order that `order_status` reads has lines. It reads exactly these if and only if there
are no more than twelve, each has its entry in the index, and their items are below `0xffff`, or
at most `0xffff` should the range include its upper end.
-/
theorem order_status_lines_iff
    (found : shared.customerFor config input.wId input.dId input.cQuery = some cRid)
    (row : shared.rows .customer cRid = some customer) (orders : shared.Backed .order)
    (lines : shared.Backed .orderLine) (fit : shared.LinesFit)
    (latest : (input.orderScan config shared (customer .cId)).getLast? = some oRid)
    (orderRow : shared.rows .order oRid = some order)
    (lined
      : ∃ rid line, shared.rows .orderLine rid = some line
        ∧ ofOrder input.wId.toUInt64 input.dId.toUInt64 (order .oId) line = true)
    : Alone config
        (fun last _ =>
          ∀ rid, rid ∈ rowsRead .orderLine (looks last.log)
            ↔ ∃ line, shared.rows .orderLine rid = some line
              ∧ ofOrder input.wId.toUInt64 input.dId.toUInt64 (order .oId) line = true)
        (orderStatus input) ⟨shared, []⟩
      ↔ (shared.linesOf input.wId.toUInt64 input.dId.toUInt64 (order .oId)).length ≤ 12
        ∧ ∀ rid line, shared.rows .orderLine rid = some line
          → ofOrder input.wId.toUInt64 input.dId.toUInt64 (order .oId) line = true
          → (shared.index .orderLine)[Table.orderLine.key line]? = some rid
            ∧ itemInReach config.scan.closed (line .olIId) = true := by
  obtain ⟨someRid, someLine, someRow, mine⟩ := lined
  obtain ⟨isW, isD, isO⟩ := ofOrder_iff.mp mine
  have within := fit someRid someLine someRow
  rw [isW, isD, isO] at within
  have asked : Within [16, 8, 20] [input.wId.toUInt64, input.dId.toUInt64, order .oId] :=
    ⟨within.1, within.2.1, within.2.2.1, trivial⟩
  have reads := orderStatus_lines input found row orders lines latest orderRow
  have scan := lines_range lines fit asked config.scan 12
  rw [Shared.linesOf, ← lines.scan_covers_iff, ← scan]
  constructor
  · intro ensures
    obtain ⟨last, _, covers, same⟩ := Prog.Ensures.meet ensures reads
    rw [same] at covers
    exact covers
  · intro covers
    refine Prog.Ensures.mono reads ?_
    intro last _ same
    rw [same]
    exact covers

end

/-- The first order of a district as `load_order` inserts it, for the first customer. -/
def firstOrder (oOlCnt iStart : UInt64) (oOlCnt_ge : 5 ≤ oOlCnt.toNat)
    (oOlCnt_le : oOlCnt.toNat ≤ 15) (iStart_lt : iStart.toNat < itemScale - oOlCnt.toNat)
    : OrderRow UInt64 where
  wId := 0
  dId := 0
  oId := 0
  oCId := 0
  currentTime := 0
  oCarrierId := 1
  oOlCnt := oOlCnt
  iStart := iStart
  olAmount := fun _ => 0
  olDistInfo := fun _ => FieldType.zero (A := UInt64) (.fixedString 24)
  wId_lt := by decide
  dId_lt := by decide
  oId_lt := by decide
  oCId_lt := by decide
  oOlCnt_ge := oOlCnt_ge
  oOlCnt_le := oOlCnt_le
  iStart_lt := iStart_lt

/-- The customer, the order and its lines. -/
def OrderRow.stored (row : OrderRow UInt64) : List (StoredRow UInt64) :=
  ⟨.customer, 0, Table.customer.zeroed⟩ :: ⟨.order, 0, row.order⟩
    :: (List.range row.oOlCnt.toNat).map (fun ol =>
      ⟨.orderLine, BitVec.ofNat 32 ol, row.orderLine ol⟩)

theorem storing_linesFit {rows : List (StoredRow UInt64)}
    (fit : ∀ line ∈ recordsOf .orderLine rows, Within [16, 8, 20, 20] (Table.orderLine.ids line))
    : (Shared.storing rows).LinesFit :=
  fun _ line row => fit line (Shared.mem_recordsOf row)

def twelveLines : OrderRow UInt64 :=
  firstOrder 12 0 (by decide) (by decide) (by decide)

theorem order_status_lines_of_twelve
    : Alone (.wholeTuples false)
        (fun last _ =>
          ∀ rid, rid ∈ rowsRead .orderLine (looks last.log)
            ↔ ∃ line, (Shared.storing twelveLines.stored).rows .orderLine rid = some line
              ∧ ofOrder 0 0 0 line = true)
        (orderStatus ⟨0, 0, .id 0⟩) ⟨Shared.storing twelveLines.stored, []⟩ := by
  have indexed := Shared.indexed_storing
    (by decide +kernel : twelveLines.stored.Pairwise StoredRow.Apart)
  have customer : (Shared.storing twelveLines.stored).rows .customer 0
      = some Table.customer.zeroed :=
    rfl
  have found
      : (Shared.storing twelveLines.stored).customerFor (.wholeTuples false) 0 0 (.id 0)
        = some 0 := by
    decide +kernel
  have order : (Shared.storing twelveLines.stored).rows .order 0 = some twelveLines.order := rfl
  refine (order_status_lines_iff ⟨0, 0, .id 0⟩ found customer (indexed .order).toBacked
    (indexed .orderLine).toBacked (storing_linesFit (by decide +kernel)) (by decide +kernel) order
    ⟨0, twelveLines.orderLine 0, rfl, by decide +kernel⟩).mpr ⟨by decide +kernel, ?_⟩
  intro rid line row _
  have inReach : ∀ line ∈ recordsOf .orderLine twelveLines.stored,
      itemInReach false (line .olIId) = true := by
    decide +kernel
  exact ⟨(indexed .orderLine).listed row, inReach line (Shared.mem_recordsOf row)⟩

def thirteenLines : OrderRow UInt64 :=
  firstOrder 13 0 (by decide) (by decide) (by decide)

def highItems : OrderRow UInt64 :=
  firstOrder 5 65536 (by decide) (by decide) (by decide)

/-- The thirteenth line does not fit the buffer of the scan, and lines with items above `0xffff`
are not in its range.
-/
theorem order_lines_missed
    : (∀ row ∈ [thirteenLines, highItems],
        (∀ table, (Shared.storing row.stored).Indexed table)
        ∧ (Shared.storing row.stored).LinesFit)
      ∧ Alone (.wholeTuples true)
          (fun last _ => 12 ∉ rowsRead .orderLine (looks last.log)) (orderStatus ⟨0, 0, .id 0⟩)
          ⟨Shared.storing thirteenLines.stored, []⟩
      ∧ (Shared.storing thirteenLines.stored).rows .orderLine 12
        = some (thirteenLines.orderLine 12)
      ∧ Alone (.wholeTuples true)
          (fun last _ => rowsRead .orderLine (looks last.log) = []) (orderStatus ⟨0, 0, .id 0⟩)
          ⟨Shared.storing highItems.stored, []⟩
      ∧ (Shared.storing highItems.stored).rows .orderLine 0 = some (highItems.orderLine 0) := by
  have thirteen := Shared.indexed_storing
    (by decide +kernel : thirteenLines.stored.Pairwise StoredRow.Apart)
  have high := Shared.indexed_storing
    (by decide +kernel : highItems.stored.Pairwise StoredRow.Apart)
  have customer : (Shared.storing thirteenLines.stored).rows .customer 0
      = some Table.customer.zeroed :=
    rfl
  have customer' : (Shared.storing highItems.stored).rows .customer 0
      = some Table.customer.zeroed :=
    rfl
  have order : (Shared.storing thirteenLines.stored).rows .order 0 = some thirteenLines.order :=
    rfl
  have order' : (Shared.storing highItems.stored).rows .order 0 = some highItems.order := rfl
  refine ⟨?_, ?_, rfl, ?_, rfl⟩
  · intro row member
    rcases List.mem_pair.mp member with rfl | rfl
    · exact ⟨thirteen, storing_linesFit (by decide +kernel)⟩
    · exact ⟨high, storing_linesFit (by decide +kernel)⟩
  · refine Prog.Ensures.mono (orderStatus_lines _ (by decide +kernel) customer
      (thirteen .order).toBacked (thirteen .orderLine).toBacked (by decide +kernel) order) ?_
    intro last _ same
    rw [same]
    decide +kernel
  · refine Prog.Ensures.mono (orderStatus_lines _ (by decide +kernel) customer'
      (high .order).toBacked (high .orderLine).toBacked (by decide +kernel) order') ?_
    intro last _ same
    rw [same]
    decide +kernel

end Alchemy.Tpcc
