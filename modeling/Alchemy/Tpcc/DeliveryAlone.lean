import Alchemy.Tpcc.DeliverySpec

/-! `delivery` run alone does what it is for, district by district, until it comes to a district
without an undelivered order: there it returns, and the districts after it are not served.
-/

namespace Alchemy.Tpcc

open Cache Oid Interaction

variable {A : Type} [Money A] {config : DbConfig} {base solo : Solo A} {shared : Shared A}
  {seen : List Look}

/-! ### One order -/

theorem amountAt_mapRows
    {change : Rid → Table.orderLine.Record A → Table.orderLine.Record A}
    (spared : ∀ rid line, change rid line .olAmount = line .olAmount)
    : (shared.mapRows .orderLine change).amountAt = shared.amountAt := by
  funext rid
  rw [Shared.amountAt, Shared.rows_mapRows, Shared.amountAt]
  cases shared.rows .orderLine rid with
  | none => rfl
  | some line => exact spared rid line

/-- The lines of a scan are stamped, and their amounts are added up. -/
theorem alone_stampLines {deliveryTime : UInt64} {rids : List Rid} {sum : A}
    {post : Solo A → Except Stop A → Prop} (here : base.Leads shared seen solo)
    (rows : ∀ rid ∈ rids, ∃ line, shared.rows .orderLine rid = some line)
    (onward
      : ∀ more later,
          base.Leads
            (shared.mapRows .orderLine (fun rid line =>
              if rid ∈ rids then Function.update line .olDeliveryD deliveryTime else line))
            more later
          → post later (.ok (sum + (rids.map shared.amountAt).sum)))
    : Alone config post (stampLines deliveryTime rids sum) solo := by
  induction rids generalizing shared sum solo seen with
  | nil =>
      have same : shared.mapRows .orderLine (fun rid line =>
          if rid ∈ [] then Function.update line .olDeliveryD deliveryTime else line) = shared := by
        simp [Shared.mapRows]
      rw [same] at onward
      have ends := onward seen solo here
      rw [List.map_nil, List.sum_nil, add_zero] at ends
      exact ends
  | cons rid rest ih =>
      obtain ⟨line, row⟩ := rows rid (by simp)
      refine (alone_then _ _).mpr (alone_lockRid here row (fun _ here => ?_))
      refine (alone_then _ _).mpr (alone_readAndPromote here (fun _ here => ?_))
      refine (alone_then _ _).mpr (alone_setValue here row (fun _ here => ?_))
      rw [Shared.setRow_eq_mapRows row (fun line =>
        Function.update line .olDeliveryD deliveryTime)] at here
      have row' : (shared.mapRows .orderLine (fun other old =>
            if other = rid then Function.update old .olDeliveryD deliveryTime else old)).rows
              .orderLine rid
          = some (Function.update line .olDeliveryD deliveryTime) := by
        rw [Shared.rows_mapRows, row, Option.map_some, if_pos rfl]
      refine (alone_then _ _).mpr (alone_getValue here row' (by simp) trivial (fun _ here => ?_))
      refine (alone_then _ _).mpr (alone_drop here (fun _ here => ?_))
      refine ih here ?_ ?_
      · intro other member
        obtain ⟨old, there⟩ := rows other (List.mem_cons_of_mem _ member)
        rw [Shared.rows_mapRows, there]
        exact ⟨_, rfl⟩
      · intro more later leads
        rw [Shared.mapRows_mapRows] at leads
        have total : sum + (line .olAmount : A) + (rest.map shared.amountAt).sum
            = sum + ((rid :: rest).map shared.amountAt).sum := by
          rw [List.map_cons, List.sum_cons, ← add_assoc, Shared.amountAt, row, Option.elim_some]
        rw [amountAt_mapRows]
        · refine (congrArg (fun sum => post later (.ok sum)) total).mpr (onward more later ?_)
          rw [Shared.mapRows_congr]
          · exact leads
          · intro other old _
            by_cases first : other = rid <;> by_cases later : other ∈ rest <;>
              simp [first, later]
        · intro other old
          split <;> simp

section Order

variable {input : DeliveryInput} {deliveryTime d o c : UInt64} {oRid cRid : Rid}
  {order : Table.order.Record A} {customer : Table.customer.Record A}

omit [Money A] in
theorem carry_eq {w carrier : UInt64} (ready : shared.Deliverable)
    (row : shared.rows .order oRid = some order)
    (ids : Table.order.ids order = [w, d, c, o])
    : shared.setRow .order oRid (some (Function.update order .oCarrierId carrier))
      = shared.mapRows .order (fun _ => carried w d c o carrier) := by
  rw [Shared.setRow_eq_mapRows row (fun order => Function.update order .oCarrierId carrier)]
  refine Shared.mapRows_congr (fun rid other there => ?_)
  have mine : rid = oRid ↔ ofCustomer w d c other = true ∧ other .oId = o := by
    rw [ofCustomer_iff]
    constructor
    · intro same
      subst same
      obtain rfl := Option.some.inj (row.symm.trans there)
      simp only [Table.ids, List.cons.injEq, and_true] at ids
      exact ⟨⟨ids.1, ids.2.1, ids.2.2.1⟩, ids.2.2.2⟩
    · intro same
      refine ready.orders.rid_of_ids there row ?_
      rw [ids, Table.ids, same.1.1, same.1.2.1, same.1.2.2, same.2]
  rw [carried]
  exact if_congr mine rfl rfl

omit [Money A] in
theorem carriedRow {w carrier : UInt64} (row : shared.rows .order oRid = some order)
    : (shared.mapRows .order (fun _ => carried w d c o carrier)).rows .order oRid
      = some (carried w d c o carrier order) := by
  rw [Shared.rows_mapRows, row, Option.map_some]

omit [Money A] in
theorem Shared.Deliverable.carry {w carrier : UInt64} (ready : shared.Deliverable)
    : (shared.mapRows .order (fun _ => carried w d c o carrier)).Deliverable :=
  ready.frame (.mapRows (fun _ => carried_ids)) (fun _ _ entry => entry)

omit [Money A] in
theorem Shared.Deliverable.stamp {w : UInt64} (ready : shared.Deliverable)
    : (shared.mapRows .orderLine (fun _ => stamped w d o deliveryTime)).Deliverable :=
  ready.frame (.mapRows (fun _ => stamped_ids)) (fun _ _ entry => entry)

omit [Money A] in
theorem stamp_eq {w : UInt64} (ready : shared.Deliverable)
    : shared.mapRows .orderLine (fun rid line =>
        if rid ∈ (shared.linesOf w d o).map Prod.snd then
          Function.update line .olDeliveryD deliveryTime
        else line)
      = shared.mapRows .orderLine (fun _ => stamped w d o deliveryTime) := by
  refine Shared.mapRows_congr (fun rid line row => ?_)
  have mine : rid ∈ (shared.linesOf w d o).map Prod.snd ↔ ofOrder w d o line = true := by
    rw [Shared.linesOf, ready.lines.toBacked.mem_rids]
    constructor
    · intro found
      obtain ⟨other, there, selected, _⟩ := found
      obtain rfl := Option.some.inj (row.symm.trans there)
      exact selected
    · intro selected
      exact ⟨line, row, selected, ready.lines.listed row⟩
  rw [stamped]
  exact if_congr mine rfl rfl

theorem credit_eq {w : UInt64} {amount : A} (ready : shared.Deliverable)
    (row : shared.rows .customer cRid = some customer)
    (ids : Table.customer.ids customer = [w, d, c])
    : (shared.setRow .customer cRid
          (some (Function.update customer .cBalance (customer .cBalance + amount : A)))).setRow
        .customer cRid
        (some (Function.update (Function.update customer .cBalance (customer .cBalance + amount : A))
          .cDeliveryCnt (customer .cDeliveryCnt + 1 : UInt32)))
      = shared.mapRows .customer (fun _ => credited w d c amount) := by
  rw [Shared.setRow_setRow, Shared.setRow_eq_mapRows row (fun customer =>
    Function.update (Function.update customer .cBalance (customer .cBalance + amount : A))
      .cDeliveryCnt (customer .cDeliveryCnt + 1 : UInt32))]
  refine Shared.mapRows_congr (fun rid other there => ?_)
  have mine : rid = cRid ↔ other .cWId = w ∧ other .cDId = d ∧ other .cId = c := by
    constructor
    · intro same
      subst same
      obtain rfl := Option.some.inj (row.symm.trans there)
      simpa only [Table.ids, List.cons.injEq, and_true] using ids
    · intro same
      refine ready.customers.rid_of_ids there row ?_
      rw [ids, Table.ids, same.1, same.2.1, same.2.2]
  rw [credited]
  exact if_congr mine rfl rfl

/-- The state at the end of a round. -/
theorem serve_eq {w carrier : UInt64} {total : A} (ready : shared.Deliverable)
    (row : shared.rows .customer cRid = some customer)
    (ids : Table.customer.ids customer = [w, d, c]) (all : total = shared.orderAmount w d o)
    : ((((shared.mapRows .order (fun _ => carried w d c o carrier)).mapRows .orderLine (fun _ =>
            stamped w d o deliveryTime)).setRow .customer cRid
          (some (Function.update customer .cBalance (customer .cBalance + total : A)))).setRow
        .customer cRid
        (some (Function.update (Function.update customer .cBalance (customer .cBalance + total : A))
          .cDeliveryCnt (customer .cDeliveryCnt + 1 : UInt32))))
      = shared.serve carrier deliveryTime w d o c := by
  subst all
  exact credit_eq ready.carry.stamp row ids

/-- The rest of a round, once the entry is taken out. -/
theorem alone_deliverOrder {post : Solo A → Except Stop Unit → Prop}
    (here : base.Leads shared seen solo) (ready : shared.Deliverable)
    (within : Within [16, 16, 16, 16] [input.wId.toUInt64, d, o, c]) (district : d.toNat < 2 ^ 8)
    (orderRow : shared.rows .order oRid = some order)
    (orderIds : Table.order.ids order = [input.wId.toUInt64, d, c, o])
    (customerRow : shared.rows .customer cRid = some customer)
    (customerIds : Table.customer.ids customer = [input.wId.toUInt64, d, c])
    (onward
      : ∀ more later,
          base.Leads
            (shared.serve input.oCarrierId.toUInt64 deliveryTime input.wId.toUInt64 d o c) more
            later
          → post later (.ok ()))
    : Alone config post
        (deliverOrder input deliveryTime d (NewOrderTuple.makeKey input.wId.toUInt64 d o c))
        solo := by
  have asked : Within [16, 8, 20] [input.wId.toUInt64, d, o] :=
    ⟨within.1, district, Nat.lt_trans within.2.2.1 (by decide), trivial⟩
  have orderEntry : (shared.index .order)[OrderTuple.makeKey input.wId.toUInt64 d c o]?
      = some oRid := by
    simp only [Table.ids, List.cons.injEq, and_true] at orderIds
    obtain ⟨isW, isD, isC, isO⟩ := orderIds
    rw [← isW, ← isD, ← isC, ← isO]
    exact ready.orders.listed orderRow
  have customerEntry : (shared.index .customer)[CustomerTuple.makeKey input.wId.toUInt64 d c]?
      = some cRid := by
    simp only [Table.ids, List.cons.injEq, and_true] at customerIds
    obtain ⟨isW, isD, isC⟩ := customerIds
    rw [← isW, ← isD, ← isC]
    exact ready.customers.listed customerRow
  simp only [deliverOrder, NewOrderTuple.oCIdFromKey_makeKey within]
  refine (alone_then _ _).mpr (alone_lockKey here orderEntry orderRow (fun _ here => ?_))
  refine (alone_then _ _).mpr (alone_read here (fun _ here => ?_))
  refine (alone_then _ _).mpr (alone_setValue here orderRow (fun _ here => ?_))
  rw [carry_eq ready orderRow orderIds] at here
  have sameC : (carried input.wId.toUInt64 d c o input.oCarrierId.toUInt64 order) .oCId = c := by
    have ids : Table.order.ids
          (carried input.wId.toUInt64 d c o input.oCarrierId.toUInt64 order)
        = [input.wId.toUInt64, d, c, o] :=
      (carried_ids order).trans orderIds
    simp only [Table.ids, List.cons.injEq] at ids
    exact ids.2.2.1
  refine (alone_then _ _).mpr (alone_getValue here (carriedRow orderRow) (by simp) trivial
    (fun _ here => ?_))
  rw [settles, sameC, if_neg (fun different => different rfl)]
  have carriedSame : shared.SameIds (shared.mapRows .order (fun _ =>
      carried input.wId.toUInt64 d c o input.oCarrierId.toUInt64)) :=
    .mapRows (fun _ => carried_ids)
  have readyLines : (shared.mapRows .order (fun _ =>
      carried input.wId.toUInt64 d c o input.oCarrierId.toUInt64)).Deliverable :=
    ready.carry
  refine (alone_then _ _).mpr (alone_range here (fun rids same _ here => ?_))
  rw [NewOrderTuple.oCIdFromKey_makeKey within, readyLines.lines_range asked] at same
  subst same
  refine (alone_then _ _).mpr (alone_stampLines here ?_ (fun _ _ here => ?_))
  · intro rid member
    obtain ⟨line, row, _⟩ := readyLines.lines.toBacked.mem_rids.mp member
    exact ⟨line, row⟩
  rw [stamp_eq readyLines] at here
  refine (alone_then _ _).mpr (alone_lockKey here customerEntry customerRow (fun _ here => ?_))
  refine (alone_then _ _).mpr (alone_readAndPromote here (fun _ here => ?_))
  refine (alone_then _ _).mpr (alone_update here customerRow (by simp) trivial (fun _ here => ?_))
  refine (alone_then _ _).mpr
    (alone_update here (Shared.setRow_rows ..) (by simp) trivial (fun _ here => ?_))
  refine (alone_then _ _).mpr (alone_drop here (fun _ here => ?_))
  refine alone_drop here (fun later here => ?_)
  obtain ⟨reached, looked⟩ := here
  refine onward _ later ⟨reached.trans (serve_eq ready customerRow customerIds ?_), looked⟩
  rw [zero_add, List.map_map, Shared.linesOf, carriedSame.rowsWhere (ofOrder_ids _ _ _)]
  rfl

end Order

/-! ### The districts -/

section Districts

variable {input : DeliveryInput} {deliveryTime : UInt64}

/-- One district. -/
theorem alone_deliverDistrict {d : UInt64} {post : Solo A → Except Stop Bool → Prop}
    (here : base.Leads shared seen solo) (ready : shared.Deliverable)
    (asked : Within [16, 16] [input.wId.toUInt64, d]) (district : d.toNat < 2 ^ 8)
    (empty
      : shared.oldest input.wId.toUInt64 d = none
        → ∀ more later, base.Leads shared more later → post later (.ok false))
    (served
      : ∀ o c, shared.oldest input.wId.toUInt64 d = some (o, c)
        → ∀ more later,
            base.Leads
              (shared.deliver input.oCarrierId.toUInt64 deliveryTime input.wId.toUInt64 d o c)
              more later
            → post later (.ok true))
    : Alone config post (deliverDistrict input deliveryTime d) solo := by
  have first := oldest_eq_head ready asked
  refine (alone_then _ _).mpr (alone_answer here _ (fun other => Iff.rfl) (fun _ here => ?_))
  rw [newOrder_range ready asked]
  cases orders : shared.newOrdersOf input.wId.toUInt64 d with
  | nil =>
      rw [orders] at first
      exact empty first _ _ here
  | cons entry rest =>
      have member : entry ∈ shared.newOrdersOf input.wId.toUInt64 d := by
        rw [orders]
        exact List.mem_cons_self ..
      obtain ⟨o, c, keyed, decoded, within, _, order, customer⟩ :=
        mem_newOrdersOf ready asked member
      obtain ⟨oRid, order, orderRow, orderIds⟩ := order
      obtain ⟨cRid, customer, customerRow, customerIds⟩ := customer
      rw [orders, List.head?_cons, Option.map_some, decoded] at first
      obtain ⟨key, value⟩ := entry
      obtain rfl : key = _ := keyed
      have here := here.quiet rfl rfl
      refine (alone_then _ _).mpr
        (alone_answer here _ (fun other => Iff.rfl) (fun _ here => ?_))
      refine (alone_then _ _).mpr
        (alone_deliverOrder here ready.erase within district orderRow orderIds customerRow
          customerIds (fun more later here => ?_))
      exact served o c first more later here

/-- The state after `delivery` has gone through some districts: it stops at the first one that
has no order to deliver.
-/
def Shared.deliverUntil (carrier deliveryTime w : UInt64) : List Nat → Shared A → Shared A
  | [], shared => shared
  | dId :: rest, shared =>
      match shared.oldest w dId.toUInt64 with
      | none => shared
      | some (oId, cId) =>
          deliverUntil carrier deliveryTime w rest
            (shared.deliver carrier deliveryTime w dId.toUInt64 oId cId)

/-- All districts. -/
theorem alone_deliverDistricts {districts : List Nat} {post : Solo A → Except Stop Unit → Prop}
    (here : base.Leads shared seen solo) (ready : shared.Deliverable)
    (warehouse : input.wId.toUInt64.toNat < 2 ^ 16)
    (small : ∀ dId ∈ districts, dId < districtScale)
    (onward
      : ∀ more later,
          base.Leads
            (shared.deliverUntil input.oCarrierId.toUInt64 deliveryTime input.wId.toUInt64
              districts)
            more later
          → post later (.ok ()))
    : Alone config post (deliverDistricts input deliveryTime districts) solo := by
  induction districts generalizing shared seen solo with
  | nil => exact onward _ _ here
  | cons dId rest ih =>
      obtain ⟨smallHere, smallRest⟩ := List.forall_mem_cons.mp small
      have district : dId.toUInt64.toNat < 2 ^ 8 := by
        rw [toNat_district smallHere]
        exact Nat.lt_trans smallHere (by decide)
      refine (alone_then _ _).mpr (alone_deliverDistrict here ready
        (district_within warehouse smallHere) district ?_ ?_)
      · intro empty more later here
        rw [Shared.deliverUntil, empty] at onward
        exact onward more later here
      · intro o c oldest more later here
        rw [Shared.deliverUntil, oldest] at onward
        exact ih here ready.deliver smallRest onward

/-- Stopping makes no difference if and only if no order is left behind. -/
theorem deliverUntil_eq_iff {carrier w : UInt64} {districts : List Nat}
    (ready : shared.Deliverable) (warehouse : w.toNat < 2 ^ 16)
    (small : ∀ dId ∈ districts, dId < districtScale) (distinct : districts.Nodup)
    : shared.deliverUntil carrier deliveryTime w districts
        = shared.deliverEach carrier deliveryTime w districts
      ↔ districts.Pairwise (fun dId later =>
        shared.oldest w dId.toUInt64 = none → shared.oldest w later.toUInt64 = none) := by
  induction districts generalizing shared with
  | nil => exact iff_of_true rfl .nil
  | cons dId rest ih =>
      obtain ⟨smallHere, smallRest⟩ := List.forall_mem_cons.mp small
      obtain ⟨fresh, distinctRest⟩ := List.nodup_cons.mp distinct
      rw [List.pairwise_cons]
      cases oldest : shared.oldest w dId.toUInt64 with
      | none =>
          rw [Shared.deliverUntil, Shared.deliverEach, oldest, eq_comm]
          refine (deliverEach_eq_self_iff ready warehouse smallRest).trans ?_
          constructor
          · intro empty
            exact ⟨fun later member _ => empty later member,
              List.pairwise_of_forall_mem_list (fun _ _ later member _ => empty later member)⟩
          · intro empty later member
            exact empty.1 later member rfl
      | some order =>
          obtain ⟨o, c⟩ := order
          rw [Shared.deliverUntil, Shared.deliverEach, oldest]
          refine (ih ready.deliver smallRest distinctRest).trans ?_
          rw [and_iff_right (fun _ _ empty => by cases empty)]
          have within := (oldest_found ready (district_within warehouse smallHere) oldest).1
          have kept : ∀ later ∈ rest,
              (shared.deliver carrier deliveryTime w dId.toUInt64 o c).oldest w later.toUInt64
                = shared.oldest w later.toUInt64 := by
            intro later member
            have small := smallRest later member
            refine oldest_deliver ready (district_within warehouse small) within ?_
            intro same
            have number := congrArg UInt64.toNat same
            rw [toNat_district small, toNat_district smallHere] at number
            exact fresh (number ▸ member)
          refine List.Pairwise.iff_of_mem (fun first second => ?_)
          rw [kept _ first, kept _ second]

/-- `delivery` alone returns, and has gone through the districts up to an empty one. -/
theorem alone_delivery (input : DeliveryInput) (deliveryTime : UInt64)
    (ready : shared.Deliverable) (warehouse : input.wId.toUInt64.toNat < 2 ^ 16)
    : Alone config
        (fun last result =>
          result = .ok ()
          ∧ last.shared
            = shared.deliverUntil input.oCarrierId.toUInt64 deliveryTime input.wId.toUInt64
              (List.range districtScale))
        (delivery input deliveryTime) ⟨shared, []⟩ :=
  alone_deliverDistricts (.refl _) ready warehouse (fun _ member => List.mem_range.mp member)
    (fun _ _ here => ⟨rfl, here.shared⟩)

/-- The condition, for all districts. -/
theorem deliverUntil_all_iff (carrier deliveryTime : UInt64) {w : UInt64}
    (ready : shared.Deliverable) (warehouse : w.toNat < 2 ^ 16)
    : shared.deliverUntil carrier deliveryTime w (List.range districtScale)
        = shared.deliverEach carrier deliveryTime w (List.range districtScale)
      ↔ ∀ later < districtScale, ∀ dId < later,
        shared.oldest w dId.toUInt64 = none → shared.oldest w later.toUInt64 = none := by
  rw [deliverUntil_eq_iff ready warehouse (fun _ member => List.mem_range.mp member)
    List.nodup_range, List.pairwise_iff_getElem]
  simp only [List.getElem_range, List.length_range]
  constructor
  · intro holds later small dId less
    exact holds dId later (Nat.lt_trans less small) small less
  · intro holds dId later _ small less
    exact holds later small dId less

end Districts

/-! ### A warehouse with one order -/

section

variable {row : OrderRow UInt64} {rid : Rid}

/-- The customer of an order, the order and its lines. -/
def OrderRow.placed (row : OrderRow UInt64) : List (StoredRow UInt64) :=
  ⟨.customer, 0, fun
      | .cWId => row.wId
      | .cDId => row.dId
      | .cId => row.oCId
      | field => Table.customer.zeroed field⟩
    :: ⟨.order, 0, row.order⟩
    :: (List.range row.oOlCnt.toNat).map (fun ol =>
      ⟨.orderLine, BitVec.ofNat 32 ol, row.orderLine ol⟩)

/-- These rows, and the entry of the order in the new-order index. -/
def OrderRow.waiting (row : OrderRow UInt64) : Shared UInt64 :=
  { Shared.storing row.placed with
    newOrder := (∅ : Index UInt64).insert row.newOrderKey row.newOrderKey }

def OrderRow.waitingRids (row : OrderRow UInt64) (table : Table) : List Rid :=
  (row.placed.filter (fun stored => decide (stored.table = table))).map (fun stored => stored.rid)

theorem OrderRow.waiting_deliverable (checked : row.waiting.deliverable row.waitingRids = true)
    : row.waiting.Deliverable := by
  refine Shared.deliverable_sound checked (fun table rid record found => ?_)
  have member : ⟨table, rid, record⟩ ∈ row.placed :=
    Shared.row_storing (show (Shared.storing row.placed).rows table rid = some record from found)
  exact List.mem_map.mpr ⟨_, List.mem_filter.mpr ⟨member, decide_eq_true rfl⟩, rfl⟩

end

/-- No lock is busy, and indexes and rows agree. `delivery` delivers the oldest order of every
district that has one if and only if no district without one comes before a district with one.
-/
theorem delivery_serves_iff (input : DeliveryInput) (deliveryTime : UInt64)
    (ready : shared.Deliverable) (warehouse : input.wId.toUInt64.toNat < 2 ^ 16)
    : Alone config
        (fun last result =>
          result = .ok ()
          ∧ last.shared
            = shared.deliverEach input.oCarrierId.toUInt64 deliveryTime input.wId.toUInt64
              (List.range districtScale))
        (delivery input deliveryTime) ⟨shared, []⟩
      ↔ ∀ later < districtScale, ∀ dId < later,
        shared.oldest input.wId.toUInt64 dId.toUInt64 = none
        → shared.oldest input.wId.toUInt64 later.toUInt64 = none := by
  rw [← deliverUntil_all_iff input.oCarrierId.toUInt64 deliveryTime ready warehouse]
  have ends : Alone config _ (delivery input deliveryTime) ⟨shared, []⟩ :=
    alone_delivery input deliveryTime ready warehouse
  constructor
  · intro ensures
    obtain ⟨last, _, ⟨_, each⟩, _, stopped⟩ := Prog.Ensures.meet ensures ends
    exact stopped.symm.trans each
  · intro same
    refine Prog.Ensures.mono ends ?_
    intro last result ⟨returned, stopped⟩
    exact ⟨returned, stopped.trans same⟩

/-- An order of five lines with amounts, which `load_order` leaves undelivered. -/
def waitingOrder (dId : UInt64) (dId_lt : dId.toNat < districtScale) : OrderRow UInt64 :=
  { highItems with
    oId := 2101
    dId := dId
    iStart := 0
    olAmount := fun ol => ol.toUInt64 + 1
    oId_lt := by decide
    dId_lt := dId_lt
    iStart_lt := by decide }

def firstDistrictOrder : OrderRow UInt64 :=
  waitingOrder 0 highItems.dId_lt

theorem delivery_serves_first_district
    : Alone (.wholeTuples false)
        (fun last result =>
          result = .ok ()
          ∧ last.shared
            = firstDistrictOrder.waiting.deliverEach 7 9 0 (List.range districtScale))
        (delivery ⟨0, 7⟩ 9) ⟨firstDistrictOrder.waiting, []⟩ :=
  (delivery_serves_iff ⟨0, 7⟩ 9 (OrderRow.waiting_deliverable (by decide +kernel))
    (by decide)).mpr (by decide +kernel)

def secondDistrictOrder : OrderRow UInt64 :=
  waitingOrder 1 (by decide)

/-- The only undelivered order is in the second district: `delivery` returns without it. -/
theorem order_behind_empty_district
    : secondDistrictOrder.waiting.Deliverable
      ∧ secondDistrictOrder.waiting.oldest 0 1 = some (2101, 0)
      ∧ Alone (.wholeTuples false)
          (fun last result =>
            result = .ok () ∧ last.shared = secondDistrictOrder.waiting)
          (delivery ⟨0, 7⟩ 9) ⟨secondDistrictOrder.waiting, []⟩ := by
  have ready : secondDistrictOrder.waiting.Deliverable :=
    OrderRow.waiting_deliverable (by decide +kernel)
  have empty : secondDistrictOrder.waiting.oldest 0 0 = none := by decide +kernel
  refine ⟨ready, by decide +kernel, ?_⟩
  refine Prog.Ensures.mono (alone_delivery ⟨0, 7⟩ 9 ready (by decide)) ?_
  intro last result ⟨returned, stopped⟩
  refine ⟨returned, stopped.trans ?_⟩
  change Shared.deliverUntil 7 9 0 (0 :: [1, 2, 3, 4, 5, 6, 7, 8, 9]) _ = _
  rw [Shared.deliverUntil, show Nat.toUInt64 0 = 0 from rfl, empty]

end Alchemy.Tpcc
