import Alchemy.Tpcc.Rules

/-! What `new_order` does, whatever the machine answers. Phase 1 only reads and takes locks.
Phase 2 cannot fail: it counts the order, enters it, and works off its lines one by one.
-/

namespace Alchemy.Tpcc

open Cache Oid Interaction Txn

variable {A : Type}

/-! ### The changes of an order -/

def districtQuery : List Table.district.Name :=
  [.dTax, .dNextOId]

/-- The district counter goes from `oId` to `oId + 1`. -/
def countStep (rid : Rid) (oId : UInt64) : Step A :=
  ⟨.getValueMut .district rid districtQuery .dNextOId (oId + 1 : UInt64), some oId⟩

/-- What was found in the stock row of a line. -/
structure StockWrites where
  sRid : Rid
  sQuantity : UInt64
  sYtd : UInt64
  sOrderCnt : UInt64
  sRemoteCnt : UInt64

/-- What was found while one line was worked off. -/
structure LineWrites (A : Type) extends StockWrites where
  olAmount : A
  olDistInfo : FixedString 24
  olRid : Rid
  replaced : Option Rid

namespace NewOrderInput

variable (input : NewOrderInput)

def entryStep (oId : UInt64) (replaced : Option UInt64) : Step A :=
  ⟨.newOrderInsert (input.newOrderKey oId) (input.newOrderKey oId), replaced⟩

def orderSteps (oId : UInt64) (rid : Rid) (replaced : Option Rid) : List (Step A) :=
  insertSteps .order (input.order oId) rid replaced

/-- A line supplied by another warehouse. -/
def Remote (item : OrderItem) : Prop :=
  item.olSupplyWId.toUInt32 ≠ input.wId

instance (item : OrderItem) : Decidable (input.Remote item) :=
  inferInstanceAs (Decidable (item.olSupplyWId.toUInt32 ≠ input.wId))

/-- The stores of one line to its stock row. -/
def stockSteps (item : OrderItem) (writes : StockWrites) : List (Step A) :=
  [⟨.getValueMut .stock writes.sRid stockQuery .sQuantity
      (soldQuantity writes.sQuantity item.olQuantity), some writes.sQuantity⟩,
    ⟨.getValueMut .stock writes.sRid stockQuery .sYtd
      (writes.sYtd + item.olQuantity.toUInt64 : UInt64), some writes.sYtd⟩,
    ⟨.getValueMut .stock writes.sRid stockQuery .sOrderCnt (writes.sOrderCnt + 1 : UInt64),
      some writes.sOrderCnt⟩]
  ++ if input.Remote item then
      [⟨.getValueMut .stock writes.sRid stockQuery .sRemoteCnt
        (writes.sRemoteCnt + 1 : UInt64), some writes.sRemoteCnt⟩]
    else []

/-- The order line of one line. -/
def lineRecord (oId : UInt64) (number : Nat) (item : OrderItem) (writes : LineWrites A)
    : Table.orderLine.Record A :=
  input.orderLine oId number item writes.olAmount writes.olDistInfo

/-- All changes of one line. -/
def lineSteps (oId : UInt64) (number : Nat) (item : OrderItem) (writes : LineWrites A)
    : List (Step A) :=
  input.stockSteps item writes.toStockWrites
  ++ insertSteps .orderLine (input.lineRecord oId number item writes) writes.olRid
      writes.replaced

/-- The changes of the lines from `number` on. -/
def linesSteps (oId : UInt64) : Nat → List (OrderItem × LineWrites A) → List (Step A)
  | _, [] => []
  | number, (item, writes) :: rest =>
      input.lineSteps oId number item writes ++ linesSteps oId (number + 1) rest

/-! ### What is promised -/

/-- The rows an order refers to were found. -/
structure Located (log : List (Step A)) : Prop where
  warehouse : ∃ rid, ⟨.get .warehouse input.wId.toUInt64, some rid⟩ ∈ log
  district : ∃ rid, ⟨.get .district input.districtKey, some rid⟩ ∈ log
  customer : ∃ rid, ⟨.get .customer input.customerKey, some rid⟩ ∈ log
  items : ∀ item ∈ input.items,
    ∃ rid, ⟨.get .item (ItemTuple.makeKey item.olIId.toUInt64), some rid⟩ ∈ log

/-- The stock row of an item of the order was found. -/
structure Sells (log : List (Step A)) (item : OrderItem) (rid : Rid) : Prop where
  member : item ∈ input.items
  found : ⟨.get .stock item.stockKey, some rid⟩ ∈ log

/-- The order itself is inserted. -/
def Ordered (log : List (Step A)) : Prop :=
  ∃ oId rid, ⟨.insert .order (input.order oId), rid⟩ ∈ log

/-- A field of a stock row has not been written to. -/
def Unsold (log : List (Step A)) (rid : Rid) (name : Table.stock.Name) : Prop :=
  ∀ query value old, ⟨.getValueMut .stock rid query name value, old⟩ ∉ log

/-- The order lines inserted so far are the first ones of the order. -/
def LinesDone (log : List (Step A)) (number : Nat) : Prop :=
  ∀ record rid, ⟨.insert .orderLine record, rid⟩ ∈ log
    → ∃ k item oId olAmount olDistInfo, k < number ∧ input.items[k]? = some item
      ∧ record = input.orderLine oId k item olAmount olDistInfo

/-- What `new_order` may do after the operations of its log. -/
inductive Allows : List (Step A) → Op A → Prop
  | reads {log op} (reads : op.free = true) : Allows log op
  | count {rid earlier} {oId : UInt64} (first : changes earlier = [])
    (located : input.Located earlier)
    (found : ⟨.get .district input.districtKey, some rid⟩ ∈ earlier)
    : Allows (⟨.getValue .district rid districtQuery .dNextOId, some oId⟩ :: earlier)
        (.getValueMut .district rid districtQuery .dNextOId (oId + 1 : UInt64))
  | enter {log rid oId} (counted : changes log = [countStep rid oId])
    (located : input.Located log)
    : Allows log (.newOrderInsert (input.newOrderKey oId) (input.newOrderKey oId))
  | order {log rid oId replaced}
    (entered : changes log = [countStep rid oId, input.entryStep oId replaced])
    (located : input.Located log)
    : Allows log (.insert .order (input.order oId))
  | orderIndex {earlier rid oId replaced oRid}
    (entered : changes earlier = [countStep rid oId, input.entryStep oId replaced])
    (located : input.Located earlier)
    : Allows (⟨.insert .order (input.order oId), oRid⟩ :: earlier)
        (.indexInsert .order (Table.order.key (input.order (A := A) oId)) oRid)
  | sQuantity {earlier rid item} {old : UInt64} (sells : input.Sells earlier item rid)
    (ordered : input.Ordered earlier) (unsold : Unsold earlier rid .sQuantity)
    : Allows (⟨.getValue .stock rid stockQuery .sQuantity, some old⟩ :: earlier)
        (.getValueMut .stock rid stockQuery .sQuantity (soldQuantity old item.olQuantity))
  | sYtd {earlier rid item} {old : UInt64} (sells : input.Sells earlier item rid)
    (ordered : input.Ordered earlier) (unsold : Unsold earlier rid .sYtd)
    : Allows (⟨.getValue .stock rid stockQuery .sYtd, some old⟩ :: earlier)
        (.getValueMut .stock rid stockQuery .sYtd (old + item.olQuantity.toUInt64 : UInt64))
  | sOrderCnt {earlier rid item} {old : UInt64} (sells : input.Sells earlier item rid)
    (ordered : input.Ordered earlier) (unsold : Unsold earlier rid .sOrderCnt)
    : Allows (⟨.getValue .stock rid stockQuery .sOrderCnt, some old⟩ :: earlier)
        (.getValueMut .stock rid stockQuery .sOrderCnt (old + 1 : UInt64))
  | sRemoteCnt {earlier rid item} {old : UInt64} (sells : input.Sells earlier item rid)
    (ordered : input.Ordered earlier) (unsold : Unsold earlier rid .sRemoteCnt)
    (remote : input.Remote item)
    : Allows (⟨.getValue .stock rid stockQuery .sRemoteCnt, some old⟩ :: earlier)
        (.getValueMut .stock rid stockQuery .sRemoteCnt (old + 1 : UInt64))
  | line {log rid oId number item olAmount olDistInfo} (counted : countStep rid oId ∈ log)
    (located : input.Located log) (here : input.items[number]? = some item)
    (done : input.LinesDone log number)
    : Allows log (.insert .orderLine (input.orderLine oId number item olAmount olDistInfo))
  | lineIndex {earlier rid oId number item olAmount olDistInfo olRid}
    (counted : countStep rid oId ∈ earlier) (located : input.Located earlier)
    (here : input.items[number]? = some item) (done : input.LinesDone earlier number)
    : Allows
        (⟨.insert .orderLine (input.orderLine oId number item olAmount olDistInfo), olRid⟩
          :: earlier)
        (.indexInsert .orderLine
          (Table.orderLine.key (input.orderLine oId number item olAmount olDistInfo)) olRid)
  | drop {log table rid kind}
    (inner : table = .order ∨ table = .orderLine ∨ table = .stock ∨ table = .item)
    : Allows log (.drop table rid kind)

/-- A refusal other than an item that is not there. -/
def Hindered (step : Step A) : Prop :=
  refusal step ≠ none ∧ ∀ key, step ≠ ⟨.get .item key, none⟩

/-- Why phase 1 fails: one of the items is not there, or it was hindered. -/
inductive Blames (items : List OrderItem) (log : List (Step A)) : TransactionError → Prop
  | missing {item : OrderItem} (member : item ∈ items)
    (missing : ⟨.get .item (ItemTuple.makeKey item.olIId.toUInt64), none⟩ ∈ log)
    : Blames items log .userAbort
  | hindered {error : TransactionError} {step : Step A} (member : step ∈ log)
    (hindered : Hindered step) (other : error ≠ .userAbort)
    : Blames items log error

/-- An order that was placed, with what was found on the way. -/
structure Placed (log : List (Step A)) (dRid oRid : Rid) (oId : UInt64)
    (lines : List (LineWrites A))
    : Prop where
  located : input.Located log
  district : ⟨.get .district input.districtKey, some dRid⟩ ∈ log
  lines_length : lines.length = input.items.length
  stock_nodup : (lines.map (fun writes => writes.sRid)).Nodup
  sells : ∀ pair ∈ input.items.zip lines, input.Sells log pair.1 pair.2.sRid
  changed : ∃ entry replaced,
    changes log
      = [countStep dRid oId, input.entryStep oId entry] ++ input.orderSteps oId oRid replaced
        ++ input.linesSteps oId 0 (input.items.zip lines)

/-- How `new_order` ends: it has changed nothing, or it has placed its order. -/
def Ends (log : List (Step A)) : Except Stop Unit → Prop
  | .ok _ => refusals log = [] ∧ ∃ dRid oRid oId lines, input.Placed log dRid oRid oId lines
  | .error (.err error) => changes log = [] ∧ Blames input.items log error
  | .error .panic => False

variable {input} {log later : List (Step A)}

theorem Located.mono (located : input.Located log) (kept : ∀ step ∈ log, step ∈ later)
    : input.Located later where
  warehouse := located.warehouse.imp (fun _ found => kept _ found)
  district := located.district.imp (fun _ found => kept _ found)
  customer := located.customer.imp (fun _ found => kept _ found)
  items := fun item member => (located.items item member).imp (fun _ found => kept _ found)

theorem Sells.mono {item : OrderItem} {rid : Rid} (sells : input.Sells log item rid)
    (kept : ∀ step ∈ log, step ∈ later)
    : input.Sells later item rid :=
  ⟨sells.member, kept _ sells.found⟩

theorem Placed.mono {dRid oRid : Rid} {oId : UInt64} {lines : List (LineWrites A)}
    (placed : input.Placed log dRid oRid oId lines) (grown : Grown log [] later)
    : input.Placed later dRid oRid oId lines where
  located := placed.located.mono grown.kept
  district := grown.kept _ placed.district
  lines_length := placed.lines_length
  stock_nodup := placed.stock_nodup
  sells := fun pair member => (placed.sells pair member).mono grown.kept
  changed := by
    obtain ⟨entry, replaced, changed⟩ := placed.changed
    exact ⟨entry, replaced, grown.same.trans changed⟩

theorem Blames.mono {items : List OrderItem} {error : TransactionError}
    (blames : Blames items log error) (kept : ∀ step ∈ log, step ∈ later)
    : Blames items later error := by
  cases blames with
  | missing member missing => exact .missing member (kept _ missing)
  | hindered member hindered other => exact .hindered (kept _ member) hindered other

theorem Ends.mono {outcome : Except Stop Unit} (ends : input.Ends log outcome)
    (grown : Grown log [] later)
    : input.Ends later outcome := by
  cases outcome with
  | ok =>
      obtain ⟨unrefused, dRid, oRid, oId, lines, placed⟩ := ends
      exact ⟨grown.refusals.trans unrefused, dRid, oRid, oId, lines, placed.mono grown⟩
  | error stop =>
      cases stop with
      | err => exact ⟨grown.same.trans ends.1, ends.2.mono grown.kept⟩
      | panic => exact ends

theorem permits (input : NewOrderInput) : Permits (input.Allows (A := A)) :=
  fun _ _ reads => .reads reads

/-! ### Phase 1 -/

theorem Blames.cons {items : List OrderItem} {error : TransactionError}
    (blames : Blames items log error) (item : OrderItem)
    : Blames (item :: items) log error := by
  cases blames with
  | missing member missing => exact .missing (List.mem_cons_of_mem _ member) missing
  | hindered member hindered other => exact .hindered member hindered other

/-- A refusal on another table than that of the items. -/
theorem Blames.refused {items : List OrderItem} {table : Table} {error : TransactionError}
    (other : table ≠ .item) (refused : Refused table log later error)
    : Blames items later error := by
  cases refused with
  | missing reading =>
      refine .hindered List.mem_cons_self ⟨by simp [refusal], fun key same => ?_⟩ (by simp)
      cases same
      exact other rfl
  | busy reading busy =>
      refine .hindered List.mem_cons_self ⟨by simp [refusal], by simp⟩ ?_
      rintro rfl
      cases busy

/-- The locks of the lines, by induction on the lines. A stock row that is locked already is
not locked again, so the rows are different.
-/
theorem meets_acquireItems {obliged : List (Step A) → Op A → Prop} (permits : Permits obliged)
    {post : List (Step A) → Except Stop (List (Rid × Rid)) → Prop} {items : List OrderItem}
    (done
      : ∀ locks later, Reading log later → locks.length = items.length
        → (∀ pair ∈ items.zip locks,
            ⟨.get .item (ItemTuple.makeKey pair.1.olIId.toUInt64), some pair.2.1⟩ ∈ later
            ∧ ⟨.get .stock pair.1.stockKey, some pair.2.2⟩ ∈ later)
        → (locks.map Prod.snd).Nodup
        → (∀ lock ∈ locks, ∀ kind, (lock.2, kind) ∉ guards .stock log)
        → post later (.ok locks))
    (fails
      : ∀ error later, changes later = changes log → Blames items later error
        → post later (.error (.err error)))
    : Prog.Meets Rely obliged post (acquireItems items) log := by
  induction items generalizing log post with
  | nil => exact done [] log .refl rfl (by simp) (by simp) (by simp)
  | cons item rest ih =>
      refine (meets_then _ _).mpr
        (meets_notFoundAborts (meets_lookup (permits _ _ rfl) permits ?_ ?_ ?_))
      · intro iLock first item' itemFound
        refine (meets_then _ _).mpr (meets_lockKey (permits _ _ rfl) permits ?_ ?_)
        · intro sLock second stock stockFound
          have upTo := item'.reading.trans stock.reading
          refine (meets_then _ _).mpr (ih ?_ ?_)
          · intro locks later reading length found nodup unlocked
            refine done _ later (upTo.trans reading) (by simp [length]) ?_ ?_ ?_
            · intro pair member
              rcases List.mem_cons.mp member with rfl | member
              · exact ⟨reading.mem (stock.reading.mem itemFound), reading.mem stockFound⟩
              · exact found pair member
            · refine List.nodup_cons.mpr ⟨?_, nodup⟩
              intro again
              obtain ⟨lock, member, same⟩ := List.mem_map.mp again
              exact unlocked lock member .write (same ▸ stock.guard)
            · intro lock member kind held
              rcases List.mem_cons.mp member with rfl | member
              · exact stock.free rfl kind (item'.reading.guards held)
              · exact unlocked lock member kind (upTo.guards held)
          · intro error later same blames
            exact fails _ _ (same.trans upTo.changes) (blames.cons item)
        · intro error later refused
          exact fails _ _ (refused.changes.trans item'.reading.changes)
            (.refused (by decide) refused)
      · exact fails _ _ (changes_cons_of_quiet rfl) (.missing List.mem_cons_self List.mem_cons_self)
      · intro rid error later reading busy
        cases error with
        | upgradeLockBusy | indexNotFound | userAbort => cases busy
        | readLockBusy | writeLockBusy | lockBusy =>
            exact fails _ _ ((changes_cons_of_quiet rfl).trans reading.changes)
              (.hindered List.mem_cons_self ⟨by simp [refusal], by simp⟩ (by simp))

/-- What phase 1 has found when it succeeds. -/
structure Acquired (input : NewOrderInput) (log : List (Step A)) (dRid : Rid)
    (locks : List (Rid × Rid))
    : Prop where
  located : input.Located log
  district : ⟨.get .district input.districtKey, some dRid⟩ ∈ log
  length : locks.length = input.items.length
  nodup : (locks.map Prod.snd).Nodup
  sells : ∀ pair ∈ input.items.zip locks, input.Sells log pair.1 pair.2.2

/-- The query values it hands to phase 2. -/
def lockedRows (wRid dRid cRid : Rid) (locks : List (Rid × Rid)) : NewOrderLocks where
  wResults := ⟨wRid, [.wTax]⟩
  dResults := ⟨dRid, districtQuery⟩
  cResults := ⟨cRid, [.cDiscount, .cLast, .cCredit]⟩
  locks

/-- Phase 1 only reads. -/
theorem meets_newOrderLocks {obliged : List (Step A) → Op A → Prop} (permits : Permits obliged)
    {post : List (Step A) → Except Stop NewOrderLocks → Prop}
    (done
      : ∀ wRid dRid cRid locks later, Reading log later → Acquired input later dRid locks
        → post later (.ok (lockedRows wRid dRid cRid locks)))
    (fails
      : ∀ error later, changes later = changes log → Blames input.items later error
        → post later (.error (.err error)))
    : Prog.Meets Rely obliged post (newOrderLocks input) log := by
  refine (meets_then _ _).mpr (meets_lockKey (permits _ _ rfl) permits ?_
    (fun error later refused => fails error later refused.changes (.refused (by decide) refused)))
  intro wLock _ warehouse wFound
  refine (meets_then _ _).mpr (meets_readAndPromote permits ?_)
  intro first wRead
  have upToW := warehouse.reading.trans wRead
  refine (meets_then _ _).mpr (meets_lockKey (permits _ _ rfl) permits ?_
    (fun error later refused =>
      fails error later (refused.trans upToW).changes (.refused (by decide) refused)))
  intro dLock _ district dFound
  refine (meets_then _ _).mpr (meets_readAndPromote permits ?_)
  intro second dRead
  have upToD := upToW.trans (district.reading.trans dRead)
  refine (meets_then _ _).mpr (meets_lockKey (permits _ _ rfl) permits ?_
    (fun error later refused =>
      fails error later (refused.trans upToD).changes (.refused (by decide) refused)))
  intro cLock _ customer cFound
  refine (meets_then _ _).mpr (meets_readAndPromote permits ?_)
  intro third cRead
  have upToC := upToD.trans (customer.reading.trans cRead)
  refine (meets_then _ _).mpr (meets_acquireItems permits ?_
    (fun error later same blames => fails error later (same.trans upToC.changes) blames))
  intro locks later reading length found nodup _
  have fromC := cRead.trans reading
  have fromD := (dRead.trans customer.reading).trans fromC
  have fromW := (wRead.trans district.reading).trans fromD
  refine done wLock dLock cLock locks later (upToC.trans reading)
    { located :=
        { warehouse := ⟨wLock, fromW.mem wFound⟩
          district := ⟨dLock, fromD.mem dFound⟩
          customer := ⟨cLock, fromC.mem cFound⟩
          items := ?_ }
      district := fromD.mem dFound
      length
      nodup
      sells := ?_ }
  · intro item member
    rw [← List.map_fst_zip (Nat.le_of_eq length.symm)] at member
    obtain ⟨pair, inside, rfl⟩ := List.mem_map.mp member
    exact ⟨_, (found pair inside).1⟩
  · intro pair member
    exact ⟨(List.of_mem_zip member).1, (found pair member).2⟩

/-! ### Phase 2 -/

theorem Ordered.mono (ordered : input.Ordered log) (kept : ∀ step ∈ log, step ∈ later)
    : input.Ordered later := by
  obtain ⟨oId, rid, inserted⟩ := ordered
  exact ⟨oId, rid, kept _ inserted⟩

/-- Changes of other fields leave a field unsold. -/
theorem Unsold.mono {rid : Rid} {name : Table.stock.Name} {more : List (Step A)}
    (unsold : Unsold log rid name) (grown : Grown log more later) (other : Unsold more rid name)
    : Unsold later rid name := by
  intro query value old stored
  have member := mem_changes.mpr ⟨stored, rfl⟩
  rw [grown.changed] at member
  exact unsold query value old (mem_changes.mp
    ((List.mem_append.mp member).resolve_right (other query value old))).1

/-- The updates of one stock row, in the order of the source. -/
theorem meets_updateStock {post : List (Step A) → Except Stop Unit → Prop} {item : OrderItem}
    {sLock : Rid} (sells : input.Sells log item sLock) (ordered : input.Ordered log)
    (unsold : ∀ name, Unsold log sLock name)
    (done
      : ∀ writes later, writes.sRid = sLock → Grown log (input.stockSteps item writes) later
        → post later (.ok ()))
    : Prog.Meets Rely input.Allows post (updateStock input item ⟨sLock, stockQuery⟩) log := by
  refine (meets_then _ _).mpr (meets_update input.permits (by simp [stockQuery])
    (by simp [Table.Kept, StockField.Dropped]) (fun old => .sQuantity sells ordered (unsold _)) ?_)
  intro quantity first sold
  refine (meets_then _ _).mpr (meets_update input.permits (by simp [stockQuery])
    (by simp [Table.Kept, StockField.Dropped])
    (fun old => .sYtd (sells.mono sold.kept) (ordered.mono sold.kept)
      ((unsold _).mono sold (by simp [Unsold]))) ?_)
  intro ytd second added
  have soFar := sold.trans added
  refine (meets_then _ _).mpr (meets_update input.permits (by simp [stockQuery])
    (by simp [Table.Kept, StockField.Dropped])
    (fun old => .sOrderCnt (sells.mono soFar.kept) (ordered.mono soFar.kept)
      ((unsold _).mono soFar (by simp [Unsold]))) ?_)
  intro count third counted
  have soFar := soFar.trans counted
  refine meets_ite ?_ ?_
  · intro remote
    refine meets_update input.permits (by simp [stockQuery])
      (by simp [Table.Kept, StockField.Dropped])
      (fun old => .sRemoteCnt (sells.mono soFar.kept) (ordered.mono soFar.kept)
        ((unsold _).mono soFar (by simp [Unsold])) remote) ?_
    intro remoteCount later last
    have remote : input.Remote item := remote
    refine done ⟨sLock, quantity, ytd, count, remoteCount⟩ later rfl ?_
    simpa [stockSteps, remote] using soFar.trans last
  · intro inside
    have inside : ¬input.Remote item := inside
    refine done ⟨sLock, quantity, ytd, count, 0⟩ third rfl ?_
    simpa [stockSteps, inside] using soFar

/-- Changes that insert no order line leave the lines as they are. -/
theorem LinesDone.mono {number : Nat} {more : List (Step A)} (done : input.LinesDone log number)
    (grown : Grown log more later)
    (other : ∀ record rid, ⟨.insert .orderLine record, rid⟩ ∉ more)
    : input.LinesDone later number := by
  intro record rid inserted
  have member := mem_changes.mpr ⟨inserted, rfl⟩
  rw [grown.changed] at member
  exact done record rid
    (mem_changes.mp ((List.mem_append.mp member).resolve_right (other record rid))).1

theorem insert_notMem_stockSteps (item : OrderItem) (writes : StockWrites)
    (record : Table.orderLine.Record A) (rid : Rid)
    : ⟨.insert .orderLine record, rid⟩ ∉ input.stockSteps item writes := by
  unfold stockSteps
  split <;> simp

/-- A line writes to its own stock row only. -/
theorem unsold_lineSteps {oId : UInt64} {number : Nat} {item : OrderItem}
    {writes : LineWrites A} {rid : Rid} (other : rid ≠ writes.sRid) (name : Table.stock.Name)
    : Unsold (input.lineSteps oId number item writes) rid name := by
  intro query value old
  unfold lineSteps stockSteps insertSteps
  split <;> simp [other]

/-- A line worked off is one more line done. -/
theorem LinesDone.succ {oId : UInt64} {number : Nat} {item : OrderItem} {writes : LineWrites A}
    (done : input.LinesDone log number) (here : input.items[number]? = some item)
    (grown : Grown log (input.lineSteps oId number item writes) later)
    : input.LinesDone later (number + 1) := by
  intro record rid inserted
  have member := mem_changes.mpr ⟨inserted, rfl⟩
  rw [grown.changed, lineSteps, ← List.append_assoc, List.mem_append, List.mem_append] at member
  rcases member with (before | stock) | line
  · obtain ⟨k, other, oId', amount, info, small, found, same⟩ :=
      done record rid (mem_changes.mp before).1
    exact ⟨k, other, oId', amount, info, Nat.lt_succ_of_lt small, found, same⟩
  · exact absurd stock (insert_notMem_stockSteps item _ record rid)
  · simp only [insertSteps, List.mem_cons, Done.mk.injEq, Op.insert.injEq, heq_eq_eq, true_and,
      reduceCtorEq, false_and, List.not_mem_nil, or_false] at line
    obtain ⟨rfl, _⟩ := line
    exact ⟨number, item, oId, writes.olAmount, writes.olDistInfo, Nat.lt_succ_self number, here,
      rfl⟩

variable [Money A]

/-- One line: the item is read, the stock row updated, the order line inserted. -/
theorem meets_insertLine {post : List (Step A) → Except Stop Unit → Prop}
    {oId : UInt64} {number : Nat} {item : OrderItem} {dRid iLock sLock : Rid}
    (counted : countStep dRid oId ∈ log) (located : input.Located log)
    (here : input.items[number]? = some item) (earlier : input.LinesDone log number)
    (sells : input.Sells log item sLock) (ordered : input.Ordered log)
    (unsold : ∀ name, Unsold log sLock name)
    (done
      : ∀ writes later, writes.sRid = sLock
        → Grown log (input.lineSteps oId number item writes) later → post later (.ok ()))
    : Prog.Meets Rely input.Allows post (insertLine input oId number item iLock sLock) log := by
  refine (meets_then _ _).mpr (meets_read input.permits ?_)
  intro _ iRead
  refine (meets_then _ _).mpr (meets_touch input.permits (by simp) ?_)
  intro _ iTouched
  refine (meets_then _ _).mpr (meets_readAndPromote input.permits ?_)
  intro first sRead
  have before := ((iRead.trans iTouched).trans sRead).grown
  refine (meets_then _ _).mpr (meets_updateStock (sells.mono before.kept)
    (ordered.mono before.kept) (fun name => (unsold name).mono before (by simp [Unsold])) ?_)
  intro stock second sameRid stocked
  refine (meets_then _ _).mpr (meets_load input.permits (by simp [itemQuery]) ?_)
  intro iPrice _ priced _
  refine (meets_then _ _).mpr (meets_load input.permits (by simp [stockQuery]) ?_)
  intro sDistInfo third informed _
  have sold : Grown log (input.stockSteps item stock) third := by
    simpa using (before.trans stocked).trans (priced.trans informed).grown
  have linesDone := earlier.mono sold (insert_notMem_stockSteps item stock)
  refine (meets_then _ _).mpr (meets_insertAndDrop
    (.line (sold.kept _ counted) (located.mono sold.kept) here linesDone)
    (fun rid => .lineIndex (sold.kept _ counted) (located.mono sold.kept) here linesDone)
    (fun rid later => .drop (by simp)) ?_)
  intro olRid replaced fourth inserted
  refine (meets_then _ _).mpr (meets_drop (.drop (by simp)) ?_)
  intro fifth sDropped
  refine meets_drop (.drop (by simp)) ?_
  intro later iDropped
  refine done ⟨stock, item.olQuantity.toNat • iPrice, sDistInfo, olRid, replaced⟩ later sameRid ?_
  simpa [lineSteps, lineRecord] using (sold.trans inserted).trans (sDropped.trans iDropped)

/-- The lines one after the other, by induction on those that are left. -/
theorem meets_insertLines {post : List (Step A) → Except Stop Unit → Prop}
    {oId : UInt64} {number : Nat} {lines : List (OrderItem × Rid × Rid)} {dRid : Rid}
    (counted : countStep dRid oId ∈ log) (located : input.Located log)
    (aligned : ∀ k line, lines[k]? = some line → input.items[number + k]? = some line.1)
    (earlier : input.LinesDone log number)
    (sells : ∀ line ∈ lines, input.Sells log line.1 line.2.2) (ordered : input.Ordered log)
    (nodup : (lines.map (fun line => line.2.2)).Nodup)
    (unsold : ∀ line ∈ lines, ∀ name, Unsold log line.2.2 name)
    (done
      : ∀ writes later,
          writes.map (fun write => write.sRid) = lines.map (fun line => line.2.2)
        → Grown log (input.linesSteps oId number ((lines.map Prod.fst).zip writes)) later
        → post later (.ok ()))
    : Prog.Meets Rely input.Allows post (insertLines input oId number lines) log := by
  induction lines generalizing log number with
  | nil => exact done [] log rfl Reading.refl.grown
  | cons line rest ih =>
      obtain ⟨item, iLock, sLock⟩ := line
      have here : input.items[number]? = some item := aligned 0 _ rfl
      refine (meets_then _ _).mpr (meets_insertLine counted located here earlier
        (sells _ List.mem_cons_self) ordered (unsold _ List.mem_cons_self) ?_)
      intro write middle sameRid worked
      obtain ⟨fresh, nodup⟩ := List.nodup_cons.mp nodup
      refine ih (worked.kept _ counted) (located.mono worked.kept) ?_ (earlier.succ here worked)
        ?_ (ordered.mono worked.kept) nodup ?_ ?_
      · intro k other found
        have shifted := aligned (k + 1) other found
        rwa [Nat.add_assoc, Nat.add_comm 1 k]
      · intro other member
        exact (sells other (List.mem_cons_of_mem _ member)).mono worked.kept
      · intro other member name
        refine (unsold other (List.mem_cons_of_mem _ member) name).mono worked
          (unsold_lineSteps ?_ name)
        intro same
        exact fresh (List.mem_map.mpr ⟨other, member, same.trans sameRid⟩)
      · intro writes later sameRids rest
        exact done (write :: writes) later (by simp [sameRid, sameRids]) (worked.trans rest)

/-- Phase 2 cannot fail. -/
theorem meets_newOrderWrites {post : List (Step A) → Except Stop Unit → Prop}
    {wRid dRid cRid : Rid} {locks : List (Rid × Rid)} (first : changes log = [])
    (acquired : Acquired input log dRid locks)
    (done
      : ∀ oRid oId lines later, refusals later = refusals log
        → input.Placed later dRid oRid oId lines → post later (.ok ()))
    : Prog.Meets Rely input.Allows post
        (newOrderWrites input (lockedRows wRid dRid cRid locks)) log := by
  refine (meets_then _ _).mpr (meets_touch input.permits (by simp [lockedRows]) ?_)
  intro _ wTouched
  refine (meets_then _ _).mpr (meets_touch input.permits (by simp [lockedRows, districtQuery]) ?_)
  intro _ dTouched
  refine (meets_then _ _).mpr (meets_touch input.permits (by simp [lockedRows]) ?_)
  intro touched cTouched
  have reading := ((wTouched.trans dTouched).trans cTouched).grown
  have located := acquired.located.mono reading.kept
  have nothing : changes touched = [] := by rw [reading.changed, first]; rfl
  refine (meets_then _ _).mpr (meets_getValue input.permits
    (by simp [lockedRows, districtQuery]) ?_)
  intro oId
  refine (meets_then _ _).mpr (meets_setValue
    (.count nothing located (reading.kept _ acquired.district)) ?_)
  intro old second relied counted
  obtain rfl := relied (by simp [lockedRows, districtQuery]) trivial oId _ rfl
  have counted : Grown touched [countStep dRid oId] second := (Grown.of_quiet rfl rfl).trans counted
  have once : changes second = [countStep dRid oId] := by rw [counted.changed, nothing]; rfl
  refine (meets_then _ _).mpr (meets_change rfl (.enter once (located.mono counted.kept)) ?_)
  intro entry third entered
  have entered : Grown touched [countStep dRid oId, input.entryStep oId entry] third :=
    counted.trans entered
  have twice : changes third = [countStep dRid oId, input.entryStep oId entry] := by
    rw [entered.changed, nothing]
    rfl
  refine (meets_then _ _).mpr (meets_insertAndDrop (.order twice (located.mono entered.kept))
    (fun rid => .orderIndex twice (located.mono entered.kept)) (fun rid later => .drop (by simp))
    ?_)
  intro oRid replaced fourth ordered
  have ordered := entered.trans ordered
  have four : changes fourth
      = [countStep dRid oId, input.entryStep oId entry] ++ input.orderSteps oId oRid replaced := by
    rw [ordered.changed, nothing]
    rfl
  have inLog : countStep dRid oId ∈ fourth := (mem_changes.mp (four ▸ List.mem_cons_self)).1
  have seconds : (input.items.zip locks).map Prod.snd = locks :=
    List.map_snd_zip (Nat.le_of_eq acquired.length)
  have inserted : input.Ordered fourth :=
    ⟨oId, oRid, (mem_changes.mp (four ▸ by simp [orderSteps, insertSteps])).1⟩
  refine meets_insertLines inLog (located.mono ordered.kept) ?_ ?_ ?_ inserted ?_ ?_ ?_
  · intro k line found
    rw [Nat.zero_add]
    exact (List.getElem?_zip_eq_some.mp found).1
  · intro record rid inserted
    have member := mem_changes.mpr ⟨inserted, rfl⟩
    rw [four] at member
    simp [countStep, entryStep, orderSteps, insertSteps] at member
  · intro line member
    exact (acquired.sells line member).mono (reading.trans ordered).kept
  · have nodup := acquired.nodup
    rw [← seconds, List.map_map] at nodup
    exact nodup
  · intro line _ name query value old stored
    have member := mem_changes.mpr ⟨stored, rfl⟩
    rw [four] at member
    simp [countStep, entryStep, orderSteps, insertSteps] at member
  · intro lines later sameRids worked
    have firsts : (input.items.zip locks).map Prod.fst = input.items :=
      List.map_fst_zip (Nat.le_of_eq acquired.length.symm)
    have grown := reading.trans (ordered.trans worked)
    have rids : lines.map (fun write => write.sRid) = locks.map Prod.snd := by
      rw [← seconds, List.map_map]
      exact sameRids
    refine done oRid oId lines later grown.refusals
      { located := acquired.located.mono grown.kept
        district := grown.kept _ acquired.district
        lines_length := ?_
        stock_nodup := ?_
        sells := ?_
        changed := ⟨entry, replaced, ?_⟩ }
    · have := congrArg List.length rids
      simpa [acquired.length] using this
    · rw [rids]
      exact acquired.nodup
    · intro pair member
      have listed : (pair.1, pair.2.sRid) ∈ input.items.zip (locks.map Prod.snd) := by
        rw [← rids, List.zip_map_right]
        exact List.mem_map_of_mem member
      rw [List.zip_map_right] at listed
      obtain ⟨⟨item, lock⟩, locked, same⟩ := List.mem_map.mp listed
      obtain ⟨sameItem, sameRid⟩ := Prod.mk.inj same
      rw [← sameItem, ← sameRid]
      exact (acquired.sells _ locked).mono grown.kept
    · rw [worked.changed, four]
      exact congrArg (fun items => _ ++ input.linesSteps oId 0 (items.zip lines)) firsts

/-- `new_order` does what is promised. -/
theorem meets_newOrder (input : NewOrderInput)
    : Prog.Meets Rely (input.Allows (A := A)) input.Ends (newOrder input) [] := by
  refine (meets_then _ _).mpr (meets_newOrderLocks input.permits ?_ ?_)
  · intro wRid dRid cRid locks later reading acquired
    refine meets_newOrderWrites reading.changes acquired ?_
    intro oRid oId lines last unrefused placed
    exact ⟨unrefused.trans reading.refusals, dRid, oRid, oId, lines, placed⟩
  · intro error later same blames
    exact ⟨same, blames⟩

end NewOrderInput

end Alchemy.Tpcc
