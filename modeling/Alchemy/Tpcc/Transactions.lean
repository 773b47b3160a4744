import Alchemy.Tpcc.Operations

/-! The five transactions, and the rows that `load` inserts.
A load through a reference stands where the source dereferences it. Guards that go out of
scope inside a transaction are dropped explicitly; those alive at its end are released by the
machine that runs it.
-/

namespace Alchemy.Tpcc

open Cache Oid Interaction Txn

variable {A : Type} [Money A]

def districtScale : Nat := 10

def customerScale : Nat := 3000

def itemScale : Nat := 100000

def carrierNull : UInt64 := 0

/-- `map_err(|e| match e { IndexNotFound => UserAbort, _ => e })` -/
def notFoundAborts {α : Type} (part : Txn A α) : Txn A α :=
  ExceptT.mk (do
    match ← part.run with
    | .error (.err .indexNotFound) => pure (.error (.err .userAbort))
    | result => pure result)

/-! ### new_order -/

structure OrderItem where
  olIId : UInt32
  olSupplyWId : UInt16
  olQuantity : UInt16
deriving DecidableEq

/-- `NewOrderInput::gen` draws `ol_cnt` from `5..=15`. -/
structure NewOrderInput where
  wId : UInt32
  dId : UInt32
  cId : UInt32
  olCnt : UInt32
  orders : List OrderItem
  oEntryD : UInt64
  allLocal : Bool
  orders_length : orders.length = 15
  olCnt_le : olCnt.toNat ≤ 15
deriving DecidableEq

namespace NewOrderInput

/-- The order items in use. -/
def items (input : NewOrderInput) : List OrderItem :=
  input.orders.take input.olCnt.toNat

theorem items_length (input : NewOrderInput) : input.items.length = input.olCnt.toNat := by
  rw [items, List.length_take, input.orders_length, Nat.min_eq_left input.olCnt_le]

def districtKey (input : NewOrderInput) : UInt64 :=
  DistrictTuple.makeKey input.wId.toUInt64 input.dId.toUInt64

def customerKey (input : NewOrderInput) : UInt64 :=
  CustomerTuple.makeKey input.wId.toUInt64 input.dId.toUInt64 input.cId.toUInt64

def newOrderKey (input : NewOrderInput) (oId : UInt64) : UInt64 :=
  NewOrderTuple.makeKey input.wId.toUInt64 input.dId.toUInt64 oId input.cId.toUInt64

def order (input : NewOrderInput) (oId : UInt64) : Table.order.Record A
  | .oId => oId
  | .oCId => input.cId.toUInt64
  | .oEntryD => input.oEntryD
  | .oCarrierId => carrierNull
  | .oDId => input.dId.toUInt64
  | .oWId => input.wId.toUInt64
  | .oOlCnt => input.olCnt.toUInt64
  | .oAllLocal => input.allLocal.toNat.toUInt64

def orderLine (input : NewOrderInput) (oId : UInt64) (number : Nat) (item : OrderItem)
    (olAmount : A) (olDistInfo : FixedString 24)
    : Table.orderLine.Record A
  | .olOId => oId
  | .olDId => input.dId.toUInt64
  | .olIId => item.olIId.toUInt64
  | .olSupplyWId => item.olSupplyWId.toUInt64
  | .olQuantity => item.olQuantity.toUInt64
  | .olDeliveryD => carrierNull
  | .olAmount => olAmount
  | .olNumber => number.toUInt64
  | .olWId => input.wId.toUInt64
  | .olDistInfo => olDistInfo

end NewOrderInput

def OrderItem.stockKey (item : OrderItem) : UInt64 :=
  StockTuple.makeKey item.olSupplyWId.toUInt64 item.olIId.toUInt64

/-- The new `s_quantity`. The comparison and the refill go through `isize`. -/
def soldQuantity (sQuantity : UInt64) (olQuantity : UInt16) : UInt64 :=
  if 10 ≤ (sQuantity - olQuantity.toUInt64).toInt64 then sQuantity - olQuantity.toUInt64
  else ((sQuantity - olQuantity.toUInt64).toInt64 + 91).toUInt64

/-- The locks of phase 1 on items and stock rows, in the order of the lines. -/
def acquireItems : List OrderItem → Txn A (List (Rid × Rid))
  | [] => pure []
  | item :: rest => do
      let iLock ← notFoundAborts (readOid .item (ItemTuple.makeKey item.olIId.toUInt64))
      let sLock ← writeOid .stock item.stockKey
      let locks ← acquireItems rest
      pure ((iLock, sLock) :: locks)

def itemQuery : List Table.item.Name :=
  [.iPrice, .iName, .iData]

def stockQuery : List Table.stock.Name :=
  [.sDist10, .sQuantity, .sYtd, .sOrderCnt, .sRemoteCnt, .sData]

/-- The stock row of one line. -/
def updateStock (input : NewOrderInput) (item : OrderItem) (sResults : QueryValue .stock)
    : Txn A Unit := do
  update sResults .sQuantity (fun sQuantity => soldQuantity sQuantity item.olQuantity)
  update sResults .sYtd (fun sYtd => (sYtd + item.olQuantity.toUInt64 : UInt64))
  update sResults .sOrderCnt (fun sOrderCnt => (sOrderCnt + 1 : UInt64))
  if item.olSupplyWId.toUInt32 ≠ input.wId then
    update sResults .sRemoteCnt (fun sRemoteCnt => (sRemoteCnt + 1 : UInt64))

/-- One round of the loop of phase 2. -/
def insertLine (input : NewOrderInput) (oId : UInt64) (number : Nat) (item : OrderItem)
    (iLock sLock : Rid)
    : Txn A Unit := do
  let iResults ← Txn.read .item iLock itemQuery
  touch iResults itemQuery
  let sResults ← readAndPromote .stock sLock stockQuery
  updateStock input item sResults
  let iPrice ← getValue iResults .iPrice
  let sDistInfo ← getValue sResults .sDist10
  insertAndDrop .orderLine
    (input.orderLine oId number item (item.olQuantity.toNat • iPrice) sDistInfo)
  drop .stock .write sLock
  drop .item .read iLock

def insertLines (input : NewOrderInput) (oId : UInt64)
    : Nat → List (OrderItem × Rid × Rid) → Txn A Unit
  | _, [] => pure ()
  | number, (item, iLock, sLock) :: rest => do
      insertLine input oId number item iLock sLock
      insertLines input oId (number + 1) rest

/-- What phase 1 hands to phase 2. -/
structure NewOrderLocks where
  wResults : QueryValue .warehouse
  dResults : QueryValue .district
  cResults : QueryValue .customer
  locks : List (Rid × Rid)

/-- Phase 1: acquire locks. -/
def newOrderLocks (input : NewOrderInput) : Txn A NewOrderLocks := do
  let wLock ← writeOid .warehouse input.wId.toUInt64
  let wResults ← readAndPromote .warehouse wLock [.wTax]
  let dLock ← writeOid .district input.districtKey
  let dResults ← readAndPromote .district dLock [.dTax, .dNextOId]
  let cLock ← writeOid .customer input.customerKey
  let cResults ← readAndPromote .customer cLock [.cDiscount, .cLast, .cCredit]
  let locks ← acquireItems input.items
  pure { wResults, dResults, cResults, locks }

/-- Phase 2: modify the system and release the locks. -/
def newOrderWrites (input : NewOrderInput) (locked : NewOrderLocks) : Txn A Unit := do
  touch locked.wResults [.wTax]
  touch locked.dResults [.dTax, .dNextOId]
  touch locked.cResults [.cDiscount, .cLast, .cCredit]
  let dNextOId : UInt64 ← getValue locked.dResults .dNextOId
  setValue locked.dResults .dNextOId (dNextOId + 1 : UInt64)
  let noKey := input.newOrderKey dNextOId
  let _ ← perform (.newOrderInsert noKey noKey)
  insertAndDrop .order (input.order dNextOId)
  insertLines input dNextOId 0 (input.items.zip locked.locks)

def newOrder (input : NewOrderInput) : Txn A Unit := do
  let locked ← newOrderLocks input
  newOrderWrites input locked

/-! ### payment -/

inductive CustomerQuery
  | id (cId : UInt32)
  | lastName (seed : UInt32)
deriving DecidableEq

structure PaymentInput (A : Type) where
  wId : UInt32
  dId : UInt32
  cWId : UInt32
  cDId : UInt32
  cQuery : CustomerQuery
  hAmount : A
  hDate : UInt64

inductive HistoryField
  | hCId | hCDId | hCWId | hDId | hData | hWId | hDate | hAmount
deriving DecidableEq, Repr

@[reducible]
def HistoryField.type : HistoryField → FieldType
  | .hCId | .hCDId | .hCWId | .hDId => .u64
  | .hData => .fixedString 24
  | .hWId | .hDate => .u64
  | .hAmount => .f64

def HistoryField.order : List HistoryField :=
  [.hCId, .hCDId, .hCWId, .hDId, .hData, .hWId, .hDate, .hAmount]

def historyTuple : StructLayout HistoryField HistoryField.type :=
  .reprC HistoryField.order _ (by intro name; cases name <;> decide)
    (by intro name; cases name <;> decide)

/-- `FixedString::concat`, where its assertion holds. -/
def FixedString.concat {first second total : Nat} (left : FixedString first)
    (right : FixedString second) (space : Nat) (fits : first + second + space ≤ total)
    : FixedString total where
  data :=
    left.data ++ List.replicate space 0 ++ right.data
      ++ List.replicate (total - (first + second + space)) 0
  sized := by
    simp only [List.length_append, List.length_replicate, left.sized, right.sized]
    omega

def CustomerQuery.historyId : CustomerQuery → UInt64
  | .id cId => cId.toUInt64
  | .lastName _ => 0

def PaymentInput.historyTuple (input : PaymentInput A) (wName dName : FixedString 10)
    : (name : HistoryField) → name.type.Value A
  | .hCId => input.cQuery.historyId
  | .hCDId => input.dId.toUInt64
  | .hCWId => input.wId.toUInt64
  | .hDId => input.dId.toUInt64
  | .hData => FixedString.concat wName dName 4 (by decide)
  | .hWId => input.wId.toUInt64
  | .hDate => input.hDate
  | .hAmount => input.hAmount

def shiftAmount : Nat := 48

/-- `c_data` moved up by 48 bytes, with the first 48 bytes of the history tuple in front. -/
def PaymentInput.shiftData (input : PaymentInput A) (wName dName : FixedString 10)
    (cData : FixedString cDataSize)
    : FixedString cDataSize where
  data :=
    ByteImage.read
        (Tpcc.historyTuple.image HistoryField.order (input.historyTuple wName dName))
        ⟨0, shiftAmount⟩
      ++ cData.data.take (cDataSize - shiftAmount)
  sized := by
    simp only [ByteImage.read, List.length_append, List.length_map, List.length_range,
      List.length_take, cData.sized]
    decide

def paymentWarehouseQuery : List Table.warehouse.Name :=
  [.wName, .wStreet1, .wStreet2, .wCity, .wState, .wZip, .wYtd]

def paymentDistrictQuery : List Table.district.Name :=
  [.dName, .dStreet1, .dStreet2, .dCity, .dState, .dZip, .dYtd]

def paymentCustomerQuery : List Table.customer.Name :=
  [.cFirst, .cMiddle, .cLast, .cStreet1, .cStreet2, .cCity, .cState, .cZip, .cPhone, .cSince,
    .cCredit, .cDiscount, .cBalance, .cYtdPayment, .cPaymentCnt]

/-- The customer of a payment or of an order status; `none` is the early `return Ok(())` when
no customer has the last name.
-/
def findCustomer (wId dId : UInt32) (cQuery : CustomerQuery) : Txn A (Option Rid) :=
  match cQuery with
  | .id cId => do
      let rid ← writeOid .customer
        (CustomerTuple.makeKey wId.toUInt64 dId.toUInt64 cId.toUInt64)
      pure (some rid)
  | .lastName seed => do
      let low := CustomerTuple.idxKeyLastname wId.toUInt16 dId.toUInt16 seed.toUInt16 0
      let high :=
        CustomerTuple.idxKeyLastname wId.toUInt16 dId.toUInt16 seed.toUInt16
          customerScale.toUInt16
      let rids ← perform (.lastNameRange low high 8)
      match rids[rids.length / 2]? with
      | none => pure none
      | some middleRid => do
          let rid ← notFoundAborts (lockRid .customer .write middleRid)
          pure (some rid)

def textOE : List Byte := [79, 69]

def textBC : List Byte := [66, 67]

/-- The customer row of a payment. -/
def payCustomer (input : PaymentInput A) (wResult : QueryValue .warehouse)
    (dResult : QueryValue .district) (cLock : Rid)
    : Txn A Unit := do
  let cResults ← readAndPromote .customer cLock paymentCustomerQuery
  touch cResults paymentCustomerQuery
  update cResults .cBalance (fun cBalance => (cBalance - input.hAmount : A))
  update cResults .cYtdPayment (fun cYtdPayment => (cYtdPayment + input.hAmount : A))
  update cResults .cPaymentCnt (fun cPaymentCnt => (cPaymentCnt + 1 : UInt32))
  let cMiddle : FixedString 2 ← getValue cResults .cMiddle
  if cMiddle.data ≠ textOE then throw .panic
  let cDiscount : A ← getValue cResults .cDiscount
  if Money.discounted cDiscount = false then throw .panic
  let wName ← getValue wResult .wName
  let dName ← getValue dResult .dName
  let cCredit : FixedString 2 ← getValue cResults .cCredit
  if cCredit.data = textBC then
    let cDataResult ← readAndPromote .customer cLock [.cData]
    update cDataResult .cData (fun cData => input.shiftData wName dName cData)

def payment (input : PaymentInput A) : Txn A Unit := do
  let wLock ← writeOid .warehouse input.wId.toUInt64
  let wResult ← readAndPromote .warehouse wLock paymentWarehouseQuery
  touch wResult paymentWarehouseQuery
  update wResult .wYtd (fun wYtd => (wYtd + input.hAmount : A))
  let dLock ← writeOid .district
    (DistrictTuple.makeKey input.wId.toUInt64 input.dId.toUInt64)
  let dResult ← readAndPromote .district dLock paymentDistrictQuery
  update dResult .dYtd (fun dYtd => (dYtd + input.hAmount : A))
  touch dResult paymentDistrictQuery
  match ← findCustomer input.cWId input.cDId input.cQuery with
  | none => pure ()
  | some cLock => payCustomer input wResult dResult cLock

/-! ### delivery -/

structure DeliveryInput where
  wId : UInt32
  oCarrierId : UInt32
deriving DecidableEq

/-- Stamp the order lines and add up their amounts. -/
def stampLines (deliveryTime : UInt64) : List Rid → A → Txn A A
  | [], olAmountSum => pure olAmountSum
  | rid :: rest, olAmountSum => do
      let olLock ← lockRid .orderLine .write rid
      let olResults ← readAndPromote .orderLine olLock [.olDeliveryD, .olAmount]
      setValue olResults .olDeliveryD deliveryTime
      let olAmount : A ← getValue olResults .olAmount
      drop .orderLine .write olLock
      stampLines deliveryTime rest (olAmountSum + olAmount)

/-- The rest of a round of `delivery`, once the entry is taken out of the index. -/
def deliverOrder (input : DeliveryInput) (deliveryTime dId key : UInt64) : Txn A Unit := do
  let wId := input.wId.toUInt64
  let (oId, cId) := NewOrderTuple.oCIdFromKey key
  let oLock ← writeOid .order (OrderTuple.makeKey wId dId cId oId)
  let oResult ← Txn.read .order oLock [.oCId, .oCarrierId]
  setValue oResult .oCarrierId input.oCarrierId.toUInt64
  let oCId : UInt64 ← getValue oResult .oCId
  if oCId ≠ cId then throw .panic
  let rids ← perform (.range .orderLine (OrderLineTuple.makeKey wId dId oId 0)
    (OrderLineTuple.makeKey wId dId oId itemScale.toUInt64) 20)
  let olAmountSum ← stampLines deliveryTime rids 0
  let cLock ← writeOid .customer (CustomerTuple.makeKey wId dId oCId)
  let cResults ← readAndPromote .customer cLock [.cBalance, .cDeliveryCnt]
  update cResults .cBalance (fun cBalance => (cBalance + olAmountSum : A))
  update cResults .cDeliveryCnt (fun cDeliveryCnt => (cDeliveryCnt + 1 : UInt32))
  drop .customer .write cLock
  drop .order .write oLock

/-- One district of a delivery; `false` is the `return Ok(())` at a district without an
undelivered order.
-/
def deliverDistrict (input : DeliveryInput) (deliveryTime dId : UInt64) : Txn A Bool := do
  let wId := input.wId.toUInt64
  let scanned ← perform (.newOrderRange (NewOrderTuple.makeKey wId dId 0 0)
    (NewOrderTuple.makeKey wId dId 0xffff 0xffff) 1)
  match scanned with
  | [] => pure false
  | (key, _) :: _ => do
      let _ ← perform (.newOrderRemove key)
      deliverOrder input deliveryTime dId key
      pure true

def deliverDistricts (input : DeliveryInput) (deliveryTime : UInt64) : List Nat → Txn A Unit
  | [] => pure ()
  | dId :: rest => do
      if ← deliverDistrict input deliveryTime dId.toUInt64 then
        deliverDistricts input deliveryTime rest

def delivery (input : DeliveryInput) (deliveryTime : UInt64) : Txn A Unit :=
  deliverDistricts input deliveryTime (List.range districtScale)

/-! ### order_status and stock_level -/

structure OrderStatusInput where
  wId : UInt32
  dId : UInt32
  cQuery : CustomerQuery
deriving DecidableEq

/-- Read records of a table one after the other, each under a read lock of its own. -/
def readEach (table : Table) (query : List table.Name) : List Rid → Txn A Unit
  | [] => pure ()
  | rid :: rest => do
      let lock ← lockRid table .read rid
      let results ← Txn.read table lock query
      touch results query
      drop table .read lock
      readEach table query rest

def orderStatus (input : OrderStatusInput) : Txn A Unit := do
  match ← findCustomer input.wId input.dId input.cQuery with
  | none => pure ()
  | some cLock => do
      let cFields : List Table.customer.Name := [.cId, .cBalance, .cFirst, .cMiddle, .cLast]
      let cResults ← readAndPromote .customer cLock cFields
      touch cResults cFields
      let cId : UInt64 ← getValue cResults .cId
      let wId := input.wId.toUInt64
      let dId := input.dId.toUInt64
      let scanned ← perform (.range .order (OrderTuple.makeKey wId dId cId 0)
        (OrderTuple.makeKey wId dId cId 0xffff) 12)
      -- With no order, `rid_buffer[cnt - 1]` is out of bounds.
      match scanned.getLast? with
      | none => throw .panic
      | some mostRecent => do
          let oLock ← lockRid .order .read mostRecent
          let oFields : List Table.order.Name := [.oId, .oEntryD, .oCarrierId]
          let oResults ← Txn.read .order oLock oFields
          touch oResults oFields
          let oId : UInt64 ← getValue oResults .oId
          let rids ← perform (.range .orderLine (OrderLineTuple.makeKey wId dId oId 0)
            (OrderLineTuple.makeKey wId dId oId 0xffff) 12)
          readEach .orderLine [.olIId, .olSupplyWId, .olQuantity, .olAmount, .olDeliveryD] rids

structure StockLevelInput where
  wId : UInt32
  dId : UInt32
  stockThreshold : UInt32
deriving DecidableEq

/-- Count the order lines whose item is short. -/
def countShort (input : StockLevelInput) : List Rid → Nat → Txn A Nat
  | [], resultCnt => pure resultCnt
  | rid :: rest, resultCnt => do
      let olLock ← lockRid .orderLine .read rid
      let olResults ← Txn.read .orderLine olLock [.olDId, .olOId, .olIId]
      let olIId : UInt64 ← getValue olResults .olIId
      let sLock ← readOid .stock (StockTuple.makeKey input.wId.toUInt64 olIId)
      let sResults ← Txn.read .stock sLock [.sWId, .sIId]
      let sQuantity : UInt64 ← getValue sResults .sQuantity
      drop .stock .read sLock
      drop .orderLine .read olLock
      countShort input rest
        (if sQuantity < input.stockThreshold.toUInt64 then resultCnt + 1 else resultCnt)

def stockLevel (input : StockLevelInput) : Txn A Unit := do
  let wId := input.wId.toUInt64
  let dId := input.dId.toUInt64
  let dLock ← readOid .district (DistrictTuple.makeKey wId dId)
  let dResult ← Txn.read .district dLock [.dId, .dNextOId]
  let dNextOId : UInt64 ← getValue dResult .dNextOId
  if dNextOId < 20 then throw .panic
  let rids ← perform (.range .orderLine
    (OrderLineTuple.makeKey wId dId (min 0 (dNextOId - 20)) 0)
    (OrderLineTuple.makeKey wId dId dNextOId 0xffff) 128)
  let _ ← countShort input rids 0

/-! ### load -/

/-- The warehouses that can be loaded: rids have 32 bits, so the stock table has no room for
the 100000 rows of each of `2 ^ 16` warehouses.
-/
def warehouseBound : Nat := 2 ^ 16

/-- A row of `load`: the fields that `load` sets to a constant, and the ranges of its loop
variables and draws. All other fields are random.
-/
structure WarehouseRow (A : Type) [Money A] where
  record : Table.warehouse.Record A
  wId : (record .wId : UInt64).toNat < warehouseBound
  wYtd : record .wYtd = 300000 • (Money.one : A)

structure DistrictRow (A : Type) [Money A] where
  record : Table.district.Record A
  dId : (record .dId : UInt64).toNat < districtScale
  dWId : (record .dWId : UInt64).toNat < warehouseBound
  dYtd : record .dYtd = 30000 • (Money.one : A)
  dNextOId : record .dNextOId = (3001 : UInt64)

/-- `seed` is the number of the last name. -/
structure CustomerRow (A : Type) [Money A] where
  record : Table.customer.Record A
  seed : UInt64
  cId : (record .cId : UInt64).toNat < customerScale
  cDId : (record .cDId : UInt64).toNat < districtScale
  cWId : (record .cWId : UInt64).toNat < warehouseBound
  seed_lt : seed.toNat < 1000
  cMiddle : (record .cMiddle : FixedString 2).data = textOE
  cCreditLim : record .cCreditLim = 50000 • (Money.one : A)
  cBalance : record .cBalance = -(10 • (Money.one : A))
  cYtdPayment : record .cYtdPayment = 10 • (Money.one : A)
  cPaymentCnt : record .cPaymentCnt = (1 : UInt32)
  cDeliveryCnt : record .cDeliveryCnt = (0 : UInt32)

structure ItemRow (A : Type) where
  record : Table.item.Record A
  iId : (record .iId : UInt64).toNat < itemScale

structure StockRow (A : Type) where
  record : Table.stock.Record A
  sIId : (record .sIId : UInt64).toNat < itemScale
  sWId : (record .sWId : UInt64).toNat < warehouseBound
  sQuantity_ge : 10 ≤ (record .sQuantity : UInt64).toNat
  sQuantity_le : (record .sQuantity : UInt64).toNat ≤ 100
  sYtd : record .sYtd = (0 : UInt64)
  sOrderCnt : record .sOrderCnt = (0 : UInt64)
  sRemoteCnt : record .sRemoteCnt = (0 : UInt64)

/-- One order of `load_order`, with the draws for it and for its lines. -/
structure OrderRow (A : Type) where
  wId : UInt64
  dId : UInt64
  oId : UInt64
  oCId : UInt64
  currentTime : UInt64
  oCarrierId : UInt64
  oOlCnt : UInt64
  iStart : UInt64
  olAmount : Nat → A
  olDistInfo : Nat → FixedString 24
  wId_lt : wId.toNat < warehouseBound
  dId_lt : dId.toNat < districtScale
  oId_lt : oId.toNat < customerScale
  oCId_lt : oCId.toNat < customerScale
  oOlCnt_ge : 5 ≤ oOlCnt.toNat
  oOlCnt_le : oOlCnt.toNat ≤ 15
  iStart_lt : iStart.toNat < itemScale - oOlCnt.toNat

namespace OrderRow

/-- Orders that `load_order` leaves undelivered. -/
def undelivered (row : OrderRow A) : Bool :=
  2101 ≤ row.oId

def order (row : OrderRow A) : Table.order.Record A
  | .oId => row.oId
  | .oCId => row.oCId
  | .oEntryD => row.currentTime
  | .oCarrierId => if row.undelivered then 0 else row.oCarrierId
  | .oDId => row.dId
  | .oWId => row.wId
  | .oOlCnt => row.oOlCnt
  | .oAllLocal => (1 : UInt64)

def orderLine (row : OrderRow A) (ol : Nat) : Table.orderLine.Record A
  | .olOId => row.oId
  | .olDId => row.dId
  | .olIId => row.iStart + ol.toUInt64
  | .olSupplyWId => row.wId
  | .olQuantity => (5 : UInt64)
  | .olDeliveryD => if row.undelivered then 0 else row.currentTime
  | .olAmount => if row.undelivered then row.olAmount ol else 0
  | .olNumber => row.oOlCnt
  | .olWId => row.wId
  | .olDistInfo => row.olDistInfo ol

def newOrderKey (row : OrderRow A) : UInt64 :=
  NewOrderTuple.makeKey row.wId row.dId row.oId row.oCId

omit [Money A] in
/-- The items of a loaded order are in range. -/
theorem item_lt (row : OrderRow A) {ol : Nat} (small : ol < row.oOlCnt.toNat)
    : (row.iStart + ol.toUInt64).toNat < itemScale := by
  have start := row.iStart_lt
  have count := row.oOlCnt_le
  have wrapped : ol.toUInt64.toNat ≤ ol := Nat.mod_le ..
  rw [UInt64.toNat_add]
  simp only [itemScale] at start ⊢
  omega

end OrderRow

/-- Insert one row; its guard stays until the end. -/
def loadRow (table : Table) (record : table.Record A) : Txn A Unit := do
  let _ ← insert table record

/-- `load_one_customer` -/
def loadOneCustomer (row : CustomerRow A) : Txn A Unit := do
  let cRid ← insert .customer row.record
  let wId : UInt64 := row.record .cWId
  let dId : UInt64 := row.record .cDId
  let cId : UInt64 := row.record .cId
  let lastKey :=
    CustomerTuple.idxKeyLastname wId.toUInt16 dId.toUInt16 row.seed.toUInt16 cId.toUInt16
  let _ ← perform (.lastNameInsert lastKey cRid)

def loadLines (row : OrderRow A) : List Nat → Txn A Unit
  | [] => pure ()
  | ol :: rest => do
      insertAndDrop .orderLine (row.orderLine ol)
      loadLines row rest

/-- One round of `load_order`. -/
def loadOrder (row : OrderRow A) : Txn A Unit := do
  let _ ← insert .order row.order
  loadLines row (List.range row.oOlCnt.toNat)
  if row.undelivered then
    let _ ← perform (.newOrderInsert row.newOrderKey row.newOrderKey)

/-! ### All of them -/

/-- What a task can run. -/
inductive Transaction (A : Type) [Money A]
  | newOrder (input : NewOrderInput)
  | payment (input : PaymentInput A)
  | delivery (input : DeliveryInput) (deliveryTime : UInt64)
  | orderStatus (input : OrderStatusInput)
  | stockLevel (input : StockLevelInput)
  | loadWarehouse (row : WarehouseRow A)
  | loadDistrict (row : DistrictRow A)
  | loadCustomer (row : CustomerRow A)
  | loadItem (row : ItemRow A)
  | loadStock (row : StockRow A)
  | loadOrder (row : OrderRow A)

def Transaction.program : Transaction A → Txn A Unit
  | .newOrder input => Tpcc.newOrder input
  | .payment input => Tpcc.payment input
  | .delivery input deliveryTime => Tpcc.delivery input deliveryTime
  | .orderStatus input => Tpcc.orderStatus input
  | .stockLevel input => Tpcc.stockLevel input
  | .loadWarehouse row => loadRow .warehouse row.record
  | .loadDistrict row => loadRow .district row.record
  | .loadCustomer row => loadOneCustomer row
  | .loadItem row => loadRow .item row.record
  | .loadStock row => loadRow .stock row.record
  | .loadOrder row => Tpcc.loadOrder row

end Alchemy.Tpcc
