import Alchemy.Tpcc.Transactions
import Mathlib.Order.Interval.Set.Defs

/-! The inputs of the transactions as their `gen` functions draw them. A draw is a value of the
range it comes from: `low..high` is `Set.Ico low high`, `low..=high` is `Set.Icc low high`, and so
is `nu_rand(_, low, high)`, which may return any value of its range.
-/

namespace Alchemy.Tpcc

variable {A : Type}

/-- The warehouses of one task. -/
def taskWarehouses (warehouseCnt taskId taskCnt : Nat) : Set Nat :=
  let wPerThread := warehouseCnt / taskCnt
  Set.Ico (wPerThread * taskId) (min (wPerThread * (taskId + 1)) warehouseCnt)

variable {warehouseCnt taskId taskCnt : Nat}

/-! ### NewOrderInput::gen -/

/-- The draws for one order line. A remote supply warehouse may be the home one. -/
structure OrderItemDraws (warehouseCnt : Nat) where
  remote : Option (Set.Ico 0 warehouseCnt)
  olQuantity : Set.Icc 1 10

/-- The draws of `NewOrderInput::gen`, and the clock it reads. -/
structure NewOrderDraws (warehouseCnt taskId taskCnt : Nat) where
  wId : taskWarehouses warehouseCnt taskId taskCnt
  dId : Set.Ico 0 districtScale
  cId : Set.Icc 0 (customerScale - 1)
  olCnt : Set.Icc 5 15
  rbk : Bool
  iIdStart : Set.Icc 0 (itemScale - 1)
  lines : Fin 15 → OrderItemDraws warehouseCnt
  oEntryD : UInt64

namespace NewOrderDraws

variable (draws : NewOrderDraws warehouseCnt taskId taskCnt)

/-- `ol_i_id` of line `i` -/
def olIId (i : Nat) : Nat :=
  if i = draws.olCnt.val - 1 ∧ draws.rbk = true then itemScale + 1 else draws.iIdStart.val + i

def olSupplyWId (i : Fin 15) : Nat :=
  match (draws.lines i).remote with
  | some wId => wId.val
  | none => draws.wId.val

/-- `orders[i]`; the loop leaves the default from `ol_cnt` on. -/
def item (i : Fin 15) : OrderItem :=
  if i.val < draws.olCnt.val then
    { olIId := (draws.olIId i).toUInt32
      olSupplyWId := (draws.olSupplyWId i).toUInt16
      olQuantity := (draws.lines i).olQuantity.val.toUInt16 }
  else
    { olIId := 0, olSupplyWId := 0, olQuantity := 0 }

theorem olCnt_toNat : (draws.olCnt.val.toUInt32).toNat = draws.olCnt.val := by
  have most := draws.olCnt.property.2
  rw [Nat.toUInt32, UInt32.toNat_ofNat']
  exact Nat.mod_eq_of_lt (by omega)

end NewOrderDraws

/-- `NewOrderInput::gen` -/
def NewOrderInput.gen (draws : NewOrderDraws warehouseCnt taskId taskCnt) : NewOrderInput where
  wId := draws.wId.val.toUInt32
  dId := draws.dId.val.toUInt32
  cId := draws.cId.val.toUInt32
  olCnt := draws.olCnt.val.toUInt32
  orders := List.ofFn draws.item
  oEntryD := draws.oEntryD
  allLocal :=
    (List.finRange 15).all (fun i => draws.olCnt.val ≤ i.val || (draws.lines i).remote.isNone)
  orders_length := List.length_ofFn
  olCnt_le := by
    rw [draws.olCnt_toNat]
    exact draws.olCnt.property.2

/-! ### The other inputs -/

/-- A customer by last name or by id. -/
inductive CustomerDraws
  | lastName (seed : Set.Icc 0 999)
  | id (cId : Set.Icc 0 (customerScale - 1))

def CustomerDraws.query : CustomerDraws → CustomerQuery
  | .lastName seed => .lastName seed.val.toUInt32
  | .id cId => .id cId.val.toUInt32

/-- The draws of `PaymentInput::gen`, and the clock it reads. -/
structure PaymentDraws (A : Type) (warehouseCnt taskId taskCnt : Nat) where
  wId : taskWarehouses warehouseCnt taskId taskCnt
  dId : Set.Ico 0 districtScale
  cQuery : CustomerDraws
  hAmount : A
  hDate : UInt64
  remote : Option (Set.Ico 0 warehouseCnt × Set.Ico 0 districtScale)

/-- Where the customer of a payment lives. -/
def PaymentDraws.customerDistrict (draws : PaymentDraws A warehouseCnt taskId taskCnt)
    : Nat × Nat :=
  match draws.remote with
  | none => (draws.wId.val, draws.dId.val)
  | some (cWId, cDId) => (cWId.val, cDId.val)

/-- `PaymentInput::gen` -/
def PaymentInput.gen (draws : PaymentDraws A warehouseCnt taskId taskCnt) : PaymentInput A where
  wId := draws.wId.val.toUInt32
  dId := draws.dId.val.toUInt32
  cWId := draws.customerDistrict.1.toUInt32
  cDId := draws.customerDistrict.2.toUInt32
  cQuery := draws.cQuery.query
  hAmount := draws.hAmount
  hDate := draws.hDate

/-- The draws of `OrderStatusInput::gen`. -/
structure OrderStatusDraws (warehouseCnt taskId taskCnt : Nat) where
  wId : taskWarehouses warehouseCnt taskId taskCnt
  dId : Set.Ico 0 districtScale
  cQuery : CustomerDraws

/-- `OrderStatusInput::gen` -/
def OrderStatusInput.gen (draws : OrderStatusDraws warehouseCnt taskId taskCnt)
    : OrderStatusInput where
  wId := draws.wId.val.toUInt32
  dId := draws.dId.val.toUInt32
  cQuery := draws.cQuery.query

/-- The draws of `DeliveryInput::gen`. -/
structure DeliveryDraws (warehouseCnt taskId taskCnt : Nat) where
  wId : taskWarehouses warehouseCnt taskId taskCnt
  oCarrierId : Set.Icc 1 10

/-- `DeliveryInput::gen` -/
def DeliveryInput.gen (draws : DeliveryDraws warehouseCnt taskId taskCnt) : DeliveryInput where
  wId := draws.wId.val.toUInt32
  oCarrierId := draws.oCarrierId.val.toUInt32

/-- The draws of `StockLevelInput::gen`. -/
structure StockLevelDraws (warehouseCnt taskId taskCnt : Nat) where
  wId : taskWarehouses warehouseCnt taskId taskCnt
  dId : Set.Ico 0 districtScale
  threshold : Set.Icc 10 20

/-- `StockLevelInput::gen` -/
def StockLevelInput.gen (draws : StockLevelDraws warehouseCnt taskId taskCnt)
    : StockLevelInput where
  wId := draws.wId.val.toUInt32
  dId := draws.dId.val.toUInt32
  stockThreshold := draws.threshold.val.toUInt32

end Alchemy.Tpcc
