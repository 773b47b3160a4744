import Alchemy.Log.Logger
import Alchemy.Tpcc.Inputs
import Mathlib.Algebra.Order.BigOperators.Group.List

/-! The log entries of the benchmark: an input in the standard encoding of `bincode`, written to
a slot of the size that the input has in memory. Of the encoding only the lengths are known.
-/

namespace Alchemy.Tpcc

open Cache

variable {A : Type} [Money A]

/-! ### The standard encoding -/

/-- The encoder of `bincode`, by what it is assumed to do: an unsigned integer takes one byte, or a
marker and the least of the widths 2, 4 and 8 that holds it. An amount takes its own eight bytes.
-/
class Bincode where
  uint : Nat → List Byte
  bool : Bool → List Byte
  length_uint
    : ∀ value, (uint value).length
        = if value < 251 then 1 else if value < 2 ^ 16 then 3 else if value < 2 ^ 32 then 5 else 9
  length_bool : ∀ flag, (bool flag).length = 1

/-- The bytes of the standard configuration. -/
instance : Bincode where
  uint value :=
    if value < 251 then [UInt8.ofNat value]
    else if value < 2 ^ 16 then 251 :: LittleEndian.encode 2 value
    else if value < 2 ^ 32 then 252 :: LittleEndian.encode 4 value
    else 253 :: LittleEndian.encode 8 value
  bool flag := [flag.toNat.toUInt8]
  length_uint value := by
    split_ifs <;> simp [LittleEndian.length_encode]
  length_bool _ := rfl

section Encoder

variable [Bincode] {value : Nat}

theorem Bincode.length_small (small : value < 251) : (Bincode.uint value).length = 1 := by
  rw [length_uint, if_pos small]

theorem Bincode.length_u16 (bound : value < 2 ^ 16) : (Bincode.uint value).length ≤ 3 := by
  rw [length_uint]
  split_ifs <;> omega

theorem Bincode.length_u32 (bound : value < 2 ^ 32) : (Bincode.uint value).length ≤ 5 := by
  rw [length_uint]
  split_ifs <;> omega

/-- What `log_txn` needs of its argument: the encoding of a value, and the size of its type. -/
class LogEntry (E : Type) where
  encode [Bincode] : E → List Byte
  sizeOf : Nat

def OrderItem.encode (item : OrderItem) : List Byte :=
  Bincode.uint item.olIId.toNat ++ Bincode.uint item.olSupplyWId.toNat
    ++ Bincode.uint item.olQuantity.toNat

def CustomerQuery.encode : CustomerQuery → List Byte
  | .id cId => Bincode.uint 0 ++ Bincode.uint cId.toNat
  | .lastName seed => Bincode.uint 1 ++ Bincode.uint seed.toNat

instance : LogEntry NewOrderInput where
  encode input :=
    Bincode.uint input.wId.toNat ++ Bincode.uint input.dId.toNat ++ Bincode.uint input.cId.toNat
      ++ Bincode.uint input.olCnt.toNat ++ input.orders.flatMap OrderItem.encode
      ++ Bincode.uint input.oEntryD.toNat ++ Bincode.bool input.allLocal
  sizeOf := 152

instance : LogEntry (PaymentInput A) where
  encode input :=
    Bincode.uint input.wId.toNat ++ Bincode.uint input.dId.toNat ++ Bincode.uint input.cWId.toNat
      ++ Bincode.uint input.cDId.toNat ++ input.cQuery.encode ++ Money.encode input.hAmount
      ++ Bincode.uint input.hDate.toNat
  sizeOf := 40

instance : LogEntry DeliveryInput where
  encode input := Bincode.uint input.wId.toNat ++ Bincode.uint input.oCarrierId.toNat
  sizeOf := 8

instance : LogEntry StockLevelInput where
  encode input :=
    Bincode.uint input.wId.toNat ++ Bincode.uint input.dId.toNat
      ++ Bincode.uint input.stockThreshold.toNat
  sizeOf := 12

/-- `log_txn`: `none` is a panic, of the assertion on the size of the slot or of the `unwrap` of
an encoding that does not fit it.
-/
def logTxn {E : Type} [LogEntry E] (logEntry : E) : Option (List Byte) :=
  let entrySize := LogEntry.sizeOf E
  if Log.maxLogLen < entrySize then none
  else if entrySize < (LogEntry.encode logEntry).length then none
  else some (LogEntry.encode logEntry)

/-- The encoding fits the slot, and the slot the logger. -/
structure FitsSlot {E : Type} [LogEntry E] (logEntry : E) : Prop where
  encoding : (LogEntry.encode logEntry).length ≤ LogEntry.sizeOf E
  slot : LogEntry.sizeOf E ≤ Log.maxLogLen

/-- Then `log_txn` writes the encoding. -/
theorem FitsSlot.logTxn {E : Type} [LogEntry E] {logEntry : E} (fits : FitsSlot logEntry)
    : Tpcc.logTxn logEntry = some (LogEntry.encode logEntry) := by
  rw [Tpcc.logTxn, if_neg (Nat.not_lt_of_le fits.slot), if_neg (Nat.not_lt_of_le fits.encoding)]

/-! ### Generated inputs -/

/-- A `u32` takes five bytes at most. -/
theorem length_encode_u32 (value : UInt32) : (Bincode.uint value.toNat).length ≤ 5 :=
  Bincode.length_u32 value.toNat_lt

/-- A small number keeps its value in a `u32` and takes one byte. -/
theorem length_encode_toUInt32 (value : Nat) (small : value < 251)
    : (Bincode.uint value.toUInt32.toNat).length = 1 := by
  rw [Nat.toUInt32, UInt32.toNat_ofNat', Nat.mod_eq_of_lt (by omega)]
  exact Bincode.length_small small

/-- A number below `2 ^ 16` keeps its value in a `u32` and takes three bytes at most. -/
theorem length_encode_toUInt32_le (value : Nat) (bound : value < 2 ^ 16)
    : (Bincode.uint value.toUInt32.toNat).length ≤ 3 := by
  rw [Nat.toUInt32, UInt32.toNat_ofNat', Nat.mod_eq_of_lt (by omega)]
  exact Bincode.length_u16 bound

variable {warehouseCnt taskId taskCnt : Nat}

/-- A line takes nine bytes at most: the item id may need five, the warehouse three, and the
quantity needs one.
-/
theorem NewOrderDraws.length_item (draws : NewOrderDraws warehouseCnt taskId taskCnt)
    (i : Fin 15)
    : (draws.item i).encode.length ≤ 9 := by
  have id := length_encode_u32 (draws.item i).olIId
  have warehouse := Bincode.length_u16 (draws.item i).olSupplyWId.toNat_lt
  have quantity : (Bincode.uint (draws.item i).olQuantity.toNat).length = 1 := by
    refine Bincode.length_small ?_
    have most := (draws.lines i).olQuantity.property.2
    unfold NewOrderDraws.item
    split
    · rw [Nat.toUInt16, UInt16.toNat_ofNat', Nat.mod_eq_of_lt (by omega)]
      omega
    · decide
  simp only [OrderItem.encode, List.length_append]
  omega

/-- The fifteen lines take 135 bytes at most. -/
theorem NewOrderDraws.length_lines (draws : NewOrderDraws warehouseCnt taskId taskCnt)
    : ((List.ofFn draws.item).flatMap OrderItem.encode).length ≤ 135 := by
  rw [List.length_flatMap]
  have each : ∀ length ∈ (List.ofFn draws.item).map (fun item => item.encode.length),
      length ≤ 9 := by
    intro length member
    obtain ⟨item, listed, rfl⟩ := List.mem_map.mp member
    obtain ⟨i, rfl⟩ := List.mem_ofFn.mp listed
    exact draws.length_item i
  simpa using List.sum_le_card_nsmul _ 9 each

/-- A district number takes one byte. -/
theorem length_encode_district (dId : Set.Ico 0 districtScale)
    : (Bincode.uint dId.val.toUInt32.toNat).length = 1 :=
  length_encode_toUInt32 dId.val (Nat.lt_trans dId.property.2 (by decide))

theorem NewOrderInput.gen_fits (draws : NewOrderDraws warehouseCnt taskId taskCnt)
    (time : draws.oEntryD.toNat < 2 ^ 32)
    : FitsSlot (NewOrderInput.gen draws) := by
  refine ⟨?_, by decide⟩
  have warehouse := length_encode_u32 draws.wId.val.toUInt32
  have district := length_encode_district draws.dId
  have customer := length_encode_toUInt32_le draws.cId.val
    (Nat.lt_of_le_of_lt draws.cId.property.2 (by decide))
  have count := length_encode_toUInt32 draws.olCnt.val
    (Nat.lt_of_le_of_lt draws.olCnt.property.2 (by decide))
  have lines := draws.length_lines
  have entry := Bincode.length_u32 time
  simp only [LogEntry.encode, NewOrderInput.gen, LogEntry.sizeOf, List.length_append,
    Bincode.length_bool]
  omega

/-- A customer takes four bytes at most: the tag, and an id or a last name below `2 ^ 16`. -/
theorem CustomerDraws.length_query (draws : CustomerDraws) : draws.query.encode.length ≤ 4 := by
  cases draws with
  | lastName seed =>
      have tag := Bincode.length_small (by decide : 1 < 251)
      have name := length_encode_toUInt32_le seed.val
        (Nat.lt_of_le_of_lt seed.property.2 (by decide))
      simp only [CustomerDraws.query, CustomerQuery.encode, List.length_append]
      omega
  | id cId =>
      have tag := Bincode.length_small (by decide : 0 < 251)
      have customer := length_encode_toUInt32_le cId.val
        (Nat.lt_of_le_of_lt cId.property.2 (by decide))
      simp only [CustomerDraws.query, CustomerQuery.encode, List.length_append]
      omega

theorem PaymentInput.gen_fits (draws : PaymentDraws A warehouseCnt taskId taskCnt)
    (time : draws.hDate.toNat < 2 ^ 32)
    : FitsSlot (PaymentInput.gen draws) := by
  refine ⟨?_, (by decide : 40 ≤ Log.maxLogLen)⟩
  have warehouse := length_encode_u32 draws.wId.val.toUInt32
  have district := length_encode_district draws.dId
  have customerWarehouse := length_encode_u32 draws.customerDistrict.1.toUInt32
  have customerDistrict := length_encode_u32 draws.customerDistrict.2.toUInt32
  have customer := draws.cQuery.length_query
  have amount := Money.length_encode draws.hAmount
  have date := Bincode.length_u32 time
  simp only [LogEntry.encode, PaymentInput.gen, LogEntry.sizeOf, List.length_append]
  omega

theorem DeliveryInput.gen_fits (draws : DeliveryDraws warehouseCnt taskId taskCnt)
    : FitsSlot (DeliveryInput.gen draws) := by
  refine ⟨?_, by decide⟩
  have warehouse := length_encode_u32 draws.wId.val.toUInt32
  have carrier := length_encode_toUInt32 draws.oCarrierId.val
    (Nat.lt_of_le_of_lt draws.oCarrierId.property.2 (by decide))
  simp only [LogEntry.encode, DeliveryInput.gen, LogEntry.sizeOf, List.length_append]
  omega

theorem StockLevelInput.gen_fits (draws : StockLevelDraws warehouseCnt taskId taskCnt)
    : FitsSlot (StockLevelInput.gen draws) := by
  refine ⟨?_, by decide⟩
  have warehouse := length_encode_u32 draws.wId.val.toUInt32
  have district := length_encode_district draws.dId
  have threshold := length_encode_toUInt32 draws.threshold.val
    (Nat.lt_of_le_of_lt draws.threshold.property.2 (by decide))
  simp only [LogEntry.encode, StockLevelInput.gen, LogEntry.sizeOf, List.length_append]
  omega

/-- `log_txn` writes the entry in full. -/
def Logs {E : Type} [LogEntry E] (logEntry : E) : Prop :=
  FitsSlot logEntry ∧ logTxn logEntry = some (LogEntry.encode logEntry)

/-- Every generated input fits its slot in the log, for any number of warehouses and any clock
below `2 ^ 32` seconds, so `log_txn` never panics.
-/
theorem generated_inputs_fit (warehouseCnt taskId taskCnt : Nat)
    : (∀ draws : NewOrderDraws warehouseCnt taskId taskCnt, draws.oEntryD.toNat < 2 ^ 32
        → Logs (NewOrderInput.gen draws))
      ∧ (∀ draws : PaymentDraws A warehouseCnt taskId taskCnt, draws.hDate.toNat < 2 ^ 32
        → Logs (PaymentInput.gen draws))
      ∧ (∀ draws : DeliveryDraws warehouseCnt taskId taskCnt, Logs (DeliveryInput.gen draws))
      ∧ ∀ draws : StockLevelDraws warehouseCnt taskId taskCnt,
          Logs (StockLevelInput.gen draws) := by
  have logs {E : Type} [LogEntry E] {logEntry : E} (fits : FitsSlot logEntry) : Logs logEntry :=
    ⟨fits, fits.logTxn⟩
  exact ⟨fun draws time => logs (NewOrderInput.gen_fits draws time),
    fun draws time => logs (PaymentInput.gen_fits draws time),
    fun draws => logs (DeliveryInput.gen_fits draws),
    fun draws => logs (StockLevelInput.gen_fits draws)⟩

end Encoder

/-- The longest draws of `NewOrderInput::gen`: a warehouse beyond `2 ^ 16`, and fifteen lines with
item ids beyond `2 ^ 16` from a remote warehouse with a long number.
-/
def longestNewOrder : NewOrderDraws 70001 0 1 where
  wId := ⟨70000, by simp [taskWarehouses]⟩
  dId := ⟨9, by decide⟩
  cId := ⟨2999, by decide⟩
  olCnt := ⟨15, by decide⟩
  rbk := false
  iIdStart := ⟨70000, by decide⟩
  lines _ := { remote := some ⟨60000, by decide⟩, olQuantity := ⟨10, by decide⟩ }
  oEntryD := 1700000000

/-- It fits with one byte to spare. -/
theorem generated_inputs_fit_longest
    : Logs (NewOrderInput.gen longestNewOrder)
      ∧ (LogEntry.encode (NewOrderInput.gen longestNewOrder)).length = 151 := by
  have fits := (generated_inputs_fit (A := UInt64) 70001 0 1).1 longestNewOrder (by decide)
  exact ⟨fits, by decide +kernel⟩

end Alchemy.Tpcc
