import Alchemy.Tpcc.Records

/-! The composite keys of the tables and of the two extra indexes. Components are shifted and
added in 64-bit arithmetic, so each key is a number in mixed radix as long as its components
stay inside their widths.
-/

namespace Alchemy.Tpcc

def DistrictTuple.makeKey (wId dId : UInt64) : UInt64 :=
  (wId <<< 48) + dId

def CustomerTuple.makeKey (wId dId cId : UInt64) : UInt64 :=
  (wId <<< 48) + (dId <<< 32) + cId

def CustomerTuple.idxKeyLastname (wId dId lastName cId : UInt16) : UInt64 :=
  (wId.toUInt64 <<< 48) + (dId.toUInt64 <<< 32) + (lastName.toUInt64 <<< 16) + cId.toUInt64

def OrderTuple.makeKey (oWId oDId oCId oId : UInt64) : UInt64 :=
  (oWId <<< 48) + (oDId <<< 32) + (oCId <<< 16) + oId

def NewOrderTuple.makeKey (noWId noDId noOId cId : UInt64) : UInt64 :=
  (noWId <<< 48) + (noDId <<< 32) + (noOId <<< 16) + cId

/-- The order id and the customer id of a new-order key. -/
def NewOrderTuple.oCIdFromKey (key : UInt64) : UInt64 × UInt64 :=
  ((key &&& 0x00000000ffff0000) >>> 16, key &&& 0x000000000000ffff)

def OrderLineTuple.makeKey (olWId olDId olOId olIId : UInt64) : UInt64 :=
  (olWId <<< 48) + (olDId <<< 40) + (olOId <<< 20) + olIId

def ItemTuple.makeKey (iId : UInt64) : UInt64 :=
  iId

def StockTuple.makeKey (sWId sIId : UInt64) : UInt64 :=
  (sWId <<< 32) + sIId

/-- `Schema::key`, the same in every schema of a table. -/
def Table.key {A : Type} : (table : Table) → table.Record A → UInt64
  | .warehouse, tuple => tuple .wId
  | .district, tuple => DistrictTuple.makeKey (tuple .dWId) (tuple .dId)
  | .customer, tuple => CustomerTuple.makeKey (tuple .cWId) (tuple .cDId) (tuple .cId)
  | .item, tuple => ItemTuple.makeKey (tuple .iId)
  | .stock, tuple => StockTuple.makeKey (tuple .sWId) (tuple .sIId)
  | .order, tuple =>
      OrderTuple.makeKey (tuple .oWId) (tuple .oDId) (tuple .oCId) (tuple .oId)
  | .orderLine, tuple =>
      OrderLineTuple.makeKey (tuple .olWId) (tuple .olDId) (tuple .olOId) (tuple .olIId)

/-- The fields that make up the key of a row. -/
def Table.ids {A : Type} : (table : Table) → table.Record A → List UInt64
  | .warehouse, tuple => [tuple .wId]
  | .district, tuple => [tuple .dWId, tuple .dId]
  | .customer, tuple => [tuple .cWId, tuple .cDId, tuple .cId]
  | .item, tuple => [tuple .iId]
  | .stock, tuple => [tuple .sWId, tuple .sIId]
  | .order, tuple => [tuple .oWId, tuple .oDId, tuple .oCId, tuple .oId]
  | .orderLine, tuple => [tuple .olWId, tuple .olDId, tuple .olOId, tuple .olIId]

theorem Table.key_of_ids {A : Type} {table : Table} {first second : table.Record A}
    (same : table.ids first = table.ids second)
    : table.key first = table.key second := by
  cases table <;> simp_all [Table.ids, Table.key]

/-! ### Keys as numbers -/

variable {w d c o i : UInt64}

theorem toNat_shl {value : UInt64} {bits : Nat} (small : bits < 64)
    (fits : value.toNat < 2 ^ (64 - bits))
    : (value <<< UInt64.ofNat bits).toNat = value.toNat * 2 ^ bits := by
  have exponent : (UInt64.ofNat bits).toNat % 64 = bits := by
    rw [UInt64.toNat_ofNat_of_lt' (Nat.lt_trans small (by decide)), Nat.mod_eq_of_lt small]
  have inside : value.toNat * 2 ^ bits < 2 ^ 64 := by
    calc value.toNat * 2 ^ bits
        < 2 ^ (64 - bits) * 2 ^ bits := Nat.mul_lt_mul_of_pos_right fits (Nat.two_pow_pos bits)
      _ = 2 ^ 64 := by rw [← Nat.pow_add, Nat.sub_add_cancel (Nat.le_of_lt small)]
  rw [UInt64.toNat_shiftLeft, exponent, Nat.shiftLeft_eq, Nat.mod_eq_of_lt inside]

theorem DistrictTuple.makeKey_toNat (wide : w.toNat < 2 ^ 16) (district : d.toNat < 2 ^ 48)
    : (DistrictTuple.makeKey w d).toNat = w.toNat * 2 ^ 48 + d.toNat := by
  have high : (w <<< 48).toNat = w.toNat * 2 ^ 48 := toNat_shl (by decide) wide
  rw [DistrictTuple.makeKey, UInt64.toNat_add, high]
  omega

theorem CustomerTuple.makeKey_toNat (wide : w.toNat < 2 ^ 16) (district : d.toNat < 2 ^ 16)
    (customer : c.toNat < 2 ^ 32)
    : (CustomerTuple.makeKey w d c).toNat = w.toNat * 2 ^ 48 + d.toNat * 2 ^ 32 + c.toNat := by
  have first : (w <<< 48).toNat = w.toNat * 2 ^ 48 := toNat_shl (by decide) wide
  have second : (d <<< 32).toNat = d.toNat * 2 ^ 32 :=
    toNat_shl (by decide) (Nat.lt_trans district (by decide))
  rw [CustomerTuple.makeKey, UInt64.toNat_add, UInt64.toNat_add, first, second]
  omega

theorem NewOrderTuple.makeKey_toNat (wide : w.toNat < 2 ^ 16) (district : d.toNat < 2 ^ 16)
    (order : o.toNat < 2 ^ 16) (customer : c.toNat < 2 ^ 16)
    : (NewOrderTuple.makeKey w d o c).toNat
      = w.toNat * 2 ^ 48 + d.toNat * 2 ^ 32 + o.toNat * 2 ^ 16 + c.toNat := by
  have first : (w <<< 48).toNat = w.toNat * 2 ^ 48 := toNat_shl (by decide) wide
  have second : (d <<< 32).toNat = d.toNat * 2 ^ 32 :=
    toNat_shl (by decide) (Nat.lt_trans district (by decide))
  have third : (o <<< 16).toNat = o.toNat * 2 ^ 16 :=
    toNat_shl (by decide) (Nat.lt_trans order (by decide))
  rw [NewOrderTuple.makeKey, UInt64.toNat_add, UInt64.toNat_add, UInt64.toNat_add, first, second,
    third]
  omega

theorem OrderTuple.makeKey_eq
    : OrderTuple.makeKey w d c o = NewOrderTuple.makeKey w d c o :=
  rfl

theorem OrderLineTuple.makeKey_toNat (wide : w.toNat < 2 ^ 16) (district : d.toNat < 2 ^ 8)
    (order : o.toNat < 2 ^ 20) (item : i.toNat < 2 ^ 20)
    : (OrderLineTuple.makeKey w d o i).toNat
      = w.toNat * 2 ^ 48 + d.toNat * 2 ^ 40 + o.toNat * 2 ^ 20 + i.toNat := by
  have first : (w <<< 48).toNat = w.toNat * 2 ^ 48 := toNat_shl (by decide) wide
  have second : (d <<< 40).toNat = d.toNat * 2 ^ 40 :=
    toNat_shl (by decide) (Nat.lt_trans district (by decide))
  have third : (o <<< 20).toNat = o.toNat * 2 ^ 20 :=
    toNat_shl (by decide) (Nat.lt_trans order (by decide))
  rw [OrderLineTuple.makeKey, UInt64.toNat_add, UInt64.toNat_add, UInt64.toNat_add, first, second,
    third]
  omega

theorem StockTuple.makeKey_toNat (wide : w.toNat < 2 ^ 32) (item : i.toNat < 2 ^ 32)
    : (StockTuple.makeKey w i).toNat = w.toNat * 2 ^ 32 + i.toNat := by
  have high : (w <<< 32).toNat = w.toNat * 2 ^ 32 := toNat_shl (by decide) wide
  rw [StockTuple.makeKey, UInt64.toNat_add, high]
  omega

end Alchemy.Tpcc
