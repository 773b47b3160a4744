import Alchemy.Cache.Schema

/-! The TPC-C tuples. Every tuple is `repr(C)`, so the order of its fields and their types
determine the span of each one.
-/

namespace Alchemy.Tpcc

open ByteImage Cache

/-- The field types of the tables; `FixedString<N>` is an array of `N` bytes. -/
inductive FieldType
  | u64
  | u32
  | f64
  | fixedString (length : Nat)
deriving DecidableEq, Repr

def FieldType.size : FieldType → Nat
  | .u64 => 8
  | .u32 => 4
  | .f64 => 8
  | .fixedString length => length

def FieldType.align : FieldType → Nat
  | .u64 => 8
  | .u32 => 4
  | .f64 => 8
  | .fixedString _ => 1

theorem FieldType.align_pos (type : FieldType) : 0 < type.align := by
  cases type <;> simp [FieldType.align]

/-- A struct layout: every field has its size, fields do not overlap, and offsets fit the
`u16` of a `Field`.
-/
structure StructLayout (ν : Type) (type : ν → FieldType) where
  span : ν → Span
  sizes : ∀ name, (span name).size = (type name).size
  apart : ∀ first second, first ≠ second → (span first).Disjoint (span second)
  fits : ∀ name, (span name).stop < 2 ^ 16

/-- The C layout of a struct that declares its fields in this order. -/
def StructLayout.reprC {ν : Type} [DecidableEq ν] (order : List ν) (type : ν → FieldType)
    (declared : ∀ name, name ∈ order)
    (fits : ∀ name, (ByteImage.reprC (fun name => (type name).size)
      (fun name => (type name).align) order name).stop < 2 ^ 16)
    : StructLayout ν type where
  span := ByteImage.reprC (fun name => (type name).size) (fun name => (type name).align) order
  sizes _ := rfl
  apart first second :=
    reprC_disjoint (fun name => (type name).align_pos) (declared first) (declared second)
  fits := fits

/-- `mk_field!` -/
def StructLayout.mkField {ν : Type} {type : ν → FieldType} (layout : StructLayout ν type)
    (name : ν)
    : Field :=
  Field.fromSpan (layout.span name)

/-- `offset_of!` -/
def StructLayout.offsetOf {ν : Type} {type : ν → FieldType} (layout : StructLayout ν type)
    (name : ν)
    : Nat :=
  (layout.span name).start

theorem StructLayout.span_mkField {ν : Type} {type : ν → FieldType}
    (layout : StructLayout ν type) (name : ν)
    : (layout.mkField name).span = layout.span name :=
  Field.span_fromSpan (layout.fits name)

/-! ### WarehouseTuple -/

inductive WarehouseField
  | wId | wName | wStreet1 | wStreet2 | wCity | wState | wZip | wTax | wYtd
deriving DecidableEq, Repr

@[reducible]
def WarehouseField.type : WarehouseField → FieldType
  | .wId => .u64
  | .wName => .fixedString 10
  | .wStreet1 | .wStreet2 | .wCity => .fixedString 20
  | .wState => .fixedString 2
  | .wZip => .u64
  | .wTax | .wYtd => .f64

def WarehouseField.order : List WarehouseField :=
  [.wId, .wName, .wStreet1, .wStreet2, .wCity, .wState, .wZip, .wTax, .wYtd]

def warehouseTuple : StructLayout WarehouseField WarehouseField.type :=
  .reprC WarehouseField.order _ (by intro name; cases name <;> decide)
    (by intro name; cases name <;> decide)

/-! ### DistrictTuple -/

inductive DistrictField
  | dId | dWId | dName | dStreet1 | dStreet2 | dCity | dState | dZip | dTax | dYtd | dNextOId
deriving DecidableEq, Repr

@[reducible]
def DistrictField.type : DistrictField → FieldType
  | .dId | .dWId => .u64
  | .dName => .fixedString 10
  | .dStreet1 | .dStreet2 | .dCity => .fixedString 20
  | .dState => .fixedString 2
  | .dZip => .u64
  | .dTax | .dYtd => .f64
  | .dNextOId => .u64

def DistrictField.order : List DistrictField :=
  [.dId, .dWId, .dName, .dStreet1, .dStreet2, .dCity, .dState, .dZip, .dTax, .dYtd, .dNextOId]

def districtTuple : StructLayout DistrictField DistrictField.type :=
  .reprC DistrictField.order _ (by intro name; cases name <;> decide)
    (by intro name; cases name <;> decide)

/-! ### CustomerTuple -/

def cDataSize : Nat := 500

inductive CustomerField
  | cId | cFirst | cMiddle | cLast | cStreet1 | cStreet2 | cCity | cState | cZip | cPhone
  | cSince | cCredit | cCreditLim | cDiscount | cBalance | cYtdPayment | cPaymentCnt
  | cDeliveryCnt | cWId | cDId | cData
deriving DecidableEq, Repr

@[reducible]
def CustomerField.type : CustomerField → FieldType
  | .cId => .u64
  | .cFirst => .fixedString 20
  | .cMiddle => .fixedString 2
  | .cLast => .fixedString 16
  | .cStreet1 | .cStreet2 | .cCity => .fixedString 20
  | .cState => .fixedString 2
  | .cZip => .u64
  | .cPhone => .fixedString 16
  | .cSince => .u64
  | .cCredit => .fixedString 2
  | .cCreditLim | .cDiscount | .cBalance | .cYtdPayment => .f64
  | .cPaymentCnt | .cDeliveryCnt => .u32
  | .cWId | .cDId => .u64
  | .cData => .fixedString cDataSize

def CustomerField.order : List CustomerField :=
  [.cId, .cFirst, .cMiddle, .cLast, .cStreet1, .cStreet2, .cCity, .cState, .cZip, .cPhone,
    .cSince, .cCredit, .cCreditLim, .cDiscount, .cBalance, .cYtdPayment, .cPaymentCnt,
    .cDeliveryCnt, .cWId, .cDId, .cData]

def customerTuple : StructLayout CustomerField CustomerField.type :=
  .reprC CustomerField.order _ (by intro name; cases name <;> decide)
    (by intro name; cases name <;> decide)

/-! ### ItemTuple -/

inductive ItemField
  | iId | iImId | iPrice | iName | iData
deriving DecidableEq, Repr

@[reducible]
def ItemField.type : ItemField → FieldType
  | .iId | .iImId => .u64
  | .iPrice => .f64
  | .iName => .fixedString 24
  | .iData => .fixedString 50

def ItemField.order : List ItemField :=
  [.iId, .iImId, .iPrice, .iName, .iData]

def itemTuple : StructLayout ItemField ItemField.type :=
  .reprC ItemField.order _ (by intro name; cases name <;> decide)
    (by intro name; cases name <;> decide)

/-! ### OrderTuple -/

inductive OrderField
  | oId | oCId | oEntryD | oCarrierId | oDId | oWId | oOlCnt | oAllLocal
deriving DecidableEq, Repr

@[reducible]
def OrderField.type (_ : OrderField) : FieldType := .u64

def OrderField.order : List OrderField :=
  [.oId, .oCId, .oEntryD, .oCarrierId, .oDId, .oWId, .oOlCnt, .oAllLocal]

def orderTuple : StructLayout OrderField OrderField.type :=
  .reprC OrderField.order _ (by intro name; cases name <;> decide)
    (by intro name; cases name <;> decide)

/-! ### OrderLineTuple -/

inductive OrderLineField
  | olOId | olDId | olIId | olSupplyWId | olQuantity | olDeliveryD | olAmount | olNumber
  | olWId | olDistInfo
deriving DecidableEq, Repr

@[reducible]
def OrderLineField.type : OrderLineField → FieldType
  | .olOId | .olDId | .olIId | .olSupplyWId | .olQuantity | .olDeliveryD => .u64
  | .olAmount => .f64
  | .olNumber | .olWId => .u64
  | .olDistInfo => .fixedString 24

def OrderLineField.order : List OrderLineField :=
  [.olOId, .olDId, .olIId, .olSupplyWId, .olQuantity, .olDeliveryD, .olAmount, .olNumber,
    .olWId, .olDistInfo]

def orderLineTuple : StructLayout OrderLineField OrderLineField.type :=
  .reprC OrderLineField.order _ (by intro name; cases name <;> decide)
    (by intro name; cases name <;> decide)

/-! ### StockTuple -/

inductive StockField
  | sIId | sWId | sQuantity | sYtd | sOrderCnt | sRemoteCnt | sData | sDist01 | sDist02
  | sDist03 | sDist04 | sDist05 | sDist06 | sDist07 | sDist08 | sDist09 | sDist10
deriving DecidableEq, Repr

@[reducible]
def StockField.type : StockField → FieldType
  | .sIId | .sWId | .sQuantity | .sYtd | .sOrderCnt | .sRemoteCnt => .u64
  | .sData => .fixedString 24
  | .sDist01 | .sDist02 | .sDist03 | .sDist04 | .sDist05 | .sDist06 | .sDist07 | .sDist08
  | .sDist09 | .sDist10 => .fixedString 24

def StockField.order : List StockField :=
  [.sIId, .sWId, .sQuantity, .sYtd, .sOrderCnt, .sRemoteCnt, .sData, .sDist01, .sDist02,
    .sDist03, .sDist04, .sDist05, .sDist06, .sDist07, .sDist08, .sDist09, .sDist10]

def stockTuple : StructLayout StockField StockField.type :=
  .reprC StockField.order _ (by intro name; cases name <;> decide)
    (by intro name; cases name <;> decide)

end Alchemy.Tpcc
