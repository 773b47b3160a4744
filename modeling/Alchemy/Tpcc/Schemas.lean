import Alchemy.Tpcc.Tables

/-! The `Schema` implementations of the TPC-C tables.
Each one is three tables read off the source: the assignments of `to_cached`, those of
`write_back`, and the translation `to_cached_field` of tuple fields.
-/

namespace Alchemy.Tpcc

open ByteImage Cache

/-- An implementation of `Schema` by member-wise assignments between two structs: `loads`
are those of `to_cached`, `stores` those of `write_back`, target first.
-/
structure GeneralSchema {T C : Type} {tupleType : T → FieldType} {cachedType : C → FieldType}
    (tuple : StructLayout T tupleType) (cached : StructLayout C cachedType) where
  loads : List (C × T)
  stores : List (T × C)
  toCachedField : Field → Option Field

/-- The schema on images; `padding` is what the bytes between the members of a fresh cached
record happen to be.
-/
def GeneralSchema.schema {T C : Type} {tupleType : T → FieldType} {cachedType : C → FieldType}
    {tuple : StructLayout T tupleType} {cached : StructLayout C cachedType}
    (impl : GeneralSchema tuple cached) (padding : Image Byte)
    : Schema where
  toCached record :=
    copyAll padding record
      (impl.loads.map (fun load => (cached.span load.1, tuple.span load.2)))
  writeBack field record :=
    copyAll record field
      (impl.stores.map (fun store => (tuple.span store.1, cached.span store.2)))
  toCachedField := impl.toCachedField

/-- The schemas that cache the whole tuple: `clone` both ways. -/
def wholeTuple {T : Type} {type : T → FieldType} (tuple : StructLayout T type) (order : List T)
    : GeneralSchema tuple tuple where
  loads := order.map (fun name => (name, name))
  stores := order.map (fun name => (name, name))
  toCachedField := some

/-- The translation of the schemas that cache a first part of the tuple. -/
def prefixField (endOffset : Nat) (tupleField : Field) : Option Field :=
  if endOffset ≤ tupleField.beginAt.toNat then none else some tupleField

/-! ### WarehouseCached and DistrictCached -/

/-- The one field of `WarehouseCached` and of `DistrictCached`. -/
inductive YtdField
  | ytd
deriving DecidableEq, Repr

def YtdField.type (_ : YtdField) : FieldType := .f64

/-- A schema that caches one field, found by comparing the whole range. -/
def ytdCached {T : Type} {type : T → FieldType} (tuple : StructLayout T type) (ytd : T)
    (cached : StructLayout YtdField YtdField.type)
    : GeneralSchema tuple cached where
  loads := [(.ytd, ytd)]
  stores := [(ytd, .ytd)]
  toCachedField tupleField :=
    if tuple.mkField ytd = tupleField then some (cached.mkField .ytd) else none

def warehouseCached (cached : StructLayout YtdField YtdField.type)
    : GeneralSchema warehouseTuple cached :=
  ytdCached warehouseTuple .wYtd cached

def districtCached (cached : StructLayout YtdField YtdField.type)
    : GeneralSchema districtTuple cached :=
  ytdCached districtTuple .dYtd cached

/-! ### CustomerCachedWrite and CustomerCachedRead -/

inductive CustomerWriteField
  | cBalance | cYtdPayment | cPaymentCnt
deriving DecidableEq, Repr

def CustomerWriteField.type : CustomerWriteField → FieldType
  | .cBalance | .cYtdPayment => .f64
  | .cPaymentCnt => .u32

/-- `CustomerCachedWrite` has no `repr`: its fields may be laid out in any order. -/
def customerCachedWrite (cached : StructLayout CustomerWriteField CustomerWriteField.type)
    : GeneralSchema customerTuple cached where
  loads :=
    [(.cBalance, .cBalance), (.cYtdPayment, .cYtdPayment), (.cPaymentCnt, .cPaymentCnt)]
  stores :=
    [(.cBalance, .cBalance), (.cYtdPayment, .cYtdPayment), (.cPaymentCnt, .cPaymentCnt)]
  toCachedField tupleField :=
    if customerTuple.mkField .cBalance = tupleField then some (cached.mkField .cBalance)
    else if customerTuple.mkField .cYtdPayment = tupleField then
      some (cached.mkField .cYtdPayment)
    else if customerTuple.mkField .cPaymentCnt = tupleField then
      some (cached.mkField .cPaymentCnt)
    else none

inductive CustomerReadField
  | cId | cFirst | cMiddle | cLast | cStreet1 | cStreet2 | cCity | cState | cZip | cPhone
  | cSince | cCredit | cCreditLim | cDiscount | cBalance | cYtdPayment | cPaymentCnt
  | cDeliveryCnt
deriving DecidableEq, Repr

def CustomerReadField.type : CustomerReadField → FieldType
  | .cId => .u64
  | .cFirst => .fixedString 20
  | .cMiddle => .fixedString 2
  | .cLast => .fixedString 16
  | .cStreet1 | .cStreet2 | .cCity => .fixedString 20
  | .cState => .fixedString 2
  | .cZip => .u64
  | .cPhone => .fixedString 16
  | .cSince => .u64
  | .cCredit => .fixedString 2
  | .cCreditLim | .cDiscount | .cBalance | .cYtdPayment => .f64
  | .cPaymentCnt | .cDeliveryCnt => .u32

def CustomerReadField.order : List CustomerReadField :=
  [.cId, .cFirst, .cMiddle, .cLast, .cStreet1, .cStreet2, .cCity, .cState, .cZip, .cPhone,
    .cSince, .cCredit, .cCreditLim, .cDiscount, .cBalance, .cYtdPayment, .cPaymentCnt,
    .cDeliveryCnt]

def customerReadLayout : StructLayout CustomerReadField CustomerReadField.type :=
  .reprC CustomerReadField.order _ (by intro name; cases name <;> decide)
    (by intro name; cases name <;> decide)

def customerCachedRead : GeneralSchema customerTuple customerReadLayout where
  loads :=
    [(.cId, .cId), (.cFirst, .cFirst), (.cMiddle, .cMiddle), (.cLast, .cLast),
      (.cStreet1, .cStreet1), (.cStreet2, .cStreet2), (.cCity, .cCity), (.cState, .cState),
      (.cZip, .cZip), (.cPhone, .cPhone), (.cSince, .cSince), (.cCredit, .cCredit),
      (.cCreditLim, .cCreditLim), (.cDiscount, .cDiscount), (.cBalance, .cBalance),
      (.cYtdPayment, .cYtdPayment), (.cPaymentCnt, .cPaymentCnt),
      (.cDeliveryCnt, .cDeliveryCnt)]
  stores :=
    [(.cId, .cId), (.cFirst, .cFirst), (.cMiddle, .cMiddle), (.cLast, .cLast),
      (.cStreet1, .cStreet1), (.cStreet2, .cStreet2), (.cCity, .cCity), (.cState, .cState),
      (.cZip, .cZip), (.cPhone, .cPhone), (.cSince, .cSince), (.cCredit, .cCredit),
      (.cCreditLim, .cCreditLim), (.cDiscount, .cDiscount), (.cBalance, .cBalance),
      (.cYtdPayment, .cYtdPayment), (.cPaymentCnt, .cPaymentCnt),
      (.cDeliveryCnt, .cDeliveryCnt)]
  toCachedField := prefixField (customerTuple.offsetOf .cWId)

/-! ### ItemCached -/

inductive ItemCachedField
  | iPrice | iName | iData
deriving DecidableEq, Repr

def ItemCachedField.type : ItemCachedField → FieldType
  | .iPrice => .f64
  | .iName => .fixedString 24
  | .iData => .fixedString 50

def ItemCachedField.order : List ItemCachedField :=
  [.iPrice, .iName, .iData]

def itemCachedLayout : StructLayout ItemCachedField ItemCachedField.type :=
  .reprC ItemCachedField.order _ (by intro name; cases name <;> decide)
    (by intro name; cases name <;> decide)

/-- `ItemCached` is the last part of the tuple, so its fields move to the front. -/
def itemCached : GeneralSchema itemTuple itemCachedLayout where
  loads := [(.iPrice, .iPrice), (.iName, .iName), (.iData, .iData)]
  stores := [(.iPrice, .iPrice), (.iName, .iName), (.iData, .iData)]
  toCachedField tupleField :=
    let beginOffset := itemTuple.offsetOf .iPrice
    if tupleField.beginAt.toNat < beginOffset then
      none
    else
      some
        { beginAt := tupleField.beginAt - UInt16.ofNat beginOffset
          endAt := tupleField.endAt - UInt16.ofNat beginOffset }

/-! ### OrderCached and OrderLineCached -/

inductive OrderCachedField
  | oId | oCId | oEntryD | oCarrierId
deriving DecidableEq, Repr

def OrderCachedField.type (_ : OrderCachedField) : FieldType := .u64

def OrderCachedField.order : List OrderCachedField :=
  [.oId, .oCId, .oEntryD, .oCarrierId]

def orderCachedLayout : StructLayout OrderCachedField OrderCachedField.type :=
  .reprC OrderCachedField.order _ (by intro name; cases name <;> decide)
    (by intro name; cases name <;> decide)

def orderCached : GeneralSchema orderTuple orderCachedLayout where
  loads :=
    [(.oId, .oId), (.oCId, .oCId), (.oEntryD, .oEntryD), (.oCarrierId, .oCarrierId)]
  stores :=
    [(.oId, .oId), (.oCId, .oCId), (.oEntryD, .oEntryD), (.oCarrierId, .oCarrierId)]
  toCachedField := prefixField (orderTuple.offsetOf .oDId)

inductive OrderLineCachedField
  | olOId | olDId | olIId | olSupplyWId | olQuantity | olDeliveryD | olAmount
deriving DecidableEq, Repr

def OrderLineCachedField.type : OrderLineCachedField → FieldType
  | .olOId | .olDId | .olIId | .olSupplyWId | .olQuantity | .olDeliveryD => .u64
  | .olAmount => .f64

def OrderLineCachedField.order : List OrderLineCachedField :=
  [.olOId, .olDId, .olIId, .olSupplyWId, .olQuantity, .olDeliveryD, .olAmount]

def orderLineCachedLayout : StructLayout OrderLineCachedField OrderLineCachedField.type :=
  .reprC OrderLineCachedField.order _ (by intro name; cases name <;> decide)
    (by intro name; cases name <;> decide)

def orderLineCached : GeneralSchema orderLineTuple orderLineCachedLayout where
  loads :=
    [(.olOId, .olOId), (.olDId, .olDId), (.olIId, .olIId), (.olSupplyWId, .olSupplyWId),
      (.olQuantity, .olQuantity), (.olDeliveryD, .olDeliveryD), (.olAmount, .olAmount)]
  stores :=
    [(.olOId, .olOId), (.olDId, .olDId), (.olIId, .olIId), (.olSupplyWId, .olSupplyWId),
      (.olQuantity, .olQuantity), (.olDeliveryD, .olDeliveryD), (.olAmount, .olAmount)]
  toCachedField := prefixField (orderLineTuple.offsetOf .olNumber)

/-! ### StockCached -/

inductive StockCachedField
  | sIId | sWId | sQuantity | sYtd | sOrderCnt | sRemoteCnt | sData | sDist10
deriving DecidableEq, Repr

def StockCachedField.type : StockCachedField → FieldType
  | .sIId | .sWId | .sQuantity | .sYtd | .sOrderCnt | .sRemoteCnt => .u64
  | .sData | .sDist10 => .fixedString 24

def StockCachedField.order : List StockCachedField :=
  [.sIId, .sWId, .sQuantity, .sYtd, .sOrderCnt, .sRemoteCnt, .sData, .sDist10]

def stockCachedLayout : StructLayout StockCachedField StockCachedField.type :=
  .reprC StockCachedField.order _ (by intro name; cases name <;> decide)
    (by intro name; cases name <;> decide)

/-- `to_cached` copies eight fields and `to_cached_field` maps them all, but `write_back`
assigns only five.
-/
def stockCached : GeneralSchema stockTuple stockCachedLayout where
  loads :=
    [(.sIId, .sIId), (.sWId, .sWId), (.sQuantity, .sQuantity), (.sYtd, .sYtd),
      (.sOrderCnt, .sOrderCnt), (.sRemoteCnt, .sRemoteCnt), (.sData, .sData),
      (.sDist10, .sDist10)]
  stores :=
    [(.sQuantity, .sQuantity), (.sYtd, .sYtd), (.sOrderCnt, .sOrderCnt),
      (.sRemoteCnt, .sRemoteCnt), (.sData, .sData)]
  toCachedField tupleField :=
    if tupleField = stockTuple.mkField .sDist10 then
      some (stockCachedLayout.mkField .sDist10)
    else
      prefixField (stockTuple.offsetOf .sDist01) tupleField

/-! ### All implementations -/

/-- The implementations of `Schema` in `schemas.rs`. The cached structs without a `repr`
come with whatever layout the compiler chose.
-/
inductive TpccSchema
  | warehouseCached (cached : StructLayout YtdField YtdField.type)
  | warehouseTuple
  | districtCached (cached : StructLayout YtdField YtdField.type)
  | districtTuple
  | customerCachedWrite (cached : StructLayout CustomerWriteField CustomerWriteField.type)
  | customerTuple
  | customerCachedRead
  | itemTuple
  | itemCached
  | orderCached
  | orderTuple
  | orderLineCached
  | orderLineTuple
  | stockTuple
  | stockCached

namespace TpccSchema

/-- The declared fields of the schema's tuple. -/
abbrev TupleField : TpccSchema → Type
  | .warehouseCached _ | .warehouseTuple => WarehouseField
  | .districtCached _ | .districtTuple => DistrictField
  | .customerCachedWrite _ | .customerTuple | .customerCachedRead => CustomerField
  | .itemTuple | .itemCached => ItemField
  | .orderCached | .orderTuple => OrderField
  | .orderLineCached | .orderLineTuple => OrderLineField
  | .stockTuple | .stockCached => StockField

def mkField : (schema : TpccSchema) → schema.TupleField → Field
  | .warehouseCached _ | .warehouseTuple => Tpcc.warehouseTuple.mkField
  | .districtCached _ | .districtTuple => Tpcc.districtTuple.mkField
  | .customerCachedWrite _ | .customerTuple | .customerCachedRead => Tpcc.customerTuple.mkField
  | .itemTuple | .itemCached => Tpcc.itemTuple.mkField
  | .orderCached | .orderTuple => Tpcc.orderTuple.mkField
  | .orderLineCached | .orderLineTuple => Tpcc.orderLineTuple.mkField
  | .stockTuple | .stockCached => Tpcc.stockTuple.mkField

def schema : TpccSchema → Image Byte → Schema
  | .warehouseCached cached => (Tpcc.warehouseCached cached).schema
  | .warehouseTuple => (wholeTuple Tpcc.warehouseTuple WarehouseField.order).schema
  | .districtCached cached => (Tpcc.districtCached cached).schema
  | .districtTuple => (wholeTuple Tpcc.districtTuple DistrictField.order).schema
  | .customerCachedWrite cached => (Tpcc.customerCachedWrite cached).schema
  | .customerTuple => (wholeTuple Tpcc.customerTuple CustomerField.order).schema
  | .customerCachedRead => Tpcc.customerCachedRead.schema
  | .itemTuple => (wholeTuple Tpcc.itemTuple ItemField.order).schema
  | .itemCached => Tpcc.itemCached.schema
  | .orderCached => Tpcc.orderCached.schema
  | .orderTuple => (wholeTuple Tpcc.orderTuple OrderField.order).schema
  | .orderLineCached => Tpcc.orderLineCached.schema
  | .orderLineTuple => (wholeTuple Tpcc.orderLineTuple OrderLineField.order).schema
  | .stockTuple => (wholeTuple Tpcc.stockTuple StockField.order).schema
  | .stockCached => Tpcc.stockCached.schema

end TpccSchema

end Alchemy.Tpcc
