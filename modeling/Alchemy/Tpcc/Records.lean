import Alchemy.Cache.Lens
import Alchemy.Library.LittleEndian
import Alchemy.Tpcc.WriteBack
import Mathlib.Algebra.Group.Defs
import Mathlib.Data.List.TakeDrop
import Mathlib.Data.UInt

/-! The values of the TPC-C fields, the tables, and records as functions of their fields.
Amounts of money are elements of an arbitrary additive group that are stored in the eight
bytes of an `f64`.
-/

namespace Alchemy.Tpcc

open ByteImage Cache

/-! ### Field values -/

structure FixedString (length : Nat) where
  data : List Byte
  sized : data.length = length
deriving DecidableEq

theorem u64_round_trip (value : UInt64)
    : UInt64.ofNat (LittleEndian.decode (LittleEndian.encode 8 value.toNat)) = value := by
  have small : value.toNat < 256 ^ 8 := value.toNat_lt
  rw [LittleEndian.decode_encode, Nat.mod_eq_of_lt small, UInt64.ofNat_toNat]

theorem u32_round_trip (value : UInt32)
    : UInt32.ofNat (LittleEndian.decode (LittleEndian.encode 4 value.toNat)) = value := by
  have small : value.toNat < 256 ^ 4 := value.toNat_lt
  rw [LittleEndian.decode_encode, Nat.mod_eq_of_lt small, UInt32.ofNat_toNat]

/-- Exact amounts in place of `f64`. `one` is `1.0`, and `discounted` is the test
`*c_discount > 0.0 && *c_discount < 0.5`.
-/
class Money (A : Type) extends AddCommGroup A where
  encode : A → List Byte
  decode : List Byte → A
  length_encode : ∀ amount, (encode amount).length = 8
  decode_encode : ∀ amount, decode (encode amount) = amount
  one : A
  discounted : A → Bool

/-- Whole units modulo `2 ^ 64`, one of the groups that fit; a discount is one unit. -/
instance : Money UInt64 where
  encode amount := LittleEndian.encode 8 amount.toNat
  decode bytes := UInt64.ofNat (LittleEndian.decode bytes)
  length_encode _ := LittleEndian.length_encode ..
  decode_encode := u64_round_trip
  one := 1
  discounted amount := amount == 1

namespace FieldType

/-- The Rust type of a field. -/
abbrev Value (A : Type) : FieldType → Type
  | .u64 => UInt64
  | .u32 => UInt32
  | .f64 => A
  | .fixedString length => FixedString length

variable {A : Type} [Money A]

def encode : (type : FieldType) → type.Value A → List Byte
  | .u64, value => LittleEndian.encode 8 value.toNat
  | .u32, value => LittleEndian.encode 4 value.toNat
  | .f64, amount => Money.encode amount
  | .fixedString _, text => text.data

def decode : (type : FieldType) → List Byte → type.Value A
  | .u64, bytes => UInt64.ofNat (LittleEndian.decode bytes)
  | .u32, bytes => UInt32.ofNat (LittleEndian.decode bytes)
  | .f64, bytes => Money.decode bytes
  | .fixedString length, bytes => ⟨bytes.takeD length 0, List.takeD_length ..⟩

def zero : (type : FieldType) → type.Value A
  | .u64 => (0 : UInt64)
  | .u32 => (0 : UInt32)
  | .f64 => (0 : A)
  | .fixedString length => ⟨List.replicate length 0, List.length_replicate⟩

theorem length_encode (type : FieldType) (value : type.Value A)
    : (type.encode value).length = type.size := by
  cases type with
  | u64 | u32 => exact LittleEndian.length_encode ..
  | f64 => exact Money.length_encode value
  | fixedString length => exact value.sized

theorem decode_encode (type : FieldType) (value : type.Value A)
    : type.decode (type.encode value) = value := by
  cases type with
  | u64 => exact u64_round_trip value
  | u32 => exact u32_round_trip value
  | f64 => exact Money.decode_encode value
  | fixedString length =>
      obtain ⟨data, sized⟩ := value
      subst sized
      simp [encode, decode, List.takeD_eq_take]

end FieldType

/-! ### Records in memory -/

namespace StructLayout

variable {A ν : Type} [Money A] {type : ν → FieldType}

/-- The bytes of a struct with these fields; what lies between them is zero. -/
def image (layout : StructLayout ν type) (names : List ν)
    (record : (name : ν) → (type name).Value A)
    : Image Byte :=
  names.foldl
    (fun image name =>
      write image (layout.span name).start ((type name).encode (record name)))
    (fun _ => 0)

/-- Writing fields in any order without repetition, each one keeps its own bytes. -/
theorem read_foldl_write [DecidableEq ν] (layout : StructLayout ν type)
    (record : (name : ν) → (type name).Value A) {names : List ν} (distinct : names.Nodup)
    (start : Image Byte) (name : ν)
    : read
        (names.foldl
          (fun image name =>
            write image (layout.span name).start ((type name).encode (record name)))
          start)
        (layout.span name)
      = if name ∈ names then (type name).encode (record name)
        else read start (layout.span name) := by
  induction names generalizing start with
  | nil => rfl
  | cons head rest ih =>
      obtain ⟨fresh, distinct⟩ := List.nodup_cons.mp distinct
      have sized : ((type head).encode (record head)).length = (layout.span head).size := by
        rw [FieldType.length_encode, layout.sizes]
      rw [List.foldl_cons, ih distinct]
      by_cases here : name = head
      · subst here
        rw [if_neg fresh, if_pos List.mem_cons_self, read_write_self sized]
      · rw [read_write_disjoint sized (layout.apart head name (Ne.symm here))]
        simp only [List.mem_cons, here, false_or]

theorem read_image [DecidableEq ν] (layout : StructLayout ν type)
    (record : (name : ν) → (type name).Value A) {names : List ν} (distinct : names.Nodup)
    {name : ν} (declared : name ∈ names)
    : read (layout.image names record) (layout.span name)
      = (type name).encode (record name) := by
  rw [image, layout.read_foldl_write record distinct, if_pos declared]

end StructLayout

/-! ### Tables -/

/-- The tables of `TpccWorkload`. -/
inductive Table
  | warehouse | district | customer | item | stock | order | orderLine
deriving DecidableEq, Repr

namespace Table

def all : List Table :=
  [.warehouse, .district, .customer, .item, .stock, .order, .orderLine]

theorem mem_all (table : Table) : table ∈ all := by
  cases table <;> decide

/-- The fields of the table's tuple. -/
abbrev Name : Table → Type
  | .warehouse => WarehouseField
  | .district => DistrictField
  | .customer => CustomerField
  | .item => ItemField
  | .stock => StockField
  | .order => OrderField
  | .orderLine => OrderLineField

instance : (table : Table) → DecidableEq table.Name
  | .warehouse => inferInstanceAs (DecidableEq WarehouseField)
  | .district => inferInstanceAs (DecidableEq DistrictField)
  | .customer => inferInstanceAs (DecidableEq CustomerField)
  | .item => inferInstanceAs (DecidableEq ItemField)
  | .stock => inferInstanceAs (DecidableEq StockField)
  | .order => inferInstanceAs (DecidableEq OrderField)
  | .orderLine => inferInstanceAs (DecidableEq OrderLineField)

def names : (table : Table) → List table.Name
  | .warehouse => WarehouseField.order
  | .district => DistrictField.order
  | .customer => CustomerField.order
  | .item => ItemField.order
  | .stock => StockField.order
  | .order => OrderField.order
  | .orderLine => OrderLineField.order

abbrev type : (table : Table) → table.Name → FieldType
  | .warehouse => WarehouseField.type
  | .district => DistrictField.type
  | .customer => CustomerField.type
  | .item => ItemField.type
  | .stock => StockField.type
  | .order => OrderField.type
  | .orderLine => OrderLineField.type

def layout : (table : Table) → StructLayout table.Name table.type
  | .warehouse => warehouseTuple
  | .district => districtTuple
  | .customer => customerTuple
  | .item => itemTuple
  | .stock => stockTuple
  | .order => orderTuple
  | .orderLine => orderLineTuple

/-- `mk_field!` -/
def field (table : Table) (name : table.Name) : Field :=
  table.layout.mkField name

/-- A tuple of the table, by the values of its fields. -/
abbrev Record (table : Table) (A : Type) : Type :=
  (name : table.Name) → (table.type name).Value A

theorem mem_names (table : Table) (name : table.Name) : name ∈ table.names := by
  cases table <;> cases name <;> decide

theorem names_nodup (table : Table) : table.names.Nodup := by
  cases table <;> decide

theorem span_field (table : Table) (name : table.Name)
    : (table.field name).span = table.layout.span name :=
  table.layout.span_mkField name

theorem field_size (table : Table) (name : table.Name)
    : (table.field name).size = (table.type name).size := by
  rw [← table.layout.sizes, ← span_field]
  rfl

theorem field_apart (table : Table) {first second : table.Name} (different : first ≠ second)
    : (table.field first).span.Disjoint (table.field second).span := by
  rw [span_field, span_field]
  exact table.layout.apart first second different

end Table

namespace Table

variable {A : Type} [Money A] {table : Table}

/-- The tuple with all fields zero. -/
def zeroed (table : Table) : table.Record A :=
  fun name => (table.type name).zero

/-- The bytes of a tuple. -/
def image (table : Table) (record : table.Record A) : Image Byte :=
  table.layout.image table.names record

theorem read_image (record : table.Record A) (name : table.Name)
    : read (table.image record) (table.field name).span
      = (table.type name).encode (record name) := by
  rw [span_field]
  exact table.layout.read_image record table.names_nodup (table.mem_names name)

/-- Overwriting one field in memory is overwriting it in the record. -/
theorem read_image_write (record : table.Record A) (target : table.Name)
    (value : (table.type target).Value A) (name : table.Name)
    : read
        (write (table.image record) (table.field target).span.start
          ((table.type target).encode value))
        (table.field name).span
      = (table.type name).encode (Function.update record target value name) := by
  have sized : ((table.type target).encode value).length = (table.field target).span.size := by
    rw [FieldType.length_encode, ← table.field_size]
    rfl
  by_cases here : name = target
  · subst here
    rw [read_write_self sized, Function.update_self]
  · rw [read_write_disjoint sized (table.field_apart (Ne.symm here)), read_image,
      Function.update_of_ne here]

end Table

/-! ### The schemas of a table -/

namespace TpccSchema

/-- The table a schema is for. -/
def table : TpccSchema → Table
  | .warehouseCached _ | .warehouseTuple => .warehouse
  | .districtCached _ | .districtTuple => .district
  | .customerCachedWrite _ | .customerTuple | .customerCachedRead => .customer
  | .itemTuple | .itemCached => .item
  | .orderCached | .orderTuple => .order
  | .orderLineCached | .orderLineTuple => .orderLine
  | .stockTuple | .stockCached => .stock

/-- The fields that an eviction writes back or never touches. -/
def keptFields : TpccSchema → List Field
  | .stockCached => (StockField.order.filter (fun name => ¬name.Dropped)).map stockTuple.mkField
  | schema => schema.table.names.map schema.table.field

end TpccSchema

/-- The fields that no schema of the table drops. -/
def Table.Kept : (table : Table) → table.Name → Prop
  | .stock, name => ¬StockField.Dropped name
  | _, _ => True

/-- The fields that every schema of the table caches. -/
def Table.Cached (table : Table) (name : table.Name) : Prop :=
  ∀ (schema : TpccSchema) (padding : Image Byte), schema.table = table
    → ((schema.schema padding).toCachedField (table.field name)).isSome = true

/-- What a load of a field can answer. A field of the query is found, and so is one that every
schema caches. A field of the query that a schema drops reads as anything.
-/
def Table.Reads {A : Type} {table : Table} (record : table.Record A) (query : List table.Name)
    (name : table.Name) (answer : Option ((table.type name).Value A))
    : Prop :=
  (name ∈ query → ∃ value, answer = some value ∧ (table.Kept name → value = record name))
  ∧ (table.Cached name → answer.isSome = true)

theorem Table.reads_some {A : Type} {table : Table} (record : table.Record A)
    (query : List table.Name) (name : table.Name)
    : Table.Reads record query name (some (record name)) :=
  ⟨fun _ => ⟨_, rfl, fun _ => rfl⟩, fun _ => rfl⟩

namespace TpccSchema

variable {table : Table} {name : table.Name}

/-- The cache relies on the lens laws of the kept fields only. -/
theorem keptFields_laws (schema : TpccSchema) (padding : Image Byte)
    : (schema.schema padding).LensLaws schema.keptFields := by
  intro field declared tuple cached
  cases schema with
  | stockCached =>
      obtain ⟨name, kept, rfl⟩ := List.mem_map.mp declared
      have notDropped : ¬StockField.Dropped name := by
        simpa using (List.mem_filter.mp kept).2
      have law : (TpccSchema.stockCached.schema padding).FieldLaw
          (TpccSchema.stockCached.mkField name) tuple cached :=
        TpccSchema.stockCached.fieldLaw_of_kept notDropped
      exact law
  | warehouseCached layout | districtCached layout | customerCachedWrite layout
  | _ =>
      obtain ⟨name, _, rfl⟩ := List.mem_map.mp declared
      exact fieldLaw_of_kept _ id

/-- They are fields of the table. -/
theorem keptFields_name {schema : TpccSchema} {field : Field} (same : schema.table = table)
    (declared : field ∈ schema.keptFields)
    : ∃ name, field = table.field name := by
  subst same
  cases schema with
  | stockCached =>
      obtain ⟨name, _, rfl⟩ := List.mem_map.mp declared
      exact ⟨name, rfl⟩
  | warehouseCached layout | districtCached layout | customerCachedWrite layout
  | _ =>
      obtain ⟨name, _, rfl⟩ := List.mem_map.mp declared
      exact ⟨name, rfl⟩

theorem stock_mem_keptFields {name : StockField} (kept : ¬name.Dropped)
    : stockTuple.mkField name ∈ stockCached.keptFields :=
  List.mem_map_of_mem (List.mem_filter.mpr ⟨Table.mem_names .stock name, decide_eq_true kept⟩)

theorem stock_dropped_cached {name : StockField} (dropped : ¬¬name.Dropped)
    : (Tpcc.stockCached.toCachedField (stockTuple.mkField name)).isSome = true := by
  obtain ⟨place, _, _, cached⟩ := stockCached_dropped (Decidable.not_not.mp dropped)
  exact Option.isSome_iff_exists.mpr ⟨_, cached⟩

theorem mem_keptFields {schema : TpccSchema} (same : schema.table = table)
    (kept : table.Kept name)
    : table.field name ∈ schema.keptFields := by
  subst same
  cases schema with
  | stockCached => exact stock_mem_keptFields kept
  | warehouseCached layout | districtCached layout | customerCachedWrite layout
  | _ => exact List.mem_map_of_mem (Table.mem_names _ name)

/-- A field that some schema of the table drops is cached by all of them. -/
theorem dropped_cached (dropped : ¬table.Kept name) : table.Cached name := by
  rintro schema padding rfl
  cases schema with
  | stockCached => exact stock_dropped_cached dropped
  | stockTuple => rfl
  | warehouseCached layout | districtCached layout | customerCachedWrite layout
  | _ => exact absurd trivial dropped

end TpccSchema

end Alchemy.Tpcc
