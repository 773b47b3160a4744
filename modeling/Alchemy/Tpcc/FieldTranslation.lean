import Alchemy.Tpcc.WriteBack

/-! Which byte ranges of a tuple `to_cached_field` translates correctly.
A range need not be a declared field: `get_value` asks its caller only for a range within the
tuple. The schemas look at the first byte of the range, or compare it with declared fields,
so a range that is cached in part is translated to bytes that are not its own or read from
a tuple that may be stale.
-/

namespace Alchemy.Tpcc

open ByteImage Cache

/-- What a caller of `get_value` relies on, for one range of the tuple. `Caches` says which
bytes of the tuple the cached record holds, `size` is the size of the cached struct.
-/
structure Translates (schema : Image Byte → Schema) (Caches : Nat → Prop) (size : Nat)
    (field : Field) : Prop where
  within : ∀ padding place, (schema padding).toCachedField field = some place
    → place.beginAt ≤ place.endAt
      ∧ place.endAt.toNat - place.beginAt.toNat = field.endAt.toNat - field.beginAt.toNat
      ∧ place.endAt.toNat ≤ size
  loaded : ∀ padding place, (schema padding).toCachedField field = some place
    → ∀ record, read ((schema padding).toCached record) place.span = read record field.span
  fresh : ∀ padding, (schema padding).toCachedField field = none
    → ∀ index, field.span.Covers index → ¬ Caches index

section General

variable {T C : Type} {tupleType : T → FieldType} {cachedType : C → FieldType}
  {tuple : StructLayout T tupleType} {cached : StructLayout C cachedType}
  {impl : GeneralSchema tuple cached} {padding record : Image Byte} {field place : Field}
  {size shift : Nat}

/-- The byte of the tuple is part of a member that `to_cached` loads. -/
def GeneralSchema.Caches (impl : GeneralSchema tuple cached) (index : Nat) : Prop :=
  ∃ load ∈ impl.loads, (tuple.span load.2).Covers index

/-- Every byte of the range is cached. -/
def GeneralSchema.CachesAll (impl : GeneralSchema tuple cached) (field : Field) : Prop :=
  ∀ index, field.span.Covers index → impl.Caches index

/-- No byte of the range is cached. -/
def GeneralSchema.CachesNone (impl : GeneralSchema tuple cached) (field : Field) : Prop :=
  ∀ index, field.span.Covers index → ¬ impl.Caches index

/-- The range is a member that `to_cached` loads. -/
def GeneralSchema.Loads (impl : GeneralSchema tuple cached) (field : Field) : Prop :=
  ∃ load ∈ impl.loads, field = tuple.mkField load.2

/-- In an ordered range the size is the difference of the bounds. -/
theorem Field.span_stop (ordered : field.beginAt ≤ field.endAt)
    : field.span.stop = field.endAt.toNat := by
  have bounds := UInt16.le_iff_toNat_le.mp ordered
  change field.beginAt.toNat + (field.endAt - field.beginAt).toNat = _
  rw [UInt16.toNat_sub_of_le _ _ ordered]
  omega

/-- The bounds of a declared field. -/
theorem StructLayout.mkField_bounds {ν : Type} {type : ν → FieldType}
    (layout : StructLayout ν type) (name : ν)
    : (layout.mkField name).beginAt.toNat = (layout.span name).start
      ∧ (layout.mkField name).endAt.toNat = (layout.span name).stop := by
  have fits := layout.fits name
  have low : (layout.span name).start < 2 ^ 16 :=
    Nat.lt_of_le_of_lt (Nat.le_add_right _ _) fits
  exact ⟨UInt16.toNat_ofNat_of_lt' low, UInt16.toNat_ofNat_of_lt' fits⟩

/-- A loaded byte of the cached record is the byte of the tuple it was loaded from. -/
theorem GeneralSchema.Coherent.toCached_byte (coherent : impl.Coherent)
    (padding record : Image Byte) {load : C × T} (member : load ∈ impl.loads) {offset : Nat}
    (small : offset < (tuple.span load.2).size)
    : (impl.schema padding).toCached record ((cached.span load.1).start + offset)
      = record ((tuple.span load.2).start + offset) := by
  have loaded : read ((impl.schema padding).toCached record) (cached.span load.1)
      = read record (tuple.span load.2) := coherent.read_toCached member
  obtain ⟨sizes, bytes⟩ := read_eq_read.mp loaded
  exact bytes offset (sizes ▸ small)

/-- A byte of the cached record that no member covers is padding. -/
theorem GeneralSchema.toCached_padding {index : Nat}
    (outside : ∀ load ∈ impl.loads, ¬ (cached.span load.1).Covers index)
    : (impl.schema padding).toCached record index = padding index := by
  refine copyAll_outside ?_
  intro move member
  obtain ⟨load, loaded, rfl⟩ := List.mem_map.mp member
  exact outside load loaded

/-- Every member moves by the same distance. -/
def GeneralSchema.Shifted (impl : GeneralSchema tuple cached) (shift : Nat) : Prop :=
  ∀ load ∈ impl.loads, (tuple.span load.2).start = (cached.span load.1).start + shift

instance (impl : GeneralSchema tuple cached) (shift : Nat) : Decidable (impl.Shifted shift) :=
  inferInstanceAs (Decidable (∀ load ∈ impl.loads, _))

/-- With all members moved by one distance, the range moved by it reads the same bytes for
all tuples exactly when all its bytes are cached.
-/
theorem GeneralSchema.Coherent.loaded_iff (coherent : impl.Coherent)
    (shifted : impl.Shifted shift) (moved : field.span.start = place.span.start + shift)
    (sizes : place.span.size = field.span.size)
    : (∀ padding record,
        read ((impl.schema padding).toCached record) place.span = read record field.span)
      ↔ impl.CachesAll field := by
  constructor
  · intro loaded index ⟨low, high⟩
    by_contra uncached
    -- An uncached byte of the range is padding in the cached record.
    obtain ⟨_, bytes⟩ := read_eq_read.mp (loaded (fun _ => 1) (fun _ => 0))
    unfold Span.stop at high
    have byte := bytes (index - field.span.start) (by omega)
    rw [GeneralSchema.toCached_padding] at byte
    · exact absurd byte (by decide)
    · rintro load member ⟨above, below⟩
      have start := shifted load member
      have same : (cached.span load.1).size = (tuple.span load.2).size := by
        rw [cached.sizes, tuple.sizes, coherent.loadsTyped load member]
      refine uncached ⟨load, member, ?_, ?_⟩ <;> unfold Span.stop at * <;> omega
  · intro all padding record
    rw [read_eq_read]
    refine ⟨sizes, ?_⟩
    intro index small
    obtain ⟨load, member, low, high⟩ := all (field.span.start + index)
      ⟨Nat.le_add_right _ _, by unfold Span.stop; omega⟩
    have start := shifted load member
    unfold Span.stop at high
    have offset : field.span.start + index - (tuple.span load.2).start
        < (tuple.span load.2).size := by omega
    have byte := coherent.toCached_byte padding record member offset
    have here : (cached.span load.1).start
        + (field.span.start + index - (tuple.span load.2).start) = place.span.start + index := by
      omega
    have there : (tuple.span load.2).start
        + (field.span.start + index - (tuple.span load.2).start) = field.span.start + index := by
      omega
    rwa [here, there] at byte

/-- A member that is translated to its place in the cached struct is served. -/
theorem GeneralSchema.Coherent.translates_of_hit (coherent : impl.Coherent) {load : C × T}
    (member : load ∈ impl.loads)
    (found : impl.toCachedField (tuple.mkField load.2) = some (cached.mkField load.1))
    (bound : (cached.span load.1).stop ≤ size)
    : Translates impl.schema impl.Caches size (tuple.mkField load.2) := by
  have sizes : (cached.span load.1).size = (tuple.span load.2).size := by
    rw [cached.sizes, tuple.sizes, coherent.loadsTyped load member]
  obtain ⟨low, high⟩ := cached.mkField_bounds load.1
  obtain ⟨tupleLow, tupleHigh⟩ := tuple.mkField_bounds load.2
  unfold Span.stop at *
  refine ⟨?_, ?_, ?_⟩
  · intro _ place same
    obtain rfl := Option.some.inj (found.symm.trans same)
    rw [UInt16.le_iff_toNat_le, low, high, tupleLow, tupleHigh]
    omega
  · intro padding place same record
    obtain rfl := Option.some.inj (found.symm.trans same)
    rw [tuple.span_mkField, cached.span_mkField]
    exact coherent.read_toCached member
  · exact fun _ missing => absurd (found.symm.trans missing) (by simp)

/-- A range that is not translated is served exactly when none of it is cached. -/
theorem GeneralSchema.translates_iff_of_miss (missing : impl.toCachedField field = none)
    : Translates impl.schema impl.Caches size field ↔ impl.CachesNone field := by
  have untranslated (place : Field) : impl.toCachedField field ≠ some place := by simp [missing]
  constructor
  · intro translates
    exact translates.fresh (fun _ => 0) missing
  · intro none
    refine ⟨?_, ?_, fun _ _ => none⟩
    · exact fun _ place found => absurd found (untranslated place)
    · exact fun _ place found => absurd found (untranslated place)

/-- Schemas that look at the first byte only: below `cut` a range is translated to itself,
from `cut` on it is not cached.
-/
theorem GeneralSchema.Coherent.translates_iff_of_cut (coherent : impl.Coherent)
    (shifted : impl.Shifted 0) {cut : Nat}
    (below : field.beginAt.toNat < cut → impl.toCachedField field = some field)
    (above : cut ≤ field.beginAt.toNat → impl.toCachedField field = none)
    (bound : ∀ load ∈ impl.loads, (tuple.span load.2).stop ≤ min cut size)
    (nonempty : field.beginAt < field.endAt)
    : Translates impl.schema impl.Caches size field
      ↔ cut ≤ field.beginAt.toNat ∨ impl.CachesAll field := by
  have ordered : field.beginAt ≤ field.endAt := UInt16.le_of_lt nonempty
  have stop := Field.span_stop ordered
  have bounds := UInt16.lt_iff_toNat_lt.mp nonempty
  have early {index : Nat} (caches : impl.Caches index) : index < min cut size := by
    obtain ⟨load, member, _, high⟩ := caches
    exact Nat.lt_of_lt_of_le high (bound load member)
  by_cases side : cut ≤ field.beginAt.toNat
  · refine iff_of_true (translates_iff_of_miss (above side) |>.mpr ?_) (.inl side)
    intro index covered caches
    exact absurd (Nat.le_trans side covered.1)
      (Nat.not_le_of_lt (Nat.lt_of_lt_of_le (early caches) (Nat.min_le_left _ _)))
  · have found := below (Nat.lt_of_not_le side)
    have loads := coherent.loaded_iff shifted (field.span.start.add_zero).symm rfl
    refine Iff.trans ⟨?_, ?_⟩ (or_iff_right side).symm
    · intro translates
      exact loads.mp (fun padding => translates.loaded padding field found)
    · intro all
      refine ⟨?_, ?_, ?_⟩
      · intro _ place same
        obtain rfl := Option.some.inj (found.symm.trans same)
        -- The last byte is cached, so it lies within the cached struct.
        have last : field.span.Covers (field.endAt.toNat - 1) :=
          ⟨Nat.le_sub_one_of_lt bounds, by omega⟩
        have inside := early (all _ last)
        exact ⟨ordered, rfl, by omega⟩
      · intro padding place same
        obtain rfl := Option.some.inj (found.symm.trans same)
        exact loads.mpr all padding
      · exact fun _ missing => absurd (found.symm.trans missing) (by simp)

/-- Schemas that compare the range with declared fields. -/
theorem GeneralSchema.Coherent.translates_iff_of_compare (coherent : impl.Coherent)
    (hit : ∀ load ∈ impl.loads,
      impl.toCachedField (tuple.mkField load.2) = some (cached.mkField load.1))
    (miss : ¬ impl.Loads field → impl.toCachedField field = none)
    (bound : ∀ name, (cached.span name).stop ≤ size)
    : Translates impl.schema impl.Caches size field
      ↔ impl.Loads field ∨ impl.CachesNone field := by
  by_cases loads : impl.Loads field
  · refine iff_of_true ?_ (.inl loads)
    obtain ⟨load, member, rfl⟩ := loads
    exact coherent.translates_of_hit member (hit load member) (bound load.1)
  · rw [or_iff_right loads]
    exact translates_iff_of_miss (miss loads)

end General

/-! ### The schemas of the benchmark -/

section Schemas

/-- `size_of` a `repr(C)` struct: its members, padded to its alignment. -/
def structSize {ν : Type} [DecidableEq ν] (order : List ν) (type : ν → FieldType) : Nat :=
  alignUp
    ((order.map (fun name => (reprC (fun name => (type name).size)
      (fun name => (type name).align) order name).stop)).foldl max 0)
    ((order.map (fun name => (type name).align)).foldl max 1)

/-- `size_of` the tuple. -/
def TpccSchema.tupleSize : TpccSchema → Nat
  | .warehouseCached _ | .warehouseTuple => structSize WarehouseField.order WarehouseField.type
  | .districtCached _ | .districtTuple => structSize DistrictField.order DistrictField.type
  | .customerCachedWrite _ | .customerTuple | .customerCachedRead =>
      structSize CustomerField.order CustomerField.type
  | .itemTuple | .itemCached => structSize ItemField.order ItemField.type
  | .orderCached | .orderTuple => structSize OrderField.order OrderField.type
  | .orderLineCached | .orderLineTuple => structSize OrderLineField.order OrderLineField.type
  | .stockTuple | .stockCached => structSize StockField.order StockField.type

/-- The number can be `size_of` the cached struct. For a struct without a `repr` all that is
known is that it holds its members.
-/
def TpccSchema.CachedSize : TpccSchema → Nat → Prop
  | .warehouseCached cached, size | .districtCached cached, size =>
      ∀ name, (cached.span name).stop ≤ size
  | .customerCachedWrite cached, size => ∀ name, (cached.span name).stop ≤ size
  | .warehouseTuple, size => size = structSize WarehouseField.order WarehouseField.type
  | .districtTuple, size => size = structSize DistrictField.order DistrictField.type
  | .customerTuple, size => size = structSize CustomerField.order CustomerField.type
  | .customerCachedRead, size =>
      size = structSize CustomerReadField.order CustomerReadField.type
  | .itemTuple, size => size = structSize ItemField.order ItemField.type
  | .itemCached, size => size = structSize ItemCachedField.order ItemCachedField.type
  | .orderCached, size => size = structSize OrderCachedField.order OrderCachedField.type
  | .orderTuple, size => size = structSize OrderField.order OrderField.type
  | .orderLineCached, size =>
      size = structSize OrderLineCachedField.order OrderLineCachedField.type
  | .orderLineTuple, size => size = structSize OrderLineField.order OrderLineField.type
  | .stockTuple, size => size = structSize StockField.order StockField.type
  | .stockCached, size => size = structSize StockCachedField.order StockCachedField.type

/-- The byte of the tuple is one that the schema caches. -/
def TpccSchema.Caches : TpccSchema → Nat → Prop
  | .warehouseCached cached => (Tpcc.warehouseCached cached).Caches
  | .warehouseTuple => (wholeTuple Tpcc.warehouseTuple WarehouseField.order).Caches
  | .districtCached cached => (Tpcc.districtCached cached).Caches
  | .districtTuple => (wholeTuple Tpcc.districtTuple DistrictField.order).Caches
  | .customerCachedWrite cached => (Tpcc.customerCachedWrite cached).Caches
  | .customerTuple => (wholeTuple Tpcc.customerTuple CustomerField.order).Caches
  | .customerCachedRead => Tpcc.customerCachedRead.Caches
  | .itemTuple => (wholeTuple Tpcc.itemTuple ItemField.order).Caches
  | .itemCached => Tpcc.itemCached.Caches
  | .orderCached => Tpcc.orderCached.Caches
  | .orderTuple => (wholeTuple Tpcc.orderTuple OrderField.order).Caches
  | .orderLineCached => Tpcc.orderLineCached.Caches
  | .orderLineTuple => (wholeTuple Tpcc.orderLineTuple OrderLineField.order).Caches
  | .stockTuple => (wholeTuple Tpcc.stockTuple StockField.order).Caches
  | .stockCached => Tpcc.stockCached.Caches

/-- The ranges that a schema handles, by how its `to_cached_field` decides. -/
def TpccSchema.Handles : TpccSchema → Field → Prop
  -- Comparison with the cached fields.
  | .warehouseCached cached, field =>
      (Tpcc.warehouseCached cached).Loads field ∨ (Tpcc.warehouseCached cached).CachesNone field
  | .districtCached cached, field =>
      (Tpcc.districtCached cached).Loads field ∨ (Tpcc.districtCached cached).CachesNone field
  | .customerCachedWrite cached, field =>
      (Tpcc.customerCachedWrite cached).Loads field
      ∨ (Tpcc.customerCachedWrite cached).CachesNone field
  -- Everything is cached, except padding.
  | .warehouseTuple, field =>
      (wholeTuple Tpcc.warehouseTuple WarehouseField.order).CachesAll field
  | .districtTuple, field =>
      (wholeTuple Tpcc.districtTuple DistrictField.order).CachesAll field
  | .customerTuple, field =>
      (wholeTuple Tpcc.customerTuple CustomerField.order).CachesAll field
  | .itemTuple, field => (wholeTuple Tpcc.itemTuple ItemField.order).CachesAll field
  | .orderTuple, field => (wholeTuple Tpcc.orderTuple OrderField.order).CachesAll field
  | .orderLineTuple, field =>
      (wholeTuple Tpcc.orderLineTuple OrderLineField.order).CachesAll field
  | .stockTuple, field => (wholeTuple Tpcc.stockTuple StockField.order).CachesAll field
  -- A cut-off, which the range must not straddle.
  | .customerCachedRead, field =>
      Tpcc.customerTuple.offsetOf .cWId ≤ field.beginAt.toNat
      ∨ Tpcc.customerCachedRead.CachesAll field
  | .orderCached, field =>
      Tpcc.orderTuple.offsetOf .oDId ≤ field.beginAt.toNat ∨ Tpcc.orderCached.CachesAll field
  | .orderLineCached, field =>
      Tpcc.orderLineTuple.offsetOf .olNumber ≤ field.beginAt.toNat
      ∨ Tpcc.orderLineCached.CachesAll field
  | .itemCached, field =>
      field.endAt.toNat ≤ Tpcc.itemTuple.offsetOf .iPrice ∨ Tpcc.itemCached.CachesAll field
  -- Both.
  | .stockCached, field =>
      field = Tpcc.stockTuple.mkField .sDist10
      ∨ field.endAt.toNat ≤ Tpcc.stockTuple.offsetOf .sDist01
      ∨ (Tpcc.stockTuple.offsetOf .sDist01 ≤ field.beginAt.toNat
        ∧ field.endAt.toNat ≤ Tpcc.stockTuple.offsetOf .sDist10)

/-- Caching the whole tuple serves the ranges without padding. -/
theorem wholeTuple_translates_iff {T : Type} {type : T → FieldType} {tuple : StructLayout T type}
    {order : List T} {size : Nat} {field : Field} (distinct : order.Nodup)
    (bound : ∀ name ∈ order, (tuple.span name).stop ≤ min (2 ^ 16) size)
    (nonempty : field.beginAt < field.endAt)
    : Translates (wholeTuple tuple order).schema (wholeTuple tuple order).Caches size field
      ↔ (wholeTuple tuple order).CachesAll field := by
  have small : ¬ 2 ^ 16 ≤ field.beginAt.toNat := Nat.not_le_of_lt field.beginAt.toNat_lt
  refine ((wholeTuple_coherent distinct).translates_iff_of_cut ?_ (fun _ => rfl)
    (fun large => absurd large small) ?_ nonempty).trans (or_iff_right small)
  · intro load member
    obtain ⟨name, _, rfl⟩ := List.mem_map.mp member
    rfl
  · intro load member
    obtain ⟨name, listed, rfl⟩ := List.mem_map.mp member
    exact bound name listed

/-- The one-field schemas serve their field and the ranges outside of it. -/
theorem ytdCached_translates_iff {T : Type} {type : T → FieldType} {tuple : StructLayout T type}
    {ytd : T} {cached : StructLayout YtdField YtdField.type} {size : Nat} {field : Field}
    (typed : type ytd = .f64) (bound : ∀ name, (cached.span name).stop ≤ size)
    : Translates (ytdCached tuple ytd cached).schema (ytdCached tuple ytd cached).Caches size field
      ↔ (ytdCached tuple ytd cached).Loads field
        ∨ (ytdCached tuple ytd cached).CachesNone field := by
  refine (ytdCached_coherent typed).translates_iff_of_compare ?_ ?_ bound
  · intro load member
    obtain rfl : load = (.ytd, ytd) := by simpa [ytdCached] using member
    exact if_pos rfl
  · intro other
    refine if_neg ?_
    rintro rfl
    exact other ⟨(.ytd, ytd), by simp [ytdCached], rfl⟩

theorem customerCachedWrite_coherent
    (cached : StructLayout CustomerWriteField CustomerWriteField.type)
    : (customerCachedWrite cached).Coherent := by
  constructor <;> simp [customerCachedWrite, CustomerWriteField.type, CustomerField.type]

/-- `CustomerCachedWrite` serves its three fields and the ranges outside of them. -/
theorem customerCachedWrite_translates_iff
    {cached : StructLayout CustomerWriteField CustomerWriteField.type} {size : Nat} {field : Field}
    (bound : ∀ name, (cached.span name).stop ≤ size)
    : Translates (customerCachedWrite cached).schema (customerCachedWrite cached).Caches size field
      ↔ (customerCachedWrite cached).Loads field
        ∨ (customerCachedWrite cached).CachesNone field := by
  refine (customerCachedWrite_coherent cached).translates_iff_of_compare ?_ ?_ bound
  · have apart : customerTuple.mkField .cBalance ≠ customerTuple.mkField .cYtdPayment
        ∧ customerTuple.mkField .cBalance ≠ customerTuple.mkField .cPaymentCnt
        ∧ customerTuple.mkField .cYtdPayment ≠ customerTuple.mkField .cPaymentCnt := by decide
    simp [customerCachedWrite, apart]
  · intro other
    have different (name : CustomerField)
        (listed : ∃ load ∈ (customerCachedWrite cached).loads, load.2 = name)
        : customerTuple.mkField name ≠ field := by
      obtain ⟨load, member, rfl⟩ := listed
      exact fun same => other ⟨load, member, same.symm⟩
    have balance := different .cBalance (by simp [customerCachedWrite])
    have ytdPayment := different .cYtdPayment (by simp [customerCachedWrite])
    have paymentCnt := different .cPaymentCnt (by simp [customerCachedWrite])
    simp [customerCachedWrite, balance, ytdPayment, paymentCnt]

/-- The translation by a cut-off, seen from either side of it. -/
theorem prefixField_below {cut : Nat} {field : Field} (below : field.beginAt.toNat < cut)
    : prefixField cut field = some field :=
  if_neg (Nat.not_le_of_lt below)

theorem prefixField_above {cut : Nat} {field : Field} (above : cut ≤ field.beginAt.toNat)
    : prefixField cut field = none :=
  if_pos above

/-- `ItemCached` holds the members from `i_price` on. -/
theorem itemCached_caches_iff {index : Nat}
    : itemCached.Caches index ↔ 16 ≤ index ∧ index < 98 := by
  have price : itemTuple.span .iPrice = ⟨16, 8⟩ := by decide
  have name : itemTuple.span .iName = ⟨24, 24⟩ := by decide
  have data : itemTuple.span .iData = ⟨48, 50⟩ := by decide
  simp only [GeneralSchema.Caches, itemCached, List.mem_cons, List.not_mem_nil, or_false,
    exists_eq_or_imp, exists_eq_left, price, name, data, Span.Covers, Span.stop]
  omega

/-- `ItemCached` serves the ranges that end where it begins and those that lie in it. -/
theorem itemCached_translates_iff {field : Field} (nonempty : field.beginAt < field.endAt)
    : Translates itemCached.schema itemCached.Caches
        (structSize ItemCachedField.order ItemCachedField.type) field
      ↔ field.endAt.toNat ≤ itemTuple.offsetOf .iPrice ∨ itemCached.CachesAll field := by
  have start : itemTuple.offsetOf .iPrice = 16 := by decide
  have width : structSize ItemCachedField.order ItemCachedField.type = 88 := by decide
  have stop := Field.span_stop (UInt16.le_of_lt nonempty)
  have bounds := UInt16.lt_iff_toNat_lt.mp nonempty
  have first : field.span.Covers field.beginAt.toNat := ⟨Nat.le_refl _, by omega⟩
  rw [start, width]
  by_cases side : field.beginAt.toNat < 16
  · refine (GeneralSchema.translates_iff_of_miss (if_pos (start ▸ side))).trans ?_
    constructor
    · intro none
      refine .inl (Nat.le_of_not_lt fun straddles => ?_)
      exact none 16 ⟨Nat.le_of_lt side, by omega⟩ (itemCached_caches_iff.mpr (by omega))
    · intro handled index covered caches
      have cached := itemCached_caches_iff.mp caches
      have high := covered.2
      rcases handled with before | all
      · omega
      · have begins := itemCached_caches_iff.mp (all _ first)
        omega
  · let place : Field := ⟨field.beginAt - 16, field.endAt - 16⟩
    have found : itemCached.toCachedField field = some place := if_neg (start ▸ side)
    have low : place.beginAt.toNat = field.beginAt.toNat - 16 :=
      UInt16.toNat_sub_of_le _ _ (UInt16.le_iff_toNat_le.mpr (Nat.le_of_not_lt side))
    have high : place.endAt.toNat = field.endAt.toNat - 16 :=
      UInt16.toNat_sub_of_le _ _ (UInt16.le_iff_toNat_le.mpr (by change 16 ≤ _; omega))
    have ordered : place.beginAt ≤ place.endAt := by
      rw [UInt16.le_iff_toNat_le]
      omega
    have coherent : itemCached.Coherent := by constructor <;> decide
    have shifted : itemCached.Shifted 16 := by decide
    have placeStop := Field.span_stop ordered
    have moved : field.span.start = place.span.start + 16 := by
      change field.beginAt.toNat = place.beginAt.toNat + 16
      omega
    have sizes : place.span.size = field.span.size := by
      unfold Span.stop at stop placeStop
      omega
    have loads := coherent.loaded_iff shifted moved sizes
    rw [or_iff_right (by omega)]
    constructor
    · intro translates
      exact loads.mp (fun padding => translates.loaded padding place found)
    · intro all
      have last : field.span.Covers (field.endAt.toNat - 1) :=
        ⟨Nat.le_sub_one_of_lt bounds, by omega⟩
      have inside := itemCached_caches_iff.mp (all _ last)
      refine ⟨?_, ?_, ?_⟩
      · intro _ other same
        obtain rfl := Option.some.inj (found.symm.trans same)
        exact ⟨ordered, by omega, by omega⟩
      · intro padding other same
        obtain rfl := Option.some.inj (found.symm.trans same)
        exact loads.mpr all padding
      · exact fun _ missing => absurd (found.symm.trans missing) (by simp)

/-- `StockCached` holds the members before `s_dist01`, and `s_dist10`. -/
theorem stockCached_caches_iff {index : Nat}
    : stockCached.Caches index ↔ index < 72 ∨ (288 ≤ index ∧ index < 312) := by
  have item : stockTuple.span .sIId = ⟨0, 8⟩ := by decide
  have warehouse : stockTuple.span .sWId = ⟨8, 8⟩ := by decide
  have quantity : stockTuple.span .sQuantity = ⟨16, 8⟩ := by decide
  have ytd : stockTuple.span .sYtd = ⟨24, 8⟩ := by decide
  have orders : stockTuple.span .sOrderCnt = ⟨32, 8⟩ := by decide
  have remote : stockTuple.span .sRemoteCnt = ⟨40, 8⟩ := by decide
  have data : stockTuple.span .sData = ⟨48, 24⟩ := by decide
  have dist : stockTuple.span .sDist10 = ⟨288, 24⟩ := by decide
  simp only [GeneralSchema.Caches, stockCached, List.mem_cons, List.not_mem_nil, or_false,
    exists_eq_or_imp, exists_eq_left, item, warehouse, quantity, ytd, orders, remote, data, dist,
    Span.Covers, Span.stop]
  omega

theorem stockCached_coherent : stockCached.Coherent := by
  constructor <;> decide

/-- The first 72 bytes of a stock tuple stay in their places. -/
theorem stockCached_byte (padding record : Image Byte) {index : Nat} (low : index < 72)
    : (stockCached.schema padding).toCached record index = record index := by
  have placed : ∀ load ∈ stockCached.loads, (stockTuple.span load.2).start < 72
      → (stockCachedLayout.span load.1).start = (stockTuple.span load.2).start := by decide
  obtain ⟨load, member, above, below⟩ := stockCached_caches_iff.mpr (.inl low)
  unfold Span.stop at below
  have offset : index - (stockTuple.span load.2).start < (stockTuple.span load.2).size := by omega
  have byte := stockCached_coherent.toCached_byte padding record member offset
  rwa [placed load member (by omega), Nat.add_sub_cancel' above] at byte

/-- What follows them in the cached record is `s_dist10`. -/
theorem stockCached_byte_after (padding record : Image Byte)
    : (stockCached.schema padding).toCached record 72 = record 288 := by
  have member : (.sDist10, .sDist10) ∈ stockCached.loads := by decide
  have offset : 0 < (stockTuple.span .sDist10).size := by decide
  exact stockCached_coherent.toCached_byte padding record member offset

/-- `StockCached` serves `s_dist10`, the ranges before `s_dist01`, and those between. -/
theorem stockCached_translates_iff {field : Field} (nonempty : field.beginAt < field.endAt)
    (inside : field.endAt.toNat ≤ structSize StockField.order StockField.type)
    : Translates stockCached.schema stockCached.Caches
        (structSize StockCachedField.order StockCachedField.type) field
      ↔ field = stockTuple.mkField .sDist10
        ∨ field.endAt.toNat ≤ stockTuple.offsetOf .sDist01
        ∨ (stockTuple.offsetOf .sDist01 ≤ field.beginAt.toNat
          ∧ field.endAt.toNat ≤ stockTuple.offsetOf .sDist10) := by
  have dist01 : stockTuple.offsetOf .sDist01 = 72 := by decide
  have dist10 : stockTuple.offsetOf .sDist10 = 288 := by decide
  have length : structSize StockField.order StockField.type = 312 := by decide
  have width : structSize StockCachedField.order StockCachedField.type = 96 := by decide
  have ordered : field.beginAt ≤ field.endAt := UInt16.le_of_lt nonempty
  have stop := Field.span_stop ordered
  have bounds := UInt16.lt_iff_toNat_lt.mp nonempty
  rw [dist01, dist10, width]
  rw [length] at inside
  by_cases dist : field = stockTuple.mkField .sDist10
  · subst dist
    refine iff_of_true ?_ (.inl rfl)
    have member : (.sDist10, .sDist10) ∈ stockCached.loads := by decide
    exact stockCached_coherent.translates_of_hit member (by decide) (by decide)
  rw [or_iff_right dist]
  by_cases side : 72 ≤ field.beginAt.toNat
  · have missing : stockCached.toCachedField field = none :=
      (if_neg dist).trans (prefixField_above (dist01 ▸ side))
    refine (GeneralSchema.translates_iff_of_miss missing).trans ?_
    constructor
    · intro none
      refine .inr ⟨side, Nat.le_of_not_lt fun reaches => ?_⟩
      refine none (max field.beginAt.toNat 288) ⟨Nat.le_max_left _ _, by omega⟩ ?_
      exact stockCached_caches_iff.mpr (.inr (by omega))
    · intro handled index covered caches
      have low : field.beginAt.toNat ≤ index := covered.1
      have high := covered.2
      have cached := stockCached_caches_iff.mp caches
      omega
  · have found : stockCached.toCachedField field = some field :=
      (if_neg dist).trans (prefixField_below (dist01 ▸ Nat.lt_of_not_le side))
    constructor
    · intro translates
      refine .inl (Nat.le_of_not_lt fun straddles => ?_)
      -- Byte 72 is the first of `s_dist01` in the tuple and of `s_dist10` in the cached record.
      have same := translates.loaded (fun _ => 0) field found
        (fun index => if index = 72 then 1 else 0)
      have whole : field.beginAt.toNat + field.span.size = field.endAt.toNat := stop
      have byte := (read_eq_read.mp same).2 (72 - field.beginAt.toNat) (by omega)
      have here : field.span.start + (72 - field.beginAt.toNat) = 72 :=
        Nat.add_sub_cancel' (Nat.le_of_not_le side)
      rw [here, stockCached_byte_after] at byte
      exact absurd byte (by decide)
    · intro handled
      have before : field.endAt.toNat ≤ 72 := by omega
      refine ⟨?_, ?_, ?_⟩
      · intro _ place same
        obtain rfl := Option.some.inj (found.symm.trans same)
        exact ⟨ordered, rfl, by omega⟩
      · intro padding place same record
        obtain rfl := Option.some.inj (found.symm.trans same)
        refine read_congr ?_
        intro index _ high
        exact stockCached_byte padding record (by omega)
      · exact fun _ missing => absurd (found.symm.trans missing) (by simp)

/-- `to_cached_field` serves a range exactly when the schema handles it: in each schema, a
range that is cached in part, or padding in part, is translated wrongly.
-/
theorem tpcc_translates_iff (schema : TpccSchema) (size : Nat) (sized : schema.CachedSize size)
    (field : Field) (nonempty : field.beginAt < field.endAt)
    (inside : field.endAt.toNat ≤ schema.tupleSize)
    : Translates schema.schema schema.Caches size field ↔ schema.Handles field := by
  cases schema with
  | warehouseCached cached => exact ytdCached_translates_iff rfl sized
  | districtCached cached => exact ytdCached_translates_iff rfl sized
  | customerCachedWrite cached => exact customerCachedWrite_translates_iff sized
  | warehouseTuple =>
      subst sized
      exact wholeTuple_translates_iff (by decide) (by decide) nonempty
  | districtTuple =>
      subst sized
      exact wholeTuple_translates_iff (by decide) (by decide) nonempty
  | customerTuple =>
      subst sized
      exact wholeTuple_translates_iff (by decide) (by decide) nonempty
  | itemTuple =>
      subst sized
      exact wholeTuple_translates_iff (by decide) (by decide) nonempty
  | orderTuple =>
      subst sized
      exact wholeTuple_translates_iff (by decide) (by decide) nonempty
  | orderLineTuple =>
      subst sized
      exact wholeTuple_translates_iff (by decide) (by decide) nonempty
  | stockTuple =>
      subst sized
      exact wholeTuple_translates_iff (by decide) (by decide) nonempty
  | customerCachedRead =>
      subst sized
      have coherent : Tpcc.customerCachedRead.Coherent := by constructor <;> decide
      exact coherent.translates_iff_of_cut (by decide) prefixField_below prefixField_above
        (by decide) nonempty
  | orderCached =>
      subst sized
      have coherent : Tpcc.orderCached.Coherent := by constructor <;> decide
      exact coherent.translates_iff_of_cut (by decide) prefixField_below prefixField_above
        (by decide) nonempty
  | orderLineCached =>
      subst sized
      have coherent : Tpcc.orderLineCached.Coherent := by constructor <;> decide
      exact coherent.translates_iff_of_cut (by decide) prefixField_below prefixField_above
        (by decide) nonempty
  | itemCached =>
      subst sized
      exact itemCached_translates_iff nonempty
  | stockCached =>
      subst sized
      exact stockCached_translates_iff nonempty inside

/-- The range from `o_carrier_id` to the end of `o_d_id` lies within an order, and is
translated to bytes past the end of the cached record.
-/
theorem orderCached_reads_past_record
    : ¬ ∀ (schema : TpccSchema) (size : Nat), schema.CachedSize size
        → ∀ field : Field, field.beginAt < field.endAt → field.endAt.toNat ≤ schema.tupleSize
        → Translates schema.schema schema.Caches size field := by
  intro all
  have translates := all .orderCached _ rfl ⟨24, 40⟩ (by decide) (by decide)
  have within := translates.within (fun _ => 0) ⟨24, 40⟩ (by decide)
  exact absurd within.2.2 (by decide)

/-- The range from `s_w_id` to the end of `s_order_cnt` is served. -/
theorem tpcc_translates_iff_stock
    : Translates TpccSchema.stockCached.schema TpccSchema.stockCached.Caches 96 ⟨8, 40⟩ :=
  (tpcc_translates_iff .stockCached 96 (by change 96 = _; decide) ⟨8, 40⟩ (by decide)
    (by decide)).mpr (.inr (.inl (by decide)))

end Schemas

end Alchemy.Tpcc
