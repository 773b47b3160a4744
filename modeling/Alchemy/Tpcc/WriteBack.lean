import Alchemy.Tpcc.Schemas

/-! Whether an eviction loses a write.
A schema keeps the cache's law for a declared field when the assignments of `to_cached` and
of `write_back` both connect the field with the place `to_cached_field` gives for it. All
schemas of the benchmark do, except `StockCached` for the three fields that its
`write_back` leaves out.
-/

namespace Alchemy.Tpcc

open ByteImage Cache

section General

variable {T C : Type} {tupleType : T → FieldType} {cachedType : C → FieldType}
  {tuple : StructLayout T tupleType} {cached : StructLayout C cachedType}
  {impl : GeneralSchema tuple cached} {padding record field : Image Byte} {name : T} {place : C}

/-- Assignments connect members of one type, and assign no member twice. -/
structure GeneralSchema.Coherent (impl : GeneralSchema tuple cached) : Prop where
  loadsTyped : ∀ load ∈ impl.loads, cachedType load.1 = tupleType load.2
  storesTyped : ∀ store ∈ impl.stores, tupleType store.1 = cachedType store.2
  loadsDistinct : (impl.loads.map Prod.fst).Nodup
  storesDistinct : (impl.stores.map Prod.fst).Nodup

/-- Assignments to distinct members write disjoint spans. -/
theorem spans_pairwise {ν μ : Type} {type : ν → FieldType} (layout : StructLayout ν type)
    (origin : μ → Span) {moves : List (ν × μ)} (distinct : (moves.map Prod.fst).Nodup)
    : (moves.map (fun move => (layout.span move.1, origin move.2))).Pairwise
        (fun first second => first.1.Disjoint second.1) := by
  rw [List.Nodup, List.pairwise_map] at distinct
  rw [List.pairwise_map]
  exact distinct.imp (fun different => layout.apart _ _ different)

theorem GeneralSchema.Coherent.read_toCached (coherent : impl.Coherent)
    (load : (place, name) ∈ impl.loads)
    : read ((impl.schema padding).toCached record) (cached.span place)
      = read record (tuple.span name) := by
  have sizes : (cached.span place).size = (tuple.span name).size := by
    rw [cached.sizes, tuple.sizes, coherent.loadsTyped _ load]
  exact read_copyAll_mem (spans_pairwise cached tuple.span coherent.loadsDistinct) sizes
    (List.mem_map.mpr ⟨(place, name), load, rfl⟩)

theorem GeneralSchema.Coherent.read_writeBack (coherent : impl.Coherent)
    (store : (name, place) ∈ impl.stores)
    : read ((impl.schema padding).writeBack field record) (tuple.span name)
      = read field (cached.span place) := by
  have sizes : (tuple.span name).size = (cached.span place).size := by
    rw [cached.sizes, tuple.sizes, coherent.storesTyped _ store]
  exact read_copyAll_mem (spans_pairwise tuple cached.span coherent.storesDistinct) sizes
    (List.mem_map.mpr ⟨(name, place), store, rfl⟩)

theorem GeneralSchema.read_writeBack_other (unassigned : name ∉ impl.stores.map Prod.fst)
    : read ((impl.schema padding).writeBack field record) (tuple.span name)
      = read record (tuple.span name) := by
  refine read_copyAll_disjoint ?_
  intro move member
  obtain ⟨store, assigned, rfl⟩ := List.mem_map.mp member
  refine tuple.apart store.1 name ?_
  rintro rfl
  exact unassigned (List.mem_map_of_mem assigned)

/-- The three tables of the schema agree on the field. -/
def GeneralSchema.Handles [DecidableEq T] (impl : GeneralSchema tuple cached) (name : T) : Prop :=
  match impl.toCachedField (tuple.mkField name) with
  | none => name ∉ impl.stores.map Prod.fst
  | some translated =>
      ∃ load ∈ impl.loads,
        load.2 = name ∧ translated = cached.mkField load.1 ∧ (name, load.1) ∈ impl.stores

instance [DecidableEq T] [DecidableEq C] (impl : GeneralSchema tuple cached) (name : T)
    : Decidable (impl.Handles name) := by
  unfold GeneralSchema.Handles
  split <;> infer_instance

/-- A field on which the tables agree satisfies the law for all tuples and records. -/
theorem GeneralSchema.Coherent.fieldLaw [DecidableEq T] (coherent : impl.Coherent)
    (handles : impl.Handles name)
    : (impl.schema padding).FieldLaw (tuple.mkField name) record field := by
  unfold GeneralSchema.Handles at handles
  cases found : impl.toCachedField (tuple.mkField name) with
  | none =>
      rw [found] at handles
      refine ⟨fun _ some => ?_, fun _ some => ?_, fun _ => ?_⟩
      · exact absurd (found.symm.trans some) (by simp)
      · exact absurd (found.symm.trans some) (by simp)
      · rw [tuple.span_mkField]
        exact read_writeBack_other handles
  | some translated =>
      rw [found] at handles
      obtain ⟨⟨place, _⟩, load, rfl, rfl, store⟩ := handles
      refine ⟨?_, ?_, fun none => absurd (found.symm.trans none) (by simp)⟩
      · intro translated same
        obtain rfl := Option.some.inj (found.symm.trans same)
        rw [tuple.span_mkField, cached.span_mkField]
        exact coherent.read_toCached load
      · intro translated same
        obtain rfl := Option.some.inj (found.symm.trans same)
        rw [tuple.span_mkField, cached.span_mkField]
        exact coherent.read_writeBack store

/-- A cached field that `write_back` leaves out satisfies the law only for a record that
still agrees with the tuple.
-/
theorem GeneralSchema.Coherent.fieldLaw_iff_of_dropped (coherent : impl.Coherent)
    (load : (place, name) ∈ impl.loads) (dropped : name ∉ impl.stores.map Prod.fst)
    (translated : impl.toCachedField (tuple.mkField name) = some (cached.mkField place))
    : (impl.schema padding).FieldLaw (tuple.mkField name) record field
      ↔ read field (cached.mkField place).span = read record (tuple.mkField name).span := by
  have kept : read ((impl.schema padding).writeBack field record) (tuple.mkField name).span
      = read record (tuple.mkField name).span := by
    rw [tuple.span_mkField]
    exact read_writeBack_other dropped
  constructor
  · intro law
    exact (law.stored _ translated).symm.trans kept
  · intro agrees
    refine ⟨?_, ?_, fun none => absurd (translated.symm.trans none) (by simp)⟩
    · intro other same
      obtain rfl := Option.some.inj (translated.symm.trans same)
      rw [tuple.span_mkField, cached.span_mkField]
      exact coherent.read_toCached load
    · intro other same
      obtain rfl := Option.some.inj (translated.symm.trans same)
      exact kept.trans agrees.symm

/-- Caching the whole tuple handles every field. -/
theorem wholeTuple_coherent {order : List T} (distinct : order.Nodup)
    : (wholeTuple tuple order).Coherent where
  loadsTyped := by simp [wholeTuple]
  storesTyped := by simp [wholeTuple]
  loadsDistinct := by simpa [wholeTuple, Function.comp_def] using distinct
  storesDistinct := by simpa [wholeTuple, Function.comp_def] using distinct

theorem wholeTuple_handles [DecidableEq T] {order : List T} (declared : name ∈ order)
    : (wholeTuple tuple order).Handles name := by
  refine ⟨(name, name), ?_, rfl, rfl, ?_⟩ <;>
    exact List.mem_map.mpr ⟨name, declared, rfl⟩

end General

/-! ### The schemas of the benchmark -/

section Schemas

theorem ytdCached_coherent {T : Type} {type : T → FieldType} {tuple : StructLayout T type}
    {ytd : T} {cached : StructLayout YtdField YtdField.type} (typed : type ytd = .f64)
    : (ytdCached tuple ytd cached).Coherent where
  loadsTyped := by simp [ytdCached, YtdField.type, typed]
  storesTyped := by simp [ytdCached, YtdField.type, typed]
  loadsDistinct := by simp [ytdCached]
  storesDistinct := by simp [ytdCached]

/-- A field that is not the cached one has another range, so it is not mistaken for it. -/
theorem ytdCached_handles {T : Type} [DecidableEq T] {type : T → FieldType}
    {tuple : StructLayout T type} {ytd name : T} {cached : StructLayout YtdField YtdField.type}
    (apart : tuple.mkField ytd = tuple.mkField name → ytd = name)
    : (ytdCached tuple ytd cached).Handles name := by
  by_cases same : ytd = name
  · subst same
    simp [GeneralSchema.Handles, ytdCached]
  · have different : tuple.mkField ytd ≠ tuple.mkField name := fun equal => same (apart equal)
    simp [GeneralSchema.Handles, ytdCached, different, Ne.symm same]

theorem customerCachedWrite_handles
    (cached : StructLayout CustomerWriteField CustomerWriteField.type) (name : CustomerField)
    : (customerCachedWrite cached).Handles name := by
  have balance (other : CustomerField) : customerTuple.mkField .cBalance = customerTuple.mkField other
      ↔ other = .cBalance := by cases other <;> decide
  have ytdPayment (other : CustomerField)
      : customerTuple.mkField .cYtdPayment = customerTuple.mkField other
        ↔ other = .cYtdPayment := by cases other <;> decide
  have paymentCnt (other : CustomerField)
      : customerTuple.mkField .cPaymentCnt = customerTuple.mkField other
        ↔ other = .cPaymentCnt := by cases other <;> decide
  cases name <;>
    simp [GeneralSchema.Handles, customerCachedWrite, balance, ytdPayment, paymentCnt]

theorem customerCachedRead_handles (name : CustomerField) : customerCachedRead.Handles name := by
  cases name <;> decide

theorem itemCached_handles (name : ItemField) : itemCached.Handles name := by
  cases name <;> decide

theorem orderCached_handles (name : OrderField) : orderCached.Handles name := by
  cases name <;> decide

theorem orderLineCached_handles (name : OrderLineField) : orderLineCached.Handles name := by
  cases name <;> decide

/-- The fields that `StockCached` caches but does not write back. -/
def StockField.Dropped (name : StockField) : Prop :=
  name = .sIId ∨ name = .sWId ∨ name = .sDist10

instance (name : StockField) : Decidable name.Dropped :=
  inferInstanceAs (Decidable (_ ∨ _ ∨ _))

theorem stockCached_handles {name : StockField} (kept : ¬ name.Dropped)
    : stockCached.Handles name := by
  revert kept
  cases name <;> decide

theorem stockCached_dropped {name : StockField} (dropped : name.Dropped)
    : ∃ place, (place, name) ∈ stockCached.loads
      ∧ name ∉ stockCached.stores.map Prod.fst
      ∧ stockCached.toCachedField (stockTuple.mkField name)
        = some (stockCachedLayout.mkField place) := by
  rcases dropped with rfl | rfl | rfl
  · exact ⟨.sIId, by decide⟩
  · exact ⟨.sWId, by decide⟩
  · exact ⟨.sDist10, by decide⟩

/-- The fields that an implementation caches but does not write back. -/
def TpccSchema.Dropped : (schema : TpccSchema) → schema.TupleField → Prop
  | .stockCached => StockField.Dropped
  | .warehouseCached _ | .warehouseTuple | .districtCached _ | .districtTuple
  | .customerCachedWrite _ | .customerTuple | .customerCachedRead | .itemTuple | .itemCached
  | .orderCached | .orderTuple | .orderLineCached | .orderLineTuple | .stockTuple =>
      fun _ => False

/-- Every implementation but `StockCached` satisfies the law for every declared field. -/
theorem TpccSchema.fieldLaw_of_kept (schema : TpccSchema) {name : schema.TupleField}
    {padding record field : Image Byte} (kept : ¬ schema.Dropped name)
    : (schema.schema padding).FieldLaw (schema.mkField name) record field := by
  cases schema with
  | warehouseCached cached =>
      exact (ytdCached_coherent rfl).fieldLaw
        (ytdCached_handles (by cases name <;> decide))
  | warehouseTuple =>
      exact (wholeTuple_coherent (by decide)).fieldLaw
        (wholeTuple_handles (by cases name <;> decide))
  | districtCached cached =>
      exact (ytdCached_coherent rfl).fieldLaw
        (ytdCached_handles (by cases name <;> decide))
  | districtTuple =>
      exact (wholeTuple_coherent (by decide)).fieldLaw
        (wholeTuple_handles (by cases name <;> decide))
  | customerCachedWrite cached =>
      refine GeneralSchema.Coherent.fieldLaw ?_ (customerCachedWrite_handles cached name)
      constructor <;>
        simp [Tpcc.customerCachedWrite, CustomerWriteField.type, CustomerField.type]
  | customerTuple =>
      exact (wholeTuple_coherent (by decide)).fieldLaw
        (wholeTuple_handles (by cases name <;> decide))
  | customerCachedRead =>
      exact GeneralSchema.Coherent.fieldLaw (by constructor <;> decide)
        (customerCachedRead_handles name)
  | itemTuple =>
      exact (wholeTuple_coherent (by decide)).fieldLaw
        (wholeTuple_handles (by cases name <;> decide))
  | itemCached =>
      exact GeneralSchema.Coherent.fieldLaw (by constructor <;> decide) (itemCached_handles name)
  | orderCached =>
      exact GeneralSchema.Coherent.fieldLaw (by constructor <;> decide) (orderCached_handles name)
  | orderTuple =>
      exact (wholeTuple_coherent (by decide)).fieldLaw
        (wholeTuple_handles (by cases name <;> decide))
  | orderLineCached =>
      exact GeneralSchema.Coherent.fieldLaw (by constructor <;> decide)
        (orderLineCached_handles name)
  | orderLineTuple =>
      exact (wholeTuple_coherent (by decide)).fieldLaw
        (wholeTuple_handles (by cases name <;> decide))
  | stockTuple =>
      exact (wholeTuple_coherent (by decide)).fieldLaw
        (wholeTuple_handles (by cases name <;> decide))
  | stockCached =>
      exact GeneralSchema.Coherent.fieldLaw (by constructor <;> decide)
        (stockCached_handles kept)

/-- An eviction loses no write to a declared field exactly when the field is written back or
the cached bytes still are those of the tuple.
-/
theorem tpcc_fieldLaw_iff (schema : TpccSchema) (name : schema.TupleField)
    (padding record field : Image Byte)
    : (schema.schema padding).FieldLaw (schema.mkField name) record field
      ↔ (schema.Dropped name
          → ∀ place, (schema.schema padding).toCachedField (schema.mkField name) = some place
            → read field place.span = read record (schema.mkField name).span) := by
  by_cases dropped : schema.Dropped name
  · cases schema with
    | stockCached =>
        obtain ⟨place, load, unassigned, translated⟩ := stockCached_dropped dropped
        have coherent : stockCached.Coherent := by constructor <;> decide
        have law : ((TpccSchema.stockCached.schema padding).FieldLaw
            (stockTuple.mkField name) record field) ↔ _ :=
          coherent.fieldLaw_iff_of_dropped load unassigned translated
        refine law.trans ⟨?_, fun agrees => agrees dropped _ translated⟩
        intro agrees _ other same
        obtain rfl := Option.some.inj (translated.symm.trans same)
        exact agrees
    | _ => exact dropped.elim
  · exact iff_of_true (schema.fieldLaw_of_kept dropped) (fun lost => absurd lost dropped)

/-- A write to the cached `s_i_id` of a stock record is lost: evicting a record of ones over
a tuple of zeros leaves the zeros.
-/
theorem stockCached_loses_write
    : ¬ ∀ (schema : TpccSchema) (name : schema.TupleField) (padding record field : Image Byte),
        (schema.schema padding).FieldLaw (schema.mkField name) record field := by
  intro all
  have law := all .stockCached .sIId (fun _ => 0) (fun _ => 0) (fun _ => 1)
  exact absurd (law.stored (stockTuple.mkField .sIId) (by decide)) (by decide)

end Schemas

end Alchemy.Tpcc
