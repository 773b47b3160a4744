import Alchemy.Cache.FieldItemSchema
import Mathlib.Algebra.GroupWithZero.Nat

/-! Update queries. The data of the fields lies packed behind one another. A tuple and the cached
record of a tuple are updated by loops over the same query; the second one skips what is not
cached and puts the rest where it is cached. Both take a field's data from the same offset.
-/

namespace Alchemy.Cache

open ByteImage

/-! ### Queries -/

/-- `UpdateQuery`, with the fields of its `meta`. -/
structure UpdateQuery (N : Nat) where
  fields : Vector Field N
  data : List Byte

/-- `UpdateIter` -/
structure UpdateIter (N : Nat) where
  curIdx : Nat
  ptrOff : Nat
  query : UpdateQuery N
  inside : curIdx ≤ N

namespace UpdateQuery

variable {N : Nat}

def iter (query : UpdateQuery N) : UpdateIter N where
  curIdx := 0
  ptrOff := 0
  query
  inside := Nat.zero_le N

/-- `FieldsMeta::size` -/
def size (query : UpdateQuery N) : Nat :=
  query.fields.toList.foldl (fun a b => a + b.size) 0

/-- The memory that the data pointer points to. -/
def bytes (query : UpdateQuery N) : Image Byte :=
  fun offset => query.data[offset]?.getD 0

end UpdateQuery

/-- `UpdateIter::next`: the field, and the offset of its data. -/
def UpdateIter.next {N : Nat} (self : UpdateIter N) : Option ((Field × Nat) × UpdateIter N) :=
  if done : self.curIdx = N then none
  else
    have inside : self.curIdx < N := Nat.lt_of_le_of_ne self.inside done
    let field := self.query.fields[self.curIdx]
    some ((field, self.ptrOff),
      { self with
        curIdx := self.curIdx + 1
        ptrOff := self.ptrOff + field.size
        inside })

/-- What the first calls of `next` return, up to the first `None`. -/
def UpdateIter.collect {N : Nat} : Nat → UpdateIter N → List (Field × Nat)
  | 0, _ => []
  | calls + 1, self =>
      match self.next with
      | none => []
      | some (item, later) => item :: collect calls later

namespace UpdateQuery

variable {N : Nat}

/-- What a loop over the query sees: the items until `next` returns `None`. -/
def items (query : UpdateQuery N) : List (Field × Nat) :=
  query.iter.collect (N + 1)

/-- The derived `Tuple::update` -/
def update (query : UpdateQuery N) (tuple : Image Byte) : Image Byte :=
  query.items.foldl (fun tuple item => copy tuple item.1.span query.bytes item.2) tuple

end UpdateQuery

/-- The default `update_cached` -/
def Schema.updateCached {N : Nat} (schema : Schema) (field : Image Byte) (query : UpdateQuery N)
    : Image Byte :=
  query.items.foldl
    (fun field item =>
      match schema.toCachedField item.1 with
      | some f => copy field f.span query.bytes item.2
      | none => field)
    field

/-- `update` of a `TestItem` -/
def TestItem.update {N tz : Nat} (tuple : TestItem tz) (query : UpdateQuery N) : TestItem tz :=
  query.items.foldl
    (fun tuple item => writeUsize tuple item.1.beginAt.toNat (wordAt query.bytes item.2)) tuple

/-- `update_cached`, which this schema overrides. A position lies inside the cached record. -/
def FieldItemSchema.updateCached {N fz tz : Nat} (self : FieldItemSchema fz tz)
    (fields : FieldCached fz) (query : UpdateQuery N)
    : FieldCached fz :=
  query.items.foldl
    (fun fields item =>
      match self.position item.1 with
      | some idx => fields.setIfInBounds idx (wordAt query.bytes item.2)
      | none => fields)
    fields

/-! ### The offsets -/

/-- The offset of the data of a field: the sizes of the fields before it. -/
def UpdateQuery.offset {N : Nat} (query : UpdateQuery N) (i : Nat) : Nat :=
  ((query.fields.toList.take i).map Field.size).sum

namespace UpdateQuery

variable {N : Nat} {query : UpdateQuery N} {field : Field} {i : Nat}

theorem offset_succ (here : query.fields.toList[i]? = some field)
    : query.offset (i + 1) = query.offset i + field.size := by
  rw [offset, offset, List.take_add_one, here, List.map_append, List.sum_append]
  simp

theorem size_eq_offset (query : UpdateQuery N) : query.size = query.offset N := by
  have whole : query.fields.toList.take N = query.fields.toList :=
    List.take_of_length_le (by simp)
  rw [size, offset, whole, List.sum_eq_foldl, List.foldl_map]

theorem offset_le (query : UpdateQuery N) {j : Nat} (order : i ≤ j)
    : query.offset i ≤ query.offset j := by
  obtain ⟨more, rfl⟩ := Nat.exists_eq_add_of_le order
  rw [offset, offset, List.take_add, List.map_append, List.sum_append]
  exact Nat.le_add_right ..

/-- The data of a field lies inside the data. -/
theorem offset_add_size_le (here : query.fields.toList[i]? = some field)
    : query.offset i + field.size ≤ query.size := by
  have inside : i < N := by simpa using (List.getElem?_eq_some_iff.mp here).1
  rw [← offset_succ here, query.size_eq_offset]
  exact query.offset_le inside

end UpdateQuery

namespace UpdateIter

variable {N : Nat} {self : UpdateIter N}

/-- What the iterator has still to return, by induction on the calls. -/
theorem getElem?_collect {calls : Nat} (sound : self.ptrOff = self.query.offset self.curIdx)
    (enough : N < self.curIdx + calls) (k : Nat)
    : (self.collect calls)[k]?
      = self.query.fields.toList[self.curIdx + k]?.map
          (fun field => (field, self.query.offset (self.curIdx + k))) := by
  induction calls generalizing self k with
  | zero => exact absurd self.inside (Nat.not_le.mpr enough)
  | succ calls ih =>
      by_cases done : self.curIdx = N
      · have nothing : self.collect (calls + 1) = [] := by
          rw [collect, next, dif_pos done]
        rw [nothing, List.getElem?_eq_none (by simp), List.getElem?_eq_none (by simp [done])]
        rfl
      · have inside : self.curIdx < N := Nat.lt_of_le_of_ne self.inside done
        have here : self.query.fields.toList[self.curIdx]? = some self.query.fields[self.curIdx] := by
          simp [inside]
        rw [collect, next, dif_neg done]
        cases k with
        | zero => simp [here, sound]
        | succ k =>
            rw [List.getElem?_cons_succ, ih]
            · simp only [Nat.add_assoc, Nat.add_comm 1 k]
            · simp only [UpdateQuery.offset_succ here, sound]
            · simp only
              omega

end UpdateIter

namespace UpdateQuery

variable {N : Nat} {query : UpdateQuery N}

/-- The items are the fields in order, each with its offset. -/
theorem getElem?_items (query : UpdateQuery N) (i : Nat)
    : query.items[i]?
      = query.fields.toList[i]?.map (fun field => (field, query.offset i)) := by
  have enough : N < query.iter.curIdx + (N + 1) := by
    rw [iter]
    omega
  have all : query.items[i]? = _ := UpdateIter.getElem?_collect rfl enough i
  rwa [show query.iter.curIdx + i = i from Nat.zero_add i] at all

theorem map_fst_items (query : UpdateQuery N) : query.items.map Prod.fst = query.fields.toList := by
  apply List.ext_getElem?
  intro i
  rw [List.getElem?_map, query.getElem?_items, Option.map_map]
  exact Option.map_id'

theorem mem_fields_of_mem_items {item : Field × Nat} (member : item ∈ query.items)
    : item.1 ∈ query.fields.toList := by
  rw [← query.map_fst_items]
  exact List.mem_map_of_mem member

end UpdateQuery

/-! ### The default loops -/

section Default

variable {schema : Schema} {fields : List Field} {field place : Field}

/-- The cached record holds the tuple's data for every declared field that is cached. -/
def Schema.Holds (schema : Schema) (fields : List Field) (cached tuple : Image Byte) : Prop :=
  ∀ field ∈ fields, ∀ place, schema.toCachedField field = some place
    → read cached place.span = read tuple field.span

theorem Schema.LensLaws.holds (laws : schema.LensLaws fields) (tuple : Image Byte)
    : schema.Holds fields (schema.toCached tuple) tuple :=
  fun field declared place isCached => (laws field declared tuple tuple).loaded place isCached

/-- A field that is cached is stored to in both. Other cached fields are hit by the store where
their places are.
-/
theorem Schema.Holds.write_cached {cached tuple : Image Byte} {bytes : List Byte}
    (holds : schema.Holds fields cached tuple) (laws : schema.LensLaws fields)
    (declared : field ∈ fields) (isCached : schema.toCachedField field = some place)
    (sizes : bytes.length = field.size)
    : schema.Holds fields (write cached place.span.start bytes)
        (write tuple field.span.start bytes) := by
  intro other declaredToo otherPlace isCachedToo
  have same := holds other declaredToo otherPlace isCachedToo
  have placeSizes : bytes.length = place.size :=
    sizes.trans (laws.place_size declared isCached).symm
  have otherSize := laws.place_size declaredToo isCachedToo
  refine read_eq_read.mpr ⟨otherSize, fun inner smallToo => ?_⟩
  have smallToo : inner < other.size := Nat.lt_of_lt_of_eq smallToo otherSize
  rcases write_field_cases tuple sizes (other.span.start + inner) with
    ⟨index, small, here, stored⟩ | ⟨outside, kept⟩
  · rw [stored, (laws.overlap_iff declaredToo isCachedToo declared isCached smallToo
      (sizes ▸ small)).mp here, write_inside small]
  · rw [kept]
    rcases write_field_cases cached placeSizes (otherPlace.span.start + inner) with
      ⟨index, small, here, _⟩ | ⟨_, keptToo⟩
    · have shared := (laws.overlap_iff declaredToo isCachedToo declared isCached smallToo
        (sizes ▸ small)).mpr here
      exact absurd shared (outside index (sizes ▸ small))
    · rw [keptToo]
      exact (read_eq_read.mp same).2 inner (Nat.lt_of_lt_of_eq smallToo otherSize.symm)

/-- A field that is not cached is stored to in the tuple alone, apart from the cached ones. -/
theorem Schema.Holds.write_uncached {cached tuple : Image Byte} {bytes : List Byte}
    (holds : schema.Holds fields cached tuple) (laws : schema.LensLaws fields)
    (declared : field ∈ fields) (uncached : schema.toCachedField field = none)
    (sizes : bytes.length = field.size)
    : schema.Holds fields cached (write tuple field.span.start bytes) := by
  intro other declaredToo otherPlace isCachedToo
  refine (holds other declaredToo otherPlace isCachedToo).trans ?_
  refine read_eq_read.mpr ⟨rfl, fun inner smallToo => ?_⟩
  rcases write_field_cases tuple sizes (other.span.start + inner) with
    ⟨index, small, here, _⟩ | ⟨_, kept⟩
  · exact absurd here
      (laws.cached_apart declaredToo isCachedToo declared uncached smallToo (sizes ▸ small))
  · exact kept.symm

/-- The two loops together, by induction on the items. -/
theorem Schema.Holds.update {N : Nat} {query : UpdateQuery N} {cached tuple : Image Byte}
    (holds : schema.Holds fields cached tuple) (laws : schema.LensLaws fields)
    (declared : ∀ field ∈ query.fields.toList, field ∈ fields)
    : schema.Holds fields (schema.updateCached cached query) (query.update tuple) := by
  have listed : ∀ item ∈ query.items, item.1 ∈ fields :=
    fun item member => declared _ (UpdateQuery.mem_fields_of_mem_items member)
  rw [Schema.updateCached, UpdateQuery.update]
  generalize query.items = items at listed
  induction items generalizing cached tuple with
  | nil => exact holds
  | cons item rest ih =>
      have here := listed item List.mem_cons_self
      have later := fun other member => listed other (List.mem_cons_of_mem _ member)
      have sizes : (read query.bytes ⟨item.2, item.1.size⟩).length = item.1.size := by
        simp [ByteImage.read]
      rw [List.foldl_cons, List.foldl_cons]
      refine ih ?_ later
      rw [copy_eq_write]
      cases isCached : schema.toCachedField item.1 with
      | none => exact holds.write_uncached laws here isCached sizes
      | some place =>
          have size := laws.place_size here isCached
          simp only [copy_eq_write, Field.span, size]
          exact holds.write_cached laws here isCached sizes

end Default

/-! ### Last occurrences -/

namespace UpdateQuery

variable {N : Nat} {query : UpdateQuery N} {field : Field} {i : Nat}

/-- The data for the field at this place of the query. -/
def dataAt (query : UpdateQuery N) (i : Nat) (field : Field) : List Byte :=
  (query.data.drop (query.offset i)).take field.size

/-- What is read behind the pointer is the data: it ends inside. -/
theorem read_bytes (query : UpdateQuery N) {start size : Nat}
    (inside : start + size ≤ query.data.length)
    : read query.bytes ⟨start, size⟩ = (query.data.drop start).take size := by
  apply List.ext_getElem
  · simp [ByteImage.read]
    omega
  · intro index small _
    have small : index < size := by simpa [ByteImage.read] using small
    have within : start + index < query.data.length := by omega
    simp [ByteImage.read, bytes, within]

theorem items_split (here : query.fields.toList[i]? = some field)
    : query.items = query.items.take i ++ (field, query.offset i) :: query.items.drop (i + 1) := by
  have item : query.items[i]? = some (field, query.offset i) := by
    rw [query.getElem?_items, here]
    rfl
  obtain ⟨inside, same⟩ := List.getElem?_eq_some_iff.mp item
  rw [← same, List.getElem_cons_drop, List.take_append_drop]

theorem exists_of_mem_drop {item : Field × Nat} {count : Nat}
    (member : item ∈ query.items.drop count)
    : ∃ j, count ≤ j ∧ query.fields.toList[j]? = some item.1 := by
  obtain ⟨k, here⟩ := List.mem_iff_getElem?.mp member
  rw [List.getElem?_drop, query.getElem?_items] at here
  obtain ⟨field, found, rfl⟩ := Option.map_eq_some_iff.mp here
  exact ⟨count + k, Nat.le_add_right .., found⟩

/-- The copies of an update. -/
def moves (items : List (Field × Nat)) : List (Span × Span) :=
  items.map (fun item => (item.1.span, ⟨item.2, item.1.size⟩))

theorem update_eq (query : UpdateQuery N) (tuple : Image Byte)
    : query.update tuple = copyAll tuple query.bytes (moves query.items) := by
  rw [update, copyAll, moves, List.foldl_map]

/-- A byte that no field of the query covers stays. -/
theorem update_outside (tuple : Image Byte) {index : Nat}
    (outside : ∀ field ∈ query.fields.toList, ¬field.span.Covers index)
    : query.update tuple index = tuple index := by
  rw [update_eq]
  refine copyAll_outside (fun move member => ?_)
  obtain ⟨item, listed, rfl⟩ := List.mem_map.mp member
  exact outside item.1 (mem_fields_of_mem_items listed)

/-- A field holds its data if no later field overlaps it. -/
theorem read_update (tuple : Image Byte) (exact : query.data.length = query.size)
    (here : query.fields.toList[i]? = some field)
    (last : ∀ j other, i < j → query.fields.toList[j]? = some other
      → other.span.Disjoint field.span)
    : read (query.update tuple) field.span = query.dataAt i field := by
  have apart : ∀ move ∈ moves (query.items.drop (i + 1)), move.1.Disjoint field.span := by
    intro move member
    obtain ⟨item, listed, rfl⟩ := List.mem_map.mp member
    obtain ⟨j, later, found⟩ := exists_of_mem_drop listed
    exact last j item.1 later found
  have inside := offset_add_size_le here
  rw [← exact] at inside
  have copied (image : Image Byte)
      : read (copy image field.span query.bytes (query.offset i)) field.span
        = read query.bytes ⟨query.offset i, field.size⟩ :=
    @read_copy_self _ image query.bytes field.span ⟨query.offset i, field.size⟩ rfl
  rw [update_eq, items_split here, moves, List.map_append, List.map_cons, copyAll,
    List.foldl_append, List.foldl_cons]
  refine (read_copyAll_disjoint apart).trans ((copied _).trans ?_)
  exact query.read_bytes inside

end UpdateQuery

/-! ### Tuples of words -/

namespace FieldItemSchema

variable {fz tz : Nat} {self : FieldItemSchema fz tz} {field : Field}

/-- One store to a word, in the tuple and in the cached record. -/
theorem toCached_writeUsize (formed : self.WellFormed) (word : field.IsWord tz)
    (tuple : TestItem tz) (value : UInt64)
    : self.toCached (writeUsize tuple field.beginAt.toNat value)
      = match self.position field with
        | some idx => (self.toCached tuple).setIfInBounds idx value
        | none => self.toCached tuple := by
  apply Vector.ext
  intro index inside
  have loaded := getElem_toCached formed tuple ⟨index, inside⟩
  have stored := getElem_toCached formed (writeUsize tuple field.beginAt.toNat value)
    ⟨index, inside⟩
  have bound := formed.wordIndex_lt ⟨index, inside⟩
  rw [Vector.getElem?_eq_getElem bound] at loaded stored
  rw [getElem_writeUsize _ word.aligned] at stored
  cases found : self.position field with
  | none =>
      have other : field.beginAt.toNat / 8 ≠ self.wordIndex ⟨index, inside⟩ := by
        intro same
        exact toCachedField_eq_none (Option.map_eq_none_iff.mpr found) ⟨index, inside⟩
          ((formed.isWord ⟨index, inside⟩).ext word same.symm)
      rw [if_neg other] at stored
      exact (Option.some.inj stored).symm.trans (Option.some.inj loaded)
  | some idx =>
      obtain ⟨position, rfl, rfl⟩ := position_eq_some found
      rw [show self.fields[position].beginAt.toNat / 8 = self.wordIndex position from rfl] at stored
      simp only [Vector.getElem_setIfInBounds]
      by_cases same : position.val = index
      · obtain rfl : position = ⟨index, inside⟩ := Fin.ext same
        rw [if_pos rfl] at stored
        exact (Option.some.inj stored).symm.trans (if_pos rfl).symm
      · have other : self.wordIndex position ≠ self.wordIndex ⟨index, inside⟩ :=
          fun equal => same (congrArg Fin.val (formed.wordIndex_inj equal))
        rw [if_neg other] at stored
        rw [if_neg same]
        exact (Option.some.inj stored).symm.trans (Option.some.inj loaded)

/-- The two loops together, by induction on the items. -/
theorem toCached_update {N : Nat} {query : UpdateQuery N} (formed : self.WellFormed)
    (words : ∀ field ∈ query.fields.toList, field.IsWord tz) (tuple : TestItem tz)
    : self.toCached (tuple.update query) = self.updateCached (self.toCached tuple) query := by
  have listed : ∀ item ∈ query.items, item.1.IsWord tz :=
    fun item member => words _ (UpdateQuery.mem_fields_of_mem_items member)
  rw [TestItem.update, updateCached]
  generalize query.items = items at listed
  induction items generalizing tuple with
  | nil => rfl
  | cons item rest ih =>
      rw [List.foldl_cons, List.foldl_cons, ih, toCached_writeUsize formed
        (listed item List.mem_cons_self)]
      exact fun other member => listed other (List.mem_cons_of_mem _ member)

end FieldItemSchema

namespace TestItem

variable {N tz : Nat} {query : UpdateQuery N} {field : Field} {i index : Nat}

/-- Stores to other words, by induction on the stores. -/
theorem getElem_store_miss {items : List (Field × Nat)} (tuple : TestItem tz)
    (words : ∀ item ∈ items, item.1.IsWord tz) (inside : index < tz)
    (misses : ∀ item ∈ items, item.1.beginAt.toNat / 8 ≠ index)
    : (items.foldl
        (fun tuple item => writeUsize tuple item.1.beginAt.toNat (wordAt query.bytes item.2))
        tuple)[index]
      = tuple[index] := by
  induction items generalizing tuple with
  | nil => rfl
  | cons item rest ih =>
      have later := fun other member => words other (List.mem_cons_of_mem item member)
      have missed := fun other member => misses other (List.mem_cons_of_mem item member)
      rw [List.foldl_cons, ih _ later missed,
        getElem_writeUsize _ (words item List.mem_cons_self).aligned]
      exact if_neg (misses item List.mem_cons_self)

/-- A word that no field of the query names stays. -/
theorem update_outside (tuple : TestItem tz)
    (words : ∀ field ∈ query.fields.toList, field.IsWord tz) (inside : index < tz)
    (outside : ∀ field ∈ query.fields.toList, field.beginAt.toNat / 8 ≠ index)
    : (tuple.update query)[index] = tuple[index] :=
  getElem_store_miss tuple (fun _ member => words _ (UpdateQuery.mem_fields_of_mem_items member))
    inside (fun _ member => outside _ (UpdateQuery.mem_fields_of_mem_items member))

/-- A word holds the data of its last occurrence. -/
theorem read_update (tuple : TestItem tz)
    (words : ∀ field ∈ query.fields.toList, field.IsWord tz)
    (exact : query.data.length = query.size) (here : query.fields.toList[i]? = some field)
    (last : ∀ j, i < j → query.fields.toList[j]? ≠ some field)
    : read (bytesOf (tuple.update query)) field.span = query.dataAt i field := by
  have word := words field (List.mem_of_getElem? here)
  have inside : field.beginAt.toNat / 8 < tz := by
    have := word.inside
    omega
  have span : field.span = ⟨8 * (field.beginAt.toNat / 8), 8⟩ := by
    rw [Field.span, word.wide, Nat.mul_div_cancel' word.aligned]
  have later : ∀ item ∈ query.items.drop (i + 1), item.1.IsWord tz ∧ item.1 ≠ field := by
    intro item member
    obtain ⟨j, after, found⟩ := UpdateQuery.exists_of_mem_drop member
    refine ⟨words _ (List.mem_of_getElem? found), fun same => last j after ?_⟩
    rw [found, same]
  have fits := UpdateQuery.offset_add_size_le here
  rw [← exact, word.wide] at fits
  have split := congrArg (fun items : List (Field × Nat) => items.foldl
    (fun tuple item => writeUsize tuple item.1.beginAt.toNat (wordAt query.bytes item.2)) tuple)
    (UpdateQuery.items_split here)
  simp only [List.foldl_append, List.foldl_cons] at split
  have stored : (tuple.update query)[field.beginAt.toNat / 8]
      = wordAt query.bytes (query.offset i) := by
    simp only [TestItem.update, split]
    rw [getElem_store_miss _ (fun item member => (later item member).1) inside,
      getElem_writeUsize _ word.aligned, if_pos rfl]
    intro item member same
    exact (later item member).2 ((later item member).1.ext word same)
  rw [span, read_bytesOf inside, stored, encode_wordAt, query.read_bytes fits,
    UpdateQuery.dataAt, word.wide]

end TestItem

/-! ### All of it -/

/-- A loop over a query sees its fields in order, each with the offset where the fields before it
end, inside the data. Updating a tuple and then loading its cached record is updating the cached
record, for every schema that obeys its laws and for the schema of words with its own loops. In
the updated tuple every field holds the data of its last occurrence, and all else is as before.
-/
theorem update_cached_agrees {N : Nat} (query : UpdateQuery N)
    (exact : query.data.length = query.size)
    : (query.items.length = N
        ∧ ∀ i field, query.fields.toList[i]? = some field
          → query.items[i]? = some (field, query.offset i)
            ∧ query.offset i + field.size ≤ query.data.length)
      ∧ (∀ (schema : Schema) fields, schema.LensLaws fields
        → (∀ field ∈ query.fields.toList, field ∈ fields)
        → ∀ tuple, ∀ field ∈ fields, ∀ place, schema.toCachedField field = some place
          → read (schema.toCached (query.update tuple)) place.span
            = read (schema.updateCached (schema.toCached tuple) query) place.span)
      ∧ (∀ fz tz (schema : FieldItemSchema fz tz), schema.WellFormed
        → (∀ field ∈ query.fields.toList, field.IsWord tz)
        → ∀ tuple : TestItem tz,
          schema.toCached (tuple.update query)
            = schema.updateCached (schema.toCached tuple) query)
      ∧ (∀ tuple : Image Byte,
        (∀ index, (∀ field ∈ query.fields.toList, ¬field.span.Covers index)
          → query.update tuple index = tuple index)
        ∧ ((∀ first ∈ query.fields.toList, ∀ second ∈ query.fields.toList,
            first ≠ second → first.span.Disjoint second.span)
          → ∀ i field, query.fields.toList[i]? = some field
            → (∀ j, i < j → query.fields.toList[j]? ≠ some field)
            → read (query.update tuple) field.span = query.dataAt i field))
      ∧ ∀ tz (tuple : TestItem tz), (∀ field ∈ query.fields.toList, field.IsWord tz)
        → (∀ index (_ : index < tz),
            (∀ field ∈ query.fields.toList, field.beginAt.toNat / 8 ≠ index)
            → (tuple.update query)[index] = tuple[index])
          ∧ ∀ i field, query.fields.toList[i]? = some field
            → (∀ j, i < j → query.fields.toList[j]? ≠ some field)
            → read (bytesOf (tuple.update query)) field.span = query.dataAt i field := by
  refine ⟨⟨?_, fun i field here => ⟨?_, ?_⟩⟩, ?_, ?_, ?_, ?_⟩
  · have fields := congrArg List.length query.map_fst_items
    rwa [List.length_map, Vector.length_toList] at fields
  · rw [query.getElem?_items, here]
    rfl
  · rw [exact]
    exact UpdateQuery.offset_add_size_le here
  · intro schema fields laws declared tuple field member place isCached
    have loaded := laws.holds (query.update tuple) field member place isCached
    have updated := (laws.holds tuple).update laws declared field member place isCached
    exact loaded.trans updated.symm
  · intro fz tz schema formed words tuple
    exact FieldItemSchema.toCached_update formed words tuple
  · intro tuple
    refine ⟨fun index outside => UpdateQuery.update_outside tuple outside, ?_⟩
    intro apart i field here last
    refine UpdateQuery.read_update tuple exact here (fun j other later found => ?_)
    refine apart _ (List.mem_of_getElem? found) _ (List.mem_of_getElem? here) ?_
    rintro rfl
    exact last j later found
  · intro tz tuple words
    exact ⟨fun index inside outside => TestItem.update_outside tuple words inside outside,
      fun i field here last => TestItem.read_update tuple words exact here last⟩

/-- The first word, the second one, and the first one again. -/
def UpdateQuery.wordTwice : UpdateQuery 3 where
  fields := #v[⟨0, 8⟩, ⟨8, 16⟩, ⟨0, 8⟩]
  data := List.replicate 8 1 ++ List.replicate 8 2 ++ List.replicate 8 3

theorem update_cached_agrees_word_twice
    : UpdateQuery.wordTwice.items[2]? = some (⟨0, 8⟩, 16)
      ∧ (⟨#v[⟨16, 24⟩, ⟨0, 8⟩]⟩ : FieldItemSchema 2 3).toCached
          (TestItem.update #v[1, 2, 3] UpdateQuery.wordTwice)
        = (⟨#v[⟨16, 24⟩, ⟨0, 8⟩]⟩ : FieldItemSchema 2 3).updateCached
            ((⟨#v[⟨16, 24⟩, ⟨0, 8⟩]⟩ : FieldItemSchema 2 3).toCached #v[1, 2, 3])
            UpdateQuery.wordTwice
      ∧ read (bytesOf (TestItem.update #v[1, 2, 3] UpdateQuery.wordTwice)) ⟨0, 8⟩
        = List.replicate 8 3 := by
  have formed : (⟨#v[⟨16, 24⟩, ⟨0, 8⟩]⟩ : FieldItemSchema 2 3).WellFormed := by
    refine ⟨by decide, ?_⟩
    intro field member
    rcases List.mem_pair.mp member with rfl | rfl <;> exact ⟨by decide, by decide, by decide⟩
  have words : ∀ field ∈ UpdateQuery.wordTwice.fields.toList, field.IsWord 3 := by
    intro field member
    have listed : field = ⟨0, 8⟩ ∨ field = ⟨8, 16⟩ ∨ field = ⟨0, 8⟩ := by
      simpa [UpdateQuery.wordTwice] using member
    rcases listed with rfl | rfl | rfl <;> exact ⟨by decide, by decide, by decide⟩
  obtain ⟨⟨_, items⟩, _, overridden, _, stored⟩ :=
    update_cached_agrees UpdateQuery.wordTwice (by decide)
  have last : ∀ j, 2 < j → UpdateQuery.wordTwice.fields.toList[j]? ≠ some ⟨0, 8⟩ := by
    intro j later
    rw [List.getElem?_eq_none later]
    exact (Option.some_ne_none _).symm
  exact ⟨(items 2 ⟨0, 8⟩ rfl).1, overridden 2 3 _ formed words #v[1, 2, 3],
    (stored 3 #v[1, 2, 3] words).2 2 ⟨0, 8⟩ rfl last⟩

end Alchemy.Cache
