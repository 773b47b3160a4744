import Alchemy.Cache.Schema

/-! The lens laws of a schema, and what they say about writing one field.
Nothing is assumed about the places of the fields: since the laws hold for all tuples and
all cached records, they force cached and uncached fields apart, and cached fields to
overlap exactly as their places do.
-/

namespace Alchemy.Cache

open ByteImage

/-- Every declared field obeys the field law, for all tuples and cached records. -/
def Schema.LensLaws (schema : Schema) (fields : List Field) : Prop :=
  ∀ field ∈ fields, ∀ tuple cached, schema.FieldLaw field tuple cached

/-- The two images agree on every declared field. -/
def SameFields (fields : List Field) (left right : Image Byte) : Prop :=
  ∀ field ∈ fields, read left field.span = read right field.span

theorem SameFields.refl (fields : List Field) (image : Image Byte)
    : SameFields fields image image :=
  fun _ _ => rfl

theorem SameFields.trans {fields : List Field} {first second third : Image Byte}
    (left : SameFields fields first second) (right : SameFields fields second third)
    : SameFields fields first third :=
  fun field declared => (left field declared).trans (right field declared)

theorem sameFields_iff_bytes {fields : List Field} {left right : Image Byte}
    : SameFields fields left right
      ↔ ∀ field ∈ fields, ∀ index < field.size,
          left (field.span.start + index) = right (field.span.start + index) := by
  constructor
  · intro same field declared
    exact (read_eq_read.mp (same field declared)).2
  · intro same field declared
    exact read_eq_read.mpr ⟨rfl, same field declared⟩

/-- A byte of a declared field, under a write of `bytes` to the field `target`: either the
write covers it, or it keeps its value.
-/
theorem write_field_cases (image : Image Byte) {target : Field} {bytes : List Byte}
    (sizes : bytes.length = target.size) (offset : Nat)
    : (∃ index, ∃ small : index < bytes.length,
        offset = target.span.start + index
        ∧ write image target.span.start bytes offset = bytes[index])
      ∨ ((∀ index < target.size, offset ≠ target.span.start + index)
        ∧ write image target.span.start bytes offset = image offset) := by
  by_cases covered : target.span.start ≤ offset ∧ offset < target.span.start + target.size
  · obtain ⟨index, rfl⟩ := Nat.exists_eq_add_of_le covered.1
    have small : index < bytes.length := by omega
    exact .inl ⟨index, small, rfl, write_inside small⟩
  · refine .inr ⟨?_, write_outside (by omega)⟩
    rintro index small rfl
    omega

/-- A write keeps images together that agree on the declared fields. -/
theorem SameFields.write {fields : List Field} {left right : Image Byte} {target : Field}
    {bytes : List Byte} (same : SameFields fields left right)
    (sizes : bytes.length = target.size)
    : SameFields fields (write left target.span.start bytes)
        (write right target.span.start bytes) := by
  rw [sameFields_iff_bytes] at same ⊢
  intro field declared index small
  rcases write_field_cases left sizes (field.span.start + index) with
    ⟨inner, inside, here, stored⟩ | ⟨outside, kept⟩
  · rw [stored, here, write_inside inside]
  · rcases write_field_cases right sizes (field.span.start + index) with
      ⟨inner, inside, here, _⟩ | ⟨_, keptToo⟩
    · exact absurd here (outside inner (sizes ▸ inside))
    · rw [kept, keptToo]
      exact same field declared index small

/-! ### The laws byte by byte -/

namespace Schema.LensLaws

variable {schema : Schema} {fields : List Field} {field place : Field} {index : Nat}

theorem place_size (laws : schema.LensLaws fields) (declared : field ∈ fields)
    (isCached : schema.toCachedField field = some place)
    : place.size = field.size :=
  (read_eq_read.mp ((laws field declared (fun _ => 0) (fun _ => 0)).loaded place isCached)).1

theorem loaded_byte (laws : schema.LensLaws fields) (tuple : Image Byte)
    (declared : field ∈ fields) (isCached : schema.toCachedField field = some place)
    (small : index < field.size)
    : schema.toCached tuple (place.span.start + index) = tuple (field.span.start + index) := by
  have same := (laws field declared tuple tuple).loaded place isCached
  exact (read_eq_read.mp same).2 index
    (Nat.lt_of_lt_of_eq small (laws.place_size declared isCached).symm)

theorem stored_byte (laws : schema.LensLaws fields) (tuple cached : Image Byte)
    (declared : field ∈ fields) (isCached : schema.toCachedField field = some place)
    (small : index < field.size)
    : schema.writeBack cached tuple (field.span.start + index)
      = cached (place.span.start + index) :=
  (read_eq_read.mp ((laws field declared tuple cached).stored place isCached)).2 index small

theorem untouched_byte (laws : schema.LensLaws fields) (tuple cached : Image Byte)
    (declared : field ∈ fields) (uncached : schema.toCachedField field = none)
    (small : index < field.size)
    : schema.writeBack cached tuple (field.span.start + index)
      = tuple (field.span.start + index) :=
  (read_eq_read.mp ((laws field declared tuple cached).untouched uncached)).2 index small

end Schema.LensLaws

/-- Offsets at which all images agree are equal. Witness: the image that marks one of them. -/
theorem offset_unique {first second : Nat}
    (same : ∀ image : Image Byte, image first = image second)
    : first = second := by
  by_contra different
  have marked := same (fun offset => if offset = first then 1 else 0)
  simp [Ne.symm different] at marked

namespace Schema.LensLaws

variable {schema : Schema} {fields : List Field} {field other place otherPlace : Field}
  {index inner : Nat}

/-- Two cached fields share a byte exactly where their places do.
Witness: one byte of `write_back` has both cached bytes as its value, and one cached byte
is loaded from both tuple bytes.
-/
theorem overlap_iff (laws : schema.LensLaws fields)
    (declared : field ∈ fields) (isCached : schema.toCachedField field = some place)
    (declaredToo : other ∈ fields) (isCachedToo : schema.toCachedField other = some otherPlace)
    (small : index < field.size) (smallToo : inner < other.size)
    : field.span.start + index = other.span.start + inner
      ↔ place.span.start + index = otherPlace.span.start + inner := by
  constructor
  · intro same
    apply offset_unique
    intro image
    rw [← laws.stored_byte image image declared isCached small, same,
      laws.stored_byte image image declaredToo isCachedToo smallToo]
  · intro same
    apply offset_unique
    intro image
    rw [← laws.loaded_byte image declared isCached small, same,
      laws.loaded_byte image declaredToo isCachedToo smallToo]

/-- A cached and an uncached field share no byte. -/
theorem cached_apart (laws : schema.LensLaws fields)
    (declared : field ∈ fields) (isCached : schema.toCachedField field = some place)
    (declaredToo : other ∈ fields) (uncached : schema.toCachedField other = none)
    (small : index < field.size) (smallToo : inner < other.size)
    : field.span.start + index ≠ other.span.start + inner := by
  intro same
  have here : schema.writeBack (fun _ => 0) (fun _ => 1) (field.span.start + index) = 0 :=
    laws.stored_byte _ _ declared isCached small
  have there : schema.writeBack (fun _ => 0) (fun _ => 1) (other.span.start + inner) = 1 :=
    laws.untouched_byte _ _ declaredToo uncached smallToo
  rw [same, there] at here
  exact absurd here (by decide)

/-! ### Promotion and writes, seen through the write back -/

/-- A freshly loaded cached record changes nothing when it is written back. -/
theorem writeBack_toCached (laws : schema.LensLaws fields) (tuple : Image Byte)
    : SameFields fields (schema.writeBack (schema.toCached tuple) tuple) tuple := by
  intro field declared
  have law := laws field declared tuple (schema.toCached tuple)
  cases isCached : schema.toCachedField field with
  | none => exact law.untouched isCached
  | some place => exact (law.stored place isCached).trans (law.loaded place isCached)

/-- Writing a cached field in the cached record writes the field of the tuple. -/
theorem writeBack_write_cached (laws : schema.LensLaws fields) (tuple cached : Image Byte)
    {bytes : List Byte} (declared : field ∈ fields)
    (isCached : schema.toCachedField field = some place) (sizes : bytes.length = field.size)
    : SameFields fields (schema.writeBack (write cached place.span.start bytes) tuple)
        (write (schema.writeBack cached tuple) field.span.start bytes) := by
  have placeSizes : bytes.length = place.size :=
    sizes.trans (laws.place_size declared isCached).symm
  rw [sameFields_iff_bytes]
  intro other declaredToo inner smallToo
  cases status : schema.toCachedField other with
  | none =>
      rw [laws.untouched_byte _ _ declaredToo status smallToo, write_outside,
        laws.untouched_byte _ _ declaredToo status smallToo]
      by_contra covered
      obtain ⟨index, same⟩ := Nat.exists_eq_add_of_le
        (show field.span.start ≤ other.span.start + inner by omega)
      exact laws.cached_apart declared isCached declaredToo status (by omega) smallToo same.symm
  | some otherPlace =>
      rw [laws.stored_byte _ _ declaredToo status smallToo]
      rcases write_field_cases (schema.writeBack cached tuple) sizes
        (other.span.start + inner) with ⟨index, small, here, stored⟩ | ⟨outside, kept⟩
      · rw [stored, (laws.overlap_iff declaredToo status declared isCached smallToo
          (sizes ▸ small)).mp here, write_inside small]
      · rw [kept, laws.stored_byte _ _ declaredToo status smallToo]
        rcases write_field_cases cached placeSizes (otherPlace.span.start + inner) with
          ⟨index, small, here, _⟩ | ⟨_, keptToo⟩
        · have shared := (laws.overlap_iff declaredToo status declared isCached smallToo
            (sizes ▸ small)).mpr here
          exact absurd shared (outside index (sizes ▸ small))
        · exact keptToo

/-- Writing an uncached field in the tuple survives the write back of the cached record. -/
theorem writeBack_write_uncached (laws : schema.LensLaws fields) (tuple cached : Image Byte)
    {bytes : List Byte} (declared : field ∈ fields)
    (uncached : schema.toCachedField field = none) (sizes : bytes.length = field.size)
    : SameFields fields (schema.writeBack cached (write tuple field.span.start bytes))
        (write (schema.writeBack cached tuple) field.span.start bytes) := by
  rw [sameFields_iff_bytes]
  intro other declaredToo inner smallToo
  cases status : schema.toCachedField other with
  | none =>
      rw [laws.untouched_byte _ _ declaredToo status smallToo]
      rcases write_field_cases tuple sizes (other.span.start + inner) with
        ⟨index, small, here, stored⟩ | ⟨outside, kept⟩
      · rw [stored, here, write_inside small]
      · rw [kept, write_outside, laws.untouched_byte _ _ declaredToo status smallToo]
        by_contra covered
        obtain ⟨index, same⟩ := Nat.exists_eq_add_of_le
          (show field.span.start ≤ other.span.start + inner by omega)
        exact outside index (by omega) same
  | some otherPlace =>
      rw [laws.stored_byte _ _ declaredToo status smallToo, write_outside,
        laws.stored_byte _ _ declaredToo status smallToo]
      by_contra covered
      obtain ⟨index, same⟩ := Nat.exists_eq_add_of_le
        (show field.span.start ≤ other.span.start + inner by omega)
      exact laws.cached_apart declaredToo status declared uncached smallToo (by omega) same

end Schema.LensLaws

end Alchemy.Cache
