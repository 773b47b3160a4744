import Alchemy.Cache.Lens
import Alchemy.Library.LittleEndian
import Mathlib.Data.Fintype.Card
import Mathlib.Data.Vector.Basic

/-! `FieldItemSchema`: the schema that caches chosen words of a tuple of words. It loads them by
word index and stores them at byte offsets; its fields are byte ranges.
-/

namespace Alchemy.Cache

open ByteImage LittleEndian

/-! ### Words in memory -/

/-- The bytes of an array of words. -/
def bytesOf {n : Nat} (words : Vector UInt64 n) : Image Byte :=
  fun offset => (encode 8 (words[offset / 8]?.getD 0).toNat)[offset % 8]?.getD 0

/-- What a load of a word at a byte offset reads. -/
def wordAt (image : Image Byte) (offset : Nat) : UInt64 :=
  UInt64.ofNat (decode (read image ⟨offset, 8⟩))

/-- The words that the bytes of an array stand for. -/
def wordsOf (n : Nat) (image : Image Byte) : Vector UInt64 n :=
  Vector.ofFn (fun index => wordAt image (8 * index))

/-- A store of a word at a byte offset of an array. -/
def writeUsize {n : Nat} (words : Vector UInt64 n) (offset : Nat) (value : UInt64)
    : Vector UInt64 n :=
  wordsOf n (write (bytesOf words) offset (encode 8 value.toNat))

section Words

variable {n : Nat} {words : Vector UInt64 n} {image : Image Byte} {offset : Nat}

theorem decode_encode_word (value : UInt64)
    : UInt64.ofNat (decode (encode 8 value.toNat)) = value := by
  have fits : value.toNat < 256 ^ 8 := value.toNat_lt
  rw [decode_encode, Nat.mod_eq_of_lt fits, UInt64.ofNat_toNat]

theorem read_bytesOf {index : Nat} (inside : index < n)
    : ByteImage.read (bytesOf words) ⟨8 * index, 8⟩ = encode 8 words[index].toNat := by
  apply List.ext_getElem
  · simp [ByteImage.read]
  · intro within small _
    have small : within < 8 := by simpa [ByteImage.read] using small
    have quotient : (8 * index + within) / 8 = index := by omega
    have rest : (8 * index + within) % 8 = within := by omega
    simp only [ByteImage.read, bytesOf, List.getElem_map, List.getElem_range, quotient, rest]
    simp [inside, small]

@[simp]
theorem getElem_wordsOf {index : Nat} (inside : index < n)
    : (wordsOf n image)[index] = wordAt image (8 * index) := by
  simp [wordsOf]

theorem wordAt_bytesOf {index : Nat} (inside : index < n)
    : wordAt (bytesOf words) (8 * index) = words[index] := by
  rw [wordAt, read_bytesOf inside, decode_encode_word]

theorem encode_wordAt (image : Image Byte) (offset : Nat)
    : encode 8 (wordAt image offset).toNat = ByteImage.read image ⟨offset, 8⟩ := by
  have sized : (ByteImage.read image ⟨offset, 8⟩).length = 8 := by simp [ByteImage.read]
  have small := decode_lt (ByteImage.read image ⟨offset, 8⟩)
  rw [sized] at small
  have whole : (wordAt image offset).toNat = decode (ByteImage.read image ⟨offset, 8⟩) :=
    UInt64.toNat_ofNat_of_lt' small
  have back := encode_decode (ByteImage.read image ⟨offset, 8⟩)
  rw [sized] at back
  rw [whole, back]

theorem wordAt_write_self (value : UInt64)
    : wordAt (write image offset (encode 8 value.toNat)) offset = value := by
  have stored
      : ByteImage.read (write image offset (encode 8 value.toNat)) ⟨offset, 8⟩
        = encode 8 value.toNat :=
    @read_write_self _ image ⟨offset, 8⟩ _ (length_encode 8 _)
  rw [wordAt, stored, decode_encode_word]

theorem wordAt_write_apart {other : Nat} (value : UInt64)
    (apart : offset + 8 ≤ other ∨ other + 8 ≤ offset)
    : wordAt (write image offset (encode 8 value.toNat)) other = wordAt image other := by
  have kept
      : ByteImage.read (write image offset (encode 8 value.toNat)) ⟨other, 8⟩
        = ByteImage.read image ⟨other, 8⟩ :=
    @read_write_disjoint _ image ⟨offset, 8⟩ _ _ (length_encode 8 _) apart
  rw [wordAt, wordAt, kept]

/-- An aligned store replaces one word. -/
theorem getElem_writeUsize {index : Nat} (value : UInt64) (aligned : 8 ∣ offset)
    (inside : index < n)
    : (writeUsize words offset value)[index]
      = if offset / 8 = index then value else words[index] := by
  obtain ⟨target, rfl⟩ := aligned
  rw [writeUsize, getElem_wordsOf]
  split
  · next same =>
      rw [Nat.mul_div_cancel_left _ (by decide)] at same
      rw [same, wordAt_write_self]
  · next different =>
      rw [wordAt_write_apart value (by omega), wordAt_bytesOf inside]

end Words

/-! ### The schema -/

abbrev TestItem (tz : Nat) := Vector UInt64 tz

abbrev FieldCached (fz : Nat) := Vector UInt64 fz

structure FieldItemSchema (fz tz : Nat) where
  fields : Vector Field fz

namespace FieldItemSchema

variable {fz tz : Nat}

def position (self : FieldItemSchema fz tz) (field : Field) : Option Nat :=
  self.fields.toList.findIdx? (fun f => f == field)

/-- `to_cached`, where the fields lie inside the tuple. -/
def toCached (self : FieldItemSchema fz tz) (tuple : TestItem tz) : FieldCached fz :=
  self.fields.map (fun v => tuple[v.beginAt.toNat / 8]?.getD 0)

/-- The loop of `write_back` over the positions listed. -/
def storeFields (self : FieldItemSchema fz tz) (field : FieldCached fz) (positions : List (Fin fz))
    (tuple : TestItem tz)
    : TestItem tz :=
  positions.foldl
    (fun stored cIdx => writeUsize stored self.fields[cIdx].beginAt.toNat field[cIdx]) tuple

def writeBack (self : FieldItemSchema fz tz) (field : FieldCached fz) (tuple : TestItem tz)
    : TestItem tz :=
  self.storeFields field (List.finRange fz) tuple

/-- `matches`, which this schema overrides. -/
def matchesQuery (self : FieldItemSchema fz tz) (query : List Field) : Bool :=
  query.all (fun field => (self.position field).isSome)

def toCachedField (self : FieldItemSchema fz tz) (tupleField : Field) : Option Field :=
  (self.position tupleField).map (fun i => .fromSpan ⟨i * 8, 8⟩)

/-- The schema on the bytes of tuples and cached records, as the cache uses it. -/
def schema (self : FieldItemSchema fz tz) : Schema where
  toCached := fun tuple => bytesOf (self.toCached (wordsOf tz tuple))
  writeBack := fun field tuple =>
    bytesOf (self.writeBack (wordsOf fz field) (wordsOf tz tuple))
  toCachedField := self.toCachedField

end FieldItemSchema

/-- The field is one of the words of a tuple. -/
structure Field.IsWord (tz : Nat) (field : Field) : Prop where
  wide : field.size = 8
  aligned : 8 ∣ field.beginAt.toNat
  inside : field.beginAt.toNat + 8 ≤ 8 * tz

/-- A word is known by its offset. -/
theorem Field.IsWord.ext {tz : Nat} {first second : Field} (left : first.IsWord tz)
    (right : second.IsWord tz) (same : first.beginAt.toNat / 8 = second.beginAt.toNat / 8)
    : first = second := by
  have ending {field : Field} (word : field.IsWord tz) : field.endAt = field.beginAt + 8 := by
    have size : field.endAt - field.beginAt = 8 := UInt16.toNat_inj.mp word.wide
    rw [← size, UInt16.add_comm, UInt16.sub_add_cancel]
  have starts : first.beginAt = second.beginAt := by
    apply UInt16.toNat_inj.mp
    rw [← Nat.div_mul_cancel left.aligned, ← Nat.div_mul_cancel right.aligned, same]
  cases first with
  | mk start stop =>
      cases second with
      | mk start' stop' =>
          obtain rfl : start = start' := starts
          exact congrArg _ ((ending left).trans (ending right).symm)

namespace FieldItemSchema

variable {fz tz : Nat} {self : FieldItemSchema fz tz}

/-- Distinct words of the tuple. -/
structure WellFormed (schema : FieldItemSchema fz tz) : Prop where
  distinct : schema.fields.toList.Nodup
  words : ∀ field ∈ schema.fields.toList, field.IsWord tz

/-- The word of the tuple that a cached word stands for. -/
def wordIndex (self : FieldItemSchema fz tz) (position : Fin fz) : Nat :=
  self.fields[position].beginAt.toNat / 8

namespace WellFormed

theorem isWord (formed : self.WellFormed) (position : Fin fz)
    : self.fields[position].IsWord tz :=
  formed.words _ (Vector.mem_toList_iff.mpr (Vector.getElem_mem position.isLt))

theorem wordIndex_lt (formed : self.WellFormed) (position : Fin fz)
    : self.wordIndex position < tz := by
  have inside := (formed.isWord position).inside
  unfold wordIndex
  omega

theorem wordIndex_inj (formed : self.WellFormed) : Function.Injective self.wordIndex := by
  intro first second same
  have equal := (formed.isWord first).ext (formed.isWord second) same
  have listed (place : Fin fz) : self.fields.toList[place.val]? = some self.fields[place] := by
    simp
  have known : first.val < self.fields.toList.length := by simp
  exact Fin.ext ((List.getElem?_inj known formed.distinct).mp (by rw [listed, listed, equal]))

/-- Offsets have 16 bits, so there are at most 8192 distinct words. -/
theorem position_lt (formed : self.WellFormed) (position : Fin fz) : position.val < 8192 := by
  have bounded (place : Fin fz) : self.wordIndex place < 8192 := by
    have small := self.fields[place].beginAt.toNat_lt
    unfold wordIndex
    omega
  have few := Fintype.card_le_of_injective
    (fun place : Fin fz => (⟨self.wordIndex place, bounded place⟩ : Fin 8192))
    (fun first second same => formed.wordIndex_inj (congrArg Fin.val same))
  simp only [Fintype.card_fin] at few
  exact Nat.lt_of_lt_of_le position.isLt few

end WellFormed

/-! ### Loading and storing -/

theorem getElem_toCached (formed : self.WellFormed) (tuple : TestItem tz) (position : Fin fz)
    : tuple[self.wordIndex position]? = some (self.toCached tuple)[position] := by
  have inside := formed.wordIndex_lt position
  have word : tuple[self.wordIndex position]? = some tuple[self.wordIndex position] :=
    Vector.getElem?_eq_getElem inside
  have cached
      : (self.toCached tuple)[position] = tuple[self.wordIndex position]?.getD 0 := by
    simp [toCached, wordIndex]
  rw [cached, word, Option.getD_some]

/-- Stores to other words, by induction on the stores. -/
theorem storeFields_miss (formed : self.WellFormed) (field : FieldCached fz)
    (tuple : TestItem tz) {positions : List (Fin fz)} {index : Nat} (inside : index < tz)
    (misses : ∀ position ∈ positions, self.wordIndex position ≠ index)
    : (self.storeFields field positions tuple)[index] = tuple[index] := by
  induction positions generalizing tuple with
  | nil => rfl
  | cons position rest ih =>
      have here := misses position (by simp)
      have later := fun other member => misses other (List.mem_cons_of_mem _ member)
      refine (ih (writeUsize tuple _ _) later).trans ?_
      rw [getElem_writeUsize _ (formed.isWord position).aligned]
      exact if_neg here

/-- A stored word stays: the stores after it go to other words. -/
theorem storeFields_hit (formed : self.WellFormed) (field : FieldCached fz)
    (tuple : TestItem tz) {positions : List (Fin fz)} {position : Fin fz} {index : Nat}
    (inside : index < tz) (word : self.wordIndex position = index)
    (member : position ∈ positions)
    : (self.storeFields field positions tuple)[index] = field[position] := by
  induction positions generalizing tuple with
  | nil => cases member
  | cons first rest ih =>
      by_cases again : position ∈ rest
      · exact ih (writeUsize tuple _ _) again
      · obtain rfl : position = first := (List.mem_cons.mp member).resolve_right again
        have misses : ∀ other ∈ rest, self.wordIndex other ≠ index := by
          rintro other listed same
          exact again (formed.wordIndex_inj (word.trans same.symm) ▸ listed)
        refine (storeFields_miss formed field (writeUsize tuple _ _) inside misses).trans ?_
        rw [getElem_writeUsize _ (formed.isWord position).aligned]
        exact if_pos word

theorem writeBack_hit (formed : self.WellFormed) (field : FieldCached fz) (tuple : TestItem tz)
    {position : Fin fz} {index : Nat} (inside : index < tz)
    (word : self.wordIndex position = index)
    : (self.writeBack field tuple)[index] = field[position] :=
  storeFields_hit formed field tuple inside word (List.mem_finRange position)

theorem writeBack_miss (formed : self.WellFormed) (field : FieldCached fz) (tuple : TestItem tz)
    {index : Nat} (inside : index < tz) (misses : ∀ position, self.wordIndex position ≠ index)
    : (self.writeBack field tuple)[index] = tuple[index] :=
  storeFields_miss formed field tuple inside (fun position _ => misses position)

theorem writeBack_toCached (formed : self.WellFormed) (tuple : TestItem tz)
    : self.writeBack (self.toCached tuple) tuple = tuple := by
  apply Vector.ext
  intro index inside
  by_cases listed : ∃ position, self.wordIndex position = index
  · obtain ⟨position, word⟩ := listed
    rw [writeBack_hit formed _ _ inside word]
    have loaded := getElem_toCached formed tuple position
    rw [word, Vector.getElem?_eq_getElem inside] at loaded
    exact (Option.some.inj loaded).symm
  · exact writeBack_miss formed _ _ inside (fun position word => listed ⟨position, word⟩)

theorem toCached_writeBack (formed : self.WellFormed) (field : FieldCached fz)
    (tuple : TestItem tz)
    : self.toCached (self.writeBack field tuple) = field := by
  apply Vector.ext
  intro index inside
  have loaded := getElem_toCached formed (self.writeBack field tuple) ⟨index, inside⟩
  have bound := formed.wordIndex_lt ⟨index, inside⟩
  rw [Vector.getElem?_eq_getElem bound, writeBack_hit formed field tuple bound rfl] at loaded
  exact (Option.some.inj loaded).symm

/-! ### Fields -/

theorem position_eq_some {field : Field} {i : Nat} (found : self.position field = some i)
    : ∃ position : Fin fz, position.val = i ∧ self.fields[position] = field := by
  obtain ⟨inside, equal, _⟩ := List.findIdx?_eq_some_iff_getElem.mp found
  have small : i < fz := by simpa using inside
  exact ⟨⟨i, small⟩, rfl, by simpa using equal⟩

/-- A cached field is a whole word of the cached record; its offset fits 16 bits. -/
theorem toCachedField_eq_some (formed : self.WellFormed) {field place : Field}
    (cached : self.toCachedField field = some place)
    : ∃ position : Fin fz, self.fields[position] = field
      ∧ place.beginAt.toNat = 8 * position ∧ place.size = 8 := by
  obtain ⟨i, found, rfl⟩ := Option.map_eq_some_iff.mp cached
  obtain ⟨position, rfl, equal⟩ := position_eq_some found
  have small := formed.position_lt position
  refine ⟨position, equal, ?_, ?_⟩
  · have fits : position.val * 8 < 2 ^ 16 := by omega
    exact (UInt16.toNat_ofNat_of_lt' fits).trans (Nat.mul_comm _ _)
  · have sum : UInt16.ofNat (position.val * 8 + 8) = UInt16.ofNat (position.val * 8) + 8 :=
      UInt16.ofNat_add ..
    have wide : UInt16.ofNat (position.val * 8 + 8) - UInt16.ofNat (position.val * 8) = 8 := by
      rw [sum, UInt16.add_comm, UInt16.add_sub_cancel]
    exact congrArg UInt16.toNat wide

theorem toCachedField_eq_none {field : Field} (cached : self.toCachedField field = none)
    (position : Fin fz)
    : self.fields[position] ≠ field := by
  intro equal
  have missed := List.findIdx?_eq_none_iff.mp (Option.map_eq_none_iff.mp cached) field
    (Vector.mem_toList_iff.mpr (equal ▸ Vector.getElem_mem position.isLt))
  simp at missed

/-- For every word of the tuple, the schema obeys the law that the cache relies on. -/
theorem fieldLaw (formed : self.WellFormed) {field : Field} (word : field.IsWord tz)
    (tuple cached : Image Byte)
    : self.schema.FieldLaw field tuple cached := by
  have span : field.span = ⟨8 * (field.beginAt.toNat / 8), 8⟩ := by
    rw [Field.span, word.wide, Nat.mul_div_cancel' word.aligned]
  have inside : field.beginAt.toNat / 8 < tz := by
    have := word.inside
    omega
  constructor
  · intro place found
    obtain ⟨position, rfl, start, size⟩ := toCachedField_eq_some formed found
    have loaded := getElem_toCached formed (wordsOf tz tuple) position
    rw [wordIndex, Vector.getElem?_eq_getElem inside, getElem_wordsOf] at loaded
    have placed : place.span = ⟨8 * position.val, 8⟩ := by rw [Field.span, start, size]
    rw [span, ← encode_wordAt, Option.some.inj loaded, placed]
    exact read_bytesOf position.isLt
  · intro place found
    obtain ⟨position, rfl, start, size⟩ := toCachedField_eq_some formed found
    have placed : place.span = ⟨8 * position.val, 8⟩ := by rw [Field.span, start, size]
    have stored
        : (self.writeBack (wordsOf fz cached) (wordsOf tz tuple))[
            self.fields[position].beginAt.toNat / 8]
          = wordAt cached (8 * position) :=
      (writeBack_hit formed _ _ inside rfl).trans (getElem_wordsOf position.isLt)
    rw [span, placed, ← encode_wordAt cached, ← stored]
    exact read_bytesOf inside
  · intro missed
    have misses : ∀ position, self.wordIndex position ≠ field.beginAt.toNat / 8 :=
      fun position same =>
        toCachedField_eq_none missed position ((formed.isWord position).ext word same)
    have kept
        : (self.writeBack (wordsOf fz cached) (wordsOf tz tuple))[field.beginAt.toNat / 8]
          = wordAt tuple (8 * (field.beginAt.toNat / 8)) := by
      rw [writeBack_miss formed _ _ inside misses, getElem_wordsOf]
    rw [span, ← encode_wordAt tuple, ← kept]
    exact read_bytesOf inside

/-- So a cache over such tuples is transparent for all of their words. -/
theorem lensLaws (formed : self.WellFormed) {fields : List Field}
    (words : ∀ field ∈ fields, field.IsWord tz)
    : self.schema.LensLaws fields :=
  fun field declared tuple cached => fieldLaw formed (words field declared) tuple cached

/-- Loading and storing the chosen words: storing what was loaded changes nothing, loading gives
what was stored, and other words stay. A query matches if each of its fields is cached, as in
the default `matches`. A cached field is a word of the cached record, the one it stands for.
-/
theorem lens_laws (schema : FieldItemSchema fz tz) (formed : schema.WellFormed)
    (tuple : TestItem tz) (cached : FieldCached fz)
    : schema.writeBack (schema.toCached tuple) tuple = tuple
      ∧ schema.toCached (schema.writeBack cached tuple) = cached
      ∧ (∀ index (_ : index < tz),
          (∀ field ∈ schema.fields.toList, field.beginAt.toNat / 8 ≠ index)
          → (schema.writeBack cached tuple)[index] = tuple[index])
      ∧ (∀ query : List Field,
          (schema.matchesQuery query = true
            ↔ ∀ field ∈ query, (schema.toCachedField field).isSome = true)
          ∧ schema.matchesQuery query = schema.schema.matchesQuery query)
      ∧ (∀ field place, schema.toCachedField field = some place
        → place.IsWord fz
          ∧ wordAt (bytesOf (schema.toCached tuple)) place.beginAt.toNat
            = wordAt (bytesOf tuple) field.beginAt.toNat) := by
  refine ⟨writeBack_toCached formed tuple, toCached_writeBack formed cached tuple, ?_, ?_, ?_⟩
  · intro index inside misses
    refine writeBack_miss formed cached tuple inside (fun position => misses _ ?_)
    exact Vector.mem_toList_iff.mpr (Vector.getElem_mem position.isLt)
  · intro query
    simp [matchesQuery, Schema.matchesQuery, FieldItemSchema.schema, toCachedField]
  · intro field place found
    obtain ⟨position, rfl, start, size⟩ := toCachedField_eq_some formed found
    have small := position.isLt
    refine ⟨⟨size, ⟨_, start⟩, by omega⟩, ?_⟩
    have aligned := Nat.mul_div_cancel' (formed.isWord position).aligned
    have inside : schema.fields[position].beginAt.toNat / 8 < tz := formed.wordIndex_lt position
    have loaded := getElem_toCached formed tuple position
    rw [wordIndex, Vector.getElem?_eq_getElem inside] at loaded
    rw [start, wordAt_bytesOf small, ← aligned, wordAt_bytesOf inside]
    exact (Option.some.inj loaded).symm

/-- Two of three words, in another order. -/
theorem lens_laws_two_of_three
    : (⟨#v[⟨16, 24⟩, ⟨0, 8⟩]⟩ : FieldItemSchema 2 3).WellFormed
      ∧ (⟨#v[⟨16, 24⟩, ⟨0, 8⟩]⟩ : FieldItemSchema 2 3).toCached
          ((⟨#v[⟨16, 24⟩, ⟨0, 8⟩]⟩ : FieldItemSchema 2 3).writeBack #v[7, 9] #v[1, 2, 3])
        = #v[7, 9] := by
  have formed : (⟨#v[⟨16, 24⟩, ⟨0, 8⟩]⟩ : FieldItemSchema 2 3).WellFormed := by
    refine ⟨by decide, ?_⟩
    intro field member
    rcases List.mem_pair.mp member with rfl | rfl <;> exact ⟨by decide, by decide, by decide⟩
  exact ⟨formed, (lens_laws _ formed #v[1, 2, 3] #v[7, 9]).2.1⟩

end FieldItemSchema

end Alchemy.Cache
