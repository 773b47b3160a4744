import Alchemy.Library.ByteImage

/-! Fields of a tuple and the `Schema` trait: what part of a tuple the cache keeps, and how it
is loaded and written back. Tuples and cached records are images of their bytes.
-/

namespace Alchemy.Cache

open ByteImage

abbrev Byte := UInt8

/-- A byte range of a tuple, from `beginAt` to `endAt`; both are `u16`. -/
structure Field where
  beginAt : UInt16
  endAt : UInt16
deriving DecidableEq, Repr

namespace Field

def fromSpan (span : Span) : Field where
  beginAt := UInt16.ofNat span.start
  endAt := UInt16.ofNat span.stop

def size (field : Field) : Nat :=
  (field.endAt - field.beginAt).toNat

def span (field : Field) : Span where
  start := field.beginAt.toNat
  size := field.size

theorem span_fromSpan {span : Span} (fits : span.stop < 2 ^ 16) : (fromSpan span).span = span := by
  have small : span.start < 2 ^ 16 := Nat.lt_of_le_of_lt (Nat.le_add_right _ _) fits
  have start : (fromSpan span).span.start = span.start := UInt16.toNat_ofNat_of_lt' small
  have size : (fromSpan span).span.size = span.size := by
    have ordered : (fromSpan span).beginAt ≤ (fromSpan span).endAt := by
      rw [UInt16.le_iff_toNat_le, fromSpan, UInt16.toNat_ofNat_of_lt' small,
        UInt16.toNat_ofNat_of_lt' fits]
      exact Nat.le_add_right _ _
    rw [Field.span, Field.size, UInt16.toNat_sub_of_le _ _ ordered, fromSpan,
      UInt16.toNat_ofNat_of_lt' small, UInt16.toNat_ofNat_of_lt' fits]
    exact Nat.add_sub_cancel_left _ _
  cases span with
  | mk spanStart spanSize => exact congrArg₂ Span.mk start size

end Field

/-- The trait `Schema`. `toCached` and `writeBack` act on the images of a tuple and of a
cached record.
-/
structure Schema where
  toCached : Image Byte → Image Byte
  writeBack : Image Byte → Image Byte → Image Byte
  toCachedField : Field → Option Field

/-- The default `matches`: the cached record holds every field of the query. -/
def Schema.matchesQuery (schema : Schema) (query : List Field) : Bool :=
  query.all (fun field => (schema.toCachedField field).isSome)

/-- What the cache relies on for one field, one tuple and one cached record: a cached field
is loaded from and written back to the field it stands for, any other is left alone.
-/
structure Schema.FieldLaw (schema : Schema) (field : Field) (tuple cached : Image Byte)
    : Prop where
  loaded : ∀ place, schema.toCachedField field = some place
    → read (schema.toCached tuple) place.span = read tuple field.span
  stored : ∀ place, schema.toCachedField field = some place
    → read (schema.writeBack cached tuple) field.span = read cached place.span
  untouched : schema.toCachedField field = none
    → read (schema.writeBack cached tuple) field.span = read tuple field.span

end Alchemy.Cache
