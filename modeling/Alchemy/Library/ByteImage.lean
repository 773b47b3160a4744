import Mathlib.Algebra.Group.Nat.Defs
import Mathlib.Data.List.Basic
import Mathlib.Data.List.Pairwise

/-! Records as images of their bytes, and the C layout of a struct.
Member-by-member assignments between two images copy spans. When the spans written are
disjoint, each one ends up with the bytes copied to it and every other span keeps its own.
-/

namespace ByteImage

variable {β ν : Type*}

/-- The byte at each offset of a record. -/
abbrev Image (β : Type*) := Nat → β

structure Span where
  start : Nat
  size : Nat
deriving DecidableEq, Repr

def Span.stop (span : Span) : Nat :=
  span.start + span.size

def Span.Disjoint (first second : Span) : Prop :=
  first.stop ≤ second.start ∨ second.stop ≤ first.start

theorem Span.Disjoint.symm {first second : Span} (apart : first.Disjoint second)
    : second.Disjoint first :=
  Or.symm apart

/-- The offset is one of the span's. -/
def Span.Covers (span : Span) (index : Nat) : Prop :=
  span.start ≤ index ∧ index < span.stop

instance (span : Span) (index : Nat) : Decidable (span.Covers index) :=
  inferInstanceAs (Decidable (_ ∧ _))

def read (image : Image β) (span : Span) : List β :=
  (List.range span.size).map (fun index => image (span.start + index))

/-- `image` with `bytes` stored from offset `start` on. -/
def write (image : Image β) (start : Nat) (bytes : List β) : Image β :=
  fun index => if start ≤ index then bytes[index - start]?.getD (image index) else image index

/-- `dst` with `span` overwritten from offset `origin` of `src` on. -/
def copy (dst : Image β) (span : Span) (src : Image β) (origin : Nat) : Image β :=
  fun index =>
    if span.start ≤ index ∧ index < span.stop then src (origin + (index - span.start))
    else dst index

/-- Copy each second span of `src` to the first one of `dst`, in order. -/
def copyAll (dst src : Image β) (moves : List (Span × Span)) : Image β :=
  moves.foldl (fun image move => copy image move.1 src move.2.start) dst

/-! ### Reading what was copied or written -/

theorem read_congr {image other : Image β} {span : Span}
    (same : ∀ index, span.start ≤ index → index < span.stop → image index = other index)
    : read image span = read other span := by
  apply List.map_congr_left
  intro index member
  have small := List.mem_range.mp member
  exact same _ (Nat.le_add_right _ _) (Nat.add_lt_add_left small _)

/-- Two reads agree when the sizes do and every byte does. -/
theorem read_eq_read {left right : Image β} {span other : Span}
    : read left span = read right other
      ↔ span.size = other.size
        ∧ ∀ index < span.size, left (span.start + index) = right (other.start + index) := by
  constructor
  · intro same
    have sizes : span.size = other.size := by
      simpa [read] using congrArg List.length same
    refine ⟨sizes, ?_⟩
    intro index small
    have byte := congrArg (fun bytes => bytes[index]?) same
    simpa [read, small, sizes ▸ small] using byte
  · rintro ⟨sizes, bytes⟩
    rw [read, read, ← sizes]
    exact List.map_congr_left (fun index member => bytes index (List.mem_range.mp member))

/-- Neighbouring spans are read one after the other. -/
theorem read_append (image : Image β) (start first second : Nat)
    : read image ⟨start, first + second⟩
      = read image ⟨start, first⟩ ++ read image ⟨start + first, second⟩ := by
  simp only [read, List.range_add, List.map_append, List.map_map]
  refine congrArg (_ ++ ·) (List.map_congr_left (fun index _ => ?_))
  exact congrArg image (Nat.add_assoc ..).symm

theorem write_inside {image : Image β} {start index : Nat} {bytes : List β}
    (inside : index < bytes.length)
    : write image start bytes (start + index) = bytes[index] := by
  simp [write, inside]

theorem write_outside {image : Image β} {start offset : Nat} {bytes : List β}
    (outside : offset < start ∨ start + bytes.length ≤ offset)
    : write image start bytes offset = image offset := by
  unfold write
  split
  · rw [List.getElem?_eq_none (by omega), Option.getD_none]
  · rfl

/-- A copy stores the bytes of its source. -/
theorem copy_eq_write (dst : Image β) (span : Span) (src : Image β) (origin : Nat)
    : copy dst span src origin = write dst span.start (read src ⟨origin, span.size⟩) := by
  funext index
  rw [copy, write]
  by_cases low : span.start ≤ index
  · by_cases high : index < span.stop
    · have small : index - span.start < span.size := by
        unfold Span.stop at high
        omega
      simp [low, high, small, read]
    · have large : ¬index - span.start < span.size := by
        unfold Span.stop at high
        omega
      simp [low, high, large, read]
  · rw [if_neg (fun both => low both.1), if_neg low]

theorem read_copy_self {dst src : Image β} {span origin : Span} (sizes : span.size = origin.size)
    : read (copy dst span src origin.start) span = read src origin := by
  unfold read
  rw [sizes]
  apply List.map_congr_left
  intro index member
  have small := List.mem_range.mp member
  rw [copy, if_pos ⟨Nat.le_add_right _ _, by unfold Span.stop; omega⟩,
    Nat.add_sub_cancel_left]

theorem read_copy_disjoint {dst src : Image β} {span other : Span} {origin : Nat}
    (apart : span.Disjoint other)
    : read (copy dst span src origin) other = read dst other := by
  apply read_congr
  intro index low high
  refine if_neg ?_
  rcases apart with before | after <;> omega

theorem read_copyAll_disjoint {dst src : Image β} {moves : List (Span × Span)} {other : Span}
    (apart : ∀ move ∈ moves, move.1.Disjoint other)
    : read (copyAll dst src moves) other = read dst other := by
  induction moves generalizing dst with
  | nil => rfl
  | cons move rest ih =>
      have later (image : Image β) : read (copyAll image src rest) other = read image other :=
        ih (fun move' member => apart move' (List.mem_cons_of_mem _ member))
      exact (later _).trans (read_copy_disjoint (apart move (by simp)))

/-- A byte outside of all targets stays, by induction on the copies. -/
theorem copyAll_outside {dst src : Image β} {moves : List (Span × Span)} {index : Nat}
    (outside : ∀ move ∈ moves, ¬ move.1.Covers index)
    : copyAll dst src moves index = dst index := by
  induction moves generalizing dst with
  | nil => rfl
  | cons move rest ih =>
      have later (image : Image β) : copyAll image src rest index = image index :=
        ih (fun move' member => outside move' (List.mem_cons_of_mem _ member))
      exact (later _).trans (if_neg (outside move (by simp)))

/-- The last copy decides; disjoint targets make every copy the last one for its target. -/
theorem read_copyAll_mem {dst src : Image β} {moves : List (Span × Span)} {span origin : Span}
    (apart : moves.Pairwise (fun first second => first.1.Disjoint second.1))
    (sizes : span.size = origin.size) (member : (span, origin) ∈ moves)
    : read (copyAll dst src moves) span = read src origin := by
  induction moves generalizing dst with
  | nil => simp at member
  | cons first rest ih =>
      obtain ⟨here, later⟩ := List.pairwise_cons.mp apart
      rcases List.mem_cons.mp member with rfl | inRest
      · have kept (image : Image β) : read (copyAll image src rest) span = read image span :=
          read_copyAll_disjoint (fun move' later => (here move' later).symm)
        exact (kept _).trans (read_copy_self sizes)
      · exact ih later inRest

theorem read_write_self {image : Image β} {span : Span} {bytes : List β}
    (sizes : bytes.length = span.size)
    : read (write image span.start bytes) span = bytes := by
  apply List.ext_getElem?
  intro index
  rcases Nat.lt_or_ge index span.size with small | large
  · simp [read, write, small, sizes]
  · rw [List.getElem?_eq_none (by simpa [read] using large),
      List.getElem?_eq_none (by omega)]

theorem read_write_disjoint {image : Image β} {span other : Span} {bytes : List β}
    (sizes : bytes.length = span.size) (apart : span.Disjoint other)
    : read (write image span.start bytes) other = read image other := by
  apply read_congr
  intro index low high
  unfold write
  split
  · rw [List.getElem?_eq_none]
    · rfl
    · unfold Span.Disjoint Span.stop at *
      omega
  · rfl

/-! ### The C layout of a struct -/

section Layout

variable (size align : ν → Nat)

def alignUp (offset align : Nat) : Nat :=
  (offset + align - 1) / align * align

/-- Members in declaration order, each at the next offset its alignment allows. -/
def offsets : Nat → List ν → List (ν × Nat)
  | _, [] => []
  | offset, name :: rest =>
      let start := alignUp offset (align name)
      (name, start) :: offsets (start + size name) rest

/-- The span of a member. -/
def reprC [DecidableEq ν] (order : List ν) (name : ν) : Span where
  start := (((offsets size align 0 order).find? (fun entry => entry.1 = name)).map Prod.snd).getD 0
  size := size name

variable {size align}

theorem le_alignUp {offset step : Nat} (positive : 0 < step) : offset ≤ alignUp offset step := by
  have split := Nat.div_add_mod (offset + step - 1) step
  have small := Nat.mod_lt (offset + step - 1) positive
  rw [alignUp, Nat.mul_comm]
  omega

theorem le_of_mem_offsets {offset : Nat} {order : List ν} {entry : ν × Nat}
    (positive : ∀ name, 0 < align name) (member : entry ∈ offsets size align offset order)
    : offset ≤ entry.2 := by
  induction order generalizing offset with
  | nil => simp [offsets] at member
  | cons name rest ih =>
      have aligned : offset ≤ alignUp offset (align name) := le_alignUp (positive name)
      rcases List.mem_cons.mp member with rfl | later
      · exact aligned
      · exact Nat.le_trans aligned (Nat.le_trans (Nat.le_add_right _ _) (ih later))

/-- Members do not overlap, by induction on the declarations. -/
theorem offsets_pairwise {offset : Nat} {order : List ν} (positive : ∀ name, 0 < align name)
    : (offsets size align offset order).Pairwise
        (fun first second => Span.Disjoint ⟨first.2, size first.1⟩ ⟨second.2, size second.1⟩) := by
  induction order generalizing offset with
  | nil => exact List.Pairwise.nil
  | cons name rest ih =>
      refine List.pairwise_cons.mpr ⟨?_, ih⟩
      intro entry member
      exact .inl (le_of_mem_offsets positive member)

theorem offsets_names {offset : Nat} {order : List ν}
    : (offsets size align offset order).map Prod.fst = order := by
  induction order generalizing offset with
  | nil => rfl
  | cons name rest ih => simp [offsets, ih]

theorem reprC_mem [DecidableEq ν] {order : List ν} {name : ν} (declared : name ∈ order)
    : (name, (reprC size align order name).start) ∈ offsets size align 0 order := by
  have listed : name ∈ (offsets size align 0 order).map Prod.fst := by
    rw [offsets_names]
    exact declared
  obtain ⟨entry, member, rfl⟩ := List.mem_map.mp listed
  have found : ((offsets size align 0 order).find? (fun other => other.1 = entry.1)).isSome :=
    List.find?_isSome.mpr ⟨entry, member, by simp⟩
  obtain ⟨first, search⟩ := Option.isSome_iff_exists.mp found
  have same : first.1 = entry.1 := by simpa using List.find?_some search
  rw [reprC, search, ← same]
  exact List.mem_of_find?_eq_some search

/-- Distinct members of a C struct have disjoint spans. -/
theorem reprC_disjoint [DecidableEq ν] {order : List ν} {first second : ν}
    (positive : ∀ name, 0 < align name)
    (declared : first ∈ order) (declaredToo : second ∈ order) (different : first ≠ second)
    : (reprC size align order first).Disjoint (reprC size align order second) := by
  have symmetric : Std.Symm (fun first second : ν × Nat =>
      Span.Disjoint ⟨first.2, size first.1⟩ ⟨second.2, size second.1⟩) :=
    ⟨fun _ _ apart => apart.symm⟩
  exact (offsets_pairwise positive).forall (reprC_mem declared) (reprC_mem declaredToo)
    (fun same => different (congrArg Prod.fst same))

end Layout

end ByteImage
