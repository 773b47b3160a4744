import Alchemy.Log.Logger

/-! The slices `acquire_log_buffer` hands out.
The reservation is a plain `fetch_add`, so an entry whose offset is close to the end of a
buffer gets a slice that runs past the allocation.
-/

namespace Alchemy.Log

open Interleaving BufferRing

/-- A call that reserves log bytes. -/
inductive LogCall
  | acquire (size : Nat)
  | append (val : List Byte)
deriving DecidableEq, Repr

def LogCall.size : LogCall → Nat
  | .acquire size => size
  | .append val => val.length

/-- The calls of all threads in the order of their `fetch_add`s; a call reports the slice
it reserved.
-/
def reserveStep {τ : Type} (logger : Logger) (action : τ × LogCall) : Option (Logger × Slice) :=
  match action.2 with
  | .acquire size => some (logger.acquireLogBuffer size)
  | .append val => some (logger.appendLog val, (logger.acquireLogBuffer val.length).2)

section Slices

variable {τ : Type} {logger next : Logger} {action : τ × LogCall} {slice : Slice}
  {buffers : Nat → Nat → Byte} {size : Nat}
  {trace before middle : List ((τ × LogCall) × Slice)}

/-- The log bytes reserved along a trace. -/
def reservedBytes (trace : List ((τ × LogCall) × Slice)) : Nat :=
  (trace.map (fun entry => entry.2.size)).sum

/-- The slice is inside one of the two buffers. -/
def InBounds (logger : Logger) (_ : τ × LogCall) (slice : Slice) (_ : Logger) : Prop :=
  slice.buffer < bufferCnt ∧ slice.offset + slice.size ≤ logger.bufferSize

/-- The entry does not cross a multiple of the buffer size. -/
def NoCrossing (logger : Logger) (action : τ × LogCall) (_ : Slice) (_ : Logger) : Prop :=
  logger.curOffset % logger.bufferSize + action.2.size ≤ logger.bufferSize

/-- The `fetch_add` does not wrap, or wrapping keeps the place in the ring of buffers. -/
def NoWrap (logger : Logger) (action : τ × LogCall) (_ : Slice) (_ : Logger) : Prop :=
  logger.curOffset + action.2.size < wordSize
  ∨ logger.bufferSize * bufferCnt ∣ wordSize

def Slice.Overlaps (first second : Slice) : Prop :=
  ∃ buffer index, first.Covers buffer index ∧ second.Covers buffer index

/-- What every call does. -/
theorem reserveStep_spec (taken : reserveStep logger action = some (next, slice))
    : slice = (logger.acquireLogBuffer action.2.size).2
      ∧ next.curOffset = (logger.curOffset + action.2.size) % wordSize
      ∧ next.bufferSize = logger.bufferSize := by
  obtain ⟨t, call⟩ := action
  cases call with
  | acquire size =>
      obtain ⟨rfl, rfl⟩ := Prod.mk.inj (Option.some.inj taken)
      exact ⟨rfl, rfl, rfl⟩
  | append val =>
      obtain ⟨rfl, rfl⟩ := Prod.mk.inj (Option.some.inj taken)
      exact ⟨rfl, rfl, rfl⟩

/-- A slice is in bounds exactly when its entry does not cross. -/
theorem inBounds_iff (taken : reserveStep logger action = some (next, slice))
    : InBounds logger action slice next ↔ NoCrossing logger action slice next := by
  obtain ⟨rfl, _, _⟩ := reserveStep_spec taken
  exact and_iff_right (Nat.mod_lt _ (by decide))

theorem bufferSize_of_run
    (run : Run reserveStep (Logger.withBufferSize size buffers) trace logger)
    : logger.bufferSize = size := by
  induction run with
  | start => rfl
  | extend _ taken ih => exact (reserveStep_spec taken).2.2.trans ih

/-- Between two states of a run the offset grows by the bytes reserved, up to turns of the
ring. Witness: induction on the calls between them.
-/
theorem curOffset_modEq {first last : Logger}
    (earlier : Run reserveStep (Logger.withBufferSize size buffers) before first)
    (run : Run reserveStep (Logger.withBufferSize size buffers) (before ++ middle) last)
    (noWrap : Along reserveStep (Logger.withBufferSize size buffers) (before ++ middle) NoWrap)
    : last.curOffset ≡ first.curOffset + reservedBytes middle [MOD size * bufferCnt] := by
  induction middle using List.reverseRecOn generalizing last with
  | nil =>
      rw [List.append_nil] at run
      rw [run.state_unique earlier]
      exact Nat.ModEq.refl _
  | append_singleton middle entry ih =>
      rw [← List.append_assoc] at run noWrap
      obtain ⟨state, reached, taken⟩ := run.last_step
      obtain ⟨past, here⟩ := (along_extend reached taken).mp noWrap
      obtain ⟨slice, offset, _⟩ := reserveStep_spec taken
      have advanced : last.curOffset ≡ state.curOffset + entry.2.size [MOD size * bufferCnt] := by
        rw [offset, slice]
        rcases here with small | divides
        · rw [Nat.mod_eq_of_lt small]
          exact Nat.ModEq.refl _
        · rw [bufferSize_of_run reached] at divides
          exact Nat.mod_mod_of_dvd _ divides
      calc last.curOffset
          ≡ state.curOffset + entry.2.size [MOD size * bufferCnt] := advanced
        _ ≡ first.curOffset + reservedBytes middle + entry.2.size [MOD size * bufferCnt] :=
            (ih reached past).add_right _
        _ = first.curOffset + reservedBytes (middle ++ [entry]) := by
            simp [reservedBytes, Nat.add_assoc]

/-- Two slices reserved within one turn of the ring have no byte in common. -/
theorem not_overlaps_of_window {first second : (τ × LogCall) × Slice} {last : Logger}
    (run : Run reserveStep (Logger.withBufferSize size buffers)
      (before ++ first :: middle ++ [second]) last)
    (inside : Along reserveStep (Logger.withBufferSize size buffers)
      (before ++ first :: middle ++ [second]) NoCrossing)
    (noWrap : Along reserveStep (Logger.withBufferSize size buffers)
      (before ++ first :: middle ++ [second]) NoWrap)
    (window : first.2.size + reservedBytes middle + second.2.size ≤ size * bufferCnt)
    : ¬ first.2.Overlaps second.2 := by
  obtain ⟨later, reachedLater, takenLater⟩ := run.last_step
  obtain ⟨insideEarlier, insideLater⟩ := (along_extend reachedLater takenLater).mp inside
  obtain ⟨noWrapEarlier, _⟩ := (along_extend reachedLater takenLater).mp noWrap
  have split := reachedLater
  rw [List.append_cons] at split
  obtain ⟨_, toFirst, _⟩ := split.split
  obtain ⟨early, reachedEarly, takenEarly⟩ := toFirst.last_step
  have insideFirst := insideEarlier before first.1 first.2 middle early _ rfl reachedEarly takenEarly
  have distance := curOffset_modEq reachedEarly reachedLater noWrapEarlier
  rintro ⟨buffer, index, covers, coversToo⟩
  rw [(reserveStep_spec takenEarly).1, Logger.covers_iff insideFirst] at covers
  rw [(reserveStep_spec takenLater).1, Logger.covers_iff insideLater] at coversToo
  obtain ⟨step, small, place⟩ := covers
  obtain ⟨step', small', place'⟩ := coversToo
  rw [bufferSize_of_run reachedEarly] at place
  rw [bufferSize_of_run reachedLater, ← place] at place'
  have same := (modEq_of_slot_eq place').symm.trans (distance.add_right step')
  have total : reservedBytes (first :: middle) = first.2.size + reservedBytes middle := by
    simp [reservedBytes]
  rw [total] at same
  rw [(reserveStep_spec takenEarly).1] at same window
  rw [(reserveStep_spec takenLater).1] at window
  simp only [Logger.acquireLogBuffer] at same window
  exact not_modEq_of_lt (by omega) (by omega) same

/-- A log slice lies inside its buffer exactly when its entry does not cross a multiple of
the buffer size. If no entry crosses and the offset does not wrap, slices reserved within
one window of both buffers have no byte in common.
-/
theorem log_slices_in_bounds_iff
    (run : Run reserveStep (Logger.withBufferSize size buffers) trace logger)
    : (Along reserveStep (Logger.withBufferSize size buffers) trace InBounds
        ↔ Along reserveStep (Logger.withBufferSize size buffers) trace NoCrossing)
      ∧ (Along reserveStep (Logger.withBufferSize size buffers) trace NoCrossing
          → Along reserveStep (Logger.withBufferSize size buffers) trace NoWrap
          → ∀ before first middle second after,
              trace = before ++ first :: middle ++ second :: after
              → first.2.size + reservedBytes middle + second.2.size ≤ size * bufferCnt
              → ¬ first.2.Overlaps second.2) := by
  refine ⟨along_congr (fun _ taken => inBounds_iff taken), ?_⟩
  rintro inside noWrap before first middle second after rfl window
  rw [List.append_cons] at run
  obtain ⟨state, reached, _⟩ := run.split
  rw [List.append_cons] at inside noWrap
  exact not_overlaps_of_window reached (along_left inside) (along_left noWrap) window

end Slices

/-- A logger with the smallest buffers that hold every entry. -/
def smallLogger : Logger :=
  Logger.withBufferSize 512 (fun _ _ => 0)

/-- With buffers of `MAX_LOG_LEN` bytes, two entries of 300 bytes: the second slice ends at
byte 600 of a buffer of 512.
-/
theorem log_slice_leaves_buffer
    : ¬ ∀ (size : Nat) (buffers : Nat → Nat → Byte) (trace : List ((Unit × LogCall) × Slice))
        (logger : Logger),
        maxLogLen ≤ size
        → (∀ entry ∈ trace, 1 ≤ entry.1.2.size ∧ entry.1.2.size ≤ maxLogLen)
        → Run reserveStep (Logger.withBufferSize size buffers) trace logger
        → Along reserveStep (Logger.withBufferSize size buffers) trace InBounds := by
  intro all
  have first : reserveStep smallLogger ((), .acquire 300)
      = some ((smallLogger.acquireLogBuffer 300).1, ⟨0, 0, 300⟩) := rfl
  have second : reserveStep (smallLogger.acquireLogBuffer 300).1 ((), .acquire 300)
      = some (((smallLogger.acquireLogBuffer 300).1.acquireLogBuffer 300).1, ⟨0, 300, 300⟩) :=
    rfl
  have inside := all 512 _ _ _ (by decide) (by simp [LogCall.size, maxLogLen])
    ((Run.single first).extend second)
  obtain ⟨_, bounds⟩ := ((along_extend (Run.single first) second).mp inside).2
  exact absurd bounds (by decide)

/-- Two entries of 256 bytes stay in their buffer and share no byte. -/
theorem log_slices_in_bounds_iff_halves
    : ∃ (trace : List ((Unit × LogCall) × Slice)),
        trace.map Prod.snd = [⟨0, 0, 256⟩, ⟨0, 256, 256⟩]
        ∧ Along reserveStep smallLogger trace InBounds
        ∧ ¬ Slice.Overlaps ⟨0, 0, 256⟩ ⟨0, 256, 256⟩ := by
  have first : reserveStep smallLogger ((), .acquire 256)
      = some ((smallLogger.acquireLogBuffer 256).1, ⟨0, 0, 256⟩) := rfl
  have second : reserveStep (smallLogger.acquireLogBuffer 256).1 ((), .acquire 256)
      = some (((smallLogger.acquireLogBuffer 256).1.acquireLogBuffer 256).1, ⟨0, 256, 256⟩) :=
    rfl
  have inside : Along reserveStep smallLogger _ NoCrossing :=
    (along_extend (Run.single first) second).mpr
      ⟨(along_extend .start first).mpr ⟨along_nil, (by decide : 0 % 512 + 256 ≤ 512)⟩,
        (by decide : 256 % 512 + 256 ≤ 512)⟩
  have noWrap : Along reserveStep smallLogger _ NoWrap :=
    (along_extend (Run.single first) second).mpr
      ⟨(along_extend .start first).mpr ⟨along_nil, .inl (by decide : 0 + 256 < wordSize)⟩,
        .inl (by decide : 256 + 256 < wordSize)⟩
  have sound := log_slices_in_bounds_iff ((Run.single first).extend second)
  exact ⟨_, rfl, sound.1.mpr inside, sound.2 inside noWrap [] _ [] _ [] rfl (by decide)⟩

end Alchemy.Log
