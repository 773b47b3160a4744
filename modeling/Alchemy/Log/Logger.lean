import Alchemy.Library.BufferRing
import Alchemy.Library.Interleaving

/-! The logger: appenders reserve log bytes with one `fetch_add` and copy into one of two
buffers; a single flusher writes a full buffer to the file and advances `flushed_offset`.
Nothing an appender does depends on `flushed_offset`.
-/

namespace Alchemy.Log

abbrev Byte := UInt8

def maxLogLen : Nat := 512

/-- The counters are `usize`. -/
def wordSize : Nat := 2 ^ 64

def bufferCnt : Nat := 2

/-- `buffers` maps a buffer and an index to the byte there; the buffers have
`bufferSize` bytes, an index past that is outside the allocation.
-/
structure Logger where
  lsn : Nat
  curOffset : Nat
  flushedOffset : Nat
  bufferSize : Nat
  buffers : Nat → Nat → Byte
  file : List Byte

/-- The slice `acquire_log_buffer` returns: `size` bytes of a buffer from `offset` on. -/
structure Slice where
  buffer : Nat
  offset : Nat
  size : Nat
deriving DecidableEq, Repr

def Slice.Covers (slice : Slice) (buffer index : Nat) : Prop :=
  buffer = slice.buffer ∧ slice.offset ≤ index ∧ index < slice.offset + slice.size

instance (slice : Slice) (buffer index : Nat) : Decidable (slice.Covers buffer index) :=
  inferInstanceAs (Decidable (_ ∧ _ ∧ _))

namespace Logger

/-- `with_buffer_size`: the buffers are allocated uninitialised. -/
def withBufferSize (bufferSize : Nat) (buffers : Nat → Nat → Byte) : Logger where
  lsn := 0
  curOffset := 0
  flushedOffset := 0
  bufferSize
  buffers
  file := []

def acquireLsn (self : Logger) : Logger × Nat :=
  ({ self with lsn := (self.lsn + 1) % wordSize }, self.lsn)

def acquireLogBuffer (self : Logger) (size : Nat) : Logger × Slice :=
  let loc := self.curOffset
  let offset := loc % self.bufferSize
  let bufferId := loc / self.bufferSize % bufferCnt
  ({ self with curOffset := (loc + size) % wordSize }, { buffer := bufferId, offset, size })

/-- `dst.copy_from_slice(val)` -/
def copyFromSlice (self : Logger) (dst : Slice) (val : List Byte) : Logger :=
  { self with
    buffers := fun buffer index =>
      if dst.Covers buffer index then val.getD (index - dst.offset) 0
      else self.buffers buffer index }

def appendLog (self : Logger) (val : List Byte) : Logger :=
  let (reserved, dst) := self.acquireLogBuffer val.length
  reserved.copyFromSlice dst val

/-- What `write` and `fsync` returned. -/
structure WriteOutcome where
  written : Int
  synced : Bool
deriving DecidableEq, Repr

def bufferBytes (self : Logger) (bufferId : Nat) : List Byte :=
  (List.range self.bufferSize).map (self.buffers bufferId)

/-- `flush_buffer`: what was written is in the file, whatever comes next; a short or failed write
is reported and otherwise ignored. The assertion on `fsync` passes if the second part is true.
-/
def flushBuffer (self : Logger) (bufferId : Nat) (outcome : WriteOutcome) : Logger × Bool :=
  ({ self with file := self.file ++ (self.bufferBytes bufferId).take outcome.written.toNat },
    outcome.synced)

end Logger

/-- Where the flusher's `try_flush_logs` stands. -/
inductive FlushPc
  | idle
  | loadFlushed (curOffset : Nat)
  | check (curOffset flushed : Nat)
  | write (flushed : Nat)
  | advance
  | panicked
deriving DecidableEq, Repr

structure LogState where
  logger : Logger
  flusher : FlushPc

inductive LogMove (τ : Type)
  | append (t : τ) (val : List Byte)
  | flush (outcome : Logger.WriteOutcome)
deriving DecidableEq, Repr

inductive LogEvent
  | appended
  | pending
  | notFull (curOffset : Nat)
  | overrun
  | syncFailed
  | wrote (flushed : Nat)
  | flushed (offset : Nat)
deriving DecidableEq, Repr

/-- One step of the flusher. -/
def flushStep (state : LogState) (outcome : Logger.WriteOutcome) : Option (LogState × LogEvent) :=
  let logger := state.logger
  match state.flusher with
  | .idle => some ({ state with flusher := .loadFlushed logger.curOffset }, .pending)
  | .loadFlushed curOffset =>
      some ({ state with flusher := .check curOffset logger.flushedOffset }, .pending)
  | .check curOffset flushed =>
      let distance := (curOffset + wordSize - flushed) % wordSize
      if distance < logger.bufferSize then
        some ({ state with flusher := .idle }, .notFull curOffset)
      else if distance < logger.bufferSize * bufferCnt then
        some ({ state with flusher := .write flushed }, .pending)
      else
        some ({ state with flusher := .panicked }, .overrun)
  | .write flushed =>
      let bufferId := flushed / logger.bufferSize % bufferCnt
      let (written, synced) := logger.flushBuffer bufferId outcome
      if synced then some ({ logger := written, flusher := .advance }, .wrote flushed)
      else some ({ logger := written, flusher := .panicked }, .syncFailed)
  | .advance =>
      some (
        { logger :=
            { logger with
              flushedOffset := (logger.flushedOffset + logger.bufferSize) % wordSize }
          flusher := .idle },
        .flushed logger.flushedOffset)
  | .panicked => none

/-- One step of the system; reserving and copying an entry is one step. -/
def logStep {τ : Type} (state : LogState) : LogMove τ → Option (LogState × LogEvent)
  | .append _ val => some ({ state with logger := state.logger.appendLog val }, .appended)
  | .flush outcome => flushStep state outcome

/-! ### The bytes of a slice -/

open BufferRing

/-- A slice that does not run past its buffer covers the ring's bytes for the log offsets
of its entry.
-/
theorem Logger.covers_iff {logger : Logger} {size buffer index : Nat}
    (inside : logger.curOffset % logger.bufferSize + size ≤ logger.bufferSize)
    : (logger.acquireLogBuffer size).2.Covers buffer index
      ↔ ∃ step < size,
          slot logger.bufferSize bufferCnt (logger.curOffset + step) = (buffer, index) := by
  constructor
  · rintro ⟨rfl, low, high⟩
    simp only [Logger.acquireLogBuffer] at low high
    refine ⟨index - logger.curOffset % logger.bufferSize, by omega, ?_⟩
    rw [slot_add (by omega)]
    simp only [slot, Logger.acquireLogBuffer, Prod.mk.injEq, true_and]
    omega
  · rintro ⟨step, small, place⟩
    rw [slot_add (by omega)] at place
    obtain ⟨rfl, rfl⟩ := Prod.mk.inj place
    exact ⟨rfl, Nat.le_add_right _ _, Nat.add_lt_add_left small _⟩

end Alchemy.Log
