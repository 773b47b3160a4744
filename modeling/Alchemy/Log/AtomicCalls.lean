import Alchemy.Log.FlushWindow
import Mathlib.Tactic.NormNum

/-! Whole calls of `append_log` and `try_flush_logs`, one after the other. The file then is a
prefix of the log, as long as every write is complete; a call counts a buffer as flushed
whatever `write` returned.
-/

namespace Alchemy.Log

open Interleaving

/-! ### The calls -/

/-- What `try_flush_logs` ends with: a result, or one of its two failing assertions. -/
inductive FlushResult
  | ok (flushed : Nat)
  | err (curOffset : Nat)
  | overrun
  | syncFailed
deriving DecidableEq, Repr

namespace Logger

/-- `cur_offset - flushed` -/
def distance (self : Logger) : Nat :=
  (self.curOffset + wordSize - self.flushedOffset) % wordSize

/-- The buffer that is flushed next. -/
def flushedBuffer (self : Logger) : Nat :=
  self.flushedOffset / self.bufferSize % bufferCnt

def tryFlushLogs (self : Logger) (outcome : WriteOutcome) : Logger × FlushResult :=
  if self.distance < self.bufferSize then
    (self, .err self.curOffset)
  else if self.distance < self.bufferSize * bufferCnt then
    let (written, synced) := self.flushBuffer self.flushedBuffer outcome
    if synced then
      ({ written with flushedOffset := (self.flushedOffset + self.bufferSize) % wordSize },
        .ok self.flushedOffset)
    else
      (written, .syncFailed)
  else
    (self, .overrun)

end Logger

inductive AtomicCall
  | appendLog (val : List Byte)
  | tryFlushLogs (outcome : Logger.WriteOutcome)
deriving DecidableEq, Repr

inductive CallEvent
  | appended
  | returned (result : FlushResult)
deriving DecidableEq, Repr

/-- One call. After a panic the logger is as the call left it. -/
def atomicCall (logger : Logger) : AtomicCall → Option (Logger × CallEvent)
  | .appendLog val => some (logger.appendLog val, .appended)
  | .tryFlushLogs outcome =>
      some ((logger.tryFlushLogs outcome).1, .returned (logger.tryFlushLogs outcome).2)

/-! ### Calls are runs of the stepwise logger -/

def FlushResult.event : FlushResult → LogEvent
  | .ok flushed => .flushed flushed
  | .err curOffset => .notFull curOffset
  | .overrun => .overrun
  | .syncFailed => .syncFailed

def FlushResult.flusher : FlushResult → FlushPc
  | .ok _ | .err _ => .idle
  | .overrun | .syncFailed => .panicked

theorem flushStep_check (logger : Logger) (outcome : Logger.WriteOutcome)
    : flushStep { logger, flusher := .check logger.curOffset logger.flushedOffset } outcome
      = if logger.distance < logger.bufferSize then
          some ({ logger, flusher := .idle }, .notFull logger.curOffset)
        else if logger.distance < logger.bufferSize * bufferCnt then
          some ({ logger, flusher := .write logger.flushedOffset }, .pending)
        else some ({ logger, flusher := .panicked }, .overrun) :=
  rfl

theorem flushStep_write_here (logger : Logger) (outcome : Logger.WriteOutcome)
    : flushStep { logger, flusher := .write logger.flushedOffset } outcome
      = if outcome.synced then
          some ({ logger := (logger.flushBuffer logger.flushedBuffer outcome).1,
                  flusher := .advance }, .wrote logger.flushedOffset)
        else
          some ({ logger := (logger.flushBuffer logger.flushedBuffer outcome).1,
                  flusher := .panicked }, .syncFailed) :=
  rfl

/-- A flusher that is not interrupted does what `tryFlushLogs` says. -/
theorem tryFlushLogs_run {τ : Type} (logger : Logger) (outcome : Logger.WriteOutcome)
    : ∃ before,
        Run (logStep (τ := τ)) { logger, flusher := .idle }
          (before ++ [(.flush outcome, (logger.tryFlushLogs outcome).2.event)])
          { logger := (logger.tryFlushLogs outcome).1
            flusher := (logger.tryFlushLogs outcome).2.flusher } := by
  have loaded : Run (logStep (τ := τ)) { logger, flusher := .idle }
      ([] ++ [(.flush outcome, .pending)] ++ [(.flush outcome, .pending)])
      { logger, flusher := .check logger.curOffset logger.flushedOffset } :=
    .extend (.extend .start rfl) rfl
  unfold Logger.tryFlushLogs
  by_cases few : logger.distance < logger.bufferSize
  · rw [if_pos few]
    exact ⟨_, loaded.extend ((flushStep_check logger outcome).trans (if_pos few))⟩
  rw [if_neg few]
  by_cases near : logger.distance < logger.bufferSize * bufferCnt
  · rw [if_pos near]
    have passed
        : logStep { logger, flusher := .check logger.curOffset logger.flushedOffset }
            (.flush outcome : LogMove τ)
          = some ({ logger, flusher := .write logger.flushedOffset }, .pending) :=
      (flushStep_check logger outcome).trans ((if_neg few).trans (if_pos near))
    have checked := loaded.extend passed
    have write := flushStep_write_here logger outcome
    cases synced : outcome.synced with
    | false =>
        simp only [Logger.flushBuffer, synced, Bool.false_eq_true, ↓reduceIte] at write ⊢
        exact ⟨_, checked.extend write⟩
    | true =>
        simp only [Logger.flushBuffer, synced, ↓reduceIte] at write ⊢
        have wrote
            : logStep { logger, flusher := .write logger.flushedOffset } (.flush outcome : LogMove τ)
              = _ :=
          write
        exact ⟨_, (checked.extend wrote).extend rfl⟩
  · rw [if_neg near]
    exact ⟨_, loaded.extend
      ((flushStep_check logger outcome).trans ((if_neg few).trans (if_neg near)))⟩

/-! ### The file -/

/-- All entries in the order they were appended. -/
def appended (trace : List (AtomicCall × CallEvent)) : List Byte :=
  trace.flatMap (fun entry =>
    match entry.1 with
    | .appendLog val => val
    | .tryFlushLogs _ => [])

/-- The number of successful flushes. -/
def flushCnt (trace : List (AtomicCall × CallEvent)) : Nat :=
  trace.countP (fun entry =>
    match entry.2 with
    | .returned (.ok _) => true
    | _ => false)

/-- The entry crosses no multiple of the buffer size; the write succeeds in full. -/
def AtomicCall.Whole (logger : Logger) : AtomicCall → Prop
  | .appendLog val => logger.curOffset % logger.bufferSize + val.length ≤ logger.bufferSize
  | .tryFlushLogs outcome => outcome = { written := logger.bufferSize, synced := true }

instance (logger : Logger) (call : AtomicCall) : Decidable (call.Whole logger) :=
  match call with
  | .appendLog _ => inferInstanceAs (Decidable (_ ≤ _))
  | .tryFlushLogs _ => inferInstanceAs (Decidable (_ = _))

section File

variable {size : Nat} {buffers : Nat → Nat → Byte} {trace : List (AtomicCall × CallEvent)}
  {logger next : Logger} {call : AtomicCall} {event : CallEvent}

theorem appended_append (entry : AtomicCall × CallEvent)
    : appended (trace ++ [entry]) = appended trace ++ appended [entry] := by
  simp [appended]

/-- The buffers hold the newest bytes of the log, and the file the oldest. -/
structure Filed (size : Nat) (trace : List (AtomicCall × CallEvent)) (logger : Logger) : Prop where
  windowed : ∃ moves : List (LogMove Unit × LogEvent),
    logBytes moves = appended trace ∧ Windowed size moves { logger, flusher := .idle }
  flushed : logger.flushedOffset = flushCnt trace * size
  file : logger.file = (appended trace).take (flushCnt trace * size)

/-- The offsets of a logger whose counters have not wrapped. -/
theorem Filed.offsets (filed : Filed size trace logger)
    : logger.bufferSize = size
      ∧ logger.curOffset = (appended trace).length
      ∧ logger.curOffset < wordSize
      ∧ logger.flushedOffset ≤ logger.curOffset
      ∧ logger.distance = logger.curOffset - logger.flushedOffset := by
  obtain ⟨moves, same, windowed⟩ := filed.windowed
  exact ⟨windowed.bufferSize, same ▸ windowed.curOffset, windowed.bounded, windowed.behind,
    distance_eq windowed.behind windowed.bounded⟩

/-- The buffer to be flushed is the next part of the log. -/
theorem Filed.bufferBytes (filed : Filed size trace logger)
    (full : logger.flushedOffset + size ≤ logger.curOffset)
    (near : logger.curOffset ≤ logger.flushedOffset + size * bufferCnt)
    : logger.bufferBytes logger.flushedBuffer
      = ((appended trace).drop logger.flushedOffset).take size := by
  obtain ⟨moves, same, windowed⟩ := filed.windowed
  have ready : Windowed size moves { logger, flusher := .write logger.flushedOffset } :=
    { windowed with sound := ⟨rfl, windowed.bufferSize ▸ full⟩ }
  have sizes : logger.bufferSize = size := windowed.bufferSize
  rw [← same, Logger.flushedBuffer, sizes]
  exact (ready.bufferBytes rfl near).1

theorem Filed.append {val : List Byte} (filed : Filed size trace logger)
    (inside : AtomicCall.Whole logger (.appendLog val))
    (fits : (appended trace ++ val).length < wordSize)
    : Filed size (trace ++ [(.appendLog val, .appended)]) (logger.appendLog val) := by
  obtain ⟨moves, same, windowed⟩ := filed.windowed
  have grown : appended (trace ++ [(.appendLog val, .appended)]) = appended trace ++ val := by
    simp [appended]
  have counted : flushCnt (trace ++ [(.appendLog val, .appended)]) = flushCnt trace := by
    simp [flushCnt]
  refine ⟨⟨moves ++ [(.append () val, .appended)], ?_, ?_⟩, ?_, ?_⟩
  · rw [logBytes_append, same, grown]
  · refine windowed.append inside ?_
    rw [List.length_append, ← filed.offsets.2.1] at fits
    exact fits
  · rw [counted]
    exact filed.flushed
  · have written : flushCnt trace * size ≤ (appended trace).length := by
      rw [← filed.flushed, ← filed.offsets.2.1]
      exact windowed.behind
    rw [counted, grown, List.take_append_of_le_length written]
    exact filed.file

/-- A write moves one buffer from the window to the file. -/
theorem Filed.advance {outcome : Logger.WriteOutcome} {offset : Nat}
    (filed : Filed size trace logger)
    (ahead : logger.flushedOffset + size ≤ logger.curOffset)
    (buffer : logger.bufferBytes logger.flushedBuffer
      = ((appended trace).drop logger.flushedOffset).take size)
    : Filed size (trace ++ [(.tryFlushLogs outcome, .returned (.ok offset))])
        { logger with
          file := logger.file
            ++ (logger.bufferBytes logger.flushedBuffer).take (logger.bufferSize : Int).toNat
          flushedOffset := (logger.flushedOffset + logger.bufferSize) % wordSize } := by
  obtain ⟨sizes, length, bounded, behind, apart⟩ := filed.offsets
  obtain ⟨moves, same, windowed⟩ := filed.windowed
  have bytes : appended (trace ++ [(.tryFlushLogs outcome, .returned (.ok offset))])
      = appended trace := by
    simp [appended]
  have counted : flushCnt (trace ++ [(.tryFlushLogs outcome, .returned (.ok offset))])
      = flushCnt trace + 1 := by
    simp [flushCnt]
  have advanced : (logger.flushedOffset + logger.bufferSize) % wordSize
      = logger.flushedOffset + size := by
    rw [sizes, Nat.mod_eq_of_lt (by omega)]
  have whole : (logger.bufferBytes logger.flushedBuffer).take (logger.bufferSize : Int).toNat
      = logger.bufferBytes logger.flushedBuffer := by
    apply List.take_of_length_le
    simp [Logger.bufferBytes]
  refine ⟨⟨moves ++ [(.flush outcome, .flushed offset)], ?_, ?_⟩, ?_, ?_⟩
  · rw [logBytes_flush, same, bytes]
  · refine windowed.keep rfl rfl rfl ?_ ?_ trivial
    · rw [advanced]
      exact Nat.dvd_add windowed.aligned (Nat.dvd_refl size)
    · rw [advanced]
      exact ahead
  · rw [counted, advanced, filed.flushed, Nat.succ_mul]
  · rw [counted, bytes, whole, buffer, filed.file, filed.flushed, Nat.succ_mul, List.take_add]

/-- A call that does not write changes nothing. -/
theorem Filed.flush {outcome : Logger.WriteOutcome} (filed : Filed size trace logger)
    (complete : AtomicCall.Whole logger (.tryFlushLogs outcome))
    : Filed size
        (trace ++ [(.tryFlushLogs outcome, .returned (logger.tryFlushLogs outcome).2)])
        (logger.tryFlushLogs outcome).1 := by
  have bytes (result : FlushResult)
      : appended (trace ++ [(.tryFlushLogs outcome, .returned result)]) = appended trace := by
    simp [appended]
  have quiet (result : FlushResult) (fails : ∀ offset, result ≠ .ok offset)
      : Filed size (trace ++ [(.tryFlushLogs outcome, .returned result)]) logger := by
    have counted : flushCnt (trace ++ [(.tryFlushLogs outcome, .returned result)])
        = flushCnt trace := by
      cases result with
      | ok offset => exact absurd rfl (fails offset)
      | err | overrun | syncFailed => simp [flushCnt]
    refine ⟨?_, ?_, ?_⟩
    · rw [bytes]
      exact filed.windowed
    · rw [counted]
      exact filed.flushed
    · rw [counted, bytes]
      exact filed.file
  obtain ⟨sizes, length, bounded, behind, apart⟩ := filed.offsets
  unfold Logger.tryFlushLogs
  split
  · exact quiet _ (fun _ same => by cases same)
  · next full =>
      split
      · next near =>
          rw [apart, sizes] at full near
          have ahead : logger.flushedOffset + size ≤ logger.curOffset := by omega
          have buffer := filed.bufferBytes ahead (by omega)
          obtain rfl : outcome = _ := complete
          exact filed.advance ahead buffer
      · exact quiet _ (fun _ same => by cases same)

theorem Filed.step (filed : Filed size trace logger)
    (taken : atomicCall logger call = some (next, event)) (whole : call.Whole logger)
    (fits : (appended (trace ++ [(call, event)])).length < wordSize)
    : Filed size (trace ++ [(call, event)]) next := by
  cases call with
  | appendLog val =>
      obtain ⟨rfl, rfl⟩ := Prod.mk.inj (Option.some.inj taken)
      refine filed.append whole ?_
      simpa [appended] using fits
  | tryFlushLogs outcome =>
      obtain ⟨rfl, rfl⟩ := Prod.mk.inj (Option.some.inj taken)
      exact filed.flush whole

theorem filed_of_run (run : Run atomicCall (.withBufferSize size buffers) trace logger)
    (whole : Along atomicCall (.withBufferSize size buffers) trace
      (fun logger call _ _ => call.Whole logger))
    (fits : (appended trace).length < wordSize)
    : Filed size trace logger := by
  induction run with
  | start =>
      refine ⟨⟨[], rfl, LogState.fresh_windowed⟩, ?_, ?_⟩
      · exact (Nat.zero_mul size).symm
      · exact (List.take_nil).symm
  | @extend trace state call next event earlier taken ih =>
      obtain ⟨past, here⟩ := (along_extend earlier taken).mp whole
      have shorter : (appended trace).length < wordSize := by
        rw [appended_append, List.length_append] at fits
        omega
      exact (ih past shorter).step taken here fits

/-- After any calls that append less than `2 ^ 64` bytes, none of whose entries crosses a
multiple of the buffer size and all of whose writes are complete: the flushed offset is a
multiple of the buffer size and not ahead; a further `try_flush_logs` returns `Err` exactly if
less than one buffer is left to flush, and then changes nothing; the file is what was flushed of
the log; and if that call returns `Err`, every full buffer of the log has been flushed.
-/
theorem log_file_is_flushed_log
    (run : Run atomicCall (.withBufferSize size buffers) trace logger)
    (whole : Along atomicCall (.withBufferSize size buffers) trace
      (fun logger call _ _ => call.Whole logger))
    (fits : (appended trace).length < wordSize)
    : size ∣ logger.flushedOffset
      ∧ logger.flushedOffset ≤ logger.curOffset
      ∧ (∀ outcome,
          (∃ curOffset, (logger.tryFlushLogs outcome).2 = .err curOffset)
          ↔ (appended trace).length - flushCnt trace * size < size)
      ∧ (∀ outcome curOffset, (logger.tryFlushLogs outcome).2 = .err curOffset
        → (logger.tryFlushLogs outcome).1 = logger
          ∧ flushCnt trace = (appended trace).length / size)
      ∧ logger.file = (appended trace).take (flushCnt trace * size)
      ∧ logger.file.length = flushCnt trace * size := by
  have filed := filed_of_run run whole fits
  obtain ⟨sizes, length, bounded, behind, apart⟩ := filed.offsets
  have left : logger.distance = (appended trace).length - flushCnt trace * size := by
    rw [apart, length, filed.flushed]
  have short (outcome : Logger.WriteOutcome)
      : (∃ curOffset, (logger.tryFlushLogs outcome).2 = .err curOffset)
        ↔ logger.distance < logger.bufferSize := by
    unfold Logger.tryFlushLogs
    split
    · next few => exact iff_of_true ⟨_, rfl⟩ few
    · next full =>
        refine iff_of_false ?_ full
        rintro ⟨curOffset, same⟩
        split at same
        · cases synced : outcome.synced <;> simp [Logger.flushBuffer, synced] at same
        · cases same
  refine ⟨?_, behind, ?_, ?_, filed.file, ?_⟩
  · rw [filed.flushed]
    exact Nat.dvd_mul_left _ _
  · intro outcome
    rw [short, left, sizes]
  · intro outcome curOffset failed
    have few := (short outcome).mp ⟨curOffset, failed⟩
    refine ⟨by rw [Logger.tryFlushLogs, if_pos few], ?_⟩
    rw [left, sizes] at few
    have enough : flushCnt trace * size ≤ (appended trace).length := by
      rw [← filed.flushed, ← length]
      exact behind
    exact (Nat.div_eq_of_lt_le enough (by rw [Nat.succ_mul]; omega)).symm
  · rw [filed.file, List.length_take, ← filed.flushed, ← length]
    exact Nat.min_eq_left behind

end File

/-- Two entries of one buffer each, of which the first is flushed. -/
theorem log_file_is_flushed_log_two_buffers
    : ∃ trace logger,
        Run atomicCall (.withBufferSize 4 (fun _ _ => 0)) trace logger
        ∧ flushCnt trace = 1
        ∧ logger.file = (appended trace).take (flushCnt trace * 4) := by
  obtain ⟨trace, logger, run, outcome, whole⟩ := exec_reaches_along
    (fun result : Logger × List (AtomicCall × CallEvent) =>
      decide (flushCnt result.2 = 1 ∧ (appended result.2).length < wordSize))
    (by decide
      : (exec atomicCall (.withBufferSize 4 (fun _ _ => 0))
          [.appendLog [1, 2, 3, 4], .tryFlushLogs completeWrite,
            .appendLog [5, 6, 7, 8]]).any _ = true)
    (by decide
      : passes atomicCall (fun logger call => decide (call.Whole logger)) _
          [.appendLog [1, 2, 3, 4], .tryFlushLogs completeWrite, .appendLog [5, 6, 7, 8]]
        = true)
  obtain ⟨flushed, fits⟩ := of_decide_eq_true outcome
  exact ⟨trace, logger, run, flushed,
    (log_file_is_flushed_log run (by simpa using whole) fits).2.2.2.2.1⟩

/-! ### Wrapping offsets -/

theorem Logger.appendLog_curOffset (logger : Logger) (val : List Byte)
    : (logger.appendLog val).curOffset = (logger.curOffset + val.length) % wordSize :=
  rfl

theorem Logger.appendLog_flushedOffset (logger : Logger) (val : List Byte)
    : (logger.appendLog val).flushedOffset = logger.flushedOffset :=
  rfl

/-- A flush with exactly one full buffer catches up. -/
theorem Logger.tryFlushLogs_catchesUp (logger : Logger) (positive : 0 < logger.bufferSize)
    (full : logger.flushedOffset + logger.bufferSize = logger.curOffset)
    (bounded : logger.curOffset < wordSize)
    : ∃ file offset,
        logger.tryFlushLogs { written := logger.bufferSize, synced := true }
        = ({ logger with file, flushedOffset := logger.curOffset }, .ok offset) := by
  have apart : logger.distance = logger.bufferSize := by
    rw [Logger.distance, distance_eq (by omega) bounded]
    omega
  have near : logger.bufferSize < logger.bufferSize * bufferCnt := by
    unfold bufferCnt
    omega
  refine ⟨logger.file
    ++ (logger.bufferBytes logger.flushedBuffer).take (logger.bufferSize : Int).toNat,
    logger.flushedOffset, ?_⟩
  rw [Logger.tryFlushLogs, apart, if_neg (Nat.lt_irrefl _), if_pos near, full,
    Nat.mod_eq_of_lt bounded]
  rfl

/-- Each round appends one full buffer and flushes it. -/
theorem fill_and_flush {size rounds : Nat} (buffers : Nat → Nat → Byte) (positive : 0 < size)
    (fits : rounds * size < wordSize)
    : ∃ trace logger,
        Run atomicCall (.withBufferSize size buffers) trace logger
        ∧ Along atomicCall (.withBufferSize size buffers) trace
            (fun logger call _ _ => call.Whole logger)
        ∧ logger.bufferSize = size
        ∧ logger.curOffset = rounds * size
        ∧ logger.flushedOffset = rounds * size := by
  induction rounds with
  | zero =>
      refine ⟨[], _, .start, along_nil, rfl, ?_, ?_⟩ <;> exact (Nat.zero_mul size).symm
  | succ rounds ih =>
      have grown : (rounds + 1) * size = rounds * size + size := Nat.succ_mul ..
      obtain ⟨trace, logger, run, whole, sizes, cur, flushed⟩ := ih (by omega)
      have inside : AtomicCall.Whole logger (.appendLog (List.replicate size 0)) := by
        rw [AtomicCall.Whole, cur, sizes, Nat.mul_mod_left, List.length_replicate, Nat.zero_add]
      have filled : atomicCall logger (.appendLog (List.replicate size 0))
          = some (logger.appendLog (List.replicate size 0), .appended) :=
        rfl
      have curAfter : (logger.appendLog (List.replicate size 0)).curOffset
          = (rounds + 1) * size := by
        rw [Logger.appendLog_curOffset, cur, List.length_replicate, ← grown,
          Nat.mod_eq_of_lt fits]
      have full : (logger.appendLog (List.replicate size 0)).flushedOffset
          + (logger.appendLog (List.replicate size 0)).bufferSize
          = (logger.appendLog (List.replicate size 0)).curOffset := by
        rw [curAfter, grown, ← flushed]
        exact congrArg (logger.flushedOffset + ·) sizes
      obtain ⟨file, offset, flush⟩ :=
        Logger.tryFlushLogs_catchesUp (logger.appendLog (List.replicate size 0))
          (Nat.lt_of_lt_of_eq positive sizes.symm) full (curAfter ▸ fits)
      have caught : atomicCall (logger.appendLog (List.replicate size 0))
            (.tryFlushLogs { written := logger.bufferSize, synced := true })
          = some ({ logger.appendLog (List.replicate size 0) with
              file, flushedOffset := (logger.appendLog (List.replicate size 0)).curOffset },
              .returned (.ok offset)) := by
        rw [atomicCall]
        have same : (logger.appendLog (List.replicate size 0)).bufferSize = logger.bufferSize :=
          rfl
        rw [← same, flush]
      refine ⟨_, _, (run.extend filled).extend caught, ?_, sizes, curAfter, curAfter⟩
      exact (along_extend (run.extend filled) caught).mpr
        ⟨(along_extend run filled).mpr ⟨whole, inside⟩, rfl⟩

/-- The offsets are machine words: once `2 ^ 64` bytes have been appended, `cur_offset` starts
again at zero, behind the flushed offset.
-/
theorem flushed_offset_ahead
    : ¬ ∀ (size : Nat) (buffers : Nat → Nat → Byte) (trace : List (AtomicCall × CallEvent))
        (logger : Logger),
        Run atomicCall (.withBufferSize size buffers) trace logger
        → Along atomicCall (.withBufferSize size buffers) trace
            (fun logger call _ _ => call.Whole logger)
        → logger.flushedOffset ≤ logger.curOffset := by
  intro all
  obtain ⟨trace, logger, run, whole, sizes, cur, flushed⟩ :=
    fill_and_flush (fun _ _ => 0) (by norm_num : 0 < 512)
      (by norm_num [wordSize] : (2 ^ 55 - 1) * 512 < wordSize)
  have filled : atomicCall logger (.appendLog (List.replicate 512 0))
      = some (logger.appendLog (List.replicate 512 0), .appended) :=
    rfl
  have inside : AtomicCall.Whole logger (.appendLog (List.replicate 512 0)) := by
    rw [AtomicCall.Whole, cur, sizes, Nat.mul_mod_left, List.length_replicate, Nat.zero_add]
  have behind := all 512 _ _ _ (run.extend filled)
    ((along_extend run filled).mpr ⟨whole, inside⟩)
  rw [Logger.appendLog_curOffset, Logger.appendLog_flushedOffset, cur, flushed,
    List.length_replicate] at behind
  norm_num [wordSize] at behind

/-! ### Failed and short writes -/

/-- The results of `write` for `size` bytes: an error, or how many bytes were written. -/
def Logger.WriteOutcome.Allowed (outcome : WriteOutcome) (size : Nat) : Prop :=
  outcome.written = -1 ∨ (0 ≤ outcome.written ∧ outcome.written ≤ size)

/-- A flush that reports success has written its buffer; otherwise the buffer is still due. -/
structure Logger.CountsWritten (logger : Logger) (outcome : WriteOutcome) : Prop where
  written : ∀ offset, (logger.tryFlushLogs outcome).2 = .ok offset
    → (logger.tryFlushLogs outcome).1.file
      = logger.file ++ logger.bufferBytes logger.flushedBuffer
  due : (∀ offset, (logger.tryFlushLogs outcome).2 ≠ .ok offset)
    → (logger.tryFlushLogs outcome).1.flushedOffset = logger.flushedOffset

/-- The call writes a buffer: one is full, and the log has not outrun the buffers. -/
def Logger.Writes (logger : Logger) : Prop :=
  logger.bufferSize ≤ logger.distance ∧ logger.distance < logger.bufferSize * bufferCnt

instance (logger : Logger) : Decidable logger.Writes :=
  inferInstanceAs (Decidable (_ ∧ _))

theorem Logger.bufferBytes_length (logger : Logger) (bufferId : Nat)
    : (logger.bufferBytes bufferId).length = logger.bufferSize := by
  simp [Logger.bufferBytes]

/-- A call that fails counts nothing. -/
theorem Logger.countsWritten_of_failed {logger left : Logger} {outcome : WriteOutcome}
    {result : FlushResult} (returned : logger.tryFlushLogs outcome = (left, result))
    (fails : ∀ offset, result ≠ .ok offset) (due : left.flushedOffset = logger.flushedOffset)
    : logger.CountsWritten outcome := by
  constructor
  · intro offset succeeded
    rw [returned] at succeeded
    exact absurd succeeded (fails offset)
  · intro _
    rw [returned, due]

/-- A call counts what it has written exactly if it does not write, or fails to sync, or the
write was complete.
-/
theorem flush_counts_written_iff (logger : Logger) (outcome : Logger.WriteOutcome)
    (allowed : outcome.Allowed logger.bufferSize)
    : logger.CountsWritten outcome
      ↔ (logger.Writes → outcome.synced = true → outcome.written = logger.bufferSize) := by
  by_cases few : logger.distance < logger.bufferSize
  · refine iff_of_true (Logger.countsWritten_of_failed (if_pos few) ?_ rfl) ?_
    · intro offset same
      cases same
    · intro writes
      exact absurd few (Nat.not_lt.mpr writes.1)
  by_cases near : logger.distance < logger.bufferSize * bufferCnt
  · cases synced : outcome.synced with
    | false =>
        have stopped : logger.tryFlushLogs outcome
            = ((logger.flushBuffer logger.flushedBuffer outcome).1, .syncFailed) := by
          rw [Logger.tryFlushLogs, if_neg few, if_pos near, Logger.flushBuffer, synced]
          rfl
        refine iff_of_true (Logger.countsWritten_of_failed stopped ?_ rfl) ?_
        · intro offset same
          cases same
        · intro _ same
          cases same
    | true =>
        have wrote : logger.tryFlushLogs outcome
            = ({ logger with
                file := logger.file
                  ++ (logger.bufferBytes logger.flushedBuffer).take outcome.written.toNat
                flushedOffset := (logger.flushedOffset + logger.bufferSize) % wordSize },
                .ok logger.flushedOffset) := by
          rw [Logger.tryFlushLogs, if_neg few, if_pos near, Logger.flushBuffer, synced]
          rfl
        have length := logger.bufferBytes_length logger.flushedBuffer
        constructor
        · intro counted _ _
          have file := counted.written logger.flushedOffset (by rw [wrote])
          rw [wrote] at file
          have taken := congrArg List.length (List.append_cancel_left file)
          rw [List.length_take, length] at taken
          unfold Logger.WriteOutcome.Allowed at allowed
          unfold bufferCnt at near
          omega
        · intro complete
          have all : outcome.written.toNat = logger.bufferSize := by
            rw [complete ⟨Nat.not_lt.mp few, near⟩ rfl, Int.toNat_natCast]
          constructor
          · intro offset _
            rw [wrote, all, List.take_of_length_le (Nat.le_of_eq length)]
          · intro fails
            exact absurd (by rw [wrote]) (fails logger.flushedOffset)
  · have stopped : logger.tryFlushLogs outcome = (logger, .overrun) := by
      rw [Logger.tryFlushLogs, if_neg few, if_neg near]
    refine iff_of_true (Logger.countsWritten_of_failed stopped ?_ rfl) ?_
    · intro offset same
      cases same
    · intro writes
      exact absurd writes.2 near

/-- A full buffer of four bytes. -/
def fullBuffer : Logger :=
  (Logger.withBufferSize 4 (fun _ _ => 0)).appendLog [1, 2, 3, 4]

/-- A failed write is counted as flushed: the call returns `Ok` and the file is empty. -/
theorem failed_write_counted
    : ¬ ∀ (logger : Logger) (outcome : Logger.WriteOutcome),
        outcome.Allowed logger.bufferSize → logger.CountsWritten outcome := by
  intro all
  have counted := all fullBuffer { written := -1, synced := true } (.inl rfl)
  exact absurd (counted.written 0 (by decide +kernel)) (by decide +kernel)

/-- A complete write of that buffer, which is due. -/
theorem flush_counts_written_complete
    : fullBuffer.Writes ∧ fullBuffer.CountsWritten completeWrite :=
  ⟨by decide +kernel, (flush_counts_written_iff fullBuffer completeWrite
    (.inr ⟨by decide, by decide⟩)).mpr (fun _ _ => rfl)⟩

end Alchemy.Log
