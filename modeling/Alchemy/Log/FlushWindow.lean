import Alchemy.Log.Logger
import Mathlib.Tactic.SplitIfs

/-! What a flush writes.
The two buffers hold the last `2 * bufferSize` bytes of the log. The flusher compares its
offset with `cur_offset` before it writes, and appenders do not wait for it, so the bytes
it means to write are still there only if the log has not outrun it by then.
-/

namespace Alchemy.Log

open Interleaving BufferRing

section Flush

variable {τ : Type} {state next : LogState} {move : LogMove τ} {event : LogEvent}
  {buffers : Nat → Nat → Byte} {size : Nat} {trace : List (LogMove τ × LogEvent)}

/-- The log: all entries in the order they were appended. -/
def logBytes (trace : List (LogMove τ × LogEvent)) : List Byte :=
  trace.flatMap (fun entry =>
    match entry.1 with
    | .append _ val => val
    | .flush _ => [])

theorem logBytes_append (t : τ) (val : List Byte)
    : logBytes (trace ++ [(.append t val, event)]) = logBytes trace ++ val := by
  simp [logBytes]

theorem logBytes_flush (outcome : Logger.WriteOutcome)
    : logBytes (trace ++ [((.flush outcome : LogMove τ), event)]) = logBytes trace := by
  simp [logBytes]

def LogState.fresh (size : Nat) (buffers : Nat → Nat → Byte) : LogState :=
  { logger := Logger.withBufferSize size buffers, flusher := .idle }

/-- No entry crosses a multiple of the buffer size, and every write is complete. -/
def Undisturbed (state : LogState) : LogMove τ → Prop
  | .append _ val =>
      state.logger.curOffset % state.logger.bufferSize + val.length ≤ state.logger.bufferSize
  | .flush outcome => outcome = { written := state.logger.bufferSize, synced := true }

/-- A flush about to write still finds the bytes it means to write. -/
def FlushPc.InTime (logger : Logger) : FlushPc → Prop
  | .write flushed => logger.curOffset ≤ flushed + logger.bufferSize * bufferCnt
  | .idle => True
  | .loadFlushed _ => True
  | .check _ _ => True
  | .advance => True
  | .panicked => True

/-- The offset does not wrap, and the log has not outrun a flush that is about to write. -/
def KeepsUp (state : LogState) : LogMove τ → Prop
  | .append _ val => state.logger.curOffset + val.length < wordSize
  | .flush _ => state.flusher.InTime state.logger

/-- What the flusher knows between two of its steps. -/
def FlushPc.Sound (logger : Logger) : FlushPc → Prop
  | .idle => True
  | .loadFlushed curOffset =>
      logger.flushedOffset ≤ curOffset ∧ curOffset ≤ logger.curOffset
  | .check curOffset flushed =>
      flushed = logger.flushedOffset ∧ flushed ≤ curOffset ∧ curOffset ≤ logger.curOffset
  | .write flushed =>
      flushed = logger.flushedOffset ∧ flushed + logger.bufferSize ≤ logger.curOffset
  | .advance => logger.flushedOffset + logger.bufferSize ≤ logger.curOffset
  | .panicked => True

/-- The buffers hold the bytes of the log that are less than two buffers old. -/
structure Windowed (size : Nat) (trace : List (LogMove τ × LogEvent)) (state : LogState)
    : Prop where
  bufferSize : state.logger.bufferSize = size
  curOffset : state.logger.curOffset = (logBytes trace).length
  bounded : state.logger.curOffset < wordSize
  held : ∀ offset < state.logger.curOffset,
    state.logger.curOffset ≤ offset + size * bufferCnt
    → some (state.logger.buffers (slot size bufferCnt offset).1 (slot size bufferCnt offset).2)
      = (logBytes trace)[offset]?
  aligned : size ∣ state.logger.flushedOffset
  behind : state.logger.flushedOffset ≤ state.logger.curOffset
  sound : state.flusher.Sound state.logger

theorem LogState.fresh_windowed
    : Windowed size ([] : List (LogMove τ × LogEvent)) (LogState.fresh size buffers) where
  bufferSize := rfl
  curOffset := rfl
  bounded := Nat.two_pow_pos 64
  held _ small := absurd small (Nat.not_lt_zero _)
  aligned := Nat.dvd_zero size
  behind := Nat.le_refl 0
  sound := trivial

/-- More log does not invalidate what the flusher knows. -/
theorem FlushPc.Sound.append {pc : FlushPc} {logger later : Logger} (sound : pc.Sound logger)
    (flushed : later.flushedOffset = logger.flushedOffset)
    (bufferSize : later.bufferSize = logger.bufferSize)
    (grown : logger.curOffset ≤ later.curOffset)
    : pc.Sound later := by
  cases pc with
  | idle => trivial
  | loadFlushed curOffset =>
      exact ⟨flushed ▸ sound.1, Nat.le_trans sound.2 grown⟩
  | check curOffset offset =>
      exact ⟨flushed ▸ sound.1, sound.2.1, Nat.le_trans sound.2.2 grown⟩
  | write offset =>
      exact ⟨flushed ▸ sound.1, bufferSize ▸ Nat.le_trans sound.2 grown⟩
  | advance =>
      have known : logger.flushedOffset + logger.bufferSize ≤ logger.curOffset := sound
      simp only [FlushPc.Sound, flushed, bufferSize]
      exact Nat.le_trans known grown
  | panicked => trivial

/-- An entry that does not cross is copied to the ring's bytes for its log offsets, and
spares the bytes of every offset less than two buffers old.
-/
theorem Windowed.append {val : List Byte} {t : τ} (windowed : Windowed size trace state)
    (inside : Undisturbed state (.append t val)) (keeps : KeepsUp state (.append t val))
    : Windowed size (trace ++ [(.append t val, event)])
        { state with logger := state.logger.appendLog val } := by
  have sizes := windowed.bufferSize
  have grown : (state.logger.appendLog val).curOffset = state.logger.curOffset + val.length :=
    Nat.mod_eq_of_lt keeps
  refine ⟨sizes, ?_, ?_, ?_, windowed.aligned, ?_, ?_⟩
  · rw [grown, logBytes_append, List.length_append, windowed.curOffset]
  · rw [grown]
    exact keeps
  · intro offset small near
    simp only [grown] at small near
    rw [logBytes_append]
    have covers
        : (state.logger.acquireLogBuffer val.length).2.Covers
            (slot size bufferCnt offset).1 (slot size bufferCnt offset).2 ↔ _ :=
      Logger.covers_iff inside
    rw [sizes] at covers
    rcases Nat.lt_or_ge offset state.logger.curOffset with old | new
    · have spared : ¬ (state.logger.acquireLogBuffer val.length).2.Covers
          (slot size bufferCnt offset).1 (slot size bufferCnt offset).2 := by
        rw [covers]
        rintro ⟨step, within, same⟩
        exact slot_ne_of_lt (by omega) (by omega) same.symm
      have kept := windowed.held offset old (by omega)
      rw [List.getElem?_append_left (windowed.curOffset ▸ old), ← kept]
      simp only [Logger.appendLog, Logger.copyFromSlice]
      rw [if_neg spared]
      rfl
    · obtain ⟨step, rfl⟩ := Nat.exists_eq_add_of_le new
      have within : step < val.length := by omega
      have hit := covers.mpr ⟨step, within, rfl⟩
      have fits : state.logger.curOffset % size + val.length ≤ size := sizes ▸ inside
      have place : slot size bufferCnt (state.logger.curOffset + step) = _ :=
        slot_add (by omega)
      rw [windowed.curOffset, List.getElem?_append_right (Nat.le_add_right _ _),
        Nat.add_sub_cancel_left, ← windowed.curOffset]
      simp only [Logger.appendLog, Logger.copyFromSlice]
      rw [if_pos hit, place]
      simp [Logger.acquireLogBuffer, slot, sizes, within]
  · rw [grown]
    exact Nat.le_trans windowed.behind (Nat.le_add_right _ _)
  · exact windowed.sound.append rfl rfl (grown ▸ Nat.le_add_right _ _)

/-- The distance `try_flush_logs` computes, as long as no offset has wrapped. -/
theorem distance_eq {curOffset flushed : Nat} (behind : flushed ≤ curOffset)
    (bounded : curOffset < wordSize)
    : (curOffset + wordSize - flushed) % wordSize = curOffset - flushed := by
  rw [Nat.sub_add_comm behind, Nat.add_mod_right, Nat.mod_eq_of_lt (by omega)]

/-- A step of the flusher that leaves the log and the buffers alone keeps the window. -/
theorem Windowed.keep {outcome : Logger.WriteOutcome} (windowed : Windowed size trace state)
    (bufferSize : next.logger.bufferSize = state.logger.bufferSize)
    (curOffset : next.logger.curOffset = state.logger.curOffset)
    (buffers : next.logger.buffers = state.logger.buffers)
    (aligned : size ∣ next.logger.flushedOffset)
    (behind : next.logger.flushedOffset ≤ state.logger.curOffset)
    (sound : next.flusher.Sound next.logger)
    : Windowed size (trace ++ [(.flush outcome, event)]) next where
  bufferSize := bufferSize.trans windowed.bufferSize
  curOffset := by rw [curOffset, logBytes_flush, windowed.curOffset]
  bounded := by rw [curOffset]; exact windowed.bounded
  held := by rw [curOffset, buffers, logBytes_flush]; exact windowed.held
  aligned := aligned
  behind := by rw [curOffset]; exact behind
  sound := sound

/-- The verdict of `try_flush_logs` on the two offsets it loaded. -/
theorem Windowed.check {outcome : Logger.WriteOutcome} {loaded flushed : Nat}
    (windowed : Windowed size trace state) (here : state.flusher = .check loaded flushed)
    (taken : flushStep state outcome = some (next, event))
    : next.logger = state.logger ∧ next.flusher.Sound state.logger := by
  have sound := windowed.sound
  rw [here] at sound
  obtain ⟨rfl, old, recent⟩ := sound
  simp only [flushStep, here, distance_eq old (Nat.lt_of_le_of_lt recent windowed.bounded)]
    at taken
  by_cases few : loaded - state.logger.flushedOffset < state.logger.bufferSize
  · rw [if_pos few] at taken
    obtain ⟨rfl, rfl⟩ := Prod.mk.inj (Option.some.inj taken)
    exact ⟨rfl, trivial⟩
  · rw [if_neg few] at taken
    by_cases many : loaded - state.logger.flushedOffset < state.logger.bufferSize * bufferCnt
    · rw [if_pos many] at taken
      obtain ⟨rfl, rfl⟩ := Prod.mk.inj (Option.some.inj taken)
      exact ⟨rfl, rfl, by omega⟩
    · rw [if_neg many] at taken
      obtain ⟨rfl, rfl⟩ := Prod.mk.inj (Option.some.inj taken)
      exact ⟨rfl, trivial⟩

/-- A complete write only extends the file, by the buffer of `flushed`. -/
theorem flushStep_write {outcome : Logger.WriteOutcome} {flushed : Nat}
    (here : state.flusher = .write flushed)
    (complete : outcome = { written := state.logger.bufferSize, synced := true })
    (taken : flushStep state outcome = some (next, event))
    : event = .wrote flushed
      ∧ next.flusher = .advance
      ∧ next.logger = { state.logger with
          file := state.logger.file
            ++ state.logger.bufferBytes (flushed / state.logger.bufferSize % bufferCnt) } := by
  subst complete
  simp only [flushStep, here, Logger.flushBuffer, ↓reduceIte, Option.some.injEq,
    Prod.mk.injEq] at taken
  obtain ⟨rfl, rfl⟩ := taken
  refine ⟨rfl, rfl, ?_⟩
  rw [List.take_of_length_le]
  simp [Logger.bufferBytes]

/-- Only the write step reports a write. -/
theorem wrote_at_write {outcome : Logger.WriteOutcome} {flushed : Nat}
    (taken : flushStep state outcome = some (next, .wrote flushed))
    : ∃ offset, state.flusher = .write offset := by
  cases here : state.flusher with
  | write offset => exact ⟨offset, rfl⟩
  | check loaded offset =>
      simp only [flushStep, here] at taken
      split_ifs at taken <;> simp at taken
  | idle => simp [flushStep, here] at taken
  | loadFlushed loaded => simp [flushStep, here] at taken
  | advance => simp [flushStep, here] at taken
  | panicked => simp [flushStep, here] at taken

/-- Every step of the flusher keeps the window. -/
theorem Windowed.flush {outcome : Logger.WriteOutcome} (windowed : Windowed size trace state)
    (complete : outcome = { written := state.logger.bufferSize, synced := true })
    (taken : flushStep state outcome = some (next, event))
    : Windowed size (trace ++ [(.flush outcome, event)]) next := by
  have aligned := windowed.aligned
  have behind := windowed.behind
  have sound := windowed.sound
  cases here : state.flusher with
  | idle =>
      simp only [flushStep, here, Option.some.injEq, Prod.mk.injEq] at taken
      obtain ⟨rfl, rfl⟩ := taken
      exact windowed.keep rfl rfl rfl aligned behind ⟨behind, Nat.le_refl _⟩
  | loadFlushed loaded =>
      simp only [flushStep, here, Option.some.injEq, Prod.mk.injEq] at taken
      obtain ⟨rfl, rfl⟩ := taken
      rw [here] at sound
      exact windowed.keep rfl rfl rfl aligned behind ⟨rfl, sound.1, sound.2⟩
  | check loaded flushed =>
      obtain ⟨same, known⟩ := windowed.check here taken
      refine windowed.keep ?_ ?_ ?_ ?_ ?_ ?_ <;> rw [same]
      · exact aligned
      · exact behind
      · exact known
  | write flushed =>
      obtain ⟨_, advance, written⟩ := flushStep_write here complete taken
      rw [here] at sound
      obtain ⟨rfl, full⟩ := sound
      refine windowed.keep ?_ ?_ ?_ ?_ ?_ ?_ <;> rw [written]
      · exact aligned
      · exact behind
      · rw [advance]
        exact full
  | advance =>
      rw [here] at sound
      have full : state.logger.flushedOffset + state.logger.bufferSize
          ≤ state.logger.curOffset := sound
      have advanced : (state.logger.flushedOffset + state.logger.bufferSize) % wordSize
          = state.logger.flushedOffset + state.logger.bufferSize :=
        Nat.mod_eq_of_lt (Nat.lt_of_le_of_lt full windowed.bounded)
      simp only [flushStep, here, advanced, Option.some.injEq, Prod.mk.injEq] at taken
      obtain ⟨rfl, rfl⟩ := taken
      refine windowed.keep rfl rfl rfl ?_ full trivial
      exact Nat.dvd_add aligned (windowed.bufferSize ▸ Nat.dvd_refl _)
  | panicked => simp [flushStep, here] at taken

theorem Windowed.step (windowed : Windowed size trace state)
    (taken : logStep state move = some (next, event)) (undisturbed : Undisturbed state move)
    (keeps : KeepsUp state move)
    : Windowed size (trace ++ [(move, event)]) next := by
  cases move with
  | append t val =>
      obtain ⟨rfl, rfl⟩ := Prod.mk.inj (Option.some.inj taken)
      exact windowed.append undisturbed keeps
  | flush outcome => exact windowed.flush undisturbed taken

theorem windowed_of_run (run : Run logStep (LogState.fresh size buffers) trace state)
    (undisturbed : Along logStep (LogState.fresh size buffers) trace
      (fun state move _ _ => Undisturbed state move))
    (keeps : Along logStep (LogState.fresh size buffers) trace
      (fun state move _ _ => KeepsUp state move))
    : Windowed size trace state := by
  induction run with
  | start => exact LogState.fresh_windowed
  | extend earlier taken ih =>
      obtain ⟨pastUndisturbed, undisturbed⟩ := (along_extend earlier taken).mp undisturbed
      obtain ⟨pastKeeps, keeps⟩ := (along_extend earlier taken).mp keeps
      exact (ih pastUndisturbed pastKeeps).step taken undisturbed keeps

/-- If the log has not outrun the flusher, the buffer it writes is the next part of the log:
every byte of it is less than two buffers old.
-/
theorem Windowed.bufferBytes {flushed : Nat} (windowed : Windowed size trace state)
    (here : state.flusher = .write flushed)
    (keeps : state.logger.curOffset ≤ flushed + size * bufferCnt)
    : state.logger.bufferBytes (flushed / size % bufferCnt)
        = ((logBytes trace).drop flushed).take size
      ∧ flushed + size ≤ (logBytes trace).length := by
  have sound := windowed.sound
  rw [here] at sound
  obtain ⟨rfl, full⟩ := sound
  rw [windowed.bufferSize, windowed.curOffset] at full
  refine ⟨?_, full⟩
  apply List.ext_getElem?
  intro index
  rcases Nat.lt_or_ge index size with small | large
  · have start : state.logger.flushedOffset % size = 0 :=
      Nat.mod_eq_zero_of_dvd windowed.aligned
    have place : slot size bufferCnt (state.logger.flushedOffset + index)
        = (state.logger.flushedOffset / size % bufferCnt, index) := by
      rw [slot_add (by omega)]
      simp [slot, start]
    have held := windowed.held (state.logger.flushedOffset + index)
      (by rw [windowed.curOffset]; omega) (by omega)
    rw [place] at held
    rw [List.getElem?_take_of_lt small, List.getElem?_drop, ← held]
    simp [Logger.bufferBytes, windowed.bufferSize, small]
  · rw [List.getElem?_eq_none (by simpa [Logger.bufferBytes, windowed.bufferSize] using large),
      List.getElem?_eq_none]
    exact Nat.le_trans (List.length_take_le _ _) large

/-- Each flush of the run appends to the file exactly the bytes of the log from the
flushed offset on, one buffer of them.
-/
def ExactFlushes (size : Nat) (buffers : Nat → Nat → Byte)
    (trace : List (LogMove τ × LogEvent))
    : Prop :=
  ∀ before outcome flushed after source target,
    trace = before ++ (.flush outcome, .wrote flushed) :: after
    → Run logStep (LogState.fresh size buffers) before source
    → logStep source (.flush outcome : LogMove τ) = some (target, .wrote flushed)
    → flushed = source.logger.flushedOffset
      ∧ flushed + size ≤ (logBytes before).length
      ∧ target.logger.file
        = source.logger.file ++ ((logBytes before).drop flushed).take size

/-- In a run in which the log never outruns a flush that is about to write, every flush is
exact.
-/
theorem flush_writes_log_window
    (undisturbed : Along logStep (LogState.fresh size buffers) trace
      (fun state move _ _ => Undisturbed state move))
    (keeps : Along logStep (LogState.fresh size buffers) trace
      (fun state move _ _ => KeepsUp state move))
    : ExactFlushes size buffers trace := by
  rintro before outcome flushed after source target rfl reached taken
  have windowed := windowed_of_run reached (along_left undisturbed) (along_left keeps)
  have complete := undisturbed before _ _ after source target rfl reached taken
  have ahead := keeps before _ _ after source target rfl reached taken
  obtain ⟨offset, here⟩ : ∃ offset, source.flusher = .write offset := wrote_at_write taken
  obtain ⟨same, _, written⟩ := flushStep_write here complete taken
  obtain rfl := LogEvent.wrote.inj same
  simp only [KeepsUp, FlushPc.InTime, here, windowed.bufferSize] at ahead
  obtain ⟨bytes, full⟩ := windowed.bufferBytes here ahead
  have sound := windowed.sound
  rw [here] at sound
  refine ⟨sound.1, full, ?_⟩
  rw [written, windowed.bufferSize, bytes]

end Flush

/-! ### A flush that is outrun -/

instance {τ : Type} (state : LogState) (move : LogMove τ) : Decidable (Undisturbed state move) :=
  match move with
  | .append _ _ => inferInstanceAs (Decidable (_ ≤ _))
  | .flush _ => inferInstanceAs (Decidable (_ = _))

instance (logger : Logger) (pc : FlushPc) : Decidable (pc.InTime logger) :=
  match pc with
  | .write _ => inferInstanceAs (Decidable (_ ≤ _))
  | .idle | .loadFlushed _ | .check _ _ | .advance | .panicked => .isTrue trivial

instance {τ : Type} (state : LogState) (move : LogMove τ) : Decidable (KeepsUp state move) :=
  match move with
  | .append _ _ => inferInstanceAs (Decidable (_ < _))
  | .flush _ => inferInstanceAs (Decidable (FlushPc.InTime _ _))

def completeWrite : Logger.WriteOutcome where
  written := 4
  synced := true

/-- The flusher finds one full buffer of four bytes and passes both of its checks; two more
entries arrive before it writes.
-/
def outrunFlush : List (LogMove Unit × LogEvent) :=
  (.append () [1, 1, 1, 1], .appended) :: List.replicate 3 (.flush completeWrite, .pending)
    ++ [(.append () [2, 2, 2, 2], .appended), (.append () [3, 3, 3, 3], .appended)]

/-- The first flush then writes the third entry, although no entry crosses a buffer, every
write is complete and the assertion has not fired.
-/
theorem flush_writes_overwritten_buffer
    : ¬ ∀ (size : Nat) (buffers : Nat → Nat → Byte) (trace : List (LogMove Unit × LogEvent))
        (state : LogState),
        Run logStep (LogState.fresh size buffers) trace state
        → Along logStep (LogState.fresh size buffers) trace
            (fun state move _ _ => Undisturbed state move)
        → LogEvent.overrun ∉ trace.map Prod.snd
        → ExactFlushes size buffers trace := by
  intro all
  obtain ⟨trace, state, run, outcome, undisturbed⟩ := exec_reaches_along
    (fun result : LogState × List (LogMove Unit × LogEvent) =>
      decide (result.2 = outrunFlush ++ [(.flush completeWrite, .wrote 0)]
        ∧ result.1.logger.file = [3, 3, 3, 3]))
    (by decide
      : (exec logStep (LogState.fresh 4 (fun _ _ => 0))
          (outrunFlush.map Prod.fst ++ [.flush completeWrite])).any _ = true)
    (by decide
      : passes logStep (fun state move => decide (Undisturbed state move)) _
          (outrunFlush.map Prod.fst ++ [.flush completeWrite]) = true)
  obtain ⟨rfl, file⟩ := of_decide_eq_true outcome
  have exactly := all 4 _ _ state run (by simpa using undisturbed) (by decide)
  obtain ⟨source, reached, taken⟩ := run.last_step
  obtain ⟨_, _, written⟩ := exactly outrunFlush _ 0 [] source state rfl reached taken
  have log : ((logBytes outrunFlush).drop 0).take 4 = [1, 1, 1, 1] := by decide
  rw [file, log] at written
  have empty : source.logger.file.length = 0 := by
    simpa using (congrArg List.length written).symm
  rw [List.length_eq_zero_iff.mp empty] at written
  exact absurd written (by decide)

/-- One entry fills a buffer and the flusher writes it before the next one arrives. -/
theorem flush_writes_log_window_one_buffer
    : ∃ trace : List (LogMove Unit × LogEvent),
        (.flush completeWrite, .wrote 0) ∈ trace
        ∧ ExactFlushes 4 (fun _ _ => 0) trace := by
  obtain ⟨trace, state, run, wrote, checked⟩ := exec_reaches_along
    (fun result : LogState × List (LogMove Unit × LogEvent) =>
      decide ((.flush completeWrite, .wrote 0) ∈ result.2))
    (by decide
      : (exec logStep (LogState.fresh 4 (fun _ _ => 0))
          (.append () [1, 1, 1, 1] :: List.replicate 4 (.flush completeWrite))).any _ = true)
    (by decide
      : passes logStep (fun state move => decide (Undisturbed state move ∧ KeepsUp state move)) _
          (.append () [1, 1, 1, 1] :: List.replicate 4 (.flush completeWrite)) = true)
  refine ⟨trace, of_decide_eq_true wrote, flush_writes_log_window ?_ ?_⟩
  · intro before action event after source target same reached taken
    exact (of_decide_eq_true (checked before action event after source target same reached taken)).1
  · intro before action event after source target same reached taken
    exact (of_decide_eq_true (checked before action event after source target same reached taken)).2

end Alchemy.Log
