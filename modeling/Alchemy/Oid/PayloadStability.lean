import Alchemy.Oid.MutualExclusion

/-! The payload of an oid word belongs to the holder of the write guard.
Lock operations of all threads leave it alone, and the unsynchronised load and store of
`store_rid` and `store_index` act on the word as one step because nobody can move it.
-/

namespace Alchemy.Oid

open Interleaving

variable {τ : Type} [DecidableEq τ] {oid next : LockedOid τ} {t : τ} {event : LockEvent}

def LockEvent.isStore : LockEvent → Bool
  | .stored _ => true
  | _ => false

theorem decode_eq_cached {val index : Word}
    : decode val = .cached index ↔ isCached val = true ∧ toCacheIndex val = index := by
  cases flag : isCached val <;> simp [decode, flag]

theorem decode_eq_rid {val : Word} {rid : Rid}
    : decode val = .rid rid ↔ isRid val = true ∧ toRid val = rid := by
  cases flag : isCached val <;> simp [decode, isRid, flag]

/-- A step that is not a store leaves the payload alone, whatever the word was. -/
theorem LockedOid.Effect.payload_same (effect : oid.Effect t next event)
    (notStore : event.isStore = false)
    : payload next.data = payload oid.data := by
  cases effect with
  | quiet => rfl
  | grantRead => exact payload_withReader _
  | grantWrite => exact payload_withWriter _
  | upgrade => exact payload_upgraded _
  | dropRead => exact payload_sub_reader _
  | dropWrite => exact payload_sub_writer _
  | storeRid | storeIndex => simp [LockEvent.isStore] at notStore

/-- A store is done by the holder of the write guard and computed from the current word. -/
theorem LockedOid.Safe.store_current {place : Place} (safe : oid.Safe)
    (effect : oid.Effect t next (.stored place))
    : ⟨t, .write⟩ ∈ oid.guards
      ∧ next.guards = oid.guards
      ∧ ((∃ rid, place = .rid rid ∧ next.data = storeRidData oid.data rid)
        ∨ ∃ new, place = .cached new ∧ FitsId new ∧ next.data = storeIndexData oid.data new) := by
  have known := safe.sound t
  cases effect with
  | quiet isQuiet => simp [LockEvent.isQuiet] at isQuiet
  | storeRid storing =>
      rw [storing] at known
      exact ⟨known.1, rfl, .inl ⟨_, rfl, known.2⟩⟩
  | storeIndex storing =>
      rw [storing] at known
      exact ⟨known.1, rfl, .inr ⟨_, rfl, known.2.2, known.2.1⟩⟩

theorem LockedOid.Safe.lockByte_store {place : Place} (safe : oid.Safe)
    (effect : oid.Effect t next (.stored place))
    : lockByte next.data = lockByte oid.data := by
  obtain ⟨_, _, ⟨rid, _, data⟩ | ⟨new, _, small, data⟩⟩ := safe.store_current effect
  · rw [data, lockByte_storeRidData]
  · rw [data, lockByte_storeIndexData _ small]

/-- Bits 32..47 keep their value through every step. -/
theorem LockedOid.Safe.middleBits_step (safe : oid.Safe) (effect : oid.Effect t next event)
    : middleBits next.data = middleBits oid.data := by
  cases isStore : event.isStore with
  | false =>
      rw [middleBits_of_payload, middleBits_of_payload, effect.payload_same isStore]
  | true =>
      cases event with
      | stored place =>
          obtain ⟨_, _, ⟨rid, _, data⟩ | ⟨new, _, small, data⟩⟩ := safe.store_current effect
          · rw [data, middleBits_storeRidData]
          · rw [data, middleBits_storeIndexData _ small]
      | _ => simp [LockEvent.isStore] at isStore

/-- After a store the word says what was stored. -/
theorem LockedOid.Safe.decode_store {place : Place} (safe : oid.Safe)
    (effect : oid.Effect t next (.stored place)) (middle : middleBits oid.data = 0#16)
    : decode next.data = place := by
  obtain ⟨_, _, ⟨rid, rfl, data⟩ | ⟨new, rfl, small, data⟩⟩ := safe.store_current effect
  · rw [data, decode_storeRidData]
  · rw [data, decode_storeIndexData _ small middle]

/-- The middle bits are clear in every reachable state. -/
theorem middleBits_of_run {word : Word} (unlocked : lockByte word = 0#8)
    (middle : middleBits word = 0#16) {trace : List ((τ × LockMove) × LockEvent)}
    (run : Run lockStep (LockedOid.fresh word) trace oid)
    : middleBits oid.data = 0#16 := by
  induction run with
  | start => exact middle
  | extend earlier taken ih =>
      rw [(safe_of_run unlocked earlier).middleBits_step (LockedOid.step_effect taken), ih]

/-- The word says what the last store of the run said, by induction on the run. -/
theorem decode_last_store {word : Word} (unlocked : lockByte word = 0#8)
    (middle : middleBits word = 0#16) {trace : List ((τ × LockMove) × LockEvent)}
    (run : Run lockStep (LockedOid.fresh word) trace oid)
    {before after : List ((τ × LockMove) × LockEvent)} {action : τ × LockMove} {place : Place}
    (history : trace = before ++ (action, .stored place) :: after)
    (noLater : ∀ taken ∈ after, taken.2.isStore = false)
    : decode oid.data = place := by
  induction run generalizing after with
  | start => simp at history
  | @extend trace state move next event earlier taken ih =>
      have safe := safe_of_run unlocked earlier
      rcases List.eq_nil_or_concat after with rfl | ⟨rest, last, rfl⟩
      · obtain ⟨_, pair⟩ := List.append_inj' history rfl
        obtain ⟨_, rfl⟩ := Prod.mk.inj (List.singleton_inj.mp pair)
        exact safe.decode_store (LockedOid.step_effect taken)
          (middleBits_of_run unlocked middle earlier)
      · rw [List.concat_eq_append, ← List.cons_append, ← List.append_assoc] at history
        obtain ⟨same, pair⟩ := List.append_inj' history rfl
        have quiet := noLater last (by simp)
        rw [← List.singleton_inj.mp pair] at quiet
        rw [decode_congr ((LockedOid.step_effect taken).payload_same quiet)]
        exact ih same (fun taken member => noLater taken (by simp [member]))

/-- While a thread keeps a read guard, the decoded payload does not change.
Witness: a store needs a write guard, which excludes the read guard.
-/
theorem decode_while_reading (safe : oid.Safe) {t : τ}
    {trace : List ((τ × LockMove) × LockEvent)} (run : Run lockStep oid trace next)
    (reading : Throughout lockStep oid trace (fun state => ⟨t, .read⟩ ∈ state.guards))
    : decode next.data = decode oid.data := by
  induction run with
  | start => rfl
  | @extend trace state action last event earlier taken ih =>
      obtain ⟨past, _⟩ := (throughout_extend earlier taken).mp reading
      have held : ⟨t, .read⟩ ∈ state.guards := past trace [] state (by simp) earlier
      have safeThere : state.Safe :=
        earlier.invariant safe (fun safe taken => safe.step (LockedOid.step_effect taken))
      have effect := LockedOid.step_effect taken
      have quiet : event.isStore = false := by
        cases event with
        | stored place =>
            have writing := (safeThere.store_current effect).1
            rw [(safeThere.accounts.of_write writing).1] at held
            simp at held
        | _ => rfl
      rw [decode_congr (effect.payload_same quiet), ih past]

/-- Payload stability and round trip of the oid word, for runs of any threads from an
unlocked word whose bits 32..47 are clear, as `from_rid` builds it. In order: lock
operations keep the low 56 bits; a store keeps the lock byte, and what it stores is
computed from the word as it stands; bits 32..47 stay zero; the last store is what the
decoders read, for `store_index` and for `store_rid`; a reader sees one payload.
-/
theorem lockedOid_payload_stable {word : Word} (unlocked : lockByte word = 0#8)
    (middle : middleBits word = 0#16) {trace : List ((τ × LockMove) × LockEvent)}
    (run : Run lockStep (LockedOid.fresh word) trace oid)
    : (∀ t move next event,
        oid.step t move = some (next, event)
        → event.isStore = false
        → payload next.data = payload oid.data)
      ∧ (∀ t move next place,
          oid.step t move = some (next, .stored place)
          → lockByte next.data = lockByte oid.data
            ∧ ((∃ rid, place = .rid rid ∧ next.data = storeRidData oid.data rid)
              ∨ ∃ new, place = .cached new ∧ next.data = storeIndexData oid.data new))
      ∧ middleBits oid.data = 0#16
      ∧ (∀ before action new after,
          trace = before ++ (action, .stored (.cached new)) :: after
          → (∀ taken ∈ after, taken.2.isStore = false)
          → isCached oid.data = true ∧ toCacheIndex oid.data = new)
      ∧ (∀ before action rid after,
          trace = before ++ (action, .stored (.rid rid)) :: after
          → (∀ taken ∈ after, taken.2.isStore = false)
          → isRid oid.data = true ∧ toRid oid.data = rid)
      ∧ ∀ t later last,
          Run lockStep oid later last
          → Throughout lockStep oid later (fun state => ⟨t, .read⟩ ∈ state.guards)
          → decode last.data = decode oid.data := by
  have safe := safe_of_run unlocked run
  refine ⟨?_, ?_, middleBits_of_run unlocked middle run, ?_, ?_, ?_⟩
  · intro t move next event taken quiet
    exact (LockedOid.step_effect taken).payload_same quiet
  · intro t move next place taken
    have effect := LockedOid.step_effect taken
    refine ⟨safe.lockByte_store effect, ?_⟩
    exact (safe.store_current effect).2.2.imp_right (fun ⟨new, said, _, data⟩ => ⟨new, said, data⟩)
  · intro before action new after history noLater
    exact decode_eq_cached.mp (decode_last_store unlocked middle run history noLater)
  · intro before action rid after history noLater
    exact decode_eq_rid.mp (decode_last_store unlocked middle run history noLater)
  · intro t later last more reading
    exact decode_while_reading safe more reading

/-- A writer stores index 5 and leaves; the reader that follows decodes index 5. -/
theorem lockedOid_payload_stable_store_index
    : ∃ (trace : List ((Bool × LockMove) × LockEvent)) (oid : LockedOid Bool),
        Run lockStep (LockedOid.fresh (fromRid 3#32)) trace oid
        ∧ oid.readers = 1
        ∧ isCached oid.data = true
        ∧ toCacheIndex oid.data = 5#64 := by
  obtain ⟨trace, oid, run, passed⟩ := exec_reaches
    (fun result : LockedOid Bool × List ((Bool × LockMove) × LockEvent) =>
      decide (result.1.readers = 1)
      && decide (result.2 =
        [((true, .call .tryWrite), .pending), ((true, .advance false), .pending),
          ((true, .advance false), .granted .write), ((true, .call (.storeIndex 5)), .pending),
          ((true, .advance false), .pending)]
        ++ ((true, .advance false), .stored (.cached 5))
        :: [((true, .call .dropWrite), .dropped .write), ((false, .call .tryRead), .pending),
          ((false, .advance false), .pending), ((false, .advance false), .granted .read)]))
    (by decide
      : (exec lockStep (LockedOid.fresh (fromRid 3#32))
          [(true, .call .tryWrite), (true, .advance false), (true, .advance false),
            (true, .call (.storeIndex 5)), (true, .advance false), (true, .advance false),
            (true, .call .dropWrite), (false, .call .tryRead), (false, .advance false),
            (false, .advance false)]).any _ = true)
  rw [Bool.and_eq_true_iff, decide_eq_true_iff, decide_eq_true_iff] at passed
  obtain ⟨_, _, _, index, _⟩ := lockedOid_payload_stable (by decide) (by decide) run
  exact ⟨trace, oid, run, passed.1, index _ _ _ _ passed.2 (by decide)⟩

end Alchemy.Oid
