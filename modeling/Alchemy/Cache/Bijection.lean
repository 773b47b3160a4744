import Alchemy.Cache.LockCalls

/-! Oid words and cache entries point at each other, in every state of every run.
-/

namespace Alchemy.Cache

open Oid ByteImage CacheState Interleaving

variable {τ : Type} [DecidableEq τ] {config : CacheConfig} {state next : CacheState τ} {t : τ}
  {event : CacheEvent}

/-- Every step keeps to the rights of its thread and keeps the cache consistent. -/
theorem Consistent.advance (consistent : Consistent config state)
    (effect : Effect config state t next event)
    : Advance config state t next := by
  cases effect with
  | think link => exact consistent.think link
  | tint link => exact consistent.tint link
  | seen link => exact consistent.seen link
  | claim here free => exact consistent.claim here free
  | put here => exact consistent.put here
  | replace here => exact consistent.replace here
  | writeBack here => exact consistent.writeBack here
  | publish here => exact consistent.publish here
  | alloc here fresh valid => exact consistent.alloc here fresh valid
  | promote here published held => exact consistent.promote here published held
  | drop here dropped => exact consistent.drop here dropped
  | got => exact ⟨.refl state t, consistent⟩
  | wrote here live mine held declared sizes found =>
      exact consistent.wrote here live held found
  | lockPending here moved => exact consistent.lockPending here moved
  | lockDone here moved done control => exact consistent.lockDone here moved done control

omit [DecidableEq τ] in
/-- The empty cache is consistent. -/
theorem init_consistent (storage : Rid → Image Byte) (hand : τ → Nat)
    : Consistent config (CacheState.init storage hand) where
  safe := fun _ => LockedOid.fresh_safe (by decide)
  middle := fun _ => by
    change middleBits 0#64 = 0#16
    decide
  untouched := fun _ _ => rfl
  valid := List.not_mem_nil
  returned := fun _ member => (List.not_mem_nil member).elim
  published := fun _ member => (List.not_mem_nil member).elim
  calls := fun _ => Calls.of_idle rfl (fun _ => rfl)
  sound := fun _ => trivial
  alone := fun _ _ _ left => by cases left
  directory :=
    { cached := fun _ _ said => by
        have zero : decode 0#64 = .rid 0#32 := by decide
        exact absurd (zero.symm.trans said) (by simp)
      uncached := fun _ member => (List.not_mem_nil member).elim
      slots := fun _ taken => (taken rfl).elim }
  views := fun _ live => (List.not_mem_nil live).elim

/-- Every reachable state is consistent. -/
theorem consistent_of_run {storage : Rid → Image Byte} {hand : τ → Nat}
    {trace : List ((τ × CacheMove τ) × CacheEvent)}
    (run : Run (cacheStep config) (CacheState.init storage hand) trace state)
    : Consistent config state :=
  run.invariant (init_consistent storage hand)
    (fun consistent taken => (consistent.advance (step_effect taken)).consistent)

/-- A node is copied into an entry by the owner of the record that the entry carries. -/
theorem Consistent.writes_of_placed {index : Word} (consistent : Consistent config state)
    (effect : Effect config state t next (.placed index))
    : state.Writes t (state.entries index).rid := by
  have known := consistent.sound t
  generalize label : CacheEvent.placed index = reported at effect
  cases effect with
  | put here =>
      obtain rfl := CacheEvent.placed.inj label
      rw [here] at known
      obtain ⟨searching, _, slot⟩ := known
      rw [slot]
      exact searching.sound.owns.writes
  | replace here =>
      obtain rfl := CacheEvent.placed.inj label
      rw [here] at known
      obtain ⟨_, _, victim, _⟩ := known
      rw [victim.slot]
      exact victim.owns.writes
  | @lockDone rid op after =>
      cases after <;> cases label
  | _ => cases label

/-- An entry is overwritten only while no other thread has a guard on the record in it. -/
theorem Consistent.overwrites_alone {index : Word} (consistent : Consistent config state)
    (effect : Effect config state t next event)
    (written
      : event = .placed index ∨ (next.entries index).rid ≠ (state.entries index).rid
        ∨ (next.entries index).val ≠ (state.entries index).val)
    {other : τ} (different : other ≠ t) (kind : GuardKind)
    : ⟨other, kind⟩ ∉ (state.oids (state.entries index).rid).guards := by
  intro member
  have held : state.Holds other (state.entries index).rid := ⟨_, member, rfl⟩
  have rights : (state.entries index).rid = sentinel ∨ state.Writes t (state.entries index).rid := by
    rcases written with rfl | changed
    · exact .inr (consistent.writes_of_placed effect)
    · rcases (consistent.advance effect).guarantee.entries index with ⟨rid, val⟩ | ⟨rights, _⟩
      · exact (changed.elim (fun moved => moved rid) (fun moved => moved val)).elim
      · exact rights
  rcases rights with empty | writes
  · exact consistent.valid (empty ▸ consistent.allocated_of_holds held)
  · exact different (consistent.exclusive writes held)

omit [DecidableEq τ] in
/-- A write guard shows in the writer bit of the word. -/
theorem Consistent.writer_shows {rid : Rid} (consistent : Consistent config state)
    (writes : state.Writes t rid)
    : writeLocked (state.oids rid).data = true := by
  rw [← Bool.not_eq_false, writeLocked_eq_false,
    ((consistent.safe rid).accounts.of_write writes).2]
  decide

omit [DecidableEq τ] in
/-- For a record that is not write-locked, the word confirms the entry that carries its rid. -/
theorem Consistent.cached_iff {rid : Rid} (consistent : Consistent config state)
    (returned : rid ∈ state.returned) (unlocked : writeLocked (state.oids rid).data = false)
    (index : Word)
    : state.place rid = .cached index
      ↔ index.toNat < config.capacity ∧ (state.entries index).rid = rid := by
  constructor
  · exact fun said => (consistent.directory.cached rid index said).2
  · rintro ⟨_, carries⟩
    obtain ⟨_, said | ⟨thread, moving⟩⟩ :=
      consistent.directory.slots index (carries ▸ consistent.ne_sentinel returned)
    · exact carries ▸ said
    · have owns := ((consistent.sound thread).transit moving).1
      rw [carries] at owns
      exact absurd (consistent.writer_shows owns.writes) (by simp [unlocked])

/-- Oid words and cache entries are in bijection, in every state that any threads can reach.
In order: for a returned record that is not write-locked, the word says `cached at index`
exactly when that entry carries its rid, and says its own rid otherwise; no two entries carry
one rid; no two words point to one entry; indices are below the capacity; whoever overwrites
an entry is the only thread with a guard on the record in it.
-/
theorem cache_oid_bijection {storage : Rid → Image Byte} {hand : τ → Nat}
    {trace : List ((τ × CacheMove τ) × CacheEvent)}
    (run : Run (cacheStep config) (CacheState.init storage hand) trace state)
    : (∀ rid ∈ state.returned,
        writeLocked (state.oids rid).data = false
        → (∀ index,
            decode (state.oids rid).data = .cached index
            ↔ index.toNat < config.capacity ∧ (state.entries index).rid = rid)
          ∧ ((∀ index, decode (state.oids rid).data ≠ .cached index)
            → decode (state.oids rid).data = .rid rid))
      ∧ (∀ first second,
          (state.entries first).rid = (state.entries second).rid
          → (state.entries first).rid ≠ sentinel
          → first = second)
      ∧ (∀ rid other index,
          decode (state.oids rid).data = .cached index
          → decode (state.oids other).data = .cached index
          → rid = other)
      ∧ (∀ rid index, decode (state.oids rid).data = .cached index
          → index.toNat < config.capacity)
      ∧ ∀ t move next event index,
          state.step config t move = some (next, event)
          → (event = .placed index ∨ (next.entries index).rid ≠ (state.entries index).rid
            ∨ (next.entries index).val ≠ (state.entries index).val)
          → ∀ other, other ≠ t
            → ∀ kind, ⟨other, kind⟩ ∉ (state.oids (state.entries index).rid).guards := by
  have consistent := consistent_of_run run
  refine ⟨?_, ?_, ?_, ?_, ?_⟩
  · intro rid returned unlocked
    refine ⟨consistent.cached_iff returned unlocked, ?_⟩
    intro uncached
    cases said : decode (state.oids rid).data with
    | cached index => exact absurd said (uncached index)
    | rid number => rw [consistent.directory.uncached rid returned number said]
  · intro first second same valid
    exact consistent.slot_unique rfl same.symm valid
  · intro rid other index said saidToo
    obtain ⟨_, _, carries⟩ := consistent.directory.cached rid index said
    obtain ⟨_, _, carriesToo⟩ := consistent.directory.cached other index saidToo
    exact carries.symm.trans carriesToo
  · intro rid index said
    exact (consistent.directory.cached rid index said).2.1
  · intro t move next event index taken written other different kind
    exact consistent.overwrites_alone (step_effect taken) written different kind

/-- One entry and one probe. -/
def singleEntry : CacheConfig where
  capacity := 1
  probeLen := 1
  schema :=
    { toCached := fun tuple => tuple
      writeBack := fun cached _ => cached
      toCachedField := some }
  fields := []
  capacity_pos := by decide
  capacity_u32 := by decide

/-- One thread inserts record 0 and drops its guard, another inserts record 1 and evicts
record 0 from the only entry. The word of record 0 says its rid again.
-/
theorem cache_oid_bijection_evicted
    : ∃ (trace : List ((Bool × CacheMove Bool) × CacheEvent)) (state : CacheState Bool),
        Run (cacheStep singleEntry) (CacheState.init (fun _ _ => 0) (fun _ => 0)) trace state
        ∧ (state.entries 0).rid = 1#32
        ∧ decode (state.oids 0#32).data = .rid 0#32 := by
  obtain ⟨trace, state, run, passed⟩ := exec_reaches
    (fun result : CacheState Bool × List ((Bool × CacheMove Bool) × CacheEvent) =>
      decide ((result.1.entries 0).rid = 1#32)
      && decide (0#32 ∈ result.1.returned)
      && decide (writeLocked (result.1.oids 0#32).data = false))
    (by decide +kernel
      : (exec (cacheStep singleEntry) (CacheState.init (fun _ _ => 0) (fun _ => 0))
          ([(true, .insert 0#32 (fun _ => 0))]
            ++ List.replicate 15 (true, .advance false)
            ++ [(true, .drop 0#32 .write), (false, .insert 1#32 (fun _ => 0))]
            ++ List.replicate 25 (false, .advance false))).any _ = true)
  simp only [Bool.and_eq_true, decide_eq_true_eq] at passed
  obtain ⟨⟨carries, returned⟩, unlocked⟩ := passed
  obtain ⟨cached, uncached⟩ := (cache_oid_bijection run).1 0#32 returned unlocked
  refine ⟨trace, state, run, carries, uncached ?_⟩
  intro index said
  obtain ⟨small, slot⟩ := (cached index).mp said
  obtain rfl : index = 0 := BitVec.eq_of_toNat_eq (Nat.lt_one_iff.mp small)
  rw [carries] at slot
  exact absurd slot (by decide)

end Alchemy.Cache
