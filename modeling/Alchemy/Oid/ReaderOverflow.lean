import Alchemy.Oid.MutualExclusion
import Mathlib.Data.List.FinRange

/-! The reader count has seven bits and neither `read` nor `try_read` checks them in a
release build: the bound is a `debug_assert` of `try_read` and absent from `read`.
A grant is clean exactly when fewer than `MAX_READER` read guards were alive before it.
-/

namespace Alchemy.Oid

open Interleaving

variable {τ : Type} [DecidableEq τ] {oid next : LockedOid τ} {t : τ}

/-- What a read grant should do to the word: the writer bit stays clear and
`read_lock_cnt` grows by one.
-/
def CleanGrant (oid next : LockedOid τ) : Prop :=
  writeLocked next.data = false ∧ readLockCnt next.data = readLockCnt oid.data + 1#64

theorem maxReader_toNat : maxReader.toNat = 127 := by decide

/-- A read grant finds only read guards, fewer than 128 of them. -/
theorem LockedOid.Safe.grant_readers (safe : oid.Safe)
    (effect : oid.Effect t next (.granted .read))
    : next.data = withReader oid.data
      ∧ (lockByte oid.data).toNat = oid.readers
      ∧ oid.readers < 128 := by
  have known := safe.sound t
  cases effect with
  | quiet isQuiet => simp [LockEvent.isQuiet] at isQuiet
  | grantRead waiting =>
      have clear : writeLocked oid.data = false := by
        rcases waiting with here | here <;> rw [here] at known <;> exact known
      obtain ⟨allRead, count⟩ := safe.accounts.of_clear clear
      rw [← (LockedOid.readers_of_allRead allRead).1] at count
      rw [writeLocked_eq_false, count] at clear
      exact ⟨rfl, count, clear⟩

/-- One grant is clean exactly below the bound.
Witness: the new lock byte is the old count plus one, and bit seven is the writer bit.
-/
theorem LockedOid.Safe.cleanGrant_iff (safe : oid.Safe)
    (effect : oid.Effect t next (.granted .read))
    : CleanGrant oid next ↔ oid.readers < maxReader.toNat := by
  obtain ⟨data, count, bound⟩ := safe.grant_readers effect
  have byte : (lockByte next.data).toNat = oid.readers + 1 := by
    rw [data, lockByte_withReader, BitVec.toNat_add, count, Nat.mod_eq_of_lt]
    · rfl
    · exact Nat.lt_trans (Nat.add_lt_add_right bound 1) (by decide)
  have counted : readLockCnt next.data = readLockCnt oid.data + 1#64 := by
    apply BitVec.eq_of_toNat_eq
    rw [BitVec.toNat_add, readLockCnt_toNat, readLockCnt_toNat, byte, count, Nat.mod_eq_of_lt]
    · rfl
    · exact Nat.lt_trans (Nat.add_lt_add_right bound 1) (by decide)
  rw [CleanGrant, writeLocked_eq_false, byte, maxReader_toNat]
  constructor
  · rintro ⟨clear, _⟩
    omega
  · intro few
    exact ⟨by omega, counted⟩

/-- In any run of any threads, every read grant leaves the writer bit clear and adds one to
the reader count if and only if every one of them found fewer than `MAX_READER` live
read guards.
-/
theorem read_grants_clean_iff {word : Word} (unlocked : lockByte word = 0#8)
    (trace : List ((τ × LockMove) × LockEvent))
    : Along lockStep (LockedOid.fresh word) trace
        (fun before _ event after => event = .granted .read → CleanGrant before after)
      ↔ Along lockStep (LockedOid.fresh word) trace
          (fun before _ event _ =>
            event = .granted .read → before.readers < maxReader.toNat) := by
  apply along_congr
  intro past oid action next event run taken
  have safe := safe_of_run unlocked run
  constructor
  · rintro clean rfl
    exact (safe.cleanGrant_iff (LockedOid.step_effect taken)).mp (clean rfl)
  · rintro few rfl
    exact (safe.cleanGrant_iff (LockedOid.step_effect taken)).mpr (few rfl)

/-- The state after every listed thread has taken a read guard with `try_read`. -/
def readersOn (threads : List τ) : LockedOid τ :=
  { data := threads.foldr (fun _ data => withReader data) (fromRid 0#32)
    guards := threads.map (fun t => ⟨t, .read⟩)
    pc := fun _ => .idle }

omit [DecidableEq τ] in
theorem lockByte_readersOn (threads : List τ)
    : lockByte (readersOn threads).data = BitVec.ofNat 8 threads.length := by
  induction threads with
  | nil => exact (by decide : lockByte (fromRid 0#32) = BitVec.ofNat 8 0)
  | cons t rest ih =>
      simp only [readersOn, List.foldr_cons, List.length_cons] at ih ⊢
      rw [lockByte_withReader, ih]
      exact (BitVec.ofNat_add rest.length 1).symm

/-- One more `try_read` by an idle thread comes to its compare-exchange, which succeeds. -/
theorem readersOn_cons (threads : List τ) (few : threads.length < 128) (t : τ)
    : ∃ trace oid,
        Run lockStep (readersOn threads) trace oid
        ∧ lockStep oid (t, .advance false)
          = some (readersOn (t :: threads), .granted .read)
        ∧ oid.guards = (readersOn threads).guards
        ∧ ∀ taken ∈ trace, taken.2 = .pending := by
  have clear : writeLocked (readersOn threads).data = false := by
    rw [writeLocked_eq_false, lockByte_readersOn, BitVec.toNat_ofNat]
    omega
  let called := (readersOn threads).moveTo t .tryReadLoad
  let loaded := called.moveTo t (.tryReadCas (readersOn threads).data)
  have first : lockStep (readersOn threads) (t, .call .tryRead) = some (called, .pending) := rfl
  have second : lockStep called (t, .advance false) = some (loaded, .pending) := by
    have here : called.pc t = .tryReadLoad := Function.update_self ..
    have data : called.data = (readersOn threads).data := rfl
    simp only [lockStep, LockedOid.step, LockedOid.resume, here, data, clear]
    rfl
  have third : lockStep loaded (t, .advance false)
      = some (readersOn (t :: threads), .granted .read) := by
    have here : loaded.pc t = .tryReadCas loaded.data := Function.update_self ..
    simp only [lockStep, LockedOid.step, LockedOid.resume, here, Bool.not_false,
      Bool.true_and, beq_self_eq_true, if_true, Option.some.injEq, Prod.mk.injEq, and_true]
    simp [LockedOid.grant, LockedOid.moveTo, called, loaded, readersOn]
  exact ⟨_, loaded, (Run.single first).extend second, third, rfl, by simp⟩

/-- Any 128 threads or fewer can hold read guards at once, by induction on the threads. -/
theorem readersOn_run (threads : List τ) (few : threads.length ≤ 128)
    : ∃ trace, Run lockStep (LockedOid.fresh (fromRid 0#32)) trace (readersOn threads) := by
  induction threads with
  | nil => exact ⟨[], .start⟩
  | cons t rest ih =>
      rw [List.length_cons] at few
      obtain ⟨trace, run⟩ := ih (Nat.le_of_succ_le few)
      obtain ⟨more, oid, waiting, granted, _, _⟩ := readersOn_cons rest few t
      exact ⟨_, (run.trans waiting).extend granted⟩

/-- When thread 127 joins the 127 readers of a freshly allocated oid, its grant makes the
word say that it is write-locked.
-/
theorem read_grant_sets_writer_bit
    : ¬ ∀ (trace : List ((Fin 128 × LockMove) × LockEvent)) (oid : LockedOid (Fin 128)),
        Run lockStep (LockedOid.fresh (fromRid 0#32)) trace oid
        → Along lockStep (LockedOid.fresh (fromRid 0#32)) trace
            (fun before _ event after => event = .granted .read → CleanGrant before after) := by
  intro claimed
  let others := (List.finRange 128).take 127
  have count : others.length = 127 := by simp [others]
  obtain ⟨trace, run⟩ := readersOn_run others (by omega)
  obtain ⟨more, oid, waiting, granted, _, _⟩ := readersOn_cons others (by omega) 127
  have reached := run.trans waiting
  have clean := ((along_extend reached granted).mp (claimed _ _ (reached.extend granted))).2 rfl
  have bit := clean.1
  rw [writeLocked_eq_false, lockByte_readersOn, List.length_cons, count] at bit
  exact absurd bit (by decide)

/-- A single reader's grant meets the bound, so it is clean. -/
theorem read_grants_clean_iff_single_reader
    : ∃ trace : List ((Unit × LockMove) × LockEvent),
        (∃ taken ∈ trace, taken.2 = .granted .read)
        ∧ Along lockStep (LockedOid.fresh (fromRid 0#32)) trace
            (fun before _ event after => event = .granted .read → CleanGrant before after) := by
  obtain ⟨more, oid, waiting, granted, guards, quiet⟩ := readersOn_cons ([] : List Unit) (by simp) ()
  have few : oid.readers < maxReader.toNat := by
    rw [LockedOid.readers, guards]
    decide
  refine ⟨_, ⟨_, List.mem_append_right _ (List.mem_singleton_self _), rfl⟩,
    (read_grants_clean_iff (by decide) _).mpr ((along_extend waiting granted).mpr ⟨?_, ?_⟩)⟩
  · intro before action event after state next same _ _ isGrant
    have pending := quiet (action, event) (by simp [same])
    rw [isGrant] at pending
    cases pending
  · exact fun _ => few

end Alchemy.Oid
