import Alchemy.Oid.LockSteps
import Mathlib.Data.List.Count

/-! The lock byte counts the live guards in every reachable state of one oid word.
The invariant needs no bound on the readers: at 128 of them the byte reads `0x80`, which
refuses every further acquisition just as a writer does.
-/

namespace Alchemy.Oid

open Interleaving

variable {τ : Type}

def LockedOid.readers (oid : LockedOid τ) : Nat :=
  oid.guards.countP (fun guard => guard.kind == .read)

def LockedOid.writers (oid : LockedOid τ) : Nat :=
  oid.guards.countP (fun guard => guard.kind == .write)

/-! ### The lock byte accounts for the guards -/

/-- Either one write guard is alive and the byte is `0x80`, or all guards are read guards
and the byte is their number.
-/
def Accounts (data : Word) (guards : List (Guard τ)) : Prop :=
  (∃ owner, guards = [⟨owner, .write⟩] ∧ lockByte data = 0x80#8)
  ∨ ((∀ guard ∈ guards, guard.kind = .read) ∧ (lockByte data).toNat = guards.length)

/-- A live write guard is the only guard. -/
theorem Accounts.of_write {data : Word} {guards : List (Guard τ)} {t : τ}
    (accounts : Accounts data guards) (held : ⟨t, .write⟩ ∈ guards)
    : guards = [⟨t, .write⟩] ∧ lockByte data = 0x80#8 := by
  rcases accounts with ⟨owner, rfl, byte⟩ | ⟨allRead, _⟩
  · rw [List.mem_singleton] at held
    exact ⟨by rw [held], byte⟩
  · exact absurd (allRead _ held) (by simp)

/-- With a live read guard there are only read guards, and the byte counts them. -/
theorem Accounts.of_read {data : Word} {guards : List (Guard τ)} {t : τ}
    (accounts : Accounts data guards) (held : ⟨t, .read⟩ ∈ guards)
    : (∀ guard ∈ guards, guard.kind = .read) ∧ (lockByte data).toNat = guards.length := by
  rcases accounts with ⟨owner, rfl, _⟩ | counted
  · simp at held
  · exact counted

/-- A clear writer bit excludes a write guard. -/
theorem Accounts.of_clear {data : Word} {guards : List (Guard τ)}
    (accounts : Accounts data guards) (clear : writeLocked data = false)
    : (∀ guard ∈ guards, guard.kind = .read) ∧ (lockByte data).toNat = guards.length := by
  rcases accounts with ⟨owner, _, byte⟩ | counted
  · rw [writeLocked_eq_false, byte] at clear
    exact absurd clear (by decide)
  · exact counted

/-- A zero lock byte excludes every guard. -/
theorem Accounts.of_unlocked {data : Word} {guards : List (Guard τ)}
    (accounts : Accounts data guards) (unlocked : hasLock data = false)
    : guards = [] := by
  rw [hasLock_eq_false] at unlocked
  rcases accounts with ⟨owner, _, byte⟩ | ⟨_, count⟩
  · rw [unlocked] at byte
    exact absurd byte (by decide)
  · rw [unlocked] at count
    exact List.length_eq_zero_iff.mp count.symm

/-! ### The invariant and its preservation -/

/-- The lock byte counts the guards and every thread's knowledge is true. -/
structure LockedOid.Safe (oid : LockedOid τ) : Prop where
  accounts : Accounts oid.data oid.guards
  sound : ∀ t, (oid.pc t).Sound oid t

theorem LockedOid.fresh_safe {word : Word} (unlocked : lockByte word = 0#8)
    : (LockedOid.fresh word : LockedOid τ).Safe where
  accounts := .inr ⟨by simp [LockedOid.fresh], by simp [LockedOid.fresh, unlocked]⟩
  sound := fun _ => trivial

/-- The knowledge at a program point reads the word and the guards only. -/
theorem LockPc.sound_congr {oid next : LockedOid τ} {t : τ} {pc : LockPc}
    (data : next.data = oid.data) (guards : next.guards = oid.guards)
    : pc.Sound next t ↔ pc.Sound oid t := by
  cases pc <;> simp only [LockPc.Sound, data, guards]

variable [DecidableEq τ] {oid next : LockedOid τ} {t : τ} {event : LockEvent}

/-- A step never takes away another thread's guard. -/
theorem LockedOid.Effect.other_guard {guard : Guard τ} (effect : oid.Effect t next event)
    (other : guard.owner ≠ t) (held : guard ∈ oid.guards)
    : guard ∈ next.guards := by
  have differs (kind : GuardKind) : guard ≠ ⟨t, kind⟩ := by
    rintro rfl
    exact other rfl
  cases effect with
  | quiet | storeRid | storeIndex => exact held
  | grantRead | grantWrite => exact List.mem_cons_of_mem _ held
  | upgrade => exact List.mem_cons_of_mem _ ((List.mem_erase_of_ne (differs _)).mpr held)
  | dropRead | dropWrite => exact (List.mem_erase_of_ne (differs _)).mpr held

/-- While another thread owns the write guard, a step changes neither word nor guards.
Witness: every loud effect needs a clear writer bit or a guard of the mover.
-/
theorem LockedOid.Safe.writer_blocks {owner : τ} (safe : oid.Safe)
    (effect : oid.Effect t next event) (other : owner ≠ t)
    (held : ⟨owner, .write⟩ ∈ oid.guards)
    : next.data = oid.data ∧ next.guards = oid.guards := by
  obtain ⟨only, byte⟩ := safe.accounts.of_write held
  have known := safe.sound t
  have foreign (kind : GuardKind) : ⟨t, kind⟩ ∉ oid.guards := by
    rw [only, List.mem_singleton]
    rintro ⟨⟩
    exact other rfl
  cases effect with
  | quiet => exact ⟨rfl, rfl⟩
  | grantRead waiting =>
      have clear : writeLocked oid.data = false := by
        rcases waiting with here | here <;> rw [here] at known <;> exact known
      rw [writeLocked_eq_false, byte] at clear
      exact absurd clear (by decide)
  | grantWrite waiting =>
      have clear : hasLock oid.data = false := by
        rcases waiting with here | here <;> rw [here] at known <;> exact known
      rw [hasLock_eq_false, byte] at clear
      exact absurd clear (by decide)
  | upgrade waiting =>
      rw [waiting] at known
      exact absurd known.1 (foreign _)
  | dropRead _ mine | dropWrite _ mine => exact absurd mine (foreign _)
  | storeRid storing | storeIndex storing =>
      rw [storing] at known
      exact absurd known.1 (foreign _)

/-- What another thread knows survives a step of the mover. -/
theorem LockedOid.Safe.other_sound {other : τ} {pc : LockPc} (safe : oid.Safe)
    (effect : oid.Effect t next event) (different : other ≠ t) (known : pc.Sound oid other)
    : pc.Sound next other := by
  cases pc with
  | upgradeLoad => exact effect.other_guard different known
  | upgradeCas val => exact ⟨effect.other_guard different known.1, known.2⟩
  | storeRidLoad rid => exact effect.other_guard different known
  | storeIndexLoad new => exact ⟨effect.other_guard different known.1, known.2⟩
  | storeRidStore data rid =>
      obtain ⟨sameData, sameGuards⟩ := safe.writer_blocks effect different known.1
      exact (LockPc.sound_congr sameData sameGuards).mpr known
  | storeIndexStore data new =>
      obtain ⟨sameData, sameGuards⟩ := safe.writer_blocks effect different known.1
      exact (LockPc.sound_congr sameData sameGuards).mpr known
  | readCas val | tryReadCas val | writeCas val | tryWriteCas val => exact known
  | _ => trivial

/-- Every step keeps the lock byte equal to what the guards say.
Witness: acquisitions start from a byte without the bits they add, releases from a byte
that counts the guard they drop.
-/
theorem LockedOid.Safe.accounts_step (safe : oid.Safe) (effect : oid.Effect t next event)
    : Accounts next.data next.guards := by
  have known := safe.sound t
  cases effect with
  | quiet => exact safe.accounts
  | grantRead waiting =>
      have clear : writeLocked oid.data = false := by
        rcases waiting with here | here <;> rw [here] at known <;> exact known
      obtain ⟨allRead, count⟩ := safe.accounts.of_clear clear
      rw [writeLocked_eq_false] at clear
      refine .inr ⟨?_, ?_⟩
      · intro guard member
        rcases List.mem_cons.mp member with rfl | older
        · rfl
        · exact allRead guard older
      · rw [LockedOid.grant, lockByte_withReader, BitVec.toNat_add, List.length_cons, count,
          Nat.mod_eq_of_lt]
        · rfl
        · rw [← count]
          exact Nat.lt_trans (Nat.add_lt_add_right clear _) (by decide)
  | grantWrite waiting =>
      have unlocked : hasLock oid.data = false := by
        rcases waiting with here | here <;> rw [here] at known <;> exact known
      refine .inl ⟨t, ?_, ?_⟩
      · rw [LockedOid.grant, safe.accounts.of_unlocked unlocked]
      · rw [LockedOid.grant, lockByte_withWriter, (hasLock_eq_false _).mp unlocked]
        decide
  | upgrade waiting =>
      rw [waiting] at known
      obtain ⟨allRead, count⟩ := safe.accounts.of_read known.1
      have single : oid.guards.length ≤ 1 := count ▸ known.2
      refine .inl ⟨t, ?_, lockByte_upgraded _⟩
      obtain ⟨guard, only⟩ := List.length_eq_one_iff.mp
        (Nat.le_antisymm single (List.length_pos_of_mem known.1))
      have mine := known.1
      rw [only, List.mem_singleton] at mine
      simp only [only, ← mine, List.erase_cons_head]
  | dropRead _ held =>
      obtain ⟨allRead, count⟩ := safe.accounts.of_read held
      refine .inr ⟨fun guard member => allRead guard (List.mem_of_mem_erase member), ?_⟩
      have positive := List.length_pos_of_mem held
      have bound := (lockByte oid.data).isLt
      rw [lockByte_sub_reader, BitVec.toNat_sub, List.length_erase_of_mem held, ← count]
      rw [← count] at positive
      simp only [BitVec.toNat_ofNat, Nat.reducePow, Nat.reduceMod] at bound ⊢
      omega
  | dropWrite _ held =>
      obtain ⟨only, byte⟩ := safe.accounts.of_write held
      refine .inr ?_
      rw [lockByte_sub_writer, byte, only]
      simp
  | storeRid storing =>
      rw [storing] at known
      obtain ⟨held, rfl⟩ := known
      rw [Accounts, lockByte_storeRidData]
      exact safe.accounts
  | storeIndex storing =>
      rw [storing] at known
      obtain ⟨held, rfl, small⟩ := known
      rw [Accounts, lockByte_storeIndexData _ small]
      exact safe.accounts

/-- The mover's new program point is sound. -/
theorem LockedOid.Safe.mover_sound (safe : oid.Safe) (effect : oid.Effect t next event)
    : (next.pc t).Sound next t := by
  cases effect with
  | @quiet next _ _ sound =>
      have same := @LockPc.sound_congr τ oid (oid.moveTo t next) t
      simpa only [LockedOid.moveTo, Function.update_self] using
        (same rfl rfl).mpr (sound (safe.sound t))
  | grantRead | grantWrite =>
      simp only [LockedOid.grant, LockedOid.moveTo, Function.update_self]
      trivial
  | upgrade | storeRid | storeIndex =>
      simp only [LockedOid.moveTo, Function.update_self]
      trivial
  | dropRead resting | dropWrite resting =>
      simp only [resting]
      trivial

theorem LockedOid.Effect.other_pc {other : τ} (effect : oid.Effect t next event)
    (different : other ≠ t)
    : next.pc other = oid.pc other := by
  cases effect <;> simp [LockedOid.grant, LockedOid.moveTo, Function.update_of_ne different]

/-- One step keeps the invariant. -/
theorem LockedOid.Safe.step (safe : oid.Safe) (effect : oid.Effect t next event)
    : next.Safe where
  accounts := safe.accounts_step effect
  sound := by
    intro other
    by_cases same : other = t
    · subst same
      exact safe.mover_sound effect
    · rw [effect.other_pc same]
      exact safe.other_sound effect same (safe.sound other)

/-- Every reachable state satisfies the invariant. -/
theorem safe_of_run {word : Word} (unlocked : lockByte word = 0#8)
    {trace : List ((τ × LockMove) × LockEvent)}
    (run : Run lockStep (LockedOid.fresh word) trace oid)
    : oid.Safe :=
  run.invariant (LockedOid.fresh_safe unlocked)
    (fun safe taken => safe.step (LockedOid.step_effect taken))

/-! ### Mutual exclusion of whole runs -/

omit [DecidableEq τ] in
/-- A clear account of read guards is their number. -/
theorem LockedOid.readers_of_allRead (allRead : ∀ guard ∈ oid.guards, guard.kind = .read)
    : oid.readers = oid.guards.length ∧ oid.writers = 0 := by
  constructor
  · rw [LockedOid.readers, List.countP_eq_length]
    intro guard member
    simp [allRead guard member]
  · rw [LockedOid.writers, List.countP_eq_zero]
    intro guard member
    simp [allRead guard member]

omit [DecidableEq τ] in
theorem LockedOid.counts_of_writer {owner : τ} (only : oid.guards = [⟨owner, .write⟩])
    : oid.readers = 0 ∧ oid.writers = 1 := by
  simp [LockedOid.readers, LockedOid.writers, only]

omit [DecidableEq τ] in
/-- The lock byte is `0x80` under a write guard and the number of read guards without. -/
theorem LockedOid.Safe.lockByte_counts (safe : oid.Safe)
    : (oid.writers = 0 → (lockByte oid.data).toNat = oid.readers)
      ∧ (0 < oid.writers → lockByte oid.data = 0x80#8 ∧ oid.writers = 1 ∧ oid.readers = 0) := by
  rcases safe.accounts with ⟨owner, only, byte⟩ | ⟨allRead, count⟩
  · obtain ⟨noReader, oneWriter⟩ := LockedOid.counts_of_writer only
    exact ⟨fun none => by omega, fun _ => ⟨byte, oneWriter, noReader⟩⟩
  · obtain ⟨readers, noWriter⟩ := LockedOid.readers_of_allRead allRead
    exact ⟨fun _ => by rw [count, readers], fun some => by omega⟩

/-- A successful upgrade found the caller's read guard alone and leaves its write guard. -/
theorem LockedOid.Safe.upgrade_only (safe : oid.Safe) (effect : oid.Effect t next .upgraded)
    : oid.guards = [⟨t, .read⟩] ∧ next.guards = [⟨t, .write⟩] := by
  have after := safe.accounts_step effect
  have known := safe.sound t
  cases effect with
  | quiet isQuiet => simp [LockEvent.isQuiet] at isQuiet
  | upgrade waiting =>
      obtain ⟨only, _⟩ := after.of_write (t := t) (by simp)
      refine ⟨?_, only⟩
      rw [waiting] at known
      have emptied := (List.cons.inj only).2
      have short := List.length_erase_of_mem known.1
      rw [emptied, List.length_nil] at short
      obtain ⟨guard, single⟩ := List.length_eq_one_iff.mp
        (show oid.guards.length = 1 by
          have positive := List.length_pos_of_mem known.1
          omega)
      have mine := known.1
      rw [single, List.mem_singleton] at mine
      rw [single, ← mine]

/-- `Err(self)` of an upgrade is returned to a caller that owns its read guard. -/
theorem LockedOid.Safe.kept_owner {move : LockMove} (safe : oid.Safe)
    (taken : oid.step t move = some (next, .kept))
    : ⟨t, .read⟩ ∈ oid.guards := by
  have known := safe.sound t
  cases move with
  | call op => cases op <;> simp [LockedOid.step, LockedOid.begin] at taken
  | advance spurious =>
      cases here : oid.pc t with
      | upgradeLoad => exact (here ▸ known :)
      | upgradeCas val => exact (here ▸ known : LockPc.Sound oid t (.upgradeCas val)).1
      | idle => simp [LockedOid.step, LockedOid.resume, here] at taken
      | readCas | tryReadLoad | tryReadCas | writeCas | tryWriteLoad | tryWriteCas =>
          simp only [LockedOid.step, LockedOid.resume, here] at taken
          split at taken <;> simp at taken
      | _ => simp [LockedOid.step, LockedOid.resume, here] at taken

theorem LockedOid.Effect.quiet_same (effect : oid.Effect t next event)
    (isQuiet : event.isQuiet = true)
    : next.data = oid.data ∧ next.guards = oid.guards := by
  cases effect with
  | quiet => exact ⟨rfl, rfl⟩
  | _ => simp [LockEvent.isQuiet] at isQuiet

/-- Mutual exclusion of `LockedOid`, for any threads and any interleaving from an unlocked
word. The reader bound is not needed: acquisitions stop at 128 readers by themselves.
The last three parts are about each step a thread takes in a reached state; a failing
operation consists of `pending` steps and a final `failed` or `kept`.
-/
theorem lockedOid_mutual_exclusion {word : Word} (unlocked : lockByte word = 0#8)
    {trace : List ((τ × LockMove) × LockEvent)}
    (run : Run lockStep (LockedOid.fresh word) trace oid)
    : (oid.writers = 0 → (lockByte oid.data).toNat = oid.readers)
      ∧ (0 < oid.writers → lockByte oid.data = 0x80#8 ∧ oid.writers = 1 ∧ oid.readers = 0)
      ∧ ∀ t move next event,
          oid.step t move = some (next, event)
          → (event = .upgraded
              → oid.guards = [⟨t, .read⟩] ∧ next.guards = [⟨t, .write⟩])
            ∧ ((event = .pending ∨ event = .kept ∨ ∃ err, event = .failed err)
              → next.data = oid.data ∧ next.guards = oid.guards)
            ∧ (event = .kept → ⟨t, .read⟩ ∈ next.guards) := by
  have safe := safe_of_run unlocked run
  refine ⟨safe.lockByte_counts.1, safe.lockByte_counts.2, ?_⟩
  intro t move next event taken
  have effect := LockedOid.step_effect taken
  refine ⟨?_, ?_, ?_⟩
  · rintro rfl
    exact safe.upgrade_only effect
  · rintro (rfl | rfl | ⟨err, rfl⟩) <;> exact effect.quiet_same rfl
  · rintro rfl
    rw [(effect.quiet_same rfl).2]
    exact safe.kept_owner taken

/-- Two threads read, one upgrade is refused, the other reader leaves, the retry succeeds. -/
theorem lockedOid_mutual_exclusion_upgrade_retry
    : ∃ (trace : List ((Bool × LockMove) × LockEvent)) (oid : LockedOid Bool),
        Run lockStep (LockedOid.fresh 7#64) trace oid
        ∧ oid.writers = 1
        ∧ lockByte oid.data = 0x80#8
        ∧ oid.readers = 0 := by
  obtain ⟨trace, oid, run, writer⟩ := exec_reaches
    (fun result : LockedOid Bool × List ((Bool × LockMove) × LockEvent) =>
      decide (0 < result.1.writers))
    (by decide
      : (exec lockStep (LockedOid.fresh 7#64)
          [(true, .call .tryRead), (true, .advance false), (true, .advance false),
            (false, .call .read), (false, .advance false), (false, .advance true),
            (false, .advance false), (true, .call .upgrade), (true, .advance false),
            (false, .call .dropRead), (true, .call .upgrade), (true, .advance false),
            (true, .advance false)]).any _ = true)
  have exclusive := (lockedOid_mutual_exclusion (by decide) run).2.1 (of_decide_eq_true writer)
  exact ⟨trace, oid, run, exclusive.2.1, exclusive.1, exclusive.2.2⟩

end Alchemy.Oid
