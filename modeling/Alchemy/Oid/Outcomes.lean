import Alchemy.Oid.PayloadStability

/-! What an operation on an oid word returns, and what its steps do to guards and payload.
These are the facts the users of a word rely on, without its program points.
-/

namespace Alchemy.Oid

variable {τ : Type} [DecidableEq τ] {oid next : LockedOid τ} {t : τ} {event : LockEvent}

/-- The program points of an operation in progress. -/
def LockOp.Inside : LockOp → LockPc → Prop
  | .read, pc => pc = .readLoad ∨ ∃ val, pc = .readCas val
  | .tryRead, pc => pc = .tryReadLoad ∨ ∃ val, pc = .tryReadCas val
  | .write, pc => pc = .writeLoad ∨ ∃ val, pc = .writeCas val
  | .tryWrite, pc => pc = .tryWriteLoad ∨ ∃ val, pc = .tryWriteCas val
  | .upgrade, pc => pc = .upgradeLoad ∨ ∃ val, pc = .upgradeCas val
  | .storeRid rid, pc => pc = .storeRidLoad rid ∨ ∃ data, pc = .storeRidStore data rid
  | .storeIndex new, pc => pc = .storeIndexLoad new ∨ ∃ data, pc = .storeIndexStore data new
  | .dropRead, _ | .dropWrite, _ => False

/-- The events an operation can return with. -/
def LockOp.Returns : LockOp → LockEvent → Prop
  | .read, event => event = .granted .read
  | .tryRead, event => event = .granted .read ∨ ∃ err, event = .failed err
  | .write, event => event = .granted .write
  | .tryWrite, event => event = .granted .write ∨ ∃ err, event = .failed err
  | .upgrade, event => event = .upgraded ∨ event = .kept
  | .storeRid rid, event => event = .stored (.rid rid)
  | .storeIndex new, event => event = .stored (.cached new)
  | .dropRead, event => event = .dropped .read
  | .dropWrite, event => event = .dropped .write

/-- A step leaves its thread inside the operation, or returns and leaves it idle. -/
def LockOp.Outcome (op : LockOp) (pc : LockPc) (event : LockEvent) : Prop :=
  (event = .pending ∧ op.Inside pc) ∨ (op.Returns event ∧ pc = .idle)

theorem readLoop_inside (val : Word) : LockOp.Inside .read (readLoop val) := by
  unfold readLoop
  split
  · exact .inl rfl
  · exact .inr ⟨val, rfl⟩

theorem writeLoop_inside (val : Word) : LockOp.Inside .write (writeLoop val) := by
  unfold writeLoop
  split
  · exact .inl rfl
  · exact .inr ⟨val, rfl⟩

theorem LockedOid.moveTo_pc (oid : LockedOid τ) (t : τ) (pc : LockPc)
    : (oid.moveTo t pc).pc t = pc := by
  simp [LockedOid.moveTo]

theorem LockedOid.grant_pc (oid : LockedOid τ) (t : τ) (data : Word) (kind : GuardKind)
    : (oid.grant t data kind).pc t = .idle := by
  simp [LockedOid.grant, LockedOid.moveTo]

/-- Entering an operation: every one is in progress afterwards, except for the drops. -/
theorem LockedOid.call_outcome {op : LockOp}
    (entered : oid.step t (.call op) = some (next, event))
    : op.Outcome (next.pc t) event := by
  simp only [LockedOid.step, Option.ite_none_right_eq_some] at entered
  obtain ⟨resting, entered⟩ := entered
  cases op with
  | read | tryRead | write | tryWrite =>
      obtain ⟨rfl, rfl⟩ := Prod.mk.inj (Option.some.inj entered)
      exact .inl ⟨rfl, .inl (oid.moveTo_pc t _)⟩
  | upgrade | storeRid | storeIndex =>
      simp only [LockedOid.begin, Interleaving.guarded_eq_some] at entered
      obtain ⟨_, rfl, rfl⟩ := entered
      exact .inl ⟨rfl, .inl (oid.moveTo_pc t _)⟩
  | dropRead | dropWrite =>
      simp only [LockedOid.begin, Interleaving.guarded_eq_some] at entered
      obtain ⟨_, rfl, rfl⟩ := entered
      exact .inr ⟨rfl, resting⟩

/-- The steps of an operation in progress, by cases on the operation and its two points. -/
theorem LockedOid.advance_outcome {op : LockOp} {spurious : Bool} (inside : op.Inside (oid.pc t))
    (moved : oid.step t (.advance spurious) = some (next, event))
    : op.Outcome (next.pc t) event := by
  cases op with
  | read =>
      rcases inside with here | ⟨val, here⟩ <;>
        simp only [LockedOid.step, LockedOid.resume, here] at moved
      · obtain ⟨rfl, rfl⟩ := Prod.mk.inj (Option.some.inj moved)
        exact .inl ⟨rfl, (oid.moveTo_pc t _).symm ▸ readLoop_inside _⟩
      · split at moved <;> obtain ⟨rfl, rfl⟩ := Prod.mk.inj (Option.some.inj moved)
        · exact .inr ⟨rfl, oid.grant_pc t _ _⟩
        · exact .inl ⟨rfl, (oid.moveTo_pc t _).symm ▸ readLoop_inside _⟩
  | tryRead | tryWrite =>
      rcases inside with here | ⟨val, here⟩ <;>
        simp only [LockedOid.step, LockedOid.resume, here] at moved <;>
        split at moved <;> obtain ⟨rfl, rfl⟩ := Prod.mk.inj (Option.some.inj moved)
      · exact .inr ⟨.inr ⟨_, rfl⟩, oid.moveTo_pc t _⟩
      · exact .inl ⟨rfl, .inr ⟨_, oid.moveTo_pc t _⟩⟩
      · exact .inr ⟨.inl rfl, oid.grant_pc t _ _⟩
      · exact .inr ⟨.inr ⟨_, rfl⟩, oid.moveTo_pc t _⟩
  | write =>
      rcases inside with here | ⟨val, here⟩ <;>
        simp only [LockedOid.step, LockedOid.resume, here] at moved
      · obtain ⟨rfl, rfl⟩ := Prod.mk.inj (Option.some.inj moved)
        exact .inl ⟨rfl, (oid.moveTo_pc t _).symm ▸ writeLoop_inside _⟩
      · split at moved <;> obtain ⟨rfl, rfl⟩ := Prod.mk.inj (Option.some.inj moved)
        · exact .inr ⟨rfl, oid.grant_pc t _ _⟩
        · exact .inl ⟨rfl, (oid.moveTo_pc t _).symm ▸ writeLoop_inside _⟩
  | upgrade =>
      rcases inside with here | ⟨val, here⟩ <;>
        simp only [LockedOid.step, LockedOid.resume, here] at moved <;>
        split at moved <;> obtain ⟨rfl, rfl⟩ := Prod.mk.inj (Option.some.inj moved)
      · exact .inr ⟨.inr rfl, oid.moveTo_pc t _⟩
      · exact .inl ⟨rfl, .inr ⟨_, oid.moveTo_pc t _⟩⟩
      · exact .inr ⟨.inl rfl, oid.moveTo_pc t _⟩
      · exact .inr ⟨.inr rfl, oid.moveTo_pc t _⟩
  | storeRid | storeIndex =>
      rcases inside with here | ⟨data, here⟩ <;>
        simp only [LockedOid.step, LockedOid.resume, here] at moved <;>
        obtain ⟨rfl, rfl⟩ := Prod.mk.inj (Option.some.inj moved)
      · exact .inl ⟨rfl, .inr ⟨_, oid.moveTo_pc t _⟩⟩
      · exact .inr ⟨rfl, oid.moveTo_pc t _⟩
  | dropRead | dropWrite => exact False.elim inside

/-- Only a drop can take the mover's last guard away. -/
theorem LockedOid.Effect.keeps_holding (effect : oid.Effect t next event)
    (notDrop : ∀ kind, event ≠ .dropped kind) (held : ∃ guard ∈ oid.guards, guard.owner = t)
    : ∃ guard ∈ next.guards, guard.owner = t := by
  obtain ⟨guard, member, mine⟩ := held
  cases effect with
  | quiet | storeRid | storeIndex => exact ⟨guard, member, mine⟩
  | grantRead | grantWrite => exact ⟨guard, List.mem_cons_of_mem _ member, mine⟩
  | upgrade => exact ⟨⟨t, .write⟩, List.mem_cons_self, rfl⟩
  | dropRead | dropWrite => exact absurd rfl (notDrop _)

omit [DecidableEq τ] in
/-- A write guard excludes every guard of another thread. -/
theorem LockedOid.Safe.exclusive (safe : oid.Safe) (writing : ⟨t, .write⟩ ∈ oid.guards)
    {guard : Guard τ} (held : guard ∈ oid.guards)
    : guard.owner = t := by
  rw [(safe.accounts.of_write writing).1, List.mem_singleton] at held
  rw [held]

/-- A write guard is granted on a word nobody holds. -/
theorem LockedOid.Safe.granted_write (safe : oid.Safe)
    (effect : oid.Effect t next (.granted .write))
    : oid.guards = [] ∧ next.guards = [⟨t, .write⟩] := by
  have known := safe.sound t
  cases effect with
  | quiet isQuiet => simp [LockEvent.isQuiet] at isQuiet
  | grantWrite waiting =>
      have unlocked : hasLock oid.data = false := by
        rcases waiting with here | here <;> rw [here] at known <;> exact known
      have none := safe.accounts.of_unlocked unlocked
      exact ⟨none, by rw [LockedOid.grant, none]⟩

end Alchemy.Oid
