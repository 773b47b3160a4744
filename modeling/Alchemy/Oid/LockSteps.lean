import Alchemy.Oid.Word
import Alchemy.Library.Interleaving

/-! The operations of `LockedOid` as atomic steps of many threads on one word.
A thread stands at a `LockPc` between two atomic accesses; loaded values live there, so a
compare-exchange runs on whatever the thread read earlier.
-/

namespace Alchemy.Oid

/-- Errors returned to a transaction. -/
inductive TransactionError
  | readLockBusy
  | writeLockBusy
  | upgradeLockBusy
  | indexNotFound
  | lockBusy
  | userAbort
  deriving DecidableEq, Repr

inductive GuardKind
  | read
  | write
  deriving DecidableEq, Repr

/-- A live `OidReadGuard` or `OidWriteGuard`; guards are not `Send`, so each has an owner. -/
structure Guard (τ : Type) where
  owner : τ
  kind : GuardKind
  deriving DecidableEq

instance {τ : Type} [DecidableEq τ] : LawfulBEq (Guard τ) :=
  inferInstance

/-! ### Operations, program points and the machine state -/

inductive LockOp
  | read
  | tryRead
  | write
  | tryWrite
  | upgrade
  | storeRid (rid : Rid)
  | storeIndex (new : Word)
  | dropRead
  | dropWrite
  deriving DecidableEq

/-- Where a thread stands inside an operation: before a load, or before the
compare-exchange or store that uses the loaded value.
-/
inductive LockPc
  | idle
  | readLoad
  | readCas (val : Word)
  | tryReadLoad
  | tryReadCas (val : Word)
  | writeLoad
  | writeCas (val : Word)
  | tryWriteLoad
  | tryWriteCas (val : Word)
  | upgradeLoad
  | upgradeCas (val : Word)
  | storeRidLoad (rid : Rid)
  | storeRidStore (data : Word) (rid : Rid)
  | storeIndexLoad (new : Word)
  | storeIndexStore (data new : Word)
  deriving DecidableEq

/-- One oid word with the guards alive on it and the threads inside its operations. -/
structure LockedOid (τ : Type) where
  data : Word
  guards : List (Guard τ)
  pc : τ → LockPc

/-- What a step reports. `kept` is the `Err(self)` of `upgrade`. -/
inductive LockEvent
  | pending
  | granted (kind : GuardKind)
  | upgraded
  | kept
  | failed (err : TransactionError)
  | stored (place : Place)
  | dropped (kind : GuardKind)
  deriving DecidableEq

/-- A thread enters an operation, or takes the next atomic step of the one it is in.
`spurious` lets a weak compare-exchange fail although the values are equal.
-/
inductive LockMove
  | call (op : LockOp)
  | advance (spurious : Bool)
  deriving DecidableEq

variable {τ : Type} [DecidableEq τ]

/-- A word nobody holds or touches. -/
def LockedOid.fresh (data : Word) : LockedOid τ :=
  { data, guards := [], pc := fun _ => .idle }

def LockedOid.moveTo (oid : LockedOid τ) (t : τ) (pc : LockPc) : LockedOid τ :=
  { oid with pc := Function.update oid.pc t pc }

/-! ### The step function -/

/-- Entering an operation. Dropping a guard is a single `fetch_sub`; `upgrade` and the
stores are methods of a guard, so the caller must own one.
-/
def LockedOid.begin (oid : LockedOid τ) (t : τ)
    : LockOp → Option (LockedOid τ × LockEvent)
  | .read => some (oid.moveTo t .readLoad, .pending)
  | .tryRead => some (oid.moveTo t .tryReadLoad, .pending)
  | .write => some (oid.moveTo t .writeLoad, .pending)
  | .tryWrite => some (oid.moveTo t .tryWriteLoad, .pending)
  | .upgrade =>
      if ⟨t, .read⟩ ∈ oid.guards then some (oid.moveTo t .upgradeLoad, .pending) else none
  | .storeRid rid =>
      if ⟨t, .write⟩ ∈ oid.guards then some (oid.moveTo t (.storeRidLoad rid), .pending)
      else none
  | .storeIndex new =>
      if ⟨t, .write⟩ ∈ oid.guards ∧ FitsId new then
        some (oid.moveTo t (.storeIndexLoad new), .pending)
      else none
  | .dropRead =>
      if ⟨t, .read⟩ ∈ oid.guards then
        some ({ oid with
          data := oid.data - lockReader
          guards := oid.guards.erase ⟨t, .read⟩ }, .dropped .read)
      else none
  | .dropWrite =>
      if ⟨t, .write⟩ ∈ oid.guards then
        some ({ oid with
          data := oid.data - lockWriter
          guards := oid.guards.erase ⟨t, .write⟩ }, .dropped .write)
      else none

/-- The head of the loop of `read`, on the value just loaded. -/
def readLoop (val : Word) : LockPc := if writeLocked val then .readLoad else .readCas val

/-- The head of the loop of `write`, on the value just loaded. -/
def writeLoop (val : Word) : LockPc := if hasLock val then .writeLoad else .writeCas val

/-- A successful compare-exchange of an acquisition: the new word and the new guard. -/
def LockedOid.grant (oid : LockedOid τ) (t : τ) (data : Word) (kind : GuardKind)
    : LockedOid τ :=
  { oid.moveTo t .idle with data, guards := ⟨t, kind⟩ :: oid.guards }

/-- The next atomic access of the operation the thread is in. -/
def LockedOid.resume (oid : LockedOid τ) (t : τ) (spurious : Bool)
    : Option (LockedOid τ × LockEvent) :=
  match oid.pc t with
  | .idle => none
  | .readLoad => some (oid.moveTo t (readLoop oid.data), .pending)
  | .readCas val =>
      if !spurious && oid.data == val then
        some (oid.grant t (withReader val) .read, .granted .read)
      else some (oid.moveTo t (readLoop oid.data), .pending)
  | .tryReadLoad =>
      if writeLocked oid.data then some (oid.moveTo t .idle, .failed .readLockBusy)
      else some (oid.moveTo t (.tryReadCas oid.data), .pending)
  | .tryReadCas val =>
      if !spurious && oid.data == val then
        some (oid.grant t (withReader val) .read, .granted .read)
      else some (oid.moveTo t .idle, .failed .lockBusy)
  | .writeLoad => some (oid.moveTo t (writeLoop oid.data), .pending)
  | .writeCas val =>
      if !spurious && oid.data == val then
        some (oid.grant t (withWriter val) .write, .granted .write)
      else some (oid.moveTo t (writeLoop oid.data), .pending)
  | .tryWriteLoad =>
      if hasLock oid.data then some (oid.moveTo t .idle, .failed .writeLockBusy)
      else some (oid.moveTo t (.tryWriteCas oid.data), .pending)
  | .tryWriteCas val =>
      if !spurious && oid.data == val then
        some (oid.grant t (withWriter val) .write, .granted .write)
      else some (oid.moveTo t .idle, .failed .lockBusy)
  | .upgradeLoad =>
      if 1#64 < readLockCnt oid.data then some (oid.moveTo t .idle, .kept)
      else some (oid.moveTo t (.upgradeCas oid.data), .pending)
  | .upgradeCas val =>
      if !spurious && oid.data == val then
        -- `mem::forget(self)`: the read guard goes without its `fetch_sub`.
        some ({ oid.moveTo t .idle with
          data := upgraded val
          guards := ⟨t, .write⟩ :: oid.guards.erase ⟨t, .read⟩ }, .upgraded)
      else some (oid.moveTo t .idle, .kept)
  | .storeRidLoad rid =>
      some (oid.moveTo t (.storeRidStore (storeRidData oid.data rid) rid), .pending)
  | .storeRidStore data rid => some ({ oid.moveTo t .idle with data }, .stored (.rid rid))
  | .storeIndexLoad new =>
      some (oid.moveTo t (.storeIndexStore (storeIndexData oid.data new) new), .pending)
  | .storeIndexStore data new =>
      some ({ oid.moveTo t .idle with data }, .stored (.cached new))

/-- One step of thread `t` on the word. -/
def LockedOid.step (oid : LockedOid τ) (t : τ) : LockMove → Option (LockedOid τ × LockEvent)
  | .call op => if oid.pc t = .idle then oid.begin t op else none
  | .advance spurious => oid.resume t spurious

/-- The step function of the whole machine; an action names its thread. -/
def lockStep (oid : LockedOid τ) (action : τ × LockMove)
    : Option (LockedOid τ × LockEvent) :=
  oid.step action.1 action.2

/-! ### What a step can do -/

/-- What a thread knows at its program point: the tests it made on the loaded value, and
the guard whose method it runs. The store points also know that the word is still the
one they loaded.
-/
def LockPc.Sound (oid : LockedOid τ) (t : τ) : LockPc → Prop
  | .idle | .readLoad | .tryReadLoad | .writeLoad | .tryWriteLoad => True
  | .readCas val | .tryReadCas val => writeLocked val = false
  | .writeCas val | .tryWriteCas val => hasLock val = false
  | .upgradeLoad => ⟨t, .read⟩ ∈ oid.guards
  | .upgradeCas val => ⟨t, .read⟩ ∈ oid.guards ∧ (lockByte val).toNat ≤ 1
  | .storeRidLoad _ => ⟨t, .write⟩ ∈ oid.guards
  | .storeRidStore data rid => ⟨t, .write⟩ ∈ oid.guards ∧ data = storeRidData oid.data rid
  | .storeIndexLoad new => ⟨t, .write⟩ ∈ oid.guards ∧ FitsId new
  | .storeIndexStore data new =>
      ⟨t, .write⟩ ∈ oid.guards ∧ data = storeIndexData oid.data new ∧ FitsId new

/-- Events of a step that leaves the word and the guards alone. -/
def LockEvent.isQuiet : LockEvent → Bool
  | .pending | .kept | .failed _ => true
  | _ => false

/-- The effect of one step on the word, the guards and the mover's program point. -/
inductive LockedOid.Effect (oid : LockedOid τ) (t : τ) : LockedOid τ → LockEvent → Prop
  | quiet {next event} (isQuiet : event.isQuiet = true)
    (sound : (oid.pc t).Sound oid t → next.Sound oid t)
    : oid.Effect t (oid.moveTo t next) event
  | grantRead (waiting : oid.pc t = .readCas oid.data ∨ oid.pc t = .tryReadCas oid.data)
    : oid.Effect t (oid.grant t (withReader oid.data) .read) (.granted .read)
  | grantWrite (waiting : oid.pc t = .writeCas oid.data ∨ oid.pc t = .tryWriteCas oid.data)
    : oid.Effect t (oid.grant t (withWriter oid.data) .write) (.granted .write)
  | upgrade (waiting : oid.pc t = .upgradeCas oid.data)
    : oid.Effect t
        { oid.moveTo t .idle with
          data := upgraded oid.data
          guards := ⟨t, .write⟩ :: oid.guards.erase ⟨t, .read⟩ } .upgraded
  | dropRead (resting : oid.pc t = .idle) (held : ⟨t, .read⟩ ∈ oid.guards)
    : oid.Effect t
        { oid with
          data := oid.data - lockReader
          guards := oid.guards.erase ⟨t, .read⟩ } (.dropped .read)
  | dropWrite (resting : oid.pc t = .idle) (held : ⟨t, .write⟩ ∈ oid.guards)
    : oid.Effect t
        { oid with
          data := oid.data - lockWriter
          guards := oid.guards.erase ⟨t, .write⟩ } (.dropped .write)
  | storeRid {data rid} (storing : oid.pc t = .storeRidStore data rid)
    : oid.Effect t { oid.moveTo t .idle with data } (.stored (.rid rid))
  | storeIndex {data new} (storing : oid.pc t = .storeIndexStore data new)
    : oid.Effect t { oid.moveTo t .idle with data } (.stored (.cached new))

omit [DecidableEq τ] in
theorem readLoop_sound (oid : LockedOid τ) (t : τ) (val : Word)
    : (readLoop val).Sound oid t := by
  unfold readLoop
  split
  · trivial
  · next clear => exact Bool.eq_false_iff.mpr clear

omit [DecidableEq τ] in
theorem writeLoop_sound (oid : LockedOid τ) (t : τ) (val : Word)
    : (writeLoop val).Sound oid t := by
  unfold writeLoop
  split
  · trivial
  · next clear => exact Bool.eq_false_iff.mpr clear

/-- A compare-exchange that succeeds found the expected value. -/
theorem cas_found {spurious : Bool} {current expected : Word}
    (succeeded : (!spurious && current == expected) = true)
    : current = expected :=
  eq_of_beq (Bool.and_eq_true_iff.mp succeeded).2

/-- Entering an operation is quiet, except for the one-step guard drops. -/
theorem LockedOid.begin_effect {oid next : LockedOid τ} {t : τ} {op : LockOp}
    {event : LockEvent} (resting : oid.pc t = .idle)
    (entered : oid.begin t op = some (next, event))
    : oid.Effect t next event := by
  cases op with
  | read | tryRead | write | tryWrite =>
      obtain ⟨rfl, rfl⟩ := Prod.mk.inj (Option.some.inj entered)
      exact .quiet rfl (fun _ => trivial)
  | upgrade | storeRid rid | storeIndex new =>
      simp only [LockedOid.begin, Interleaving.guarded_eq_some] at entered
      obtain ⟨held, rfl, rfl⟩ := entered
      exact .quiet rfl (fun _ => held)
  | dropRead =>
      simp only [LockedOid.begin, Interleaving.guarded_eq_some] at entered
      obtain ⟨held, rfl, rfl⟩ := entered
      exact .dropRead resting held
  | dropWrite =>
      simp only [LockedOid.begin, Interleaving.guarded_eq_some] at entered
      obtain ⟨held, rfl, rfl⟩ := entered
      exact .dropWrite resting held

theorem LockedOid.Effect.branch {oid next yes no : LockedOid τ} {t : τ}
    {event first second : LockEvent} {flag : Prop} [Decidable flag]
    (moved : (if flag then some (yes, first) else some (no, second)) = some (next, event))
    (holds : flag → oid.Effect t yes first) (fails : ¬flag → oid.Effect t no second)
    : oid.Effect t next event := by
  split at moved <;> obtain ⟨rfl, rfl⟩ := Prod.mk.inj (Option.some.inj moved)
  · next flag => exact holds flag
  · next flag => exact fails flag

/-- Each atomic access inside an operation has one of the listed effects.
Witness: one case per program point; a failed test or compare-exchange is quiet.
-/
theorem LockedOid.resume_effect {oid next : LockedOid τ} {t : τ} {spurious : Bool}
    {event : LockEvent} (moved : oid.resume t spurious = some (next, event))
    : oid.Effect t next event := by
  cases here : oid.pc t with
  | idle => simp [LockedOid.resume, here] at moved
  | readLoad =>
      simp only [LockedOid.resume, here] at moved
      obtain ⟨rfl, rfl⟩ := Prod.mk.inj (Option.some.inj moved)
      exact .quiet rfl (fun _ => readLoop_sound oid t _)
  | readCas val =>
      simp only [LockedOid.resume, here] at moved
      exact .branch moved (fun succeeded => by cases cas_found succeeded; exact .grantRead (.inl here))
        (fun _ => .quiet rfl (fun _ => readLoop_sound oid t _))
  | tryReadLoad =>
      simp only [LockedOid.resume, here] at moved
      exact .branch moved (fun _ => .quiet rfl (fun _ => trivial))
        (fun clear => .quiet rfl (fun _ => Bool.eq_false_iff.mpr clear))
  | tryReadCas val =>
      simp only [LockedOid.resume, here] at moved
      exact .branch moved (fun succeeded => by cases cas_found succeeded; exact .grantRead (.inr here))
        (fun _ => .quiet rfl (fun _ => trivial))
  | writeLoad =>
      simp only [LockedOid.resume, here] at moved
      obtain ⟨rfl, rfl⟩ := Prod.mk.inj (Option.some.inj moved)
      exact .quiet rfl (fun _ => writeLoop_sound oid t _)
  | writeCas val =>
      simp only [LockedOid.resume, here] at moved
      exact .branch moved (fun succeeded => by cases cas_found succeeded; exact .grantWrite (.inl here))
        (fun _ => .quiet rfl (fun _ => writeLoop_sound oid t _))
  | tryWriteLoad =>
      simp only [LockedOid.resume, here] at moved
      exact .branch moved (fun _ => .quiet rfl (fun _ => trivial))
        (fun clear => .quiet rfl (fun _ => Bool.eq_false_iff.mpr clear))
  | tryWriteCas val =>
      simp only [LockedOid.resume, here] at moved
      exact .branch moved (fun succeeded => by cases cas_found succeeded; exact .grantWrite (.inr here))
        (fun _ => .quiet rfl (fun _ => trivial))
  | upgradeLoad =>
      simp only [LockedOid.resume, here] at moved
      split at moved
      all_goals obtain ⟨rfl, rfl⟩ := Prod.mk.inj (Option.some.inj moved)
      · exact .quiet rfl (fun _ => trivial)
      · next few =>
          refine .quiet rfl ?_
          rw [here]
          intro held
          rw [BitVec.lt_def, readLockCnt_toNat] at few
          exact ⟨held, Nat.not_lt.mp few⟩
  | upgradeCas val =>
      simp only [LockedOid.resume, here] at moved
      exact .branch moved (fun succeeded => by cases cas_found succeeded; exact .upgrade here)
        (fun _ => .quiet rfl (fun _ => trivial))
  | storeRidLoad rid =>
      simp only [LockedOid.resume, here] at moved
      obtain ⟨rfl, rfl⟩ := Prod.mk.inj (Option.some.inj moved)
      refine .quiet rfl ?_
      rw [here]
      exact fun held => ⟨held, rfl⟩
  | storeRidStore data rid =>
      simp only [LockedOid.resume, here] at moved
      obtain ⟨rfl, rfl⟩ := Prod.mk.inj (Option.some.inj moved)
      exact .storeRid here
  | storeIndexLoad new =>
      simp only [LockedOid.resume, here] at moved
      obtain ⟨rfl, rfl⟩ := Prod.mk.inj (Option.some.inj moved)
      refine .quiet rfl ?_
      rw [here]
      exact fun held => ⟨held.1, rfl, held.2⟩
  | storeIndexStore data new =>
      simp only [LockedOid.resume, here] at moved
      obtain ⟨rfl, rfl⟩ := Prod.mk.inj (Option.some.inj moved)
      exact .storeIndex here

/-- Every step of the machine has one of the listed effects. -/
theorem LockedOid.step_effect {oid next : LockedOid τ} {t : τ} {move : LockMove}
    {event : LockEvent} (taken : oid.step t move = some (next, event))
    : oid.Effect t next event := by
  cases move with
  | call op =>
      simp only [LockedOid.step, Option.ite_none_right_eq_some] at taken
      exact LockedOid.begin_effect taken.1 taken.2
  | advance spurious => exact LockedOid.resume_effect taken

end Alchemy.Oid
