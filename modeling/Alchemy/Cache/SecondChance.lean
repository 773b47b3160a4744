import Alchemy.Cache.Bijection
import Alchemy.Cache.NodeMarks

/-! Clock replacement: `probe_and_replace_rng` run by one thread while the locks of all others
stand still. Each visit of a slot clears its reference bit, passes it by or takes it, and the
loop takes the first slot that it can.
-/

namespace Alchemy.Cache

open Oid ByteImage CacheState Interleaving

variable {τ : Type} [DecidableEq τ] {config : CacheConfig} {state middle next : CacheState τ}
  {t : τ} {job : Probe} {rid : Rid} {slot : Word} {n : Nat}

/-! ### One thread on its own -/

/-- The steps of thread `t` lead from one state to the other, with no spurious failure of a
compare-exchange in between.
-/
def Alone (config : CacheConfig) (t : τ) (state next : CacheState τ) : Prop :=
  ∃ trace, Run (cacheStep config) state trace next ∧ ∀ entry ∈ trace, entry.1 = (t, .advance false)

theorem Alone.refl (state : CacheState τ) : Alone config t state state :=
  ⟨[], .start, by simp⟩

theorem Alone.trans (first : Alone config t state middle) (second : Alone config t middle next)
    : Alone config t state next := by
  obtain ⟨before, reached, mine⟩ := first
  obtain ⟨after, onward, mineToo⟩ := second
  refine ⟨before ++ after, reached.trans onward, ?_⟩
  intro entry member
  rcases List.mem_append.mp member with early | late
  · exact mine entry early
  · exact mineToo entry late

theorem Alone.step (taken : (state.resume config t false).map Prod.fst = some next)
    : Alone config t state next := by
  obtain ⟨⟨_, event⟩, resumed, rfl⟩ := Option.map_eq_some_iff.mp taken
  have moved : cacheStep config state (t, .advance false) = some (_, event) := resumed
  exact ⟨_, .single moved, by simp⟩

/-- The rest of a lock operation that thread `t` has entered, up to what it returns. -/
inductive Performs (t : τ) : LockedOid τ → LockedOid τ → LockEvent → Prop
  | last {oid next event} (moved : oid.resume t false = some (next, event))
    (done : event ≠ .pending)
    : Performs t oid next event
  | more {oid middle next event} (moved : oid.resume t false = some (middle, .pending))
    (rest : Performs t middle next event)
    : Performs t oid next event

@[simp]
theorem moveTo_moveTo (oid : LockedOid τ) (first second : LockPc)
    : (oid.moveTo t first).moveTo t second = oid.moveTo t second := by
  simp [LockedOid.moveTo]

theorem moveTo_resting {oid : LockedOid τ} (resting : oid.pc t = .idle)
    : oid.moveTo t .idle = oid := by
  simp [LockedOid.moveTo, ← resting]

/-- The word after a `try_write` that succeeds. -/
def writeGranted (oid : LockedOid τ) (t : τ) : LockedOid τ :=
  { oid with data := withWriter oid.data, guards := ⟨t, .write⟩ :: oid.guards }

/-- The word of a victim: locked, and back to its own rid. -/
def retired (oid : LockedOid τ) (t : τ) (rid : Rid) : LockedOid τ :=
  { writeGranted oid t with data := storeRidData (withWriter oid.data) rid }

theorem performs_busy {oid : LockedOid τ} (resting : oid.pc t = .idle)
    (busy : hasLock oid.data = true)
    : Performs t (oid.moveTo t .tryWriteLoad) oid (.failed .writeLockBusy) := by
  refine .last ?_ (by simp)
  have here : (oid.moveTo t .tryWriteLoad).pc t = .tryWriteLoad := Function.update_self ..
  have word : (oid.moveTo t .tryWriteLoad).data = oid.data := rfl
  simp only [LockedOid.resume, here, word, busy, if_true, moveTo_moveTo, moveTo_resting resting]

theorem performs_granted {oid : LockedOid τ} (resting : oid.pc t = .idle)
    (free : hasLock oid.data = false)
    : Performs t (oid.moveTo t .tryWriteLoad) (writeGranted oid t) (.granted .write) := by
  have here : (oid.moveTo t .tryWriteLoad).pc t = .tryWriteLoad := Function.update_self ..
  have there : (oid.moveTo t (.tryWriteCas oid.data)).pc t = .tryWriteCas oid.data :=
    Function.update_self ..
  have word (pc : LockPc) : (oid.moveTo t pc).data = oid.data := rfl
  have loaded : (oid.moveTo t .tryWriteLoad).resume t false
      = some (oid.moveTo t (.tryWriteCas oid.data), .pending) := by
    simp [LockedOid.resume, here, word, free]
  have swapped : (oid.moveTo t (.tryWriteCas oid.data)).resume t false
      = some (writeGranted oid t, .granted .write) := by
    simp [LockedOid.resume, there, word, LockedOid.grant, moveTo_resting resting, writeGranted]
    rfl
  exact .more loaded (.last swapped (by simp))

theorem performs_storeRid {oid : LockedOid τ} (resting : oid.pc t = .idle) (rid : Rid)
    : Performs t (oid.moveTo t (.storeRidLoad rid)) { oid with data := storeRidData oid.data rid }
        (.stored (.rid rid)) := by
  have here : (oid.moveTo t (.storeRidLoad rid)).pc t = .storeRidLoad rid :=
    Function.update_self ..
  have there : (oid.moveTo t (.storeRidStore (storeRidData oid.data rid) rid)).pc t
      = .storeRidStore (storeRidData oid.data rid) rid :=
    Function.update_self ..
  have word (pc : LockPc) : (oid.moveTo t pc).data = oid.data := rfl
  have loaded : (oid.moveTo t (.storeRidLoad rid)).resume t false
      = some (oid.moveTo t (.storeRidStore (storeRidData oid.data rid) rid), .pending) := by
    simp [LockedOid.resume, here, word]
  refine .more loaded (.last ?_ (by simp))
  simp [LockedOid.resume, there, moveTo_resting resting]

theorem performs_storeIndex {oid : LockedOid τ} (resting : oid.pc t = .idle) (new : Word)
    : Performs t (oid.moveTo t (.storeIndexLoad new))
        { oid with data := storeIndexData oid.data new } (.stored (.cached new)) := by
  have here : (oid.moveTo t (.storeIndexLoad new)).pc t = .storeIndexLoad new :=
    Function.update_self ..
  have there : (oid.moveTo t (.storeIndexStore (storeIndexData oid.data new) new)).pc t
      = .storeIndexStore (storeIndexData oid.data new) new :=
    Function.update_self ..
  have word (pc : LockPc) : (oid.moveTo t pc).data = oid.data := rfl
  have loaded : (oid.moveTo t (.storeIndexLoad new)).resume t false
      = some (oid.moveTo t (.storeIndexStore (storeIndexData oid.data new) new), .pending) := by
    simp [LockedOid.resume, here, word]
  refine .more loaded (.last ?_ (by simp))
  simp [LockedOid.resume, there, moveTo_resting resting]

omit [DecidableEq τ] in
@[simp]
theorem setOid_setOid (first second : LockedOid τ)
    : (state.setOid rid first).setOid rid second = state.setOid rid second := by
  simp [setOid]

@[simp]
theorem goto_goto (first second : Pc)
    : (state.goto t first).goto t second = state.goto t second := by
  simp [goto]

omit [DecidableEq τ] in
theorem setOid_same
    : state.setOid rid (state.oids rid) = state := by
  simp [setOid]

theorem goto_setOid (oid : LockedOid τ) (pc : Pc)
    : (state.goto t pc).setOid rid oid = (state.setOid rid oid).goto t pc :=
  rfl

theorem resume_pending {op : LockOp} {after : After} {entered choice : Bool} {oid : LockedOid τ}
    (here : state.pc t = .oid rid op after entered)
    (moved : (state.oids rid).step t (if entered then .advance choice else .call op)
      = some (oid, .pending))
    : state.resume config t choice
      = some ((state.setOid rid oid).goto t (.oid rid op after true), .pending) := by
  simp only [resume, here, moved]
  rfl

theorem resume_done {op : LockOp} {after : After} {entered choice : Bool} {oid : LockedOid τ}
    {event : LockEvent} {pc : Pc} (here : state.pc t = .oid rid op after entered)
    (moved : (state.oids rid).step t (if entered then .advance choice else .call op)
      = some (oid, event))
    (done : event ≠ .pending) (continues : after.next rid event = some pc)
    (keeps : after.returns rid state.returned = state.returned)
    : state.resume config t choice
      = some ((state.setOid rid oid).goto t pc, after.label rid event) := by
  simp only [resume, here, moved, continues, keeps]
  cases event with
  | pending => exact absurd rfl done
  | _ => rfl

/-- A lock operation returns and the cache goes on where it says. -/
theorem Performs.alone {oid final : LockedOid τ} {event : LockEvent} {op : LockOp} {after : After}
    {pc : Pc} (performs : Performs t oid final event)
    (here : state.pc t = .oid rid op after true) (word : state.oids rid = oid)
    (continues : after.next rid event = some pc)
    (keeps : after.returns rid state.returned = state.returned)
    : Alone config t state ((state.setOid rid final).goto t pc) := by
  induction performs generalizing state with
  | last moved done => exact .step (by rw [resume_done here (word ▸ moved) done continues keeps]; rfl)
  | @more oid middle next event moved rest ih =>
      have first : Alone config t state
          ((state.setOid rid middle).goto t (.oid rid op after true)) :=
        .step (by rw [resume_pending here (word ▸ moved)]; rfl)
      have onward := ih (goto_pc (state.setOid rid middle) t (.oid rid op after true))
        (Function.update_self ..) continues keeps
      rw [goto_setOid, setOid_setOid, goto_goto] at onward
      exact first.trans onward

/-- A whole lock operation. -/
theorem alone_lock {first final : LockedOid τ} {event : LockEvent} {op : LockOp} {after : After}
    {pc : Pc} (here : state.pc t = .oid rid op after false)
    (called : (state.oids rid).step t (.call op) = some (first, .pending))
    (performs : Performs t first final event) (continues : after.next rid event = some pc)
    (keeps : after.returns rid state.returned = state.returned)
    : Alone config t state ((state.setOid rid final).goto t pc) := by
  have entered : Alone config t state ((state.setOid rid first).goto t (.oid rid op after true)) :=
    .step (by rw [resume_pending here called]; rfl)
  have returned : Alone config t _ _ :=
    performs.alone (goto_pc (state.setOid rid first) t (.oid rid op after true))
      (Function.update_self ..) continues keeps
  rw [goto_setOid, setOid_setOid, goto_goto] at returned
  exact entered.trans returned

theorem alone_tryWrite_busy (here : state.pc t = .oid rid .tryWrite (.tried job n slot) false)
    (idle : (state.oids rid).pc t = .idle) (busy : hasLock (state.oids rid).data = true)
    : Alone config t state (state.goto t (.probing job (n + 1))) := by
  have called : (state.oids rid).step t (.call .tryWrite)
      = some ((state.oids rid).moveTo t .tryWriteLoad, .pending) := by
    simp [LockedOid.step, LockedOid.begin, idle]
  have failed : Alone config t state _ :=
    alone_lock here called (performs_busy idle busy) rfl rfl
  rwa [setOid_same] at failed

theorem alone_tryWrite_granted (here : state.pc t = .oid rid .tryWrite (.tried job n slot) false)
    (idle : (state.oids rid).pc t = .idle) (free : hasLock (state.oids rid).data = false)
    : Alone config t state
        ((state.setOid rid (writeGranted (state.oids rid) t)).goto t
          (.probeValidate job n slot rid)) := by
  have called : (state.oids rid).step t (.call .tryWrite)
      = some ((state.oids rid).moveTo t .tryWriteLoad, .pending) := by
    simp [LockedOid.step, LockedOid.begin, idle]
  exact alone_lock here called (performs_granted idle free) rfl rfl

theorem alone_storeRid {val : Rid}
    (here : state.pc t = .oid rid (.storeRid val) (.retired job slot) false)
    (idle : (state.oids rid).pc t = .idle) (writes : ⟨t, .write⟩ ∈ (state.oids rid).guards)
    : Alone config t state
        ((state.setOid rid
          { state.oids rid with data := storeRidData (state.oids rid).data val }).goto t
            (.probeReplace job slot rid)) := by
  have called : (state.oids rid).step t (.call (.storeRid val))
      = some ((state.oids rid).moveTo t (.storeRidLoad val), .pending) := by
    simp [LockedOid.step, LockedOid.begin, idle, writes]
  exact alone_lock here called (performs_storeRid idle val) rfl rfl

theorem alone_storeIndex {evicted : Option Evicted}
    (here : state.pc t = .oid rid (.storeIndex slot) (.placed job slot evicted) false)
    (idle : (state.oids rid).pc t = .idle) (writes : ⟨t, .write⟩ ∈ (state.oids rid).guards)
    (fits : FitsId slot)
    : Alone config t state
        ((state.setOid rid
          { state.oids rid with data := storeIndexData (state.oids rid).data slot }).goto t
            (job.finish slot evicted)) := by
  have called : (state.oids rid).step t (.call (.storeIndex slot))
      = some ((state.oids rid).moveTo t (.storeIndexLoad slot), .pending) := by
    simp [LockedOid.step, LockedOid.begin, idle, writes, fits]
  exact alone_lock here called (performs_storeIndex idle slot) rfl rfl

/-- With the victim's lock taken, its word is reset and its slot overwritten. -/
theorem alone_evict (here : state.pc t = .probeValidate job n slot rid)
    (same : (state.entries slot).rid = rid) (idle : (state.oids rid).pc t = .idle)
    (writes : ⟨t, .write⟩ ∈ (state.oids rid).guards)
    : Alone config t state
        (((state.setOid rid
          { state.oids rid with data := storeRidData (state.oids rid).data rid }).setEntry slot
            job.node).goto t
          (.oid job.oid (.storeIndex slot)
            (.placed job slot (some ⟨state.entries slot, rid⟩)) false)) := by
  have validated : Alone config t state (state.goto t (.probeVictimRid job slot rid)) := by
    refine .step ?_
    simp [resume, here, same]
  have retiring : Alone config t (state.goto t (.probeVictimRid job slot rid))
      (state.goto t (.oid rid (.storeRid rid) (.retired job slot) false)) := by
    refine .step ?_
    simp [resume, goto, same]
  have reset : Alone config t _ _ := alone_storeRid
    (goto_pc state t (.oid rid (.storeRid rid) (.retired job slot) false)) idle writes
  rw [goto_setOid, goto_goto] at reset
  refine ((validated.trans retiring).trans reset).trans (.step ?_)
  simp [resume, goto, setOid, setEntry]

/-! ### One visit -/

/-- `try_clear_ref` on a node whose bit is set. -/
def ClockNode.clearRef (node : ClockNode) : ClockNode :=
  { node with nodeMeta := .cleared node.nodeMeta.data }

/-- The clock hand of thread `t` stands at `slot`. -/
def CacheState.setHand (state : CacheState τ) (t : τ) (slot : Word) : CacheState τ :=
  { state with hand := Function.update state.hand t slot.toNat }

section Visit

variable (here : state.pc t = .probing job n) (within : n < config.probeLen)
  (slotAt : config.advanceIndex (state.hand t) = slot)
  (resting : ∀ rid, (state.oids rid).pc t = .idle)

include here within slotAt

theorem visit_vacant (vacant : (state.entries slot).rid = sentinel)
    : Alone config t state ((state.setHand t slot).goto t (.probeClaim job n slot)) := by
  refine .step ?_
  simp [resume, here, within, slotAt, vacant, setHand]

theorem visit_occupied (occupied : (state.entries slot).rid ≠ sentinel)
    : Alone config t state
        ((state.setHand t slot).goto t (.probeRef job n slot (state.entries slot).rid)) := by
  refine .step ?_
  simp [resume, here, within, slotAt, occupied, setHand]

/-- A visit of a slot whose reference bit is set clears the bit. -/
theorem visit_clears (occupied : (state.entries slot).rid ≠ sentinel)
    (refed : NodeMeta.isRefed (state.entries slot).nodeMeta.data = true)
    : Alone config t state
        (((state.setHand t slot).setEntry slot (state.entries slot).clearRef).goto t
          (.probing job (n + 1))) := by
  have loaded : Alone config t
      ((state.setHand t slot).goto t (.probeRef job n slot (state.entries slot).rid))
      ((state.setHand t slot).goto t
        (.probeClear job n slot (state.entries slot).nodeMeta.data)) := by
    refine .step ?_
    simp [resume, goto, setHand, refed]
  refine ((visit_occupied here within slotAt occupied).trans loaded).trans (.step ?_)
  simp [resume, goto, setHand, setEntry, ClockNode.clearRef]

/-- A visit of a slot whose bit is clear goes for the lock of its owner. -/
theorem visit_tries (occupied : (state.entries slot).rid ≠ sentinel)
    (clear : NodeMeta.isRefed (state.entries slot).nodeMeta.data = false)
    : Alone config t state
        ((state.setHand t slot).goto t
          (.oid (state.entries slot).rid .tryWrite (.tried job n slot) false)) := by
  refine (visit_occupied here within slotAt occupied).trans (.step ?_)
  simp [resume, goto, setHand, clear]

include resting

/-- A visit of a slot whose owner is locked changes nothing but the hand. -/
theorem visit_passes (occupied : (state.entries slot).rid ≠ sentinel)
    (clear : NodeMeta.isRefed (state.entries slot).nodeMeta.data = false)
    (busy : hasLock (state.oids (state.entries slot).rid).data = true)
    : Alone config t state ((state.setHand t slot).goto t (.probing job (n + 1))) := by
  have failed : Alone config t _ _ := alone_tryWrite_busy
    (goto_pc (state.setHand t slot) t
      (.oid (state.entries slot).rid .tryWrite (.tried job n slot) false)) (resting _) busy
  rw [goto_goto] at failed
  exact (visit_tries here within slotAt occupied clear).trans failed

variable (writes : ⟨t, .write⟩ ∈ (state.oids job.oid).guards) (fits : FitsId slot)

include writes fits

/-- A visit of an empty slot stores the new node there. -/
theorem visit_fills (vacant : (state.entries slot).rid = sentinel)
    : Alone config t state
        ((((state.setHand t slot).setEntry slot job.node).setOid job.oid
          { state.oids job.oid with
            data := storeIndexData (state.oids job.oid).data slot }).goto t
          (job.finish slot none)) := by
  have claimed : Alone config t ((state.setHand t slot).goto t (.probeClaim job n slot))
      (((state.setHand t slot).setEntry slot { state.entries slot with rid := job.rid }).goto t
        (.probePut job slot)) := by
    refine .step ?_
    simp [resume, goto, setHand, setEntry, vacant]
  have put : Alone config t
      (((state.setHand t slot).setEntry slot { state.entries slot with rid := job.rid }).goto t
        (.probePut job slot))
      (((state.setHand t slot).setEntry slot job.node).goto t
        (.oid job.oid (.storeIndex slot) (.placed job slot none) false)) := by
    refine .step ?_
    simp [resume, goto, setHand, setEntry]
  have stored : Alone config t _ _ := alone_storeIndex
    (goto_pc ((state.setHand t slot).setEntry slot job.node) t
      (.oid job.oid (.storeIndex slot) (.placed job slot none) false)) (resting _) writes fits
  rw [goto_setOid, goto_goto] at stored
  exact ((visit_vacant here within slotAt vacant).trans claimed).trans (put.trans stored)

/-- A visit of a slot whose owner is free evicts the owner for the new node. -/
theorem visit_replaces (occupied : (state.entries slot).rid ≠ sentinel)
    (clear : NodeMeta.isRefed (state.entries slot).nodeMeta.data = false)
    (free : hasLock (state.oids (state.entries slot).rid).data = false)
    (other : (state.entries slot).rid ≠ job.oid)
    : Alone config t state
        (((((state.setHand t slot).setOid (state.entries slot).rid
          (retired (state.oids (state.entries slot).rid) t (state.entries slot).rid)).setEntry slot
            job.node).setOid job.oid
          { state.oids job.oid with
            data := storeIndexData (state.oids job.oid).data slot }).goto t
          (job.finish slot (some ⟨state.entries slot, (state.entries slot).rid⟩))) := by
  have granted : Alone config t _ _ := alone_tryWrite_granted
    (goto_pc (state.setHand t slot) t
      (.oid (state.entries slot).rid .tryWrite (.tried job n slot) false)) (resting _) free
  rw [goto_setOid, goto_goto] at granted
  have evicted : Alone config t _ _ := alone_evict
    (goto_pc ((state.setHand t slot).setOid (state.entries slot).rid
      (writeGranted (state.oids (state.entries slot).rid) t)) t
      (.probeValidate job n slot (state.entries slot).rid)) rfl
    (by simp [goto, setOid, writeGranted, resting]) (by simp [goto, setOid, writeGranted])
  have stored : Alone config t _ _ := alone_storeIndex
    (goto_pc (((state.setHand t slot).setOid (state.entries slot).rid
      (retired (state.oids (state.entries slot).rid) t (state.entries slot).rid)).setEntry slot
        job.node) t
      (.oid job.oid (.storeIndex slot)
        (.placed job slot (some ⟨state.entries slot, (state.entries slot).rid⟩)) false))
    (by simp [goto, setOid, setEntry, setHand, other.symm, resting])
    (by simpa [goto, setOid, setEntry, setHand, other.symm] using writes) fits
  refine ((visit_tries here within slotAt occupied clear).trans granted).trans ?_
  refine .trans ?_ (by simpa [goto, setOid, setEntry, setHand, other.symm] using stored)
  simpa [goto, setOid, setEntry, setHand, retired, writeGranted] using evicted

end Visit

/-! ### The whole loop -/

/-- The slot of visit number `n` of a call that starts with the clock hand at `hand`. -/
def CacheConfig.visit (config : CacheConfig) (hand n : Nat) : Word :=
  BitVec.ofNat 64 ((hand + n) % config.capacity)

/-- The state after `n` visits that took no slot: the visited slots have lost their reference
bits and the hand has advanced by `n`.
-/
def CacheState.swept (config : CacheConfig) (state : CacheState τ) (t : τ) (n : Nat)
    : CacheState τ :=
  { state with
    entries := fun index =>
      if ∃ k < n, config.visit (state.hand t) (k + 1) = index then (state.entries index).clearRef
      else state.entries index
    hand := Function.update state.hand t ((state.hand t + n) % config.capacity) }

/-- The entry that visit number `n + 1` finds. -/
def CacheState.found (config : CacheConfig) (state : CacheState τ) (t : τ) (n : Nat)
    : ClockNode :=
  (state.swept config t n).entries (config.visit (state.hand t) (n + 1))

/-- Visit number `n + 1` can take its slot: it is empty, or its reference bit is clear by then
and its owner is not locked.
-/
def CacheState.Eligible (config : CacheConfig) (state : CacheState τ) (t : τ) (n : Nat) : Prop :=
  (state.found config t n).rid = sentinel
  ∨ NodeMeta.isRefed (state.found config t n).nodeMeta.data = false
    ∧ hasLock (state.oids (state.found config t n).rid).data = false

/-- The node an entry holds is a victim unless the entry is empty. -/
def ClockNode.victim (node : ClockNode) : Option Evicted :=
  if node.rid = sentinel then none else some ⟨node, node.rid⟩

def CacheState.retire (state : CacheState τ) (t : τ) : Option Evicted → CacheState τ
  | none => state
  | some evicted =>
      state.setOid evicted.oid (retired (state.oids evicted.oid) t evicted.oid)

/-- The state after visit number `n + 1` took its slot for the new node. -/
def CacheState.replaced (config : CacheConfig) (state : CacheState τ) (t : τ) (job : Probe)
    (n : Nat)
    : CacheState τ :=
  let slot := config.visit (state.hand t) (n + 1)
  let cleared := (state.swept config t n).setHand t slot
  ((cleared.retire t (state.found config t n).victim).setEntry slot job.node).setOid job.oid
    { state.oids job.oid with data := storeIndexData (state.oids job.oid).data slot }

/-- Thread `t` has entered `probe_and_replace_rng`, and the coin came up true. It has the write
guard on the oid of the new node.
-/
structure Probe.Entered (job : Probe) (config : CacheConfig) (state : CacheState τ) (t : τ)
    : Prop where
  here : state.pc t = .probing job 0
  hand : state.hand t < config.capacity
  resting : ∀ rid, (state.oids rid).pc t = .idle
  writes : ⟨t, .write⟩ ∈ (state.oids job.oid).guards
  locked : hasLock (state.oids job.oid).data = true
  middle : middleBits (state.oids job.oid).data = 0#16

/-- Where a call stands when it returns. After the last visit, that is the end of the loop. -/
def Probe.returns (job : Probe) (config : CacheConfig) : Option (Word × Option Evicted) → Pc
  | some (slot, evicted) => job.finish slot evicted
  | none => .probing job config.probeLen

section Loop

theorem CacheConfig.visit_toNat (config : CacheConfig) (hand n : Nat)
    : (config.visit hand n).toNat = (hand + n) % config.capacity := by
  have small := Nat.mod_lt (hand + n) config.capacity_pos
  have bound := config.capacity_u32
  rw [visit, BitVec.toNat_ofNat, Nat.mod_eq_of_lt (by omega)]

theorem CacheConfig.fitsId_visit (config : CacheConfig) (hand n : Nat)
    : FitsId (config.visit hand n) := by
  rw [FitsId, visit_toNat]
  exact (Nat.mod_lt _ config.capacity_pos).trans config.capacity_u32

theorem CacheConfig.advanceIndex_visit (config : CacheConfig) (hand n : Nat)
    : config.advanceIndex ((hand + n) % config.capacity) = config.visit hand (n + 1) := by
  rw [advanceIndex, visit, Nat.mod_add_mod, Nat.add_assoc]

theorem ClockNode.clearRef_of_clear {node : ClockNode}
    (clear : NodeMeta.isRefed node.nodeMeta.data = false)
    : node.clearRef = node := by
  rw [clearRef, NodeMeta.cleared_of_clear clear]

@[simp]
theorem ClockNode.clearRef_clearRef (node : ClockNode)
    : node.clearRef.clearRef = node.clearRef :=
  clearRef_of_clear (NodeMeta.isRefed_cleared node.nodeMeta.data)

@[simp]
theorem swept_oids : (state.swept config t n).oids = state.oids :=
  rfl

theorem swept_rid (index : Word)
    : ((state.swept config t n).entries index).rid = (state.entries index).rid := by
  simp only [swept]
  split <;> rfl

/-- No visit has been made. -/
theorem swept_zero (inside : state.hand t < config.capacity)
    : state.swept config t 0 = state := by
  simp [swept, Nat.mod_eq_of_lt inside]

/-- One more visit that clears its slot. -/
theorem swept_succ (config : CacheConfig) (state : CacheState τ) (t : τ) (n : Nat)
    : ((state.swept config t n).setHand t (config.visit (state.hand t) (n + 1))).setEntry
        (config.visit (state.hand t) (n + 1)) (state.found config t n).clearRef
      = state.swept config t (n + 1) := by
  have hand : Function.update (Function.update state.hand t ((state.hand t + n) % config.capacity))
      t (config.visit (state.hand t) (n + 1)).toNat
        = Function.update state.hand t ((state.hand t + (n + 1)) % config.capacity) := by
    rw [Function.update_idem, config.visit_toNat]
  have entries : Function.update (state.swept config t n).entries
      (config.visit (state.hand t) (n + 1)) (state.found config t n).clearRef
        = (state.swept config t (n + 1)).entries := by
    funext index
    by_cases same : index = config.visit (state.hand t) (n + 1)
    · subst same
      have now : ∃ k < n + 1, config.visit (state.hand t) (k + 1)
          = config.visit (state.hand t) (n + 1) :=
        ⟨n, n.lt_succ_self, rfl⟩
      simp only [Function.update_self, found, swept, if_pos now]
      split <;> simp
    · have earlier : (∃ k < n + 1, config.visit (state.hand t) (k + 1) = index)
          ↔ ∃ k < n, config.visit (state.hand t) (k + 1) = index := by
        rw [Nat.exists_lt_succ_right, or_iff_left (Ne.symm same)]
      simp only [Function.update_of_ne same, swept, earlier]
  simp only [setHand, setEntry, entries]
  simp only [swept, hand]

/-- One more visit that passes its slot by. -/
theorem swept_succ_of_clear
    (clear : NodeMeta.isRefed (state.found config t n).nodeMeta.data = false)
    : (state.swept config t n).setHand t (config.visit (state.hand t) (n + 1))
      = state.swept config t (n + 1) := by
  rw [← swept_succ, ClockNode.clearRef_of_clear clear]
  simp [found, setEntry, setHand]

/-- With no owner locked, a round and one more visit always find a slot. -/
theorem eligible_after_round
    (free : ∀ index, (state.entries index).rid ≠ sentinel
      → hasLock (state.oids (state.entries index).rid).data = false)
    : state.Eligible config t config.capacity := by
  by_cases vacant : (state.found config t config.capacity).rid = sentinel
  · exact .inl vacant
  · refine .inr ⟨?_, ?_⟩
    · -- The first visit of the round had the same slot.
      have before : ∃ k < config.capacity, config.visit (state.hand t) (k + 1)
          = config.visit (state.hand t) (config.capacity + 1) := by
        refine ⟨0, config.capacity_pos, ?_⟩
        simp [CacheConfig.visit, Nat.add_left_comm (state.hand t) config.capacity]
      simp only [found, swept, if_pos before]
      exact NodeMeta.isRefed_cleared _
    · rw [found, swept_rid] at vacant ⊢
      exact free _ vacant

/-- The first of the visits that can take their slots. -/
theorem first_eligible {bound : Nat} (somewhere : ∃ n < bound, state.Eligible config t n)
    : ∃ n < bound, state.Eligible config t n ∧ ∀ k < n, ¬ state.Eligible config t k := by
  classical
  obtain ⟨n, within, eligible⟩ := somewhere
  have found : ∃ n, state.Eligible config t n := ⟨n, eligible⟩
  exact ⟨Nat.find found, (Nat.find_min' found eligible).trans_lt within, Nat.find_spec found,
    fun _ => Nat.find_min found⟩

omit [DecidableEq τ] in
theorem writeLocked_retired (oid : LockedOid τ) (rid : Rid)
    : writeLocked (retired oid t rid).data = true := by
  have bit : ∀ byte : BitVec 8, ¬ (byte ||| 0x80#8).toNat < 128 := by decide
  rw [← Bool.not_eq_false, writeLocked_eq_false, retired, lockByte_storeRidData,
    lockByte_withWriter]
  exact bit _

variable (entered : job.Entered config state t)

include entered

omit [DecidableEq τ] in
/-- A record that is not locked is not the one to be stored. -/
theorem Probe.Entered.other (free : hasLock (state.oids rid).data = false)
    : rid ≠ job.oid := by
  rintro rfl
  exact absurd entered.locked (by simp [free])

/-- The sweep, by induction on the number of visits: none of them could take its slot. -/
theorem Probe.Entered.sweep (within : n ≤ config.probeLen)
    (skipped : ∀ k < n, ¬ state.Eligible config t k)
    : Alone config t state ((state.swept config t n).goto t (.probing job n)) := by
  induction n with
  | zero =>
      have start : (state.swept config t 0).goto t (.probing job 0) = state := by
        simp [swept_zero entered.hand, goto, ← entered.here]
      rw [start]
      exact .refl state
  | succ n ih =>
      refine (ih (by omega) (fun k early => skipped k (by omega))).trans ?_
      have control := goto_pc (state.swept config t n) t (.probing job n)
      have slotAt : config.advanceIndex (((state.swept config t n).goto t (.probing job n)).hand t)
          = config.visit (state.hand t) (n + 1) := by
        simp [goto, swept, config.advanceIndex_visit]
      have passed := skipped n n.lt_succ_self
      simp only [Eligible, not_or, not_and, Bool.not_eq_false] at passed
      obtain ⟨occupied, busy⟩ := passed
      cases refed : NodeMeta.isRefed (state.found config t n).nodeMeta.data with
      | true =>
          have visited := visit_clears control within slotAt occupied refed
          rw [← swept_succ]
          simpa [goto, setHand, setEntry, found] using visited
      | false =>
          have visited :=
            visit_passes control within slotAt entered.resting occupied refed (busy refed)
          rw [← swept_succ_of_clear refed]
          simpa [goto, setHand] using visited

/-- The visit that takes its slot. -/
theorem Probe.Entered.stop (within : n < config.probeLen)
    (skipped : ∀ k < n, ¬ state.Eligible config t k) (eligible : state.Eligible config t n)
    : Alone config t state
        ((state.replaced config t job n).goto t
          (job.finish (config.visit (state.hand t) (n + 1)) (state.found config t n).victim)) := by
  refine (entered.sweep within.le skipped).trans ?_
  have control := goto_pc (state.swept config t n) t (.probing job n)
  have slotAt : config.advanceIndex (((state.swept config t n).goto t (.probing job n)).hand t)
      = config.visit (state.hand t) (n + 1) := by
    simp [goto, swept, config.advanceIndex_visit]
  have fits := config.fitsId_visit (state.hand t) (n + 1)
  by_cases vacant : (state.found config t n).rid = sentinel
  · have victim : (state.found config t n).victim = none := if_pos vacant
    have visited := visit_fills control within slotAt entered.resting entered.writes fits vacant
    rw [replaced, victim]
    simpa [goto, setHand, setEntry, setOid, retire] using visited
  · obtain ⟨clear, free⟩ := eligible.resolve_left vacant
    have other := entered.other free
    have victim : (state.found config t n).victim
        = some ⟨state.found config t n, (state.found config t n).rid⟩ :=
      if_neg vacant
    have visited := visit_replaces control within slotAt entered.resting entered.writes fits vacant
      clear free other
    rw [replaced, victim]
    simpa [goto, setHand, setEntry, setOid, retire, found] using visited

/-- What the words of the new node and of the victim say afterwards. -/
theorem Probe.Entered.replaced_sound (eligible : state.Eligible config t n)
    : (state.replaced config t job n).hand t = (state.hand t + (n + 1)) % config.capacity
      ∧ decode ((state.replaced config t job n).oids job.oid).data
        = .cached (config.visit (state.hand t) (n + 1))
      ∧ ∀ evicted, (state.found config t n).victim = some evicted
        → decode ((state.replaced config t job n).oids evicted.oid).data = .rid evicted.oid
          ∧ writeLocked ((state.replaced config t job n).oids evicted.oid).data = true
          ∧ ⟨t, .write⟩ ∈ ((state.replaced config t job n).oids evicted.oid).guards := by
  refine ⟨?_, ?_, ?_⟩
  · have hand : (state.replaced config t job n).hand t
        = (config.visit (state.hand t) (n + 1)).toNat := by
      cases victim : (state.found config t n).victim <;>
        simp [replaced, victim, retire, setOid, setEntry, setHand]
    rw [hand, config.visit_toNat]
  · simp only [replaced, setOid, Function.update_self]
    exact decode_storeIndexData _ (config.fitsId_visit _ _) entered.middle
  · intro evicted victim
    obtain ⟨occupied, rfl⟩ : (state.found config t n).rid ≠ sentinel
        ∧ ⟨state.found config t n, (state.found config t n).rid⟩ = evicted := by
      simpa [ClockNode.victim] using victim
    have free := (eligible.resolve_left occupied).2
    have other := entered.other free
    have word : (state.replaced config t job n).oids (state.found config t n).rid
        = retired (state.oids (state.found config t n).rid) t (state.found config t n).rid := by
      simp [replaced, victim, retire, setOid, setEntry, setHand, other]
    rw [word]
    exact ⟨decode_storeRidData _ _, writeLocked_retired _ _, by simp [retired, writeGranted]⟩

/-- `probe_and_replace_rng` does second chance. Run by one thread with no spurious failure, it
visits the slots after the hand in order and stops at the first eligible one, within
`probe_len` visits. There the new node is stored and its oid says so; the victim is returned,
its oid back to its own rid and write-locked. With no eligible slot, `None` is returned. Other
than that, only the reference bits of the visited slots and the hand change. When no owner
is locked, a slot is found within one round and one visit.
-/
theorem probe_second_chance
    : ∃ final, Alone config t state final
        ∧ (∀ n < config.probeLen,
            state.Eligible config t n
            → (∀ k < n, ¬ state.Eligible config t k)
            → final = (state.replaced config t job n).goto t
                (job.returns config
                  (some (config.visit (state.hand t) (n + 1), (state.found config t n).victim)))
              ∧ final.hand t = (state.hand t + (n + 1)) % config.capacity
              ∧ decode (final.oids job.oid).data
                = .cached (config.visit (state.hand t) (n + 1))
              ∧ ∀ evicted, (state.found config t n).victim = some evicted
                → decode (final.oids evicted.oid).data = .rid evicted.oid
                  ∧ writeLocked (final.oids evicted.oid).data = true
                  ∧ ⟨t, .write⟩ ∈ (final.oids evicted.oid).guards)
        ∧ ((∀ n < config.probeLen, ¬ state.Eligible config t n)
            → final = (state.swept config t config.probeLen).goto t (job.returns config none)
              ∧ final.hand t = (state.hand t + config.probeLen) % config.capacity)
        ∧ ((∀ index, (state.entries index).rid ≠ sentinel
              → hasLock (state.oids (state.entries index).rid).data = false)
            → config.capacity < config.probeLen
            → ∃ n ≤ config.capacity,
                state.Eligible config t n ∧ ∀ k < n, ¬ state.Eligible config t k) := by
  have round (free : ∀ index, (state.entries index).rid ≠ sentinel
      → hasLock (state.oids (state.entries index).rid).data = false)
      : ∃ n ≤ config.capacity,
          state.Eligible config t n ∧ ∀ k < n, ¬ state.Eligible config t k := by
    obtain ⟨n, within, first⟩ :=
      first_eligible ⟨config.capacity, config.capacity.lt_succ_self, eligible_after_round free⟩
    exact ⟨n, Nat.le_of_lt_succ within, first⟩
  by_cases somewhere : ∃ n < config.probeLen, state.Eligible config t n
  · obtain ⟨n, within, eligible, skipped⟩ := first_eligible somewhere
    refine ⟨_, entered.stop within skipped eligible, ?_, ?_, fun free _ => round free⟩
    · intro m _ eligibleToo skippedToo
      obtain rfl : m = n := by
        rcases Nat.lt_trichotomy m n with early | same | late
        · exact absurd eligibleToo (skipped m early)
        · exact same
        · exact absurd eligible (skippedToo n late)
      exact ⟨rfl, entered.replaced_sound eligible⟩
    · exact fun nowhere => absurd eligible (nowhere n within)
  · have nowhere : ∀ n < config.probeLen, ¬ state.Eligible config t n :=
      fun n within eligible => somewhere ⟨n, within, eligible⟩
    refine ⟨_, entered.sweep le_rfl nowhere, ?_, fun _ => ⟨rfl, ?_⟩, fun free _ => round free⟩
    · exact fun n within eligible => absurd eligible (nowhere n within)
    · simp [goto, swept]

end Loop

omit [DecidableEq τ] in
/-- In a consistent state, a thread that is about to probe meets the conditions of the call. -/
theorem Consistent.entered (consistent : Consistent config state)
    (here : state.pc t = .probing job 0) (hand : state.hand t < config.capacity)
    : job.Entered config state t := by
  have known := consistent.sound t
  rw [here] at known
  have writes := known.sound.owns.writes
  refine ⟨here, hand, ?_, writes, ?_, consistent.middle _⟩
  · exact fun rid => (consistent.calls t).resting rid (by simp [here])
  · rw [← Bool.not_eq_false, hasLock_eq_false, ((consistent.safe _).accounts.of_write writes).2]
    decide

/-- The thread is about to probe for record `rid`. -/
def Pc.probesFor (rid : Rid) : Pc → Bool
  | .probing job 0 => decide (job.oid = rid)
  | _ => false

theorem Pc.probesFor_job {pc : Pc} (probes : pc.probesFor rid = true)
    : ∃ job, pc = .probing job 0 ∧ job.oid = rid := by
  unfold probesFor at probes
  split at probes
  · next job => exact ⟨job, rfl, of_decide_eq_true probes⟩
  · contradiction

/-- Record 0 is in the only entry when another thread probes for record 1: record 0 goes. -/
theorem probe_second_chance_evicts
    : ∃ state final : CacheState Bool,
        Alone singleEntry false state final
        ∧ decode (state.oids 0#32).data = .cached 0
        ∧ decode (final.oids 0#32).data = .rid 0#32
        ∧ decode (final.oids 1#32).data = .cached 0 := by
  obtain ⟨trace, state, run, passed⟩ := exec_reaches
    (fun result : CacheState Bool × List ((Bool × CacheMove Bool) × CacheEvent) =>
      (result.1.pc false).probesFor 1#32
      && decide (result.1.hand false = 0
        ∧ decode (result.1.oids 0#32).data = .cached 0
        ∧ (result.1.found singleEntry false 0).rid = 0#32
        ∧ NodeMeta.isRefed (result.1.found singleEntry false 0).nodeMeta.data = false
        ∧ hasLock (result.1.oids 0#32).data = false))
    (by decide +kernel
      : (exec (cacheStep singleEntry) (CacheState.init (fun _ _ => 0) (fun _ => 0))
          ([(true, .insert 0#32 (fun _ => 0))]
            ++ List.replicate 15 (true, .advance false)
            ++ [(true, .drop 0#32 .write), (false, .insert 1#32 (fun _ => 0))]
            ++ List.replicate 8 (false, .advance false))).any _ = true)
  simp only [Bool.and_eq_true, decide_eq_true_eq] at passed
  obtain ⟨probes, hand, cached, victim, clear, free⟩ := passed
  obtain ⟨job, here, oid⟩ := Pc.probesFor_job probes
  have entered := (consistent_of_run run).entered here (by rw [hand]; decide)
  obtain ⟨final, alone, stops, _⟩ := probe_second_chance entered
  have eligible : state.Eligible singleEntry false 0 := .inr ⟨clear, by rw [victim]; exact free⟩
  obtain ⟨_, _, placed, evicted⟩ := stops 0 (by decide) eligible (by simp)
  have occupied : (state.found singleEntry false 0).rid ≠ sentinel := by rw [victim]; decide
  obtain ⟨reset, _⟩ := evicted _ (if_neg occupied)
  rw [oid, hand] at placed
  rw [victim] at reset
  exact ⟨state, final, alone, cached, reset, placed⟩

end Alchemy.Cache
