import Alchemy.Cache.CacheSteps
import Alchemy.Oid.Outcomes

/-! Who may rely on what in a shared cache.
A guard on a record protects its word, its tuple and the entry that carries its rid. `Sound`
says what a thread knows at each program point, always about records it holds a guard on;
`Keeps` and `Retains` are what the steps of the other threads leave unchanged of such a record.
-/

namespace Alchemy.Cache

open Oid ByteImage

variable {τ : Type}

namespace CacheState

variable (state : CacheState τ) (t : τ) (rid : Rid)

def Holds : Prop := ∃ guard ∈ (state.oids rid).guards, guard.owner = t

def Writes : Prop := ⟨t, .write⟩ ∈ (state.oids rid).guards

/-- What the oid word of the record says. -/
def place : Place := decode (state.oids rid).data

/-- No query value refers to the record. -/
def Unseen : Prop := ∀ view ∈ state.views, view.rid ≠ rid

/-- A call of thread `t` has the record to itself. -/
structure Owns : Prop where
  returned : rid ∈ state.returned
  writes : state.Writes t rid
  unseen : state.Unseen rid

/-- Word, guards and tuple of the record are in `next` as they were in `state`. -/
structure Keeps (next : CacheState τ) : Prop where
  guards : ∀ kind, ⟨t, kind⟩ ∈ (state.oids rid).guards → ⟨t, kind⟩ ∈ (next.oids rid).guards
  place : next.place rid = state.place rid
  storage : next.storage rid = state.storage rid
  unseen : state.Writes t rid → state.Unseen rid → next.Unseen rid
  returned : rid ∈ state.returned → rid ∈ next.returned
  published : rid ∈ next.published ↔ rid ∈ state.published

/-- And so are the entries that carry its rid. -/
structure Retains (next : CacheState τ) : Prop extends Keeps state t rid next where
  entries : ∀ index, (state.entries index).rid = rid
    → (next.entries index).rid = rid ∧ (next.entries index).val = (state.entries index).val

/-- Standing still retains everything. A step that leaves a field of the state alone takes
what it retains of it from here.
-/
theorem Retains.refl : state.Retains t rid state where
  guards := fun _ held => held
  place := rfl
  storage := rfl
  unseen := fun _ unseen => unseen
  returned := fun member => member
  published := Iff.rfl
  entries := fun _ here => ⟨here, rfl⟩

end CacheState

open CacheState

/-! ### What a thread knows -/

section Sound

variable (config : CacheConfig) (state : CacheState τ) (t : τ)

/-- The node holds what its caller wants cached. -/
def Probe.Loaded (job : Probe) : Prop :=
  match job.caller with
  | .insert val => job.oid ∉ state.published ∧ job.node.val = config.schema.toCached val
  | .promote _ =>
      job.oid ∈ state.published
      ∧ job.node.val = config.schema.toCached (state.storage job.oid)

/-- A probe in progress: the caller owns the record, and the node is made for it. -/
structure Probe.Sound (job : Probe) : Prop where
  owns : state.Owns t job.oid
  rid : job.rid = job.oid
  nodeRid : job.node.rid = job.oid
  loaded : job.Loaded config state

/-- Still searching: the word of the record has no cache index yet. -/
structure Probe.Searching (job : Probe) : Prop where
  sound : job.Sound config state t
  place : state.place job.oid = .rid job.oid

/-- Found: the word of the record points to the entry with the new node. -/
structure Probe.Placed (job : Probe) (index : Word) : Prop where
  sound : job.Sound config state t
  place : state.place job.oid = .cached index
  slot : (state.entries index).rid = job.oid
  val : (state.entries index).val = job.node.val

/-- The entry `index` holds the record `curRid`, which the thread has locked for eviction. -/
structure Probe.Victim (job : Probe) (index : Word) (curRid : Rid) : Prop where
  other : curRid ≠ job.oid
  owns : state.Owns t curRid
  slot : (state.entries index).rid = curRid

/-- A node taken out of the cache and not yet written back. -/
structure Evicted.Sound (job : Probe) (evicted : Evicted) : Prop where
  other : evicted.oid ≠ job.oid
  owns : state.Owns t evicted.oid
  rid : evicted.node.rid = evicted.oid
  place : state.place evicted.oid = .rid evicted.oid

/-- What a thread knows while it runs the operation `op` on the word of `rid`. -/
def After.Sound (rid : Rid) (op : LockOp) : After → Prop
  | .user => acquires op = true ∧ rid ∈ state.published
  | .allocGuard _ => op = .write ∧ rid ∈ state.allocated ∧ rid ∉ state.returned
  | .allocStored _ =>
      op = .storeRid rid ∧ rid ∈ state.allocated ∧ rid ∉ state.returned ∧ state.Writes t rid
  | .tried job _ index =>
      op = .tryWrite ∧ job.Searching config state t ∧ index.toNat < config.capacity
      ∧ rid ∈ state.returned
  | .abandoned job _ =>
      op = .dropWrite ∧ job.Searching config state t ∧ rid ≠ job.oid ∧ state.Owns t rid
  | .retired job index =>
      op = .storeRid rid ∧ job.Searching config state t ∧ index.toNat < config.capacity
      ∧ job.Victim state t index rid
  | .placed job index evicted =>
      op = .storeIndex index ∧ rid = job.oid ∧ job.Searching config state t
      ∧ index.toNat < config.capacity ∧ (state.entries index).rid = job.oid
      ∧ (state.entries index).val = job.node.val ∧ ∀ old ∈ evicted, old.Sound state t job
  | .released job index =>
      op = .dropWrite ∧ job.Placed config state t index ∧ rid ≠ job.oid ∧ state.Owns t rid

/-- What a thread knows at its program point. -/
def Pc.Sound : Pc → Prop
  | .idle => True
  | .oid rid op after _ => after.Sound config state t rid op
  | .insertIsRid rid _ | .insertToRid rid _ =>
      state.Owns t rid ∧ rid ∉ state.published ∧ state.place rid = .rid rid
  | .insertStore rid val =>
      state.Owns t rid ∧ rid ∉ state.published
      ∧ ∀ index, state.place rid = .cached index
          → (state.entries index).rid = rid
            ∧ (state.entries index).val = config.schema.toCached val
  | .readIsCached rid _ promote =>
      rid ∈ state.published ∧ state.Holds t rid ∧ (promote = true → state.Owns t rid)
  | .readIndex rid _ =>
      rid ∈ state.published ∧ state.Holds t rid ∧ ∃ index, state.place rid = .cached index
  | .readSetRef rid _ index | .readEntry rid _ index =>
      rid ∈ state.published ∧ state.Holds t rid ∧ state.place rid = .cached index
  | .readRid rid _ promote =>
      rid ∈ state.published ∧ state.Holds t rid ∧ (promote = true → state.Owns t rid)
      ∧ state.place rid = .rid rid
  | .promoteRid rid _ =>
      rid ∈ state.published ∧ state.Owns t rid ∧ state.place rid = .rid rid
  | .promoteCopy rid _ tupleRid =>
      rid ∈ state.published ∧ state.Owns t rid ∧ state.place rid = .rid rid ∧ tupleRid = rid
  | .probing job _ | .probeClear job _ _ _ => job.Searching config state t
  | .probeClaim job _ index => job.Searching config state t ∧ index.toNat < config.capacity
  | .probePut job index =>
      job.Searching config state t ∧ index.toNat < config.capacity
      ∧ (state.entries index).rid = job.oid
  | .probeRef job _ index curRid =>
      job.Searching config state t ∧ index.toNat < config.capacity ∧ curRid ∈ state.returned
  | .probeValidate job _ index curRid =>
      job.Searching config state t ∧ index.toNat < config.capacity ∧ curRid ≠ job.oid
      ∧ state.Owns t curRid
  | .probeVictimRid job index curRid =>
      job.Searching config state t ∧ index.toNat < config.capacity
      ∧ job.Victim state t index curRid
  | .probeReplace job index curRid =>
      job.Searching config state t ∧ index.toNat < config.capacity
      ∧ job.Victim state t index curRid ∧ state.place curRid = .rid curRid
  | .probeSetRef job index evicted =>
      job.Placed config state t index ∧ ∀ old ∈ evicted, old.Sound state t job
  | .evictWriteBack job index evicted =>
      job.Placed config state t index ∧ evicted.Sound state t job

end Sound

/-! ### Knowledge survives what leaves the records alone -/

section Retained

variable {config : CacheConfig} {state next : CacheState τ} {t : τ} {rid : Rid}

theorem CacheState.Writes.holds (writes : state.Writes t rid) : state.Holds t rid :=
  ⟨_, writes, rfl⟩

theorem CacheState.Owns.holds (owns : state.Owns t rid) : state.Holds t rid :=
  owns.writes.holds

theorem CacheState.Keeps.holds (keeps : state.Keeps t rid next) (held : state.Holds t rid)
    : next.Holds t rid := by
  obtain ⟨⟨_, kind⟩, member, rfl⟩ := held
  exact ⟨_, keeps.guards kind member, rfl⟩

theorem CacheState.Keeps.owns (keeps : state.Keeps t rid next) (owns : state.Owns t rid)
    : next.Owns t rid where
  returned := keeps.returned owns.returned
  writes := keeps.guards _ owns.writes
  unseen := keeps.unseen owns.writes owns.unseen

variable {job : Probe} {index : Word}

theorem Probe.Sound.keep (sound : job.Sound config state t)
    (keeps : state.Keeps t job.oid next)
    : job.Sound config next t where
  owns := keeps.owns sound.owns
  rid := sound.rid
  nodeRid := sound.nodeRid
  loaded := by
    have loaded := sound.loaded
    unfold Probe.Loaded at loaded ⊢
    cases caller : job.caller with
    | insert val =>
        rw [caller] at loaded
        exact ⟨fun member => loaded.1 (keeps.published.mp member), loaded.2⟩
    | promote query =>
        rw [caller, ← keeps.storage] at loaded
        exact ⟨keeps.published.mpr loaded.1, loaded.2⟩

theorem Probe.Searching.keep (searching : job.Searching config state t)
    (keeps : state.Keeps t job.oid next)
    : job.Searching config next t where
  sound := searching.sound.keep keeps
  place := keeps.place.trans searching.place

theorem Probe.Placed.retain (placed : job.Placed config state t index)
    (retains : state.Retains t job.oid next)
    : job.Placed config next t index where
  sound := placed.sound.keep retains.toKeeps
  place := retains.place.trans placed.place
  slot := (retains.entries index placed.slot).1
  val := (retains.entries index placed.slot).2.trans placed.val

theorem Probe.Victim.retain {curRid : Rid} (victim : job.Victim state t index curRid)
    (retains : state.Retains t curRid next)
    : job.Victim next t index curRid where
  other := victim.other
  owns := retains.owns victim.owns
  slot := (retains.entries index victim.slot).1

theorem Evicted.Sound.keep {evicted : Evicted} (sound : evicted.Sound state t job)
    (keeps : state.Keeps t evicted.oid next)
    : evicted.Sound next t job where
  other := sound.other
  owns := keeps.owns sound.owns
  rid := sound.rid
  place := keeps.place.trans sound.place

theorem Probe.Searching.holds (searching : job.Searching config state t)
    : state.Holds t job.oid :=
  searching.sound.owns.holds

theorem Probe.Placed.holds (placed : job.Placed config state t index)
    : state.Holds t job.oid :=
  placed.sound.owns.holds

/-- A step of another thread, as thread `t` sees it. `allocating` is the record `t` has
appended to the oid heap and not yet initialised.
-/
structure CacheState.Undisturbed (state : CacheState τ) (t : τ) (allocating : Option Rid)
    (next : CacheState τ)
    : Prop where
  retains : ∀ rid, state.Holds t rid → state.Retains t rid next
  allocated : ∀ rid ∈ state.allocated, rid ∈ next.allocated
  returned : ∀ rid ∈ state.returned, rid ∈ next.returned
  published : ∀ rid ∈ state.published, rid ∈ next.published
  unreturned : ∀ rid, allocating = some rid → rid ∉ state.returned → rid ∉ next.returned

/-- The record a thread is allocating. -/
def Pc.allocating : Pc → Option Rid
  | .oid rid _ (.allocGuard _) _ | .oid rid _ (.allocStored _) _ => some rid
  | _ => none

theorem After.Sound.undisturbed {op : LockOp} {after : After} {entered : Bool}
    (quiet : state.Undisturbed t (Pc.oid rid op after entered).allocating next)
    (sound : after.Sound config state t rid op)
    : after.Sound config next t rid op := by
  cases after with
  | user => exact ⟨sound.1, quiet.published rid sound.2⟩
  | allocGuard val =>
      obtain ⟨isWrite, allocated, fresh⟩ := sound
      exact ⟨isWrite, quiet.allocated rid allocated, quiet.unreturned rid rfl fresh⟩
  | allocStored val =>
      obtain ⟨isStore, allocated, fresh, writes⟩ := sound
      exact ⟨isStore, quiet.allocated rid allocated, quiet.unreturned rid rfl fresh,
        (quiet.retains rid writes.holds).guards _ writes⟩
  | tried job p index =>
      obtain ⟨isTry, searching, small, returned⟩ := sound
      exact ⟨isTry, searching.keep (quiet.retains _ searching.holds).toKeeps, small,
        quiet.returned rid returned⟩
  | abandoned job p =>
      obtain ⟨isDrop, searching, other, owns⟩ := sound
      exact ⟨isDrop, searching.keep (quiet.retains _ searching.holds).toKeeps, other,
        (quiet.retains _ owns.holds).owns owns⟩
  | retired job index =>
      obtain ⟨isStore, searching, small, victim⟩ := sound
      exact ⟨isStore, searching.keep (quiet.retains _ searching.holds).toKeeps, small,
        victim.retain (quiet.retains _ victim.owns.holds)⟩
  | placed job index evicted =>
      obtain ⟨isStore, same, searching, small, slot, val, old⟩ := sound
      have kept := (quiet.retains _ searching.holds).entries index slot
      exact ⟨isStore, same, searching.keep (quiet.retains _ searching.holds).toKeeps, small, kept.1,
        kept.2.trans val,
        fun evicted member => (old evicted member).keep
          (quiet.retains _ (old evicted member).owns.holds).toKeeps⟩
  | released job index =>
      obtain ⟨isDrop, placed, other, owns⟩ := sound
      exact ⟨isDrop, placed.retain (quiet.retains _ placed.holds), other,
        (quiet.retains _ owns.holds).owns owns⟩

/-- What a thread knows survives the steps of the other threads, by cases on its point. -/
theorem Pc.Sound.undisturbed {pc : Pc} (quiet : state.Undisturbed t pc.allocating next)
    (sound : pc.Sound config state t)
    : pc.Sound config next t := by
  have retained := quiet.retains
  cases pc with
  | idle => trivial
  | oid rid op after entered => exact After.Sound.undisturbed quiet sound
  | insertIsRid rid val | insertToRid rid val =>
      obtain ⟨owns, unpublished, place⟩ := sound
      have kept := retained rid owns.holds
      exact ⟨kept.owns owns, fun member => unpublished (kept.published.mp member),
        kept.place.trans place⟩
  | insertStore rid val =>
      obtain ⟨owns, unpublished, stored⟩ := sound
      have kept := retained rid owns.holds
      refine ⟨kept.owns owns, fun member => unpublished (kept.published.mp member), ?_⟩
      intro index place
      obtain ⟨slot, same⟩ := stored index (kept.place.symm.trans place)
      exact ⟨(kept.entries index slot).1, (kept.entries index slot).2.trans same⟩
  | readIsCached rid query promote =>
      obtain ⟨published, held, owns⟩ := sound
      have kept := retained rid held
      exact ⟨kept.published.mpr published, kept.holds held,
        fun promoting => kept.owns (owns promoting)⟩
  | readIndex rid query =>
      obtain ⟨published, held, index, place⟩ := sound
      have kept := retained rid held
      exact ⟨kept.published.mpr published, kept.holds held, index, kept.place.trans place⟩
  | readSetRef rid query index | readEntry rid query index =>
      obtain ⟨published, held, place⟩ := sound
      have kept := retained rid held
      exact ⟨kept.published.mpr published, kept.holds held, kept.place.trans place⟩
  | readRid rid query promote =>
      obtain ⟨published, held, owns, place⟩ := sound
      have kept := retained rid held
      exact ⟨kept.published.mpr published, kept.holds held,
        fun promoting => kept.owns (owns promoting), kept.place.trans place⟩
  | promoteRid rid query =>
      obtain ⟨published, owns, place⟩ := sound
      have kept := retained rid owns.holds
      exact ⟨kept.published.mpr published, kept.owns owns, kept.place.trans place⟩
  | promoteCopy rid query tupleRid =>
      obtain ⟨published, owns, place, same⟩ := sound
      have kept := retained rid owns.holds
      exact ⟨kept.published.mpr published, kept.owns owns, kept.place.trans place, same⟩
  | probing job p | probeClear job p index data =>
      exact Probe.Searching.keep sound (retained _ (Probe.Searching.holds sound)).toKeeps
  | probeClaim job p index =>
      exact ⟨sound.1.keep (retained _ sound.1.holds).toKeeps, sound.2⟩
  | probePut job index =>
      obtain ⟨searching, small, slot⟩ := sound
      have kept := retained _ searching.holds
      exact ⟨searching.keep kept.toKeeps, small, (kept.entries index slot).1⟩
  | probeRef job p index curRid =>
      obtain ⟨searching, small, returned⟩ := sound
      exact ⟨searching.keep (retained _ searching.holds).toKeeps, small, quiet.returned _ returned⟩
  | probeValidate job p index curRid =>
      obtain ⟨searching, small, other, owns⟩ := sound
      exact ⟨searching.keep (retained _ searching.holds).toKeeps, small, other,
        (retained _ owns.holds).owns owns⟩
  | probeVictimRid job index curRid =>
      obtain ⟨searching, small, victim⟩ := sound
      exact ⟨searching.keep (retained _ searching.holds).toKeeps, small,
        victim.retain (retained _ victim.owns.holds)⟩
  | probeReplace job index curRid =>
      obtain ⟨searching, small, victim, place⟩ := sound
      have kept := retained _ victim.owns.holds
      exact ⟨searching.keep (retained _ searching.holds).toKeeps, small, victim.retain kept,
        kept.place.trans place⟩
  | probeSetRef job index evicted =>
      obtain ⟨placed, old⟩ := sound
      exact ⟨placed.retain (retained _ placed.holds),
        fun evicted member => (old evicted member).keep
          (retained _ (old evicted member).owns.holds).toKeeps⟩
  | evictWriteBack job index evicted =>
      obtain ⟨placed, old⟩ := sound
      exact ⟨placed.retain (retained _ placed.holds), old.keep (retained _ old.owns.holds).toKeeps⟩

end Retained

end Alchemy.Cache
