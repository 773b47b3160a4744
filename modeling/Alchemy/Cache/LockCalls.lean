import Alchemy.Cache.EntrySteps

/-! Steps on an oid word keep the cache consistent, whether they are inside an operation or
end one. The three operations that move a pair in or out of transit are the stores.
-/

namespace Alchemy.Cache

open Oid ByteImage CacheState

variable {τ : Type} {config : CacheConfig} {state next : CacheState τ} {t : τ}
  {rid other : Rid} {oid : LockedOid τ}

@[simp]
theorem CacheState.setOid_self (state : CacheState τ) (rid : Rid) (oid : LockedOid τ)
    : (state.setOid rid oid).oids rid = oid := by
  simp [CacheState.setOid]

theorem CacheState.setOid_other (different : other ≠ rid)
    : (state.setOid rid oid).oids other = state.oids other := by
  simp [CacheState.setOid, different]

/-- A thread inside an operation on one word rests at all the others. -/
theorem CacheState.Calls.elsewhere {op : LockOp} {after : After} {entered : Bool}
    (calls : state.Calls t) (here : state.pc t = .oid rid op after entered)
    (different : other ≠ rid)
    : (state.oids other).pc t = .idle := by
  apply calls.resting other
  intro op after there
  rw [here] at there
  exact different (Pc.oid.inj there).1.symm

variable [DecidableEq τ] {event : LockEvent} {returned : List Rid} {pc : Pc}

@[simp]
theorem CacheState.stepOid_pc (state : CacheState τ) (t : τ) (rid : Rid) (oid : LockedOid τ)
    (returned : List Rid) (pc : Pc)
    : (state.stepOid t rid oid returned pc).pc t = pc :=
  goto_pc _ t pc

theorem CacheState.stepOid_pc_other {thread : τ} (different : thread ≠ t)
    : (state.stepOid t rid oid returned pc).pc thread = state.pc thread :=
  goto_other _ different

theorem CacheState.stepOid_self (state : CacheState τ) (t : τ) (rid : Rid) (oid : LockedOid τ)
    (returned : List Rid) (pc : Pc)
    : (state.stepOid t rid oid returned pc).oids rid = oid :=
  state.setOid_self rid oid

theorem CacheState.stepOid_other (different : other ≠ rid)
    : (state.stepOid t rid oid returned pc).oids other = state.oids other :=
  setOid_other different

theorem CacheState.place_stepOid_other (different : other ≠ rid)
    : (state.stepOid t rid oid returned pc).place other = state.place other := by
  rw [CacheState.place, stepOid_other different, CacheState.place]

/-- A step on a word that stores nothing changes what no word says. -/
theorem CacheState.place_setOid (effect : (state.oids rid).Effect t oid event)
    (notStore : event.isStore = false) (word : Rid)
    : (state.setOid rid oid).place word = state.place word := by
  by_cases same : word = rid
  · subst same
    rw [CacheState.place, setOid_self]
    exact decode_congr (effect.payload_same notStore)
  · rw [CacheState.place, setOid_other same, CacheState.place]

/-- What the operation of a thread can return with. -/
theorem CacheState.Calls.outcome {op : LockOp} {after : After} {entered choice : Bool}
    (calls : state.Calls t) (here : state.pc t = .oid rid op after entered)
    (moved : (state.oids rid).step t (if entered then .advance choice else .call op)
      = some (oid, event))
    : op.Outcome (oid.pc t) event := by
  cases entered with
  | false => exact LockedOid.call_outcome moved
  | true => exact LockedOid.advance_outcome (calls.inside rid op after here) moved

/-- A step on a word obeys the guarantee, provided nobody sees a record whose word it stores. -/
theorem Consistent.lock_guarantee (consistent : Consistent config state)
    (effect : (state.oids rid).Effect t oid event) (allocated : rid ∈ state.allocated)
    (unseen : event.isStore = true → state.Unseen rid)
    (older : ∀ rid ∈ state.returned, rid ∈ returned)
    (newer : ∀ rid ∈ returned, rid ∈ state.returned ∨ (state.pc t).allocating = some rid)
    (allocating : ∀ rid, pc.allocating = some rid → (state.pc t).allocating = some rid)
    : Guarantee state t (state.stepOid t rid oid returned pc) :=
  { Guarantee.refl state t with
    pc := fun _ different => goto_other _ different
    words := by
      intro other
      by_cases same : other = rid
      · subst same
        exact .inr ⟨allocated, event, (state.stepOid_self t other oid returned pc).symm ▸ effect⟩
      · exact .inl (stepOid_other same)
    places := by
      intro other
      by_cases same : other = rid
      · subst same
        cases isStore : event.isStore with
        | false =>
            refine .inl ?_
            rw [CacheState.place, stepOid_self]
            exact decode_congr (effect.payload_same isStore)
        | true =>
            cases event with
            | stored place =>
                exact .inr ⟨((consistent.safe other).store_current effect).1, unseen isStore⟩
            | _ => cases isStore
      · exact .inl (place_stepOid_other same)
    returned := older
    newReturned := newer
    allocating := by
      intro rid mine
      rw [stepOid_pc] at mine
      exact .inl (allocating rid mine) }

/-- A step on one word leaves every other record alone. -/
theorem CacheState.retains_stepOid (different : other ≠ rid)
    (older : ∀ rid ∈ state.returned, rid ∈ returned)
    : state.Retains t other (state.stepOid t rid oid returned pc) :=
  { Retains.refl state t other with
    guards := by
      intro kind held
      rw [stepOid_other different]
      exact held
    place := place_stepOid_other different
    returned := older other }

/-- A quiet step on a word leaves every record alone. -/
theorem CacheState.undisturbed_stepOid (allocating : Option Rid)
    (data : oid.data = (state.oids rid).data) (guards : oid.guards = (state.oids rid).guards)
    : state.Undisturbed t allocating (state.stepOid t rid oid state.returned pc) where
  retains := by
    intro other _
    by_cases same : other = rid
    · subst same
      exact
        { Retains.refl state t other with
          guards := by
            intro kind held
            rw [stepOid_self, guards]
            exact held
          place := by rw [CacheState.place, stepOid_self, data, CacheState.place] }
    · exact retains_stepOid same (fun _ old => old)
  allocated := fun _ old => old
  returned := fun _ old => old
  published := fun _ old => old
  unreturned := fun _ _ fresh => fresh

/-- Query values keep their guards through a step on a word that drops none they borrow. -/
theorem Consistent.views_stepOid (consistent : Consistent config state)
    (effect : (state.oids rid).Effect t oid event)
    (borrowed : (∃ kind, event = .dropped kind) → state.Unseen rid)
    : ∀ view ∈ (state.stepOid t rid oid returned pc).views,
        view ∈ state.views
        ∧ (state.stepOid t rid oid returned pc).Holds view.owner view.rid := by
  intro view live
  refine ⟨live, ?_⟩
  have held := (consistent.views view live).held
  by_cases same : view.rid = rid
  · rw [CacheState.Holds, same, stepOid_self]
    rw [CacheState.Holds, same] at held
    by_cases mine : view.owner = t
    · rw [mine] at held ⊢
      refine effect.keeps_holding (fun kind dropped => ?_) held
      exact borrowed ⟨kind, dropped⟩ view live same
    · obtain ⟨guard, member, owner⟩ := held
      exact ⟨guard, effect.other_guard (owner ▸ mine) member, owner⟩
  · rw [CacheState.Holds, stepOid_other same]
    exact held

theorem LockOp.returns_ne_pending {op : LockOp} (returns : op.Returns .pending) : False := by
  cases op <;> simp [LockOp.Returns] at returns

/-- One more step inside an operation. -/
theorem Consistent.lockPending {op : LockOp} {after : After} {entered choice : Bool}
    (consistent : Consistent config state) (here : state.pc t = .oid rid op after entered)
    (moved : (state.oids rid).step t (if entered then .advance choice else .call op)
      = some (oid, .pending))
    : Advance config state t (state.stepOid t rid oid state.returned (.oid rid op after true)) := by
  have known := consistent.sound t
  rw [here] at known
  have calls := consistent.calls t
  have effect := LockedOid.step_effect moved
  obtain ⟨data, guards⟩ := effect.quiet_same rfl
  have inside : op.Inside (oid.pc t) := by
    rcases calls.outcome here moved with ⟨_, inside⟩ | ⟨returns, _⟩
    · exact inside
    · exact (LockOp.returns_ne_pending returns).elim
  have guarantee
      : Guarantee state t (state.stepOid t rid oid state.returned (.oid rid op after true)) :=
    consistent.lock_guarantee effect (consistent.allocated_of_after known)
      (fun isStore => by cases isStore) (fun _ old => old) (fun _ old => .inl old)
      (fun _ mine => by rw [here, ← mine]; cases after <;> rfl)
  have quiet : state.Undisturbed t (Pc.oid rid op after true).allocating
      (state.stepOid t rid oid state.returned (.oid rid op after true)) :=
    undisturbed_stepOid _ data guards
  refine consistent.step_rule guarantee ?_ ?_ ?_ ?_
  · refine ⟨?_, ?_⟩
    · intro word otherOp otherAfter there
      rw [stepOid_pc] at there
      obtain ⟨rfl, rfl, _⟩ := Pc.oid.inj there
      rw [stepOid_self]
      exact inside
    · intro word away
      have different : word ≠ rid := by
        rintro rfl
        exact away op after (stepOid_pc ..)
      rw [stepOid_other different]
      exact calls.elsewhere here different
  · rw [stepOid_pc]
    exact After.Sound.undisturbed quiet known
  · refine consistent.directory.same guarantee.pc (place_setOid effect rfl) (fun _ => rfl) rfl ?_
    intro pair moving
    rw [here] at moving
    rw [stepOid_pc, ← moving]
    cases after <;> rfl
  · exact fun view live => .inl (consistent.views_stepOid effect
      (fun dropped => by obtain ⟨_, wrong⟩ := dropped; cases wrong) view live)

section Done

variable {op : LockOp} {after : After} {entered choice : Bool}

theorem acquires_returns (acquiring : acquires op = true) (returns : op.Returns event)
    : event.isStore = false ∧ ∀ kind, event ≠ .dropped kind := by
  cases op with
  | read | write =>
      obtain rfl := returns
      exact ⟨rfl, fun _ => by simp⟩
  | tryRead | tryWrite =>
      rcases returns with rfl | ⟨err, rfl⟩ <;> exact ⟨rfl, fun _ => by simp⟩
  | upgrade =>
      rcases returns with rfl | rfl <;> exact ⟨rfl, fun _ => by simp⟩
  | storeRid | storeIndex | dropRead | dropWrite => cases acquiring

omit [DecidableEq τ] in
/-- Nobody has a query value of a record whose word is stored or whose guard is dropped. -/
theorem After.Sound.unseen (consistent : Consistent config state)
    (sound : after.Sound config state t rid op) (returns : op.Returns event)
    (loud : event.isStore = true ∨ ∃ kind, event = .dropped kind)
    : state.Unseen rid := by
  cases after with
  | user =>
      obtain ⟨notStore, notDrop⟩ := acquires_returns sound.1 returns
      rcases loud with isStore | ⟨kind, dropped⟩
      · rw [notStore] at isStore
        cases isStore
      · exact absurd dropped (notDrop kind)
  | allocGuard val => exact consistent.unseen_of_unreturned sound.2.2
  | allocStored val => exact consistent.unseen_of_unreturned sound.2.2.1
  | tried job p index =>
      obtain ⟨rfl, _⟩ := sound
      rcases returns with rfl | ⟨err, rfl⟩ <;> simp [LockEvent.isStore] at loud
  | abandoned job p => exact sound.2.2.2.unseen
  | retired job index => exact sound.2.2.2.owns.unseen
  | placed job index evicted =>
      obtain ⟨_, rfl, searching, _⟩ := sound
      exact searching.sound.owns.unseen
  | released job index => exact sound.2.2.2.unseen

theorem After.returns_older (after : After) (rid : Rid) (returned : List Rid)
    : ∀ old ∈ returned, old ∈ after.returns rid returned := by
  intro old member
  cases after with
  | allocStored val => exact List.mem_cons_of_mem _ member
  | _ => exact member

theorem After.returns_newer {new : Rid} (member : new ∈ after.returns rid returned)
    : new ∈ returned ∨ (Pc.oid rid op after entered).allocating = some new := by
  cases after with
  | allocStored val =>
      rcases List.mem_cons.mp member with rfl | old
      · exact .inr rfl
      · exact .inl old
  | _ => exact .inl member

/-- A thread that returns from an operation is outside the lock machines, and allocates the
record it allocated before or none.
-/
theorem After.next_outside (op : LockOp) (entered : Bool)
    (control : after.next rid event = some pc)
    : pc.entered = false
      ∧ ∀ new, pc.allocating = some new → (Pc.oid rid op after entered).allocating = some new := by
  unfold After.next at control
  split at control <;> cases control
  · exact ⟨rfl, fun _ mine => by cases mine⟩
  · exact ⟨rfl, fun _ mine => mine⟩
  · exact ⟨rfl, fun _ mine => by cases mine⟩
  · exact ⟨rfl, fun _ mine => by cases mine⟩
  · exact ⟨rfl, fun _ mine => by cases mine⟩
  · exact ⟨rfl, fun _ mine => by cases mine⟩
  · exact ⟨rfl, fun _ mine => by cases mine⟩
  · next job index evicted _ =>
      obtain ⟨outside, _, notAllocating⟩ := job.finish_outside index evicted
      exact ⟨outside, fun _ mine => by rw [notAllocating] at mine; cases mine⟩
  · next job index _ =>
      obtain ⟨outside, _, notAllocating⟩ := job.conclude_outside index
      exact ⟨outside, fun _ mine => by rw [notAllocating] at mine; cases mine⟩

/-- The step rule for the end of an operation: what is left are the mover and the directory. -/
theorem Consistent.done_rule (consistent : Consistent config state)
    (here : state.pc t = .oid rid op after entered)
    (effect : (state.oids rid).Effect t oid event) (returns : op.Returns event)
    (resting : oid.pc t = .idle) (control : after.next rid event = some pc)
    (sound : pc.Sound config (state.stepOid t rid oid (after.returns rid state.returned) pc) t)
    (directory
      : Directory config (state.stepOid t rid oid (after.returns rid state.returned) pc))
    : Advance config state t (state.stepOid t rid oid (after.returns rid state.returned) pc) := by
  have known := consistent.sound t
  rw [here] at known
  have calls := consistent.calls t
  have unseen := After.Sound.unseen consistent known returns
  obtain ⟨outside, allocating⟩ := After.next_outside op entered control
  have guarantee
      : Guarantee state t (state.stepOid t rid oid (after.returns rid state.returned) pc) := by
    refine consistent.lock_guarantee effect (consistent.allocated_of_after known)
      (fun isStore => unseen (.inl isStore)) (after.returns_older rid state.returned) ?_ ?_
    · intro new member
      rw [here]
      exact After.returns_newer member
    · rw [here]
      exact allocating
  refine consistent.step_rule guarantee ?_ ?_ directory ?_
  · apply Calls.of_idle
    · rw [stepOid_pc]
      exact outside
    · intro word
      by_cases same : word = rid
      · subst same
        rw [stepOid_self]
        exact resting
      · rw [stepOid_other same]
        exact calls.elsewhere here same
  · rw [stepOid_pc]
    exact sound
  · exact fun view live =>
      .inl (consistent.views_stepOid effect (fun dropped => unseen (.inr dropped)) view live)

/-- An operation that stores nothing leaves the directory as it is. -/
theorem Consistent.directory_quiet (consistent : Consistent config state)
    (effect : (state.oids rid).Effect t oid event) (notStore : event.isStore = false)
    (still : (state.pc t).transit = none)
    : Directory config (state.stepOid t rid oid state.returned pc) := by
  exact consistent.directory.same (fun _ different => goto_other _ different)
    (place_setOid effect notStore) (fun _ => rfl) rfl (by simp [still])

/-- After a store the word says what was stored, and its writer still has the guard. -/
theorem Consistent.stored {place : Place} (consistent : Consistent config state)
    (effect : (state.oids rid).Effect t oid (.stored place))
    : (state.stepOid t rid oid returned pc).place rid = place
      ∧ (state.stepOid t rid oid returned pc).Writes t rid := by
  have safe := consistent.safe rid
  obtain ⟨writes, guards, _⟩ := safe.store_current effect
  rw [CacheState.place, CacheState.Writes, stepOid_self, guards]
  exact ⟨safe.decode_store effect (consistent.middle rid), writes⟩

/-- `alloc_rid` returns: the word says its own rid. -/
theorem Consistent.allocStored {val : Image Byte} (consistent : Consistent config state)
    (here : state.pc t = .oid rid op (.allocStored val) entered)
    (effect : (state.oids rid).Effect t oid (.stored (.rid rid)))
    : Pc.Sound config (state.stepOid t rid oid (rid :: state.returned) (.insertIsRid rid val)) t
        (.insertIsRid rid val)
      ∧ Directory config
          (state.stepOid t rid oid (rid :: state.returned) (.insertIsRid rid val)) := by
  have known := consistent.sound t
  rw [here] at known
  obtain ⟨_, allocated, fresh, _⟩ := known
  obtain ⟨place, writes⟩
      : (state.stepOid t rid oid (rid :: state.returned) (.insertIsRid rid val)).place rid
          = .rid rid
        ∧ (state.stepOid t rid oid (rid :: state.returned) (.insertIsRid rid val)).Writes t rid :=
    consistent.stored effect
  refine ⟨⟨⟨List.mem_cons_self, writes, consistent.unseen_of_unreturned fresh⟩,
    fun member => fresh (consistent.published rid member), place⟩, ?_⟩
  exact
    { cached := by
        intro word slot said
        by_cases same : word = rid
        · subst same
          exact absurd (place.symm.trans said) (by simp)
        · rw [place_stepOid_other same] at said
          obtain ⟨member, rest⟩ := consistent.directory.cached word slot said
          exact ⟨List.mem_cons_of_mem _ member, rest⟩
      uncached := by
        intro word member said there
        rcases List.mem_cons.mp member with rfl | old
        · exact (Place.rid.inj (place.symm.trans there)).symm
        · have other : word ≠ rid := fun same => fresh (same ▸ old)
          rw [place_stepOid_other other] at there
          exact consistent.directory.uncached word old said there
      slots := by
        intro slot taken
        obtain ⟨member, placed⟩ := consistent.directory.slots slot taken
        have other : (state.entries slot).rid ≠ rid := fun same => fresh (same ▸ member)
        refine ⟨List.mem_cons_of_mem _ member, placed.imp ?_ ?_⟩
        · exact fun said => (place_stepOid_other other).trans said
        · rintro ⟨thread, moving⟩
          exact ⟨thread, transit_kept (fun _ different => stepOid_pc_other different)
            (by rw [here]; rfl) moving⟩ }

/-- The victim's word has given up the index: the pair is in transit. -/
theorem Consistent.retired {job : Probe} {index : Word} (consistent : Consistent config state)
    (here : state.pc t = .oid rid op (.retired job index) entered)
    (effect : (state.oids rid).Effect t oid (.stored (.rid rid)))
    : Pc.Sound config (state.stepOid t rid oid state.returned (.probeReplace job index rid)) t
        (.probeReplace job index rid)
      ∧ Directory config
          (state.stepOid t rid oid state.returned (.probeReplace job index rid)) := by
  have known := consistent.sound t
  rw [here] at known
  obtain ⟨_, searching, small, victim⟩ := known
  obtain ⟨place, writes⟩
      : (state.stepOid t rid oid state.returned (.probeReplace job index rid)).place rid
          = .rid rid
        ∧ (state.stepOid t rid oid state.returned (.probeReplace job index rid)).Writes t rid :=
    consistent.stored effect
  have kept : state.Retains t job.oid
      (state.stepOid t rid oid state.returned (.probeReplace job index rid)) :=
    retains_stepOid victim.other.symm (fun _ old => old)
  refine ⟨⟨searching.keep kept.toKeeps, small,
    ⟨victim.other, ⟨victim.owns.returned, writes, victim.owns.unseen⟩, victim.slot⟩, place⟩, ?_⟩
  exact
    { cached := by
        intro word slot said
        by_cases same : word = rid
        · subst same
          exact absurd (place.symm.trans said) (by simp)
        · rw [place_stepOid_other same] at said
          exact consistent.directory.cached word slot said
      uncached := by
        intro word member said there
        by_cases same : word = rid
        · subst same
          exact (Place.rid.inj (place.symm.trans there)).symm
        · rw [place_stepOid_other same] at there
          exact consistent.directory.uncached word member said there
      slots := by
        intro slot taken
        obtain ⟨member, placed⟩ := consistent.directory.slots slot taken
        refine ⟨member, ?_⟩
        by_cases same : (state.entries slot).rid = rid
        · obtain rfl := consistent.slot_unique same victim.slot (same ▸ taken)
          refine .inr ⟨t, ?_⟩
          rw [stepOid_pc]
          exact congrArg (fun rid => some (slot, rid)) victim.slot.symm
        · refine placed.imp (fun said => (place_stepOid_other same).trans said) ?_
          rintro ⟨thread, moving⟩
          exact ⟨thread, transit_kept (fun _ different => stepOid_pc_other different)
            (by rw [here]; rfl) moving⟩ }

/-- The word of the record points to its entry: the pair is no longer in transit. -/
theorem Consistent.placed {job : Probe} {index : Word} {evicted : Option Evicted}
    (consistent : Consistent config state)
    (here : state.pc t = .oid rid op (.placed job index evicted) entered)
    (effect : (state.oids rid).Effect t oid (.stored (.cached index)))
    : Pc.Sound config (state.stepOid t rid oid state.returned (job.finish index evicted)) t
        (job.finish index evicted)
      ∧ Directory config
          (state.stepOid t rid oid state.returned (job.finish index evicted)) := by
  have known := consistent.sound t
  rw [here] at known
  obtain ⟨_, rfl, searching, small, slot, val, old⟩ := known
  have owns := searching.sound.owns
  obtain ⟨place, writes⟩
      : (state.stepOid t job.oid oid state.returned (job.finish index evicted)).place job.oid
          = .cached index
        ∧ (state.stepOid t job.oid oid state.returned (job.finish index evicted)).Writes t
          job.oid :=
    consistent.stored effect
  constructor
  · apply Probe.Placed.finish_sound
    · exact
        { sound := ⟨⟨owns.returned, writes, owns.unseen⟩, searching.sound.rid,
            searching.sound.nodeRid, searching.sound.loaded⟩
          place
          slot
          val }
    · intro node member
      have sound := old node member
      have kept : state.Retains t node.oid
          (state.stepOid t job.oid oid state.returned (job.finish index evicted)) :=
        retains_stepOid sound.other (fun _ old => old)
      exact sound.keep kept.toKeeps
  · exact
      { cached := by
          intro word other said
          by_cases same : word = job.oid
          · subst same
            obtain rfl := Place.cached.inj (place.symm.trans said)
            exact ⟨owns.returned, small, slot⟩
          · rw [place_stepOid_other same] at said
            exact consistent.directory.cached word other said
        uncached := by
          intro word member said there
          by_cases same : word = job.oid
          · subst same
            exact absurd (place.symm.trans there) (by simp)
          · rw [place_stepOid_other same] at there
            exact consistent.directory.uncached word member said there
        slots := by
          intro other taken
          obtain ⟨member, placed⟩ := consistent.directory.slots other taken
          refine ⟨member, ?_⟩
          by_cases same : (state.entries other).rid = job.oid
          · obtain rfl := consistent.slot_unique same slot (same ▸ taken)
            exact .inl ((congrArg (CacheState.place _) same).trans place)
          · refine placed.imp (fun said => (place_stepOid_other same).trans said) ?_
            rintro ⟨thread, moving⟩
            refine ⟨thread, ?_⟩
            have different : thread ≠ t := by
              rintro rfl
              rw [here] at moving
              exact same (Prod.mk.inj (Option.some.inj moving)).2.symm
            exact (congrArg Pc.transit (stepOid_pc_other different)).trans moving }

/-- The victim is locked: no guard was alive on it, so no query value refers to it. -/
theorem Consistent.granted {job : Probe} {p : Nat} {index : Word}
    (consistent : Consistent config state)
    (here : state.pc t = .oid rid op (.tried job p index) entered)
    (effect : (state.oids rid).Effect t oid (.granted .write))
    : Pc.Sound config (state.stepOid t rid oid state.returned (.probeValidate job p index rid)) t
        (.probeValidate job p index rid) := by
  have known := consistent.sound t
  rw [here] at known
  obtain ⟨_, searching, small, returned⟩ := known
  obtain ⟨nobody, mine⟩ := (consistent.safe rid).granted_write effect
  have other : rid ≠ job.oid := by
    rintro rfl
    have writes := searching.sound.owns.writes
    rw [CacheState.Writes, nobody] at writes
    exact List.not_mem_nil writes
  have kept : state.Retains t job.oid
      (state.stepOid t rid oid state.returned (.probeValidate job p index rid)) :=
    retains_stepOid other.symm (fun _ old => old)
  refine ⟨searching.keep kept.toKeeps, small, other, returned, ?_, ?_⟩
  · rw [CacheState.Writes, stepOid_self, mine]
    exact List.mem_singleton_self _
  · intro view live same
    obtain ⟨guard, member, _⟩ := (consistent.views view live).held
    rw [same, nobody] at member
    exact List.not_mem_nil member

/-- The end of an operation on a word, by cases on what it was for. -/
theorem Consistent.lockDone (consistent : Consistent config state)
    (here : state.pc t = .oid rid op after entered)
    (moved : (state.oids rid).step t (if entered then .advance choice else .call op)
      = some (oid, event))
    (done : event ≠ .pending) (control : after.next rid event = some pc)
    : Advance config state t (state.stepOid t rid oid (after.returns rid state.returned) pc) := by
  have known := consistent.sound t
  rw [here] at known
  have effect := LockedOid.step_effect moved
  obtain ⟨returns, resting⟩ : op.Returns event ∧ oid.pc t = .idle :=
    ((consistent.calls t).outcome here moved).resolve_left (fun pending => done pending.1)
  have finish := consistent.done_rule here effect returns resting control
  have quiet
      : event.isStore = false → (state.pc t).transit = none
        → Directory config (state.stepOid t rid oid state.returned pc) :=
    consistent.directory_quiet effect
  cases after with
  | user =>
      obtain rfl := Option.some.inj control
      exact finish trivial
        (quiet (acquires_returns known.1 returns).1 (by rw [here]; rfl))
  | allocGuard val =>
      obtain ⟨rfl, allocated, fresh⟩ := known
      obtain rfl := returns
      obtain rfl := Option.some.inj control
      refine finish ⟨rfl, allocated, fresh, ?_⟩ (quiet rfl (by rw [here]; rfl))
      rw [CacheState.Writes, stepOid_self, ((consistent.safe rid).granted_write effect).2]
      exact List.mem_singleton_self _
  | allocStored val =>
      obtain ⟨rfl, _⟩ := known
      obtain rfl := returns
      obtain rfl := Option.some.inj control
      obtain ⟨sound, directory⟩ := consistent.allocStored here effect
      exact finish sound directory
  | tried job p index =>
      have searching := known.2.1
      obtain ⟨rfl, _⟩ := known
      rcases returns with rfl | ⟨err, rfl⟩ <;> obtain rfl := Option.some.inj control
      · exact finish (consistent.granted here effect) (quiet rfl (by rw [here]; rfl))
      · obtain ⟨data, guards⟩ := effect.quiet_same rfl
        have kept : state.Undisturbed t none
            (state.stepOid t rid oid state.returned (.probing job (p + 1))) :=
          undisturbed_stepOid none data guards
        exact finish (searching.keep (kept.retains _ searching.holds).toKeeps)
          (quiet rfl (by rw [here]; rfl))
  | abandoned job p =>
      obtain ⟨rfl, searching, other, _⟩ := known
      obtain rfl := returns
      obtain rfl := Option.some.inj control
      have kept : state.Retains t job.oid
          (state.stepOid t rid oid state.returned (.probing job (p + 1))) :=
        retains_stepOid other.symm (fun _ old => old)
      exact finish (searching.keep kept.toKeeps) (quiet rfl (by rw [here]; rfl))
  | retired job index =>
      obtain ⟨rfl, _⟩ := known
      obtain rfl := returns
      obtain rfl := Option.some.inj control
      obtain ⟨sound, directory⟩ := consistent.retired here effect
      exact finish sound directory
  | placed job index evicted =>
      obtain ⟨rfl, _⟩ := known
      obtain rfl := returns
      obtain rfl := Option.some.inj control
      obtain ⟨sound, directory⟩ := consistent.placed here effect
      exact finish sound directory
  | released job index =>
      obtain ⟨rfl, placed, other, _⟩ := known
      obtain rfl := returns
      obtain rfl := Option.some.inj control
      have kept : state.Retains t job.oid
          (state.stepOid t rid oid state.returned (job.conclude index)) :=
        retains_stepOid other.symm (fun _ old => old)
      exact finish (placed.retain kept).conclude_sound (quiet rfl (by rw [here]; rfl))

omit [DecidableEq τ] in
theorem dropOp_returns {kind : GuardKind} (outcome : (dropOp kind).Outcome (oid.pc t) event)
    : event = .dropped kind ∧ oid.pc t = .idle := by
  rcases outcome with ⟨_, inside⟩ | ⟨returns, resting⟩
  · cases kind <;> exact inside.elim
  · exact ⟨by cases kind <;> exact returns, resting⟩

/-- Dropping a guard ends the borrows of it, unless its thread has another one. -/
theorem Consistent.drop {kind : GuardKind} (consistent : Consistent config state)
    (here : state.pc t = .idle)
    (dropped : (state.oids rid).step t (.call (dropOp kind)) = some (oid, event))
    : Advance config state t
        { state.setOid rid oid with
          views :=
            if ∃ guard ∈ oid.guards, guard.owner = t then state.views
            else state.viewsWithout t rid } := by
  have effect := LockedOid.step_effect dropped
  obtain ⟨rfl, resting⟩ := dropOp_returns (LockedOid.call_outcome dropped)
  have held : state.Holds t rid := by
    cases effect with
    | quiet isQuiet => cases isQuiet
    | dropRead _ held | dropWrite _ held => exact ⟨_, held, rfl⟩
  have place := place_setOid effect rfl
  have older {view : View τ}
      (live : view ∈ (if ∃ guard ∈ oid.guards, guard.owner = t then state.views
        else state.viewsWithout t rid))
      : view ∈ state.views
        ∧ (view.owner = t → view.rid = rid → ∃ guard ∈ oid.guards, guard.owner = t) := by
    split at live
    · next another => exact ⟨live, fun _ _ => another⟩
    · obtain ⟨old, kept⟩ := List.mem_filter.mp live
      exact ⟨old, fun mine same => by simp [mine, same] at kept⟩
  have guarantee : Guarantee state t
      { state.setOid rid oid with
        views :=
          if ∃ guard ∈ oid.guards, guard.owner = t then state.views
          else state.viewsWithout t rid } :=
    { Guarantee.refl state t with
      words := by
        intro word
        by_cases same : word = rid
        · subst same
          exact .inr ⟨consistent.allocated_of_holds held, _,
            (state.setOid_self word oid).symm ▸ effect⟩
        · exact .inl (setOid_other same)
      places := fun word => .inl (place word)
      views := fun view live => .inl (older live).1 }
  refine consistent.step_rule guarantee ?_ ?_ ?_ ?_
  · apply Calls.of_idle
    · change (state.pc t).entered = false
      rw [here]
      rfl
    · intro word
      by_cases same : word = rid
      · subst same
        exact (congrArg (fun oid : LockedOid τ => oid.pc t) (state.setOid_self word oid)).trans
          resting
      · exact (congrArg (fun oid : LockedOid τ => oid.pc t) (setOid_other same)).trans
          ((consistent.calls t).idle (by rw [here]; rfl) word)
  · change (state.pc t).Sound config _ t
    rw [here]
    trivial
  · exact consistent.directory.same guarantee.pc place (fun _ => rfl) rfl
      (fun _ moving => moving)
  · intro view live
    obtain ⟨old, borrowed⟩ := older live
    refine .inl ⟨old, ?_⟩
    obtain ⟨guard, member, owner⟩ := (consistent.views view old).held
    by_cases same : view.rid = rid
    · change ∃ guard ∈ ((state.setOid rid oid).oids view.rid).guards, guard.owner = view.owner
      rw [same, setOid_self]
      by_cases mine : view.owner = t
      · rw [mine]
        exact borrowed mine same
      · rw [same] at member
        exact ⟨guard, effect.other_guard (owner ▸ mine) member, owner⟩
    · change ∃ guard ∈ ((state.setOid rid oid).oids view.rid).guards, guard.owner = view.owner
      rw [setOid_other same]
      exact ⟨guard, member, owner⟩

end Done

end Alchemy.Cache
