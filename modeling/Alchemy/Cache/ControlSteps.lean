import Alchemy.Cache.Consistency

/-! Steps that read shared memory, change reference bits, or return a query value keep the
cache consistent: they move nothing that another thread relies on.
-/

namespace Alchemy.Cache

open Oid ByteImage CacheState

variable {τ : Type} {config : CacheConfig} {state next : CacheState τ} {t : τ}

@[simp]
theorem CacheState.setEntry_self (state : CacheState τ) (index : Word) (node : ClockNode)
    : (state.setEntry index node).entries index = node := by
  simp [CacheState.setEntry]

theorem CacheState.setEntry_other {index slot : Word} (node : ClockNode)
    (different : slot ≠ index)
    : (state.setEntry index node).entries slot = state.entries slot := by
  simp [CacheState.setEntry, different]

/-- Changing reference bits leaves the rids and the values of all entries alone. -/
theorem CacheState.setEntry_nodeMeta (state : CacheState τ) (index : Word) (nodeMeta : NodeMeta)
    (slot : Word)
    : ((state.setEntry index { state.entries index with nodeMeta }).entries slot).rid
        = (state.entries slot).rid
      ∧ ((state.setEntry index { state.entries index with nodeMeta }).entries slot).val
        = (state.entries slot).val := by
  by_cases same : slot = index
  · subst same
    simp
  · rw [setEntry_other _ same]
    exact ⟨rfl, rfl⟩

@[simp]
theorem CacheState.setTuple_self (state : CacheState τ) (rid : Rid) (image : Image Byte)
    : (state.setTuple rid image).storage rid = image := by
  simp [CacheState.setTuple]

theorem CacheState.setTuple_other {rid other : Rid} {image : Image Byte} (different : other ≠ rid)
    : (state.setTuple rid image).storage other = state.storage other := by
  simp [CacheState.setTuple, different]

theorem CacheState.Calls.idle (calls : state.Calls t) (outside : (state.pc t).entered = false)
    (rid : Rid)
    : (state.oids rid).pc t = .idle := by
  apply calls.resting rid
  intro op after here
  rw [here] at outside
  cases outside

theorem CacheState.Calls.of_idle (outside : (state.pc t).entered = false)
    (idle : ∀ rid, (state.oids rid).pc t = .idle)
    : state.Calls t := by
  refine ⟨?_, fun rid _ => idle rid⟩
  intro rid op after here
  rw [here] at outside
  cases outside

/-- The step rule for a step that moves no lock machine and leaves the query values alone. -/
theorem Consistent.local_rule [DecidableEq τ] (consistent : Consistent config state)
    (guarantee : Guarantee state t next) (oids : next.oids = state.oids)
    (views : next.views = state.views) (before : (state.pc t).entered = false)
    (after : (next.pc t).entered = false) (sound : (next.pc t).Sound config next t)
    (directory : Directory config next)
    : Advance config state t next := by
  refine consistent.step_rule guarantee ?_ sound directory ?_
  · apply Calls.of_idle after
    intro rid
    rw [oids]
    exact (consistent.calls t).idle before rid
  · intro view live
    rw [views] at live
    refine .inl ⟨live, ?_⟩
    rw [CacheState.Holds, oids]
    exact (consistent.views view live).held

/-- The word of a returned record that carries no index says its own rid. -/
theorem Consistent.place_of_isRid (consistent : Consistent config state) {rid : Rid}
    (published : rid ∈ state.published) (flag : isCached (state.oids rid).data = false)
    : state.place rid = .rid rid := by
  have said : state.place rid = .rid (toRid (state.oids rid).data) :=
    decode_eq_rid.mpr ⟨by rw [isRid, flag]; rfl, rfl⟩
  rw [said, consistent.directory.uncached rid (consistent.published rid published) _ said]

section Think

variable {pc after : Pc}

theorem Think.outside (link : Think config state t pc after)
    : pc.entered = false ∧ after.entered = false ∧ pc.transit = none
      ∧ after.allocating = none := by
  cases link <;> exact ⟨rfl, rfl, rfl, rfl⟩

/-- Reading on, a thread learns what the next program point requires. -/
theorem Think.sound (consistent : Consistent config state)
    (link : Think config state t pc after) (known : pc.Sound config state t)
    : after.Sound config state t := by
  cases link with
  | startRead published held declared => exact ⟨published, held, fun no => by cases no⟩
  | startLock published acquiring => exact ⟨acquiring, published⟩
  | isRid clear => exact known
  | toRid loaded =>
      obtain ⟨owns, unpublished, place⟩ := known
      obtain rfl := loaded.trans (decode_eq_rid.mp place).2
      exact ⟨⟨owns, rfl, rfl, unpublished, rfl⟩, place⟩
  | hit flag => exact ⟨known.1, known.2.1, _, decode_eq_cached.mpr ⟨flag, rfl⟩⟩
  | miss flag =>
      exact ⟨known.1, known.2.1, known.2.2, consistent.place_of_isRid known.1 flag⟩
  | index =>
      obtain ⟨published, held, index, place⟩ := known
      refine ⟨published, held, ?_⟩
      rw [(decode_eq_cached.mp place).2]
      exact place
  | promote => exact ⟨known.1, known.2.2.1 rfl, known.2.2.2⟩
  | copy =>
      obtain ⟨published, owns, place⟩ := known
      exact ⟨published, owns, place, (decode_eq_rid.mp place).2⟩
  | probe =>
      obtain ⟨published, owns, place, rfl⟩ := known
      exact ⟨⟨owns, rfl, rfl, published, rfl⟩, place⟩
  | vacant small => exact ⟨known, small⟩
  | occupied small taken =>
      exact ⟨known, small, (consistent.directory.slots _ taken).1⟩
  | @exhausted job p val caller =>
      have loaded := known.sound.loaded
      rw [Probe.Loaded, caller] at loaded
      refine ⟨known.sound.owns, loaded.1, ?_⟩
      intro index place
      exact absurd (known.place.symm.trans place) (by simp)
  | lost => exact known.1
  | refed => exact known.1
  | attempt => exact ⟨rfl, known.1, known.2.1, known.2.2⟩
  | validated same =>
      obtain ⟨searching, small, other, owns⟩ := known
      exact ⟨searching, small, other, owns, same⟩
  | changed => exact ⟨rfl, known.1, known.2.2.1, known.2.2.2⟩
  | retire =>
      obtain ⟨searching, small, victim⟩ := known
      exact ⟨congrArg LockOp.storeRid victim.slot, searching, small, victim⟩

/-- Moving on disturbs nobody, the mover included. -/
theorem CacheState.undisturbed_goto [DecidableEq τ] (state : CacheState τ) (t : τ)
    (hand : τ → Nat) (pc : Pc) (allocating : Option Rid)
    : state.Undisturbed t allocating ({ state with hand }.goto t pc) where
  retains := fun rid _ => { Retains.refl state t rid with }
  allocated := fun _ old => old
  returned := fun _ old => old
  published := fun _ old => old
  unreturned := fun _ _ fresh => fresh

theorem Consistent.think [DecidableEq τ] {hand : τ → Nat} (consistent : Consistent config state)
    (link : Think config state t (state.pc t) pc)
    : Advance config state t ({ state with hand }.goto t pc) := by
  obtain ⟨before, after, still, notAllocating⟩ := link.outside
  have guarantee : Guarantee state t ({ state with hand }.goto t pc) :=
    { Guarantee.goto state t pc notAllocating with }
  refine consistent.local_rule guarantee rfl rfl before (by rw [goto_pc]; exact after) ?_ ?_
  · rw [goto_pc]
    exact (link.sound consistent (consistent.sound t)).undisturbed
      (state.undisturbed_goto t hand pc _)
  · exact consistent.directory.same guarantee.pc (fun _ => rfl) (fun _ => rfl) rfl
      (by simp [still])

end Think

section Callers

variable {job : Probe} {index : Word}

/-- A caller whose node is placed can go on with the end of its call. -/
theorem Probe.Placed.conclude_sound (placed : job.Placed config state t index)
    : (job.conclude index).Sound config state t := by
  have loaded := placed.sound.loaded
  cases caller : job.caller with
  | insert val =>
      rw [Probe.Loaded, caller] at loaded
      rw [Probe.conclude, caller]
      refine ⟨placed.sound.owns, loaded.1, ?_⟩
      intro other place
      obtain rfl := Place.cached.inj (place.symm.trans placed.place)
      exact ⟨placed.slot, placed.val.trans loaded.2⟩
  | promote query =>
      rw [Probe.Loaded, caller] at loaded
      rw [Probe.conclude, caller]
      exact ⟨loaded.1, placed.holds, placed.place⟩

theorem Probe.Placed.settle_sound {evicted : Option Evicted}
    (placed : job.Placed config state t index)
    (old : ∀ node ∈ evicted, node.Sound state t job)
    : (job.settle index evicted).Sound config state t := by
  cases evicted with
  | none => exact placed.conclude_sound
  | some node => exact ⟨placed, old node rfl⟩

theorem Probe.Placed.finish_sound {evicted : Option Evicted}
    (placed : job.Placed config state t index)
    (old : ∀ node ∈ evicted, node.Sound state t job)
    : (job.finish index evicted).Sound config state t := by
  unfold Probe.finish
  cases job.caller with
  | insert val => exact placed.settle_sound old
  | promote query => exact ⟨placed, old⟩

theorem Probe.conclude_outside (job : Probe) (index : Word)
    : (job.conclude index).entered = false ∧ (job.conclude index).transit = none
      ∧ (job.conclude index).allocating = none := by
  unfold Probe.conclude
  cases job.caller <;> exact ⟨rfl, rfl, rfl⟩

theorem Probe.settle_outside (job : Probe) (index : Word) (evicted : Option Evicted)
    : (job.settle index evicted).entered = false ∧ (job.settle index evicted).transit = none
      ∧ (job.settle index evicted).allocating = none := by
  cases evicted with
  | none => exact job.conclude_outside index
  | some node => exact ⟨rfl, rfl, rfl⟩

theorem Probe.finish_outside (job : Probe) (index : Word) (evicted : Option Evicted)
    : (job.finish index evicted).entered = false ∧ (job.finish index evicted).transit = none
      ∧ (job.finish index evicted).allocating = none := by
  unfold Probe.finish
  cases job.caller with
  | insert val => exact job.settle_outside index evicted
  | promote query => exact ⟨rfl, rfl, rfl⟩

end Callers

section Tint

variable {pc after : Pc} {index : Word}

theorem Tint.outside (link : Tint pc index after)
    : pc.entered = false ∧ after.entered = false ∧ pc.transit = none
      ∧ after.allocating = none := by
  cases link with
  | read | clear => exact ⟨rfl, rfl, rfl, rfl⟩
  | @promote job _ evicted =>
      obtain ⟨outside, _, notAllocating⟩ := job.settle_outside index evicted
      exact ⟨rfl, outside, rfl, notAllocating⟩

theorem Tint.sound (link : Tint pc index after) (known : pc.Sound config state t)
    : after.Sound config state t := by
  cases link with
  | read => exact known
  | promote => exact known.1.settle_sound known.2
  | clear => exact known

theorem Consistent.tint [DecidableEq τ] {nodeMeta : NodeMeta}
    (consistent : Consistent config state)
    (link : Tint (state.pc t) index pc)
    : Advance config state t
        ((state.setEntry index { state.entries index with nodeMeta }).goto t pc) := by
  obtain ⟨before, after, still, notAllocating⟩ := link.outside
  have same := state.setEntry_nodeMeta index nodeMeta
  have guarantee : Guarantee state t
      ((state.setEntry index { state.entries index with nodeMeta }).goto t pc) :=
    { Guarantee.goto state t pc notAllocating with
      entries := fun slot => .inl (same slot) }
  have quiet : state.Undisturbed t pc.allocating
      ((state.setEntry index { state.entries index with nodeMeta }).goto t pc) :=
    { retains := fun rid _ =>
        { Retains.refl state t rid with
          entries := fun slot here => ⟨(same slot).1.trans here, (same slot).2⟩ }
      allocated := fun _ old => old
      returned := fun _ old => old
      published := fun _ old => old
      unreturned := fun _ _ fresh => fresh }
  refine consistent.local_rule guarantee rfl rfl before (by rw [goto_pc]; exact after) ?_ ?_
  · rw [goto_pc]
    exact (link.sound (consistent.sound t)).undisturbed quiet
  · exact consistent.directory.same guarantee.pc (fun _ => rfl) (fun slot => (same slot).1) rfl
      (by simp [still])

end Tint

section Seen

variable {pc : Pc} {rid : Rid} {query : List Field} {value : QueryValue}

/-- A query value that a call returns refers to where its record is. -/
theorem Seen.sound (consistent : Consistent config state)
    (link : Seen config state pc rid query value) (known : pc.Sound config state t)
    : View.Sound config state ⟨t, rid, query, value⟩ := by
  have missed (published : rid ∈ state.published) (held : state.Holds t rid)
      (place : state.place rid = .rid rid)
      : View.Sound config state ⟨t, rid, query, ⟨none, some rid⟩⟩ :=
    { published
      held
      hit := fun index here => by cases here
      miss := fun _ => ⟨place, rfl⟩
      tuple := fun other here => (Option.some.inj here).symm
      matched := fun here => by cases here }
  cases link with
  | full matched =>
      obtain ⟨published, held, place⟩ := known
      exact
        { published
          held
          hit := fun index here => Option.some.inj here ▸ place
          miss := fun here => by cases here
          tuple := fun other here => by cases here
          matched := fun _ => matched }
  | part =>
      obtain ⟨published, held, place⟩ := known
      exact
        { published
          held
          hit := fun index here => Option.some.inj here ▸ place
          miss := fun here => by cases here
          tuple := fun other here =>
            (Option.some.inj here).symm.trans (consistent.directory.cached _ _ place).2.2
          matched := fun here => by cases here }
  | missed =>
      obtain ⟨published, held, _, place⟩ := known
      rw [(decode_eq_rid.mp place).2]
      exact missed published held place
  | unprobed =>
      obtain ⟨published, owns, place⟩ := known
      rw [(decode_eq_rid.mp place).2]
      exact missed published owns.holds place
  | declined =>
      obtain ⟨published, owns, place, rfl⟩ := known
      exact missed published owns.holds place
  | @exhausted job p _ caller =>
      have loaded := known.sound.loaded
      rw [Probe.Loaded, caller] at loaded
      rw [known.sound.rid]
      exact missed loaded.1 known.holds known.place

theorem Seen.outside (link : Seen config state pc rid query value)
    : pc.entered = false ∧ pc.transit = none := by
  cases link <;> exact ⟨rfl, rfl⟩

theorem Consistent.seen [DecidableEq τ] (consistent : Consistent config state)
    (link : Seen config state (state.pc t) rid query value)
    : Advance config state t (state.view t rid query value).1 := by
  obtain ⟨before, still⟩ := link.outside
  have sound := link.sound consistent (consistent.sound t)
  have guarantee : Guarantee state t (state.view t rid query value).1 :=
    { Guarantee.goto state t .idle rfl with
      views := by
        intro view live
        rcases List.mem_cons.mp live with rfl | old
        · exact .inr ⟨rfl, sound.held⟩
        · exact .inl old }
  refine consistent.step_rule guarantee ?_ ?_ ?_ ?_
  · apply Calls.of_idle
    · rw [CacheState.view, goto_pc]
      rfl
    · exact (consistent.calls t).idle before
  · rw [CacheState.view, goto_pc]
    trivial
  · exact consistent.directory.same guarantee.pc (fun _ => rfl) (fun _ => rfl) rfl
      (by simp [still])
  · intro view live
    rcases List.mem_cons.mp live with rfl | old
    · exact .inr ⟨sound.published, sound.held, sound.hit, sound.miss, sound.tuple, sound.matched⟩
    · exact .inl ⟨old, (consistent.views view old).held⟩

end Seen

end Alchemy.Cache
