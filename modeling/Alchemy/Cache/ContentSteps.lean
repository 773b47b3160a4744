import Alchemy.Cache.Contents

/-! Every step leaves the records as the plain table has them.
Most steps move no bytes. Promotion, eviction and write back move the bytes of one record
between its entry, the evicting thread and its tuple; the lens laws say that nothing is lost
on the way. Only `insert` and writes through a query value change a record.
-/

namespace Alchemy.Cache

open Oid ByteImage CacheState

variable {τ : Type} {config : CacheConfig} {state next : CacheState τ} {t : τ}
  {record : Rid → Image Byte} {job : Probe} {index : Word}

/-- Every published record has the bytes of `record`. -/
def Contents (config : CacheConfig) (state : CacheState τ) (record : Rid → Image Byte) : Prop :=
  ∀ rid ∈ state.published, Content config state rid (record rid)

section Victims

variable {before after : Pc} {entries : Word → ClockNode}

theorem Probe.conclude_victim (job : Probe) (index : Word)
    : (job.conclude index).victim entries = none := by
  unfold Probe.conclude
  split <;> rfl

theorem Probe.settle_victim (job : Probe) (index : Word) (evicted : Option Evicted)
    : (job.settle index evicted).victim entries
      = evicted.map (fun old => (old.oid, old.node.val)) := by
  cases evicted with
  | none => exact job.conclude_victim index
  | some old => rfl

theorem Pc.probeSetRef_victim (evicted : Option Evicted)
    : (Pc.probeSetRef job index evicted).victim entries
      = evicted.map (fun old => (old.oid, old.node.val)) := by
  cases evicted <;> rfl

theorem Pc.placed_victim {rid : Rid} {op : LockOp} {entered : Bool} (evicted : Option Evicted)
    : (Pc.oid rid op (.placed job index evicted) entered).victim entries
      = evicted.map (fun old => (old.oid, old.node.val)) := by
  cases evicted <;> rfl

theorem Probe.finish_victim (job : Probe) (index : Word) (evicted : Option Evicted)
    : (job.finish index evicted).victim entries
      = evicted.map (fun old => (old.oid, old.node.val)) := by
  unfold Probe.finish
  split
  · exact job.settle_victim index evicted
  · exact Pc.probeSetRef_victim evicted

theorem Think.no_victim [DecidableEq τ] (link : Think config state t before after)
    : before.victim entries = none ∧ after.victim entries = none := by
  cases link <;> exact ⟨rfl, rfl⟩

theorem Tint.victim {changed : Word → ClockNode} (link : Tint before index after)
    : after.victim changed = before.victim entries := by
  cases link with
  | read | clear => rfl
  | promote => rw [Probe.settle_victim, Pc.probeSetRef_victim]

theorem Seen.no_victim {rid : Rid} {query : List Field} {value : QueryValue}
    (link : Seen config state before rid query value)
    : before.victim entries = none := by
  cases link <;> rfl

end Victims

theorem CacheState.store_pc (state : CacheState τ) (bytes : List Byte) (location : Location)
    : (state.store bytes location).pc = state.pc := by
  cases location <;> rfl

theorem CacheState.store_published (state : CacheState τ) (bytes : List Byte)
    (location : Location)
    : (state.store bytes location).published = state.published := by
  cases location <;> rfl

variable [DecidableEq τ]

/-- A step that moves no published record and writes none keeps the contents. -/
theorem Contents.quiet (contents : Contents config state record)
    (consistent : Consistent config state) (guarantee : Guarantee state t next)
    (published : next.published = state.published)
    (places : ∀ rid ∈ state.published, next.place rid = state.place rid)
    (storage : next.storage = state.storage)
    (entries
      : ∀ rid index, state.place rid = .cached index
          → (next.entries index).val = (state.entries index).val)
    (victim : next.victim t = state.victim t)
    : Contents config next record := by
  intro rid member
  rw [published] at member
  exact (contents rid member).step_frame consistent guarantee (places rid member)
    (congrFun storage rid) (entries rid) (fun val => by rw [victim])

/-- A step on a word keeps the contents if it stores no published record's word. -/
theorem Contents.unstored {rid : Rid} {oid : LockedOid τ} {event : LockEvent}
    {returned : List Rid} {pc : Pc} (contents : Contents config state record)
    (consistent : Consistent config state)
    (guarantee : Guarantee state t (state.stepOid t rid oid returned pc))
    (effect : (state.oids rid).Effect t oid event)
    (unstored : rid ∈ state.published → event.isStore = false)
    (victim : pc.victim state.entries = state.victim t)
    : Contents config (state.stepOid t rid oid returned pc) record := by
  refine contents.quiet consistent guarantee rfl ?_ rfl (fun _ _ _ => rfl) ?_
  · intro word member
    by_cases same : word = rid
    · subst same
      exact place_setOid effect (unstored member) word
    · exact place_stepOid_other same
  · rw [CacheState.victim, stepOid_pc]
    exact victim

section Moves

variable {rid : Rid} {oid : LockedOid τ} {op : LockOp} {entered : Bool}

/-- A new node goes into an entry no word points to. -/
theorem Contents.put (contents : Contents config state record)
    (consistent : Consistent config state) (here : state.pc t = .probePut job index)
    : Contents config
        ((state.setEntry index job.node).goto t
          (.oid job.oid (.storeIndex index) (.placed job index none) false)) record := by
  have known := consistent.sound t
  rw [here] at known
  obtain ⟨searching, _, slot⟩ := known
  refine contents.quiet consistent (consistent.put here).guarantee rfl (fun _ _ => rfl) rfl ?_ ?_
  · intro rid there said
    exact congrArg ClockNode.val
      (setEntry_other _ (consistent.not_in_transit slot searching.place said))
  · rw [CacheState.victim, goto_pc, CacheState.victim, here]
    rfl

/-- The node of the victim passes from the entry to the evicting thread. -/
theorem Contents.replace {curRid : Rid} (contents : Contents config state record)
    (consistent : Consistent config state)
    (here : state.pc t = .probeReplace job index curRid)
    : Contents config
        ((state.setEntry index job.node).goto t
          (.oid job.oid (.storeIndex index)
            (.placed job index (some ⟨state.entries index, curRid⟩)) false)) record := by
  have known := consistent.sound t
  rw [here] at known
  obtain ⟨_, _, victim, place⟩ := known
  refine contents.quiet consistent (consistent.replace here).guarantee rfl (fun _ _ => rfl) rfl
    ?_ ?_
  · intro rid there said
    exact congrArg ClockNode.val
      (setEntry_other _ (consistent.not_in_transit victim.slot place said))
  · rw [CacheState.victim, goto_pc, CacheState.victim, here]
    rfl

/-- The victim's word gives up the index; its node is still in the entry. -/
theorem Contents.retired (contents : Contents config state record)
    (consistent : Consistent config state)
    (here : state.pc t = .oid rid op (.retired job index) entered)
    (advance
      : Advance config state t
          (state.stepOid t rid oid state.returned (.probeReplace job index rid)))
    : Contents config (state.stepOid t rid oid state.returned (.probeReplace job index rid))
        record := by
  have known := consistent.sound t
  rw [here] at known
  obtain ⟨_, _, _, victim⟩ := known
  have evicting
      : (state.stepOid t rid oid state.returned (.probeReplace job index rid)).victim t
        = some (rid, (state.entries index).val) := by
    rw [CacheState.victim, stepOid_pc]
    rfl
  intro word member
  by_cases same : word = rid
  · subst same
    have place := consistent.place_of_slot victim.slot victim.owns (by rw [here]; rfl)
    exact .of_victim advance.consistent evicting ((contents word member).cached index place)
  · refine (contents word member).step_frame consistent advance.guarantee
      (place_stepOid_other same) rfl (fun _ _ => rfl) ?_
    intro val
    rw [evicting, CacheState.victim, here]
    constructor
    · intro mine
      exact absurd (Prod.mk.inj (Option.some.inj mine)).1.symm same
    · intro mine
      cases mine

/-- The word of the record points to its entry, which was loaded from its tuple. -/
theorem Contents.placed {evicted : Option Evicted} (contents : Contents config state record)
    (laws : config.schema.LensLaws config.fields) (consistent : Consistent config state)
    (here : state.pc t = .oid rid op (.placed job index evicted) entered)
    (effect : (state.oids rid).Effect t oid (.stored (.cached index)))
    (advance
      : Advance config state t (state.stepOid t rid oid state.returned (job.finish index evicted)))
    : Contents config (state.stepOid t rid oid state.returned (job.finish index evicted))
        record := by
  have known := consistent.sound t
  rw [here] at known
  obtain ⟨_, rfl, searching, _, _, val, old⟩ := known
  have victim : state.victim t = evicted.map (fun old => (old.oid, old.node.val)) := by
    rw [CacheState.victim, here, Pc.placed_victim]
  intro word member
  by_cases same : word = job.oid
  · subst same
    have loaded : job.node.val = config.schema.toCached (state.storage job.oid) := by
      have loaded := searching.sound.loaded
      unfold Probe.Loaded at loaded
      split at loaded
      · exact absurd member loaded.1
      · exact loaded.2
    have nobody : ∀ thread val, state.victim thread ≠ some (job.oid, val) := by
      apply consistent.not_victim searching.holds
      intro val evicting
      rw [victim] at evicting
      obtain ⟨node, taken, same⟩ := Option.map_eq_some_iff.mp evicting
      exact (old node taken).other (Prod.mk.inj same).1
    have kept := (contents job.oid member).uncached searching.place nobody
    refine .of_cached advance.consistent (consistent.stored effect).1 ?_
    have same := (laws.writeBack_toCached (state.storage job.oid)).trans kept
    rw [← loaded, ← val] at same
    exact same
  · refine (contents word member).step_frame consistent advance.guarantee
      (place_stepOid_other same) rfl (fun _ _ => rfl) ?_
    intro val
    rw [victim, CacheState.victim, stepOid_pc, Probe.finish_victim]

/-- Writing the evicted node back moves the bytes of its record into the tuple. -/
theorem Contents.writeBack {evicted : Evicted} (contents : Contents config state record)
    (consistent : Consistent config state)
    (here : state.pc t = .evictWriteBack job index evicted)
    : Contents config
        ((state.setTuple evicted.node.rid
          (config.schema.writeBack evicted.node.val (state.storage evicted.node.rid))).goto t
          (.oid evicted.oid .dropWrite (.released job index) false)) record := by
  have known := consistent.sound t
  rw [here] at known
  obtain ⟨_, old⟩ := known
  have before : state.victim t = some (evicted.oid, evicted.node.val) := by
    rw [CacheState.victim, here]
    rfl
  have advance : Advance config state t
      ((state.setTuple evicted.node.rid
        (config.schema.writeBack evicted.node.val (state.storage evicted.node.rid))).goto t
        (.oid evicted.oid .dropWrite (.released job index) false)) :=
    consistent.writeBack here
  rw [old.rid] at advance ⊢
  have after
      : ((state.setTuple evicted.oid
          (config.schema.writeBack evicted.node.val (state.storage evicted.oid))).goto t
          (.oid evicted.oid .dropWrite (.released job index) false)).victim t = none := by
    rw [CacheState.victim, goto_pc]
    rfl
  intro rid member
  by_cases same : rid = evicted.oid
  · subst same
    refine .of_uncached advance.consistent old.place old.owns.holds (by simp [after]) ?_
    change SameFields _ ((state.setTuple evicted.oid _).storage evicted.oid) _
    rw [setTuple_self]
    exact (contents evicted.oid member).evicted t _ before
  · refine (contents rid member).step_frame consistent advance.guarantee rfl
      (setTuple_other same) (fun _ _ => rfl) ?_
    intro val
    rw [after, before]
    simp [Ne.symm same]

end Moves

section Writes

/-- `insert` stores its tuple, and the entry it may have filled was loaded from the same one. -/
theorem Contents.publish {rid : Rid} {val : Image Byte} (contents : Contents config state record)
    (laws : config.schema.LensLaws config.fields) (consistent : Consistent config state)
    (here : state.pc t = .insertStore rid val)
    : Contents config
        ({ state.setTuple rid val with published := rid :: state.published }.goto t .idle)
        (fun other => (CacheEvent.inserted rid val).apply other (record other)) := by
  have known := consistent.sound t
  rw [here] at known
  obtain ⟨owns, _, filled⟩ := known
  have advance : Advance config state t
      ({ state.setTuple rid val with published := rid :: state.published }.goto t .idle) :=
    consistent.publish here
  have after
      : ({ state.setTuple rid val with published := rid :: state.published }.goto t .idle).victim t
        = none := by
    rw [CacheState.victim, goto_pc]
    rfl
  have stored
      : ({ state.setTuple rid val with published := rid :: state.published }.goto t .idle).storage
          rid = val :=
    state.setTuple_self rid val
  intro other member
  by_cases same : other = rid
  · subst same
    simp only [CacheEvent.apply, if_pos]
    cases said : state.place other with
    | cached index =>
        refine .of_cached advance.consistent said ?_
        have loaded := (filled index said).2
        change SameFields _ (config.schema.writeBack (state.entries index).val _) val
        rw [stored, loaded]
        exact laws.writeBack_toCached val
    | rid number =>
        obtain rfl := consistent.directory.uncached other owns.returned number said
        refine .of_uncached advance.consistent said owns.holds (by simp [after]) ?_
        rw [stored]
        exact .refl _ _
  · simp only [CacheEvent.apply, if_neg (Ne.symm same)]
    have old := (List.mem_cons.mp member).resolve_left same
    refine (contents other old).step_frame consistent advance.guarantee rfl
      (setTuple_other same) (fun _ _ => rfl) ?_
    intro bytes
    rw [after, CacheState.victim, here]
    rfl

/-- A write through a query value writes the field of the record, wherever it is kept. -/
theorem Contents.wrote {view : View τ} {field : Field} {bytes : List Byte} {location : Location}
    (contents : Contents config state record) (laws : config.schema.LensLaws config.fields)
    (consistent : Consistent config state) (here : state.pc t = .idle)
    (live : view ∈ state.views) (writes : state.Writes t view.rid)
    (declared : field ∈ config.fields) (sizes : bytes.length = field.size)
    (found : view.value.locate config.schema field = some location)
    : Contents config (state.store bytes location)
        (fun rid => (CacheEvent.wrote view.rid field bytes).apply rid (record rid)) := by
  have sound := consistent.views view live
  have advance : Advance config state t (state.store bytes location) :=
    consistent.wrote here live writes found
  have before : state.victim t = none := by
    rw [CacheState.victim, here]
    rfl
  have after : (state.store bytes location).victim t = none := by
    rw [CacheState.victim, store_pc, here]
    rfl
  intro rid member
  rw [store_published] at member
  have content := contents rid member
  by_cases same : rid = view.rid
  · subst same
    simp only [CacheEvent.apply, if_pos]
    rcases QueryValue.locate_cases found with
      ⟨place, index, isCached, hit, rfl⟩ | ⟨target, elsewhere, there, rfl⟩
    · have pointed := sound.hit index hit
      refine .of_cached advance.consistent pointed ?_
      rw [CacheState.store, setEntry_self]
      exact (laws.writeBack_write_cached _ _ declared isCached sizes).trans
        ((content.cached index pointed).write sizes)
    · obtain rfl := sound.tuple target there
      cases hit : view.value.field with
      | some index =>
          have pointed := sound.hit index hit
          have uncached := elsewhere.resolve_right (by simp [hit])
          refine .of_cached advance.consistent pointed ?_
          rw [CacheState.store, setTuple_self]
          exact (laws.writeBack_write_uncached _ _ declared uncached sizes).trans
            ((content.cached index pointed).write sizes)
      | none =>
          have place := (sound.miss hit).1
          refine .of_uncached advance.consistent place writes.holds (by simp [after]) ?_
          rw [CacheState.store, setTuple_self]
          exact (content.uncached place
            (consistent.not_victim writes.holds (by simp [before]))).write sizes
  · simp only [CacheEvent.apply, if_neg (Ne.symm same)]
    have mine (val : Image Byte)
        : (state.store bytes location).victim t = some (rid, val)
          ↔ state.victim t = some (rid, val) := by
      rw [after, before]
    rcases QueryValue.locate_cases found with
      ⟨place, index, isCached, hit, rfl⟩ | ⟨target, elsewhere, there, rfl⟩
    · refine content.step_frame consistent advance.guarantee rfl rfl ?_ mine
      intro slot said
      have different : slot ≠ index := by
        rintro rfl
        have carries := (consistent.directory.cached rid slot said).2.2
        exact same (carries.symm.trans
          (consistent.directory.cached view.rid slot (sound.hit slot hit)).2.2)
      exact congrArg ClockNode.val (setEntry_other _ different)
    · obtain rfl := sound.tuple target there
      exact content.step_frame consistent advance.guarantee rfl (setTuple_other same)
        (fun _ _ => rfl) mine

end Writes

section Step

variable {event : CacheEvent}

/-- The end of an operation on a word. Only two stores touch the word of a published record. -/
theorem Contents.lockDone {rid : Rid} {op : LockOp} {after : After} {entered choice : Bool}
    {oid : LockedOid τ} {event : LockEvent} {pc : Pc} (contents : Contents config state record)
    (laws : config.schema.LensLaws config.fields) (consistent : Consistent config state)
    (here : state.pc t = .oid rid op after entered)
    (moved : (state.oids rid).step t (if entered then .advance choice else .call op)
      = some (oid, event))
    (done : event ≠ .pending) (control : after.next rid event = some pc)
    : Contents config (state.stepOid t rid oid (after.returns rid state.returned) pc) record := by
  have advance := consistent.lockDone here moved done control
  have known := consistent.sound t
  rw [here] at known
  have effect := LockedOid.step_effect moved
  obtain ⟨returns, _⟩ : op.Returns event ∧ oid.pc t = .idle :=
    ((consistent.calls t).outcome here moved).resolve_left (fun pending => done pending.1)
  have quiet := contents.unstored consistent advance.guarantee effect
  rw [CacheState.victim, here] at quiet
  cases after with
  | user =>
      obtain rfl := Option.some.inj control
      exact quiet (fun _ => (acquires_returns known.1 returns).1) rfl
  | allocGuard val =>
      obtain ⟨rfl, _⟩ := known
      obtain rfl := returns
      obtain rfl := Option.some.inj control
      exact quiet (fun _ => rfl) rfl
  | allocStored val =>
      obtain ⟨rfl, _, fresh, _⟩ := known
      obtain rfl := returns
      obtain rfl := Option.some.inj control
      exact quiet (fun member => absurd (consistent.published rid member) fresh) rfl
  | tried job p index =>
      obtain ⟨rfl, _⟩ := known
      rcases returns with rfl | ⟨err, rfl⟩ <;> obtain rfl := Option.some.inj control
      · exact quiet (fun _ => rfl) rfl
      · exact quiet (fun _ => rfl) rfl
  | abandoned job p =>
      obtain ⟨rfl, _⟩ := known
      obtain rfl := returns
      obtain rfl := Option.some.inj control
      exact quiet (fun _ => rfl) rfl
  | retired job index =>
      obtain ⟨rfl, _⟩ := known
      obtain rfl := returns
      obtain rfl := Option.some.inj control
      exact contents.retired consistent here advance
  | placed job index evicted =>
      obtain ⟨rfl, _⟩ := known
      obtain rfl := returns
      obtain rfl := Option.some.inj control
      exact contents.placed laws consistent here effect advance
  | released job index =>
      obtain ⟨rfl, _⟩ := known
      obtain rfl := returns
      obtain rfl := Option.some.inj control
      exact quiet (fun _ => rfl) (job.conclude_victim index)

omit [DecidableEq τ] in
theorem After.label_apply (after : After) (rid : Rid) (event : LockEvent)
    : (fun rid' => (after.label rid event).apply rid' (record rid')) = record := by
  cases after <;> rfl

/-- Every step keeps the records as the plain table has them. -/
theorem Contents.step (contents : Contents config state record)
    (laws : config.schema.LensLaws config.fields) (consistent : Consistent config state)
    (effect : Effect config state t next event)
    : Contents config next (fun rid => event.apply rid (record rid)) := by
  have advance := consistent.advance effect
  have quiet := contents.quiet consistent advance.guarantee
  cases effect with
  | think link =>
      refine quiet rfl (fun _ _ => rfl) rfl (fun _ _ _ => rfl) ?_
      rw [CacheState.victim, goto_pc]
      exact link.no_victim.2.trans link.no_victim.1.symm
  | tint link =>
      refine quiet rfl (fun _ _ => rfl) rfl
        (fun _ slot _ => (state.setEntry_nodeMeta _ _ slot).2) ?_
      rw [CacheState.victim, goto_pc]
      exact link.victim
  | seen link =>
      refine quiet rfl (fun _ _ => rfl) rfl (fun _ _ _ => rfl) ?_
      rw [CacheState.victim, CacheState.victim, link.no_victim, CacheState.view, goto_pc]
      rfl
  | claim here free =>
      refine quiet rfl (fun _ _ => rfl) rfl ?_ ?_
      · intro rid slot said
        exact congrArg ClockNode.val (setEntry_other _ (consistent.not_vacant free said))
      · rw [CacheState.victim, goto_pc, CacheState.victim, here]
        rfl
  | put here => exact contents.put consistent here
  | replace here => exact contents.replace consistent here
  | writeBack here => exact contents.writeBack consistent here
  | publish here => exact contents.publish laws consistent here
  | @alloc rid val here fresh =>
      refine quiet rfl ?_ rfl (fun _ _ _ => rfl) ?_
      · intro word member
        have different : word ≠ rid := by
          rintro rfl
          exact fresh (consistent.returned word (consistent.published word member))
        exact congrArg (fun oid : LockedOid τ => decode oid.data) (setOid_other different)
      · rw [CacheState.victim, goto_pc, CacheState.victim, here]
        rfl
  | promote here =>
      refine quiet rfl (fun _ _ => rfl) rfl (fun _ _ _ => rfl) ?_
      rw [CacheState.victim, goto_pc, CacheState.victim, here]
      rfl
  | drop here dropped =>
      obtain ⟨rfl, _⟩ := dropOp_returns (LockedOid.call_outcome dropped)
      have places := place_setOid (LockedOid.step_effect dropped) rfl
      exact quiet rfl (fun word _ => places word) rfl (fun _ _ _ => rfl) rfl
  | got => exact contents
  | wrote here live mine held declared sizes found =>
      exact contents.wrote laws consistent here live held declared sizes found
  | @lockPending rid op after entered choice oid here moved =>
      refine contents.unstored consistent advance.guarantee (LockedOid.step_effect moved)
        (fun _ => rfl) ?_
      rw [CacheState.victim, here]
      cases after with
      | placed job index evicted => rw [Pc.placed_victim, Pc.placed_victim]
      | _ => rfl
  | lockDone here moved done control =>
      rw [After.label_apply]
      exact contents.lockDone laws consistent here moved done control

end Step

end Alchemy.Cache
