import Alchemy.Cache.ClockCache

/-! What one step of the cache can do.
Most steps only read shared memory and move on; they are listed in `Think`. Every other step
changes one thing: a word, an entry, a tuple, the views or the lists of rids.
-/

namespace Alchemy.Cache

open Oid ByteImage

variable {τ : Type} [DecidableEq τ]

/-- Program points a thread passes by reading only. -/
inductive Think (config : CacheConfig) (state : CacheState τ) (t : τ) : Pc → Pc → Prop
  | startRead {rid query} (published : rid ∈ state.published)
    (held : ∃ guard ∈ (state.oids rid).guards, guard.owner = t)
    (declared : ∀ field ∈ query, field ∈ config.fields)
    : Think config state t .idle (.readIsCached rid query false)
  | startLock {rid op} (published : rid ∈ state.published) (acquiring : acquires op = true)
    : Think config state t .idle (.oid rid op .user false)
  | isRid {rid val} (clear : isRid (state.oids rid).data = true)
    : Think config state t (.insertIsRid rid val) (.insertToRid rid val)
  | toRid {rid val tupleRid} (loaded : tupleRid = toRid (state.oids rid).data)
    : Think config state t (.insertToRid rid val)
        (.probing ⟨rid, tupleRid, .new (config.schema.toCached val) tupleRid, .insert val⟩ 0)
  | hit {rid query promote} (flag : isCached (state.oids rid).data = true)
    : Think config state t (.readIsCached rid query promote) (.readIndex rid query)
  | miss {rid query promote} (flag : isCached (state.oids rid).data = false)
    : Think config state t (.readIsCached rid query promote) (.readRid rid query promote)
  | index {rid query}
    : Think config state t (.readIndex rid query)
        (.readSetRef rid query (toCacheIndex (state.oids rid).data))
  | promote {rid query}
    : Think config state t (.readRid rid query true) (.promoteRid rid query)
  | copy {rid query}
    : Think config state t (.promoteRid rid query)
        (.promoteCopy rid query (Oid.toRid (state.oids rid).data))
  | probe {rid query tupleRid}
    : Think config state t (.promoteCopy rid query tupleRid)
        (.probing
          ⟨rid, tupleRid, .new (config.schema.toCached (state.storage tupleRid)) tupleRid,
            .promote query⟩ 0)
  | vacant {job p index} (small : index.toNat < config.capacity)
    : Think config state t (.probing job p) (.probeClaim job p index)
  | occupied {job p index} (small : index.toNat < config.capacity)
    (taken : (state.entries index).rid ≠ sentinel)
    : Think config state t (.probing job p) (.probeRef job p index (state.entries index).rid)
  | exhausted {job p val} (caller : job.caller = .insert val)
    : Think config state t (.probing job p) (.insertStore job.oid val)
  | lost {job p index}
    : Think config state t (.probeClaim job p index) (.probing job (p + 1))
  | refed {job p index curRid data}
    : Think config state t (.probeRef job p index curRid) (.probeClear job p index data)
  | attempt {job p index curRid}
    : Think config state t (.probeRef job p index curRid)
        (.oid curRid .tryWrite (.tried job p index) false)
  | validated {job p index curRid} (same : (state.entries index).rid = curRid)
    : Think config state t (.probeValidate job p index curRid)
        (.probeVictimRid job index curRid)
  | changed {job p index curRid}
    : Think config state t (.probeValidate job p index curRid)
        (.oid curRid .dropWrite (.abandoned job p) false)
  | retire {job index curRid}
    : Think config state t (.probeVictimRid job index curRid)
        (.oid curRid (.storeRid (state.entries index).rid) (.retired job index) false)

/-- Program points around a change of reference bits. -/
inductive Tint : Pc → Word → Pc → Prop
  | read {rid query index} : Tint (.readSetRef rid query index) index (.readEntry rid query index)
  | promote {job index evicted}
    : Tint (.probeSetRef job index evicted) index (job.settle index evicted)
  | clear {job p index data}
    : Tint (.probeClear job p index data) index (.probing job (p + 1))

/-- Program points at which a call returns a query value. -/
inductive Seen (config : CacheConfig) (state : CacheState τ)
    : Pc → Rid → List Field → QueryValue → Prop
  | full {rid query index} (matched : config.schema.matchesQuery query = true)
    : Seen config state (.readEntry rid query index) rid query ⟨some index, none⟩
  | part {rid query index}
    : Seen config state (.readEntry rid query index) rid query
        ⟨some index, some (state.entries index).rid⟩
  | missed {rid query}
    : Seen config state (.readRid rid query false) rid query
        ⟨none, some (toRid (state.oids rid).data)⟩
  | unprobed {rid query}
    : Seen config state (.promoteRid rid query) rid query
        ⟨none, some (toRid (state.oids rid).data)⟩
  | declined {rid query tupleRid}
    : Seen config state (.promoteCopy rid query tupleRid) rid query ⟨none, some tupleRid⟩
  | exhausted {job p query} (caller : job.caller = .promote query)
    : Seen config state (.probing job p) job.oid query ⟨none, some job.rid⟩

/-- The effect of one step on the whole state. -/
inductive CacheState.Effect (config : CacheConfig) (state : CacheState τ) (t : τ)
    : CacheState τ → CacheEvent → Prop
  | think {pc hand} (link : Think config state t (state.pc t) pc)
    : Effect config state t ({ state with hand }.goto t pc) .pending
  | tint {index nodeMeta pc} (link : Tint (state.pc t) index pc)
    : Effect config state t
        ((state.setEntry index { state.entries index with nodeMeta }).goto t pc) .pending
  | seen {rid query value} (link : Seen config state (state.pc t) rid query value)
    : Effect config state t (state.view t rid query value).1 (.viewed rid query value)
  | claim {job p index} (here : state.pc t = .probeClaim job p index)
    (free : (state.entries index).rid = sentinel)
    : Effect config state t
        ((state.setEntry index { state.entries index with rid := job.rid }).goto t
          (.probePut job index)) .pending
  | put {job index} (here : state.pc t = .probePut job index)
    : Effect config state t
        ((state.setEntry index job.node).goto t
          (.oid job.oid (.storeIndex index) (.placed job index none) false)) (.placed index)
  | replace {job index curRid} (here : state.pc t = .probeReplace job index curRid)
    : Effect config state t
        ((state.setEntry index job.node).goto t
          (.oid job.oid (.storeIndex index)
            (.placed job index (some ⟨state.entries index, curRid⟩)) false)) (.placed index)
  | writeBack {job index evicted} (here : state.pc t = .evictWriteBack job index evicted)
    : Effect config state t
        ((state.setTuple evicted.node.rid
          (config.schema.writeBack evicted.node.val (state.storage evicted.node.rid))).goto t
          (.oid evicted.oid .dropWrite (.released job index) false)) .pending
  | publish {rid val} (here : state.pc t = .insertStore rid val)
    : Effect config state t
        ({ state.setTuple rid val with published := rid :: state.published }.goto t .idle)
        (.inserted rid val)
  | alloc {rid val} (here : state.pc t = .idle) (fresh : rid ∉ state.allocated)
    (valid : rid ≠ sentinel)
    : Effect config state t
        ({ state.setOid rid (.fresh (fromRid 0#32)) with
            allocated := rid :: state.allocated }.goto t
          (.oid rid .write (.allocGuard val) false)) .pending
  | promote {rid query} (here : state.pc t = .idle) (published : rid ∈ state.published)
    (held : ⟨t, .write⟩ ∈ (state.oids rid).guards)
    (declared : ∀ field ∈ query, field ∈ config.fields)
    : Effect config state t
        ({ state with views := state.viewsWithout t rid }.goto t
          (.readIsCached rid query true)) .pending
  | drop {rid kind oid event} (here : state.pc t = .idle)
    (dropped : (state.oids rid).step t (.call (dropOp kind)) = some (oid, event))
    : Effect config state t
        { state.setOid rid oid with
          views :=
            if ∃ guard ∈ oid.guards, guard.owner = t then state.views
            else state.viewsWithout t rid } (.locked rid event)
  | got {view field} (here : state.pc t = .idle) (live : view ∈ state.views)
    (mine : view.owner = t) (declared : field ∈ config.fields)
    : Effect config state t state
        (.got view.rid field
          ((view.value.locate config.schema field).map (state.fetch field.size)))
  | wrote {view field bytes location} (here : state.pc t = .idle) (live : view ∈ state.views)
    (mine : view.owner = t) (held : ⟨t, .write⟩ ∈ (state.oids view.rid).guards)
    (declared : field ∈ config.fields) (sizes : bytes.length = field.size)
    (found : view.value.locate config.schema field = some location)
    : Effect config state t (state.store bytes location) (.wrote view.rid field bytes)
  | lockPending {rid op after entered choice oid}
    (here : state.pc t = .oid rid op after entered)
    (moved : (state.oids rid).step t (if entered then .advance choice else .call op)
      = some (oid, .pending))
    : Effect config state t (state.stepOid t rid oid state.returned (.oid rid op after true))
        .pending
  | lockDone {rid op after entered choice oid event pc}
    (here : state.pc t = .oid rid op after entered)
    (moved : (state.oids rid).step t (if entered then .advance choice else .call op)
      = some (oid, event))
    (done : event ≠ .pending) (control : after.next rid event = some pc)
    : Effect config state t (state.stepOid t rid oid (after.returns rid state.returned) pc)
        (after.label rid event)

theorem CacheConfig.advanceIndex_toNat (config : CacheConfig) (hand : Nat)
    : (config.advanceIndex hand).toNat < config.capacity := by
  have small := Nat.mod_lt (hand + 1) config.capacity_pos
  rw [CacheConfig.advanceIndex, BitVec.toNat_ofNat,
    Nat.mod_eq_of_lt (Nat.lt_trans small (Nat.lt_trans config.capacity_u32 (by decide)))]
  exact small

namespace CacheState

variable {config : CacheConfig} {state next : CacheState τ} {t : τ} {event : CacheEvent}

/-- A step that only moves the program point. -/
theorem Effect.goto {pc : Pc} (link : Think config state t (state.pc t) pc)
    (moved : some (state.goto t pc, CacheEvent.pending) = some (next, event))
    : Effect config state t next event := by
  obtain ⟨rfl, rfl⟩ := Prod.mk.inj (Option.some.inj moved)
  exact .think link

/-- A step that returns a query value. -/
theorem Effect.view {rid : Rid} {query : List Field} {value : QueryValue}
    (link : Seen config state (state.pc t) rid query value)
    (moved : some (state.view t rid query value) = some (next, event))
    : Effect config state t next event := by
  obtain ⟨rfl, rfl⟩ := Prod.mk.inj (Option.some.inj moved)
  exact .seen link

/-- `set_ref` changes reference bits only, whatever its coin says. -/
theorem Effect.setRef {index : Word} {pc : Pc} {coin : Bool} (link : Tint (state.pc t) index pc)
    (moved : some ((state.setEntry index ((state.entries index).setRef coin)).goto t pc,
      CacheEvent.pending) = some (next, event))
    : Effect config state t next event := by
  obtain ⟨rfl, rfl⟩ := Prod.mk.inj (Option.some.inj moved)
  cases coin with
  | false => exact .tint link
  | true => exact .tint link

/-- Each call an idle thread starts has one of the listed effects. -/
theorem start_effect {move : CacheMove τ} (here : state.pc t = .idle)
    (moved : state.start config t move = some (next, event))
    : Effect config state t next event := by
  cases move with
  | insert rid val =>
      simp only [start, Interleaving.guarded_eq_some] at moved
      obtain ⟨⟨fresh, valid⟩, rfl, rfl⟩ := moved
      exact .alloc here fresh valid
  | read rid query =>
      simp only [start, Option.ite_none_right_eq_some] at moved
      obtain ⟨⟨published, held, declared⟩, moved⟩ := moved
      exact .goto (here ▸ .startRead published held declared) moved
  | readAndPromote rid query =>
      simp only [start, Interleaving.guarded_eq_some] at moved
      obtain ⟨⟨published, held, declared⟩, rfl, rfl⟩ := moved
      exact .promote here published held declared
  | lock rid op =>
      simp only [start, Option.ite_none_right_eq_some] at moved
      obtain ⟨⟨published, acquiring⟩, moved⟩ := moved
      exact .goto (here ▸ .startLock published acquiring) moved
  | drop rid kind =>
      simp only [start] at moved
      split at moved
      · cases moved
      · next oid label dropped =>
          obtain ⟨rfl, rfl⟩ := Prod.mk.inj (Option.some.inj moved)
          exact .drop here dropped
  | getValue view field =>
      simp only [start, Interleaving.guarded_eq_some] at moved
      obtain ⟨⟨live, mine, declared⟩, rfl, rfl⟩ := moved
      exact .got here live mine declared
  | getValueMut view field bytes =>
      simp only [start, Option.ite_none_right_eq_some, Option.map_eq_some_iff,
        Prod.mk.injEq] at moved
      obtain ⟨⟨live, mine, held, declared, sizes⟩, location, found, rfl, rfl⟩ := moved
      exact .wrote here live mine held declared sizes found
  | advance choice => simp [start] at moved

/-- Each step inside a call has one of the listed effects, one case per program point. -/
theorem resume_effect {choice : Bool} (moved : state.resume config t choice = some (next, event))
    : Effect config state t next event := by
  cases here : state.pc t with
  | idle => simp [resume, here] at moved
  | oid rid op after entered =>
      simp only [resume, here] at moved
      split at moved
      · cases moved
      · next oid stepped =>
          obtain ⟨rfl, rfl⟩ := Prod.mk.inj (Option.some.inj moved)
          exact .lockPending here stepped
      · next oid label returned stepped =>
          obtain ⟨pc, control, same⟩ := Option.map_eq_some_iff.mp moved
          obtain ⟨rfl, rfl⟩ := Prod.mk.inj same
          exact .lockDone here stepped (fun same => returned (same ▸ rfl)) control
  | insertIsRid rid val =>
      simp only [resume, here, Option.ite_none_right_eq_some] at moved
      exact .goto (here ▸ .isRid moved.1) moved.2
  | insertToRid rid val =>
      simp only [resume, here] at moved
      exact .goto (here ▸ .toRid rfl) moved
  | insertStore rid val =>
      simp only [resume, here] at moved
      obtain ⟨rfl, rfl⟩ := Prod.mk.inj (Option.some.inj moved)
      exact .publish here
  | readIsCached rid query promote =>
      simp only [resume, here] at moved
      split at moved
      · next flag => exact .goto (here ▸ .hit flag) moved
      · next flag => exact .goto (here ▸ .miss (Bool.eq_false_iff.mpr flag)) moved
  | readIndex rid query =>
      simp only [resume, here] at moved
      exact .goto (here ▸ .index) moved
  | readSetRef rid query index =>
      simp only [resume, here] at moved
      exact .setRef (here ▸ .read) moved
  | readEntry rid query index =>
      simp only [resume, here] at moved
      split at moved
      · next matched => exact .view (here ▸ .full matched) moved
      · exact .view (here ▸ .part) moved
  | readRid rid query promote =>
      simp only [resume, here] at moved
      split at moved
      · next flag =>
          subst flag
          exact .goto (here ▸ .promote) moved
      · next flag =>
          obtain rfl := Bool.eq_false_iff.mpr flag
          exact .view (here ▸ .missed) moved
  | promoteRid rid query =>
      simp only [resume, here] at moved
      split at moved
      · exact .view (here ▸ .unprobed) moved
      · exact .goto (here ▸ .copy) moved
  | promoteCopy rid query tupleRid =>
      simp only [resume, here] at moved
      split at moved
      · exact .goto (here ▸ .probe) moved
      · exact .view (here ▸ .declined) moved
  | probing job p =>
      have small := config.advanceIndex_toNat (state.hand t)
      simp only [resume, here] at moved
      split at moved
      · split at moved
        all_goals obtain ⟨rfl, rfl⟩ := Prod.mk.inj (Option.some.inj moved)
        · exact .think (here ▸ .vacant small)
        · next taken => exact .think (here ▸ .occupied small taken)
      · split at moved
        · next caller => exact .goto (here ▸ .exhausted caller) moved
        · next caller => exact .view (here ▸ .exhausted caller) moved
  | probeClaim job p index =>
      simp only [resume, here] at moved
      split at moved
      · next won =>
          obtain ⟨rfl, rfl⟩ := Prod.mk.inj (Option.some.inj moved)
          exact .claim here (eq_of_beq (Bool.and_eq_true_iff.mp won).2)
      · exact .goto (here ▸ .lost) moved
  | probePut job index =>
      simp only [resume, here] at moved
      obtain ⟨rfl, rfl⟩ := Prod.mk.inj (Option.some.inj moved)
      exact .put here
  | probeRef job p index curRid =>
      simp only [resume, here] at moved
      split at moved
      · exact .goto (here ▸ .refed) moved
      · exact .goto (here ▸ .attempt) moved
  | probeClear job p index data =>
      simp only [resume, here] at moved
      obtain ⟨rfl, rfl⟩ := Prod.mk.inj (Option.some.inj moved)
      exact .tint (here ▸ .clear)
  | probeValidate job p index curRid =>
      simp only [resume, here] at moved
      split at moved
      · next won =>
          exact .goto (here ▸ .validated (eq_of_beq (Bool.and_eq_true_iff.mp won).2)) moved
      · exact .goto (here ▸ .changed) moved
  | probeVictimRid job index curRid =>
      simp only [resume, here] at moved
      exact .goto (here ▸ .retire) moved
  | probeReplace job index curRid =>
      simp only [resume, here] at moved
      obtain ⟨rfl, rfl⟩ := Prod.mk.inj (Option.some.inj moved)
      exact .replace here
  | probeSetRef job index evicted =>
      simp only [resume, here] at moved
      exact .setRef (here ▸ .promote) moved
  | evictWriteBack job index evicted =>
      simp only [resume, here] at moved
      obtain ⟨rfl, rfl⟩ := Prod.mk.inj (Option.some.inj moved)
      exact .writeBack here

/-- A move that is not a step inside a call starts one, and needs an idle thread. -/
theorem step_start {move : CacheMove τ} (starts : ∀ choice, move ≠ .advance choice)
    (taken : state.step config t move = some (next, event))
    : state.pc t = .idle ∧ state.start config t move = some (next, event) := by
  unfold CacheState.step at taken
  split at taken
  · exact absurd rfl (starts _)
  · split at taken
    · next here => exact ⟨here, taken⟩
    · cases taken

/-- Every step of the cache has one of the listed effects. -/
theorem step_effect {move : CacheMove τ} (taken : state.step config t move = some (next, event))
    : Effect config state t next event := by
  cases move with
  | advance choice => exact resume_effect taken
  | _ =>
      obtain ⟨here, started⟩ := step_start (by simp) taken
      exact start_effect here started

end CacheState

end Alchemy.Cache
