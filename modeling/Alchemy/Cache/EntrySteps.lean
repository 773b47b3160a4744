import Alchemy.Cache.ControlSteps

/-! Steps that write an entry, a tuple or the lists of rids keep the cache consistent.
An entry is written while its rid is the sentinel, or by the owner of the record in it; a
tuple is written by the owner of its record.
-/

namespace Alchemy.Cache

open Oid ByteImage CacheState

variable {τ : Type} {config : CacheConfig} {state next : CacheState τ} {t : τ} {job : Probe}
  {index : Word}

theorem Consistent.not_vacant (consistent : Consistent config state) {rid : Rid} {slot : Word}
    (free : (state.entries index).rid = sentinel) (place : state.place rid = .cached slot)
    : slot ≠ index := by
  rintro rfl
  obtain ⟨returned, _, carries⟩ := consistent.directory.cached rid slot place
  exact consistent.ne_sentinel returned (carries.symm.trans free)

/-- No word points to an entry whose record is in transit. -/
theorem Consistent.not_in_transit (consistent : Consistent config state) {rid other : Rid}
    {slot : Word} (carries : (state.entries index).rid = rid)
    (place : state.place rid = .rid rid) (said : state.place other = .cached slot)
    : slot ≠ index := by
  rintro rfl
  obtain rfl := (consistent.directory.cached other slot said).2.2.symm.trans carries
  exact absurd (place.symm.trans said) (by simp)

/-- The pair of another thread stays in transit when the mover had none. -/
theorem transit_kept {pair : Word × Rid} (pc : ∀ other, other ≠ t → next.pc other = state.pc other)
    (still : (state.pc t).transit = none) {thread : τ}
    (moving : (state.pc thread).transit = some pair)
    : (next.pc thread).transit = some pair := by
  rw [pc thread, moving]
  rintro rfl
  rw [still] at moving
  cases moving

/-- What a query value can refer to: the entry for a cached field, the tuple otherwise. -/
theorem QueryValue.locate_cases {value : QueryValue} {schema : Schema} {field : Field}
    {location : Location} (found : value.locate schema field = some location)
    : (∃ place index, schema.toCachedField field = some place ∧ value.field = some index
        ∧ location = .entry index place.span.start)
      ∨ ∃ rid, (schema.toCachedField field = none ∨ value.field = none)
          ∧ value.tuple = some rid ∧ location = .tuple rid field.span.start := by
  unfold QueryValue.locate at found
  split at found
  · next place index isCached hit =>
      exact .inl ⟨place, index, isCached, hit, (Option.some.inj found).symm⟩
  · next notBoth =>
      obtain ⟨rid, there, same⟩ := Option.map_eq_some_iff.mp found
      refine .inr ⟨rid, ?_, there, same.symm⟩
      cases isCached : schema.toCachedField field with
      | none => exact .inl rfl
      | some place =>
          cases hit : value.field with
          | none => exact .inr rfl
          | some index => exact (notBoth place index isCached hit).elim

section Rights

variable {node : ClockNode} {image : Image Byte} {rid : Rid}

/-- The rights to write an entry: it is empty or holds a record the thread has locked, and so
has it locked the record of the new node.
-/
theorem CacheState.setEntry_rights
    (old : (state.entries index).rid = sentinel ∨ state.Writes t (state.entries index).rid)
    (new : state.Writes t node.rid) (slot : Word)
    : (((state.setEntry index node).entries slot).rid = (state.entries slot).rid
        ∧ ((state.setEntry index node).entries slot).val = (state.entries slot).val)
      ∨ (((state.entries slot).rid = sentinel ∨ state.Writes t (state.entries slot).rid)
        ∧ state.Writes t ((state.setEntry index node).entries slot).rid) := by
  by_cases same : slot = index
  · subst same
    rw [setEntry_self]
    exact .inr ⟨old, new⟩
  · rw [setEntry_other _ same]
    exact .inl ⟨rfl, rfl⟩

/-- The right to write a tuple is a write guard on its record. -/
theorem CacheState.setTuple_rights (writes : state.Writes t rid) (other : Rid)
    : (state.setTuple rid image).storage other = state.storage other ∨ state.Writes t other := by
  by_cases same : other = rid
  · rw [same]
    exact .inr writes
  · exact .inl (setTuple_other same)

end Rights

variable [DecidableEq τ]

/-- Claiming an empty entry by its compare-exchange. -/
theorem Consistent.claim {p : Nat} (consistent : Consistent config state)
    (here : state.pc t = .probeClaim job p index) (free : (state.entries index).rid = sentinel)
    : Advance config state t
        ((state.setEntry index { state.entries index with rid := job.rid }).goto t
          (.probePut job index)) := by
  have known := consistent.sound t
  rw [here] at known
  obtain ⟨searching, small⟩ := known
  have owns := searching.sound.owns
  have still : (state.pc t).transit = none := by
    rw [here]
    rfl
  have guarantee : Guarantee state t
      ((state.setEntry index { state.entries index with rid := job.rid }).goto t
        (.probePut job index)) :=
    { Guarantee.goto state t (.probePut job index) rfl with
      entries := setEntry_rights (.inl free) (searching.sound.rid ▸ owns.writes) }
  refine consistent.local_rule guarantee rfl rfl (by rw [here]; rfl) (by rw [goto_pc]; rfl) ?_ ?_
  · rw [goto_pc]
    refine ⟨searching.keep { Retains.refl state t job.oid with }, small, ?_⟩
    rw [goto_entries, setEntry_self]
    exact searching.sound.rid
  · exact
      { cached := by
          intro rid slot place
          rw [goto_entries, setEntry_other _ (consistent.not_vacant free place)]
          exact consistent.directory.cached rid slot place
        uncached := consistent.directory.uncached
        slots := by
          intro slot
          by_cases same : slot = index
          · subst same
            rw [goto_entries, setEntry_self]
            intro _
            refine ⟨?_, .inr ⟨t, ?_⟩⟩
            · rw [searching.sound.rid]
              exact owns.returned
            · rw [goto_pc, searching.sound.rid]
              rfl
          · rw [goto_entries, setEntry_other _ same]
            intro taken
            obtain ⟨member, placed⟩ := consistent.directory.slots slot taken
            exact ⟨member, placed.imp_right
              (fun ⟨thread, moving⟩ => ⟨thread, transit_kept guarantee.pc still moving⟩)⟩ }

/-- Copying the node into an entry that already carries the rid of the thread's record. -/
theorem Consistent.put (consistent : Consistent config state)
    (here : state.pc t = .probePut job index)
    : Advance config state t
        ((state.setEntry index job.node).goto t
          (.oid job.oid (.storeIndex index) (.placed job index none) false)) := by
  have known := consistent.sound t
  rw [here] at known
  obtain ⟨searching, small, slot⟩ := known
  have owns := searching.sound.owns
  have slots (other : Word)
      : ((state.setEntry index job.node).entries other).rid = (state.entries other).rid := by
    by_cases same : other = index
    · rw [same, setEntry_self, slot, searching.sound.nodeRid]
    · rw [setEntry_other _ same]
  have guarantee : Guarantee state t
      ((state.setEntry index job.node).goto t
        (.oid job.oid (.storeIndex index) (.placed job index none) false)) :=
    { Guarantee.goto state t
        (.oid job.oid (.storeIndex index) (.placed job index none) false) rfl with
      entries := setEntry_rights (.inr (slot ▸ owns.writes))
        (searching.sound.nodeRid ▸ owns.writes) }
  refine consistent.local_rule guarantee rfl rfl (by rw [here]; rfl) (by rw [goto_pc]; rfl) ?_ ?_
  · rw [goto_pc]
    refine ⟨rfl, rfl, searching.keep { Retains.refl state t job.oid with }, small, ?_, ?_,
      fun old absent => by cases absent⟩
    · exact (slots index).trans slot
    · rw [goto_entries, setEntry_self]
  · refine consistent.directory.same guarantee.pc (fun _ => rfl) slots rfl ?_
    rw [goto_pc, here]
    exact fun _ moving => moving

/-- Replacing the node of a locked victim whose word has given up the index. -/
theorem Consistent.replace {curRid : Rid} (consistent : Consistent config state)
    (here : state.pc t = .probeReplace job index curRid)
    : Advance config state t
        ((state.setEntry index job.node).goto t
          (.oid job.oid (.storeIndex index)
            (.placed job index (some ⟨state.entries index, curRid⟩)) false)) := by
  have known := consistent.sound t
  rw [here] at known
  obtain ⟨searching, small, victim, place⟩ := known
  have owns := searching.sound.owns
  have guarantee : Guarantee state t
      ((state.setEntry index job.node).goto t
        (.oid job.oid (.storeIndex index)
          (.placed job index (some ⟨state.entries index, curRid⟩)) false)) :=
    { Guarantee.goto state t
        (.oid job.oid (.storeIndex index)
          (.placed job index (some ⟨state.entries index, curRid⟩)) false) rfl with
      entries := setEntry_rights (.inr (victim.slot ▸ victim.owns.writes))
        (searching.sound.nodeRid ▸ owns.writes) }
  refine consistent.local_rule guarantee rfl rfl (by rw [here]; rfl) (by rw [goto_pc]; rfl) ?_ ?_
  · rw [goto_pc]
    refine ⟨rfl, rfl, searching.keep { Retains.refl state t job.oid with }, small, ?_, ?_, ?_⟩
    · rw [goto_entries, setEntry_self]
      exact searching.sound.nodeRid
    · rw [goto_entries, setEntry_self]
    · intro old member
      obtain rfl := Option.some.inj member
      have sound : Evicted.Sound state t job ⟨state.entries index, curRid⟩ :=
        ⟨victim.other, victim.owns, victim.slot, place⟩
      exact sound.keep { Retains.refl state t curRid with }
  · exact
      { cached := by
          intro rid slot said
          have other := consistent.not_in_transit victim.slot place said
          rw [goto_entries, setEntry_other _ other]
          exact consistent.directory.cached rid slot said
        uncached := consistent.directory.uncached
        slots := by
          intro slot
          by_cases same : slot = index
          · subst same
            rw [goto_entries, setEntry_self, searching.sound.nodeRid]
            intro _
            exact ⟨owns.returned, .inr ⟨t, by rw [goto_pc]; rfl⟩⟩
          · rw [goto_entries, setEntry_other _ same]
            intro taken
            obtain ⟨member, placed⟩ := consistent.directory.slots slot taken
            refine ⟨member, placed.imp_right ?_⟩
            rintro ⟨thread, moving⟩
            refine ⟨thread, ?_⟩
            have different : thread ≠ t := by
              rintro rfl
              rw [here] at moving
              exact same (Prod.mk.inj (Option.some.inj moving)).1.symm
            rw [← moving]
            exact congrArg Pc.transit (guarantee.pc thread different) }

/-- Writing an evicted node back to the tuple of its record. -/
theorem Consistent.writeBack {evicted : Evicted} {image : Image Byte}
    (consistent : Consistent config state)
    (here : state.pc t = .evictWriteBack job index evicted)
    : Advance config state t
        ((state.setTuple evicted.node.rid image).goto t
          (.oid evicted.oid .dropWrite (.released job index) false)) := by
  have known := consistent.sound t
  rw [here] at known
  obtain ⟨placed, old⟩ := known
  have guarantee : Guarantee state t
      ((state.setTuple evicted.node.rid image).goto t
        (.oid evicted.oid .dropWrite (.released job index) false)) :=
    { Guarantee.goto state t (.oid evicted.oid .dropWrite (.released job index) false) rfl with
      storage := setTuple_rights (old.rid ▸ old.owns.writes) }
  refine consistent.local_rule guarantee rfl rfl (by rw [here]; rfl) (by rw [goto_pc]; rfl) ?_ ?_
  · rw [goto_pc]
    have kept : state.Retains t job.oid
        ((state.setTuple evicted.node.rid image).goto t
          (.oid evicted.oid .dropWrite (.released job index) false)) :=
      { Retains.refl state t job.oid with
        storage := setTuple_other (fun same => old.other (old.rid ▸ same.symm)) }
    exact ⟨rfl, placed.retain kept, old.other, old.owns.returned, old.owns.writes,
      old.owns.unseen⟩
  · exact consistent.directory.same guarantee.pc (fun _ => rfl) (fun _ => rfl) rfl
      (fun _ moving => by rw [here] at moving; cases moving)

/-- The end of `insert`: the tuple is stored and the rid returned. -/
theorem Consistent.publish {rid : Rid} {val : Image Byte} (consistent : Consistent config state)
    (here : state.pc t = .insertStore rid val)
    : Advance config state t
        ({ state.setTuple rid val with published := rid :: state.published }.goto t .idle) := by
  have known := consistent.sound t
  rw [here] at known
  obtain ⟨owns, unpublished, _⟩ := known
  have guarantee : Guarantee state t
      ({ state.setTuple rid val with published := rid :: state.published }.goto t .idle) :=
    { Guarantee.goto state t .idle rfl with
      storage := setTuple_rights owns.writes
      published := fun _ old => List.mem_cons_of_mem _ old
      newPublished := by
        intro other member
        rcases List.mem_cons.mp member with rfl | old
        · exact .inr owns
        · exact .inl old }
  refine consistent.local_rule guarantee rfl rfl (by rw [here]; rfl) (by rw [goto_pc]; rfl) ?_ ?_
  · rw [goto_pc]
    trivial
  · exact consistent.directory.same guarantee.pc (fun _ => rfl) (fun _ => rfl) rfl
      (fun _ moving => by rw [here] at moving; cases moving)

/-- `heap.append` of a fresh word: the zeroed memory holds that word already. -/
theorem Consistent.alloc {rid : Rid} {val : Image Byte} (consistent : Consistent config state)
    (here : state.pc t = .idle) (fresh : rid ∉ state.allocated) (valid : rid ≠ sentinel)
    : Advance config state t
        ({ state.setOid rid (.fresh (fromRid 0#32)) with
            allocated := rid :: state.allocated }.goto t
          (.oid rid .write (.allocGuard val) false)) := by
  have words : (state.setOid rid (.fresh (fromRid 0#32))).oids = state.oids := by
    rw [show fromRid 0#32 = 0#64 from rfl, ← consistent.untouched rid fresh]
    exact Function.update_eq_self rid state.oids
  have places (other : Rid)
      : (state.setOid rid (.fresh (fromRid 0#32))).place other = state.place other :=
    congrArg (fun oid : LockedOid τ => decode oid.data) (congrFun words other)
  have guarantee : Guarantee state t
      ({ state.setOid rid (.fresh (fromRid 0#32)) with
          allocated := rid :: state.allocated }.goto t
        (.oid rid .write (.allocGuard val) false)) :=
    { Guarantee.refl state t with
      pc := fun _ different => goto_other _ different
      words := fun other => .inl (congrFun words other)
      places := fun other => .inl (places other)
      allocated := fun _ old => List.mem_cons_of_mem _ old
      newAllocated := by
        intro other member
        rcases List.mem_cons.mp member with rfl | old
        · exact .inr valid
        · exact .inl old
      allocating := by
        intro other mine
        rw [goto_pc] at mine
        obtain rfl := Option.some.inj mine
        exact .inr fresh }
  refine consistent.local_rule guarantee words rfl (by rw [here]; rfl) (by rw [goto_pc]; rfl) ?_ ?_
  · rw [goto_pc]
    exact ⟨rfl, List.mem_cons_self, fun returned => fresh (consistent.returned rid returned)⟩
  · exact consistent.directory.same guarantee.pc places (fun _ => rfl) rfl
      (fun _ moving => by rw [here] at moving; cases moving)

/-- Entering `read_and_promote` ends the borrows of its guard, so its thread owns the record. -/
theorem Consistent.promote {rid : Rid} {query : List Field}
    (consistent : Consistent config state) (here : state.pc t = .idle)
    (published : rid ∈ state.published) (writes : state.Writes t rid)
    : Advance config state t
        ({ state with views := state.viewsWithout t rid }.goto t
          (.readIsCached rid query true)) := by
  have guarantee : Guarantee state t
      ({ state with views := state.viewsWithout t rid }.goto t (.readIsCached rid query true)) :=
    { Guarantee.goto state t (.readIsCached rid query true) rfl with
      views := fun view live => .inl (List.mem_of_mem_filter live) }
  refine consistent.step_rule guarantee ?_ ?_ ?_ ?_
  · apply Calls.of_idle
    · rw [goto_pc]
      rfl
    · exact (consistent.calls t).idle (by rw [here]; rfl)
  · rw [goto_pc]
    refine ⟨published, writes.holds, fun _ => ⟨consistent.published rid published, writes, ?_⟩⟩
    intro view live same
    obtain ⟨old, kept⟩ := List.mem_filter.mp live
    have mine := consistent.exclusive writes (same ▸ (consistent.views view old).held)
    simp [same, mine] at kept
  · exact consistent.directory.same guarantee.pc (fun _ => rfl) (fun _ => rfl) rfl
      (fun _ moving => by rw [here] at moving; cases moving)
  · intro view live
    have old := List.mem_of_mem_filter live
    exact .inl ⟨old, (consistent.views view old).held⟩

/-- A write through a query value stays inside the record its owner has locked. -/
theorem Consistent.wrote {view : View τ} {field : Field} {bytes : List Byte}
    {location : Location} (consistent : Consistent config state) (here : state.pc t = .idle)
    (live : view ∈ state.views) (writes : state.Writes t view.rid)
    (found : view.value.locate config.schema field = some location)
    : Advance config state t (state.store bytes location) := by
  have sound := consistent.views view live
  have outside : (state.pc t).entered = false := by
    rw [here]
    rfl
  rcases QueryValue.locate_cases found with
    ⟨place, index, _, hit, rfl⟩ | ⟨rid, _, there, rfl⟩
  · have carries := (consistent.directory.cached _ _ (sound.hit index hit)).2.2
    have slots (slot : Word)
        : ((state.store bytes (.entry index place.span.start)).entries slot).rid
          = (state.entries slot).rid := by
      by_cases same : slot = index
      · subst same
        rw [CacheState.store, setEntry_self]
      · rw [CacheState.store, setEntry_other _ same]
    have guarantee : Guarantee state t (state.store bytes (.entry index place.span.start)) :=
      { Guarantee.refl state t with
        entries := setEntry_rights (.inr (carries ▸ writes)) (carries ▸ writes) }
    refine consistent.local_rule guarantee rfl rfl outside outside ?_ ?_
    · change (state.pc t).Sound config (state.store bytes (.entry index place.span.start)) t
      rw [here]
      trivial
    · exact consistent.directory.same guarantee.pc (fun _ => rfl) slots rfl (fun _ moving => moving)
  · have guarantee : Guarantee state t (state.store bytes (.tuple rid field.span.start)) :=
      { Guarantee.refl state t with
        storage := setTuple_rights (sound.tuple rid there ▸ writes) }
    refine consistent.local_rule guarantee rfl rfl outside outside ?_ ?_
    · change (state.pc t).Sound config (state.store bytes (.tuple rid field.span.start)) t
      rw [here]
      trivial
    · exact consistent.directory.same guarantee.pc (fun _ => rfl) (fun _ => rfl) rfl
        (fun _ moving => moving)

end Alchemy.Cache
