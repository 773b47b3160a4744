import Alchemy.Cache.SecondChance

/-! `ClockCache::reset` against a new cache.
The words are zeroed and the entries marked as empty, but their values and reference bits stay,
and so do the tuples and the clock hands. A cache after `reset` is compared with a new one step by
step: the old values sit in entries that nobody reads before they are filled, and an old reference
bit only makes a probing thread pass by an entry that it could also have found locked.
-/

namespace Alchemy.Cache

open Oid ByteImage CacheState Interleaving

variable {τ : Type}

/-! ### The state after `reset` -/

/-- `OidArray::reset` zeroes the words, and `CacheInner::reset` marks the entries as empty. -/
def CacheState.reset (config : CacheConfig) (state : CacheState τ) : CacheState τ :=
  { state with
    oids := fun rid => { state.oids rid with data := 0#64 }
    entries := fun index =>
      if index.toNat < config.capacity then { state.entries index with rid := sentinel }
      else state.entries index
    allocated := []
    returned := []
    published := [] }

/-- `reset` borrows the cache mutably: no call is under way, and neither a guard nor a query value
is left.
-/
structure CacheState.Quiet (state : CacheState τ) : Prop where
  idle : ∀ t, state.pc t = .idle
  unlocked : ∀ rid, (state.oids rid).guards = []
  unseen : state.views = []

section Reset

variable {config : CacheConfig} {state : CacheState τ} {index : Word}

/-- Entries outside the cache are never used. -/
theorem Consistent.slot_lt (consistent : Consistent config state)
    (taken : (state.entries index).rid ≠ sentinel)
    : index.toNat < config.capacity := by
  obtain ⟨_, said | ⟨t, moving⟩⟩ := consistent.directory.slots index taken
  · exact (consistent.directory.cached _ index said).2.1
  · have known := consistent.sound t
    cases here : state.pc t with
    | probePut job slot =>
        rw [here] at known moving
        obtain ⟨rfl, _⟩ := Prod.mk.inj (Option.some.inj moving)
        exact known.2.1
    | probeReplace job slot curRid =>
        rw [here] at known moving
        obtain ⟨rfl, _⟩ := Prod.mk.inj (Option.some.inj moving)
        exact known.2.1
    | oid rid op after entered =>
        rw [here] at known moving
        cases after with
        | placed job slot evicted =>
            obtain ⟨rfl, _⟩ := Prod.mk.inj (Option.some.inj moving)
            exact known.2.2.2.1
        | _ => cases moving
    | _ =>
        rw [here] at moving
        cases moving

theorem Consistent.reset_entries (consistent : Consistent config state) (index : Word)
    : ((state.reset config).entries index).rid = sentinel := by
  change (if _ then _ else _ : ClockNode).rid = sentinel
  split
  · rfl
  · next outside =>
      by_contra taken
      exact outside (consistent.slot_lt taken)

theorem Consistent.reset_oids (consistent : Consistent config state) (quiet : state.Quiet)
    : (state.reset config).oids = fun _ => .fresh 0#64 := by
  funext rid
  have resting : (state.oids rid).pc = fun _ => .idle := by
    funext t
    exact (consistent.calls t).resting rid (fun _ _ => by rw [quiet.idle t]; simp)
  change ({ state.oids rid with data := 0#64 } : LockedOid τ) = .fresh 0#64
  rw [LockedOid.fresh, ← resting, ← quiet.unlocked rid]

/-- The reset cache is consistent, as a new one is. -/
theorem Consistent.reset (consistent : Consistent config state) (quiet : state.Quiet)
    : Consistent config (state.reset config) := by
  have oids := consistent.reset_oids quiet
  have word (rid : Rid) : (state.reset config).oids rid = .fresh 0#64 := congrFun oids rid
  have place (rid : Rid) : (state.reset config).place rid = .rid 0#32 := by
    rw [CacheState.place, word]
    change decode 0#64 = .rid 0#32
    decide
  exact
    { safe := fun rid => by
        rw [word]
        exact LockedOid.fresh_safe (by decide)
      middle := fun rid => by
        rw [word]
        change middleBits 0#64 = 0#16
        decide
      untouched := fun rid _ => word rid
      valid := List.not_mem_nil
      returned := fun _ member => (List.not_mem_nil member).elim
      published := fun _ member => (List.not_mem_nil member).elim
      calls := fun t => by
        refine Calls.of_idle ?_ (fun rid => by rw [word]; rfl)
        change (state.pc t).entered = false
        rw [quiet.idle t]
        rfl
      sound := fun t => by
        change (state.pc t).Sound config _ t
        rw [quiet.idle t]
        trivial
      alone := fun t _ _ left => by
        change (state.pc t).allocating = _ at left
        rw [quiet.idle t] at left
        cases left
      directory :=
        { cached := fun rid _ said => by
            rw [place] at said
            cases said
          uncached := fun _ member => (List.not_mem_nil member).elim
          slots := fun index taken => (taken (consistent.reset_entries index)).elim }
      views := fun view live => by
        change view ∈ state.views at live
        rw [quiet.unseen] at live
        cases live }

theorem Marked.reset (marked : Marked config state) : Marked config (state.reset config) where
  hands := marked.hands
  entries index := by
    change (if _ then _ else _ : ClockNode).nodeMeta.Plain
    split
    · exact marked.entries index
    · exact marked.entries index
  points := marked.points

end Reset

/-! ### Beside a new cache -/

/-- The entry is empty, or a thread has claimed it and not filled it yet. -/
def CacheState.Hollow (state : CacheState τ) (index : Word) : Prop :=
  (state.entries index).rid = sentinel ∨ ∃ t job, state.pc t = .probePut job index

/-- Where the same thread stands in the new cache. It waits before the reference bit while its
counterpart has found one that it is about to clear.
-/
def Pc.Trails : Pc → Pc → Prop
  | .probeClear job p index _, behind => ∃ curRid, behind = .probeRef job p index curRid
  | pc, behind => behind = pc

/-- `other` is a cache that started as a new one. Its entries may differ from those of `state` as
long as they are hollow, and its tuples as long as they are not inserted.
-/
structure Mirrors (state other : CacheState τ) : Prop where
  oids : other.oids = state.oids
  hand : other.hand = state.hand
  views : other.views = state.views
  allocated : other.allocated = state.allocated
  returned : other.returned = state.returned
  published : other.published = state.published
  pc : ∀ t, (state.pc t).Trails (other.pc t)
  rids : ∀ index, (other.entries index).rid = (state.entries index).rid
  marks : ∀ index, NodeMeta.isRefed (other.entries index).nodeMeta.data = true
    → NodeMeta.isRefed (state.entries index).nodeMeta.data = true
  nodes : ∀ index, ¬ other.Hollow index → other.entries index = state.entries index
  tuples : ∀ rid ∈ other.published, other.storage rid = state.storage rid

section Initial

variable {config : CacheConfig} {state : CacheState τ}

/-- A cache after `reset` and a new one, whatever tuples that one has. -/
theorem Consistent.mirrors (consistent : Consistent config state) (quiet : state.Quiet)
    (storage : Rid → Image Byte)
    : Mirrors (state.reset config) (CacheState.init storage state.hand) where
  oids := (consistent.reset_oids quiet).symm
  hand := rfl
  views := quiet.unseen.symm
  allocated := rfl
  returned := rfl
  published := rfl
  pc t := by
    change (state.pc t).Trails .idle
    rw [quiet.idle t]
    rfl
  rids index := (consistent.reset_entries index).symm
  marks index refed := by
    change NodeMeta.isRefed 0#32 = true at refed
    exact absurd refed (by decide)
  nodes index filled := absurd (.inl rfl) filled
  tuples rid member := (List.not_mem_nil member).elim

end Initial

section Mirrors

variable {config : CacheConfig} {state next other : CacheState τ} {t : τ} {event : CacheEvent}
  {index : Word} {rid : Rid}

namespace Mirrors

/-- The same node in both. -/
theorem setEntry (mirrors : Mirrors state other) (node : ClockNode)
    : Mirrors (state.setEntry index node) (other.setEntry index node) :=
  { mirrors with
    rids := by
      intro slot
      change (Function.update other.entries index node slot).rid
        = (Function.update state.entries index node slot).rid
      rw [Function.update_apply, Function.update_apply]
      split
      · rfl
      · exact mirrors.rids slot
    marks := by
      intro slot
      change NodeMeta.isRefed (Function.update other.entries index node slot).nodeMeta.data = true
        → NodeMeta.isRefed (Function.update state.entries index node slot).nodeMeta.data = true
      rw [Function.update_apply, Function.update_apply]
      split
      · exact id
      · exact mirrors.marks slot
    nodes := by
      intro slot filled
      change Function.update other.entries index node slot
        = Function.update state.entries index node slot
      rw [Function.update_apply, Function.update_apply]
      split
      · rfl
      · next elsewhere =>
          refine mirrors.nodes slot (fun hollow => filled (hollow.imp ?_ id))
          intro empty
          exact (congrArg ClockNode.rid (Function.update_of_ne elsewhere ..)).trans empty }

/-- A change of the reference bit. -/
theorem tint (mirrors : Mirrors state other) {first second : NodeMeta}
    (marked : NodeMeta.isRefed second.data = true → NodeMeta.isRefed first.data = true)
    (same : ¬ other.Hollow index → second = first)
    : Mirrors (state.setEntry index { state.entries index with nodeMeta := first })
        (other.setEntry index { other.entries index with nodeMeta := second }) :=
  { mirrors with
    rids := by
      intro slot
      change (Function.update other.entries index _ slot).rid
        = (Function.update state.entries index _ slot).rid
      rw [Function.update_apply, Function.update_apply]
      split
      · next here => exact here ▸ mirrors.rids index
      · exact mirrors.rids slot
    marks := by
      intro slot
      change NodeMeta.isRefed (Function.update other.entries index _ slot).nodeMeta.data = true
        → NodeMeta.isRefed (Function.update state.entries index _ slot).nodeMeta.data = true
      rw [Function.update_apply, Function.update_apply]
      split
      · exact marked
      · exact mirrors.marks slot
    nodes := by
      intro slot filled
      have before : ¬ other.Hollow slot := by
        refine fun hollow => filled (hollow.imp ?_ id)
        intro empty
        change (Function.update other.entries index _ slot).rid = sentinel
        rw [Function.update_apply]
        split
        · next here => exact here ▸ empty
        · exact empty
      change Function.update other.entries index _ slot
        = Function.update state.entries index _ slot
      rw [Function.update_apply, Function.update_apply]
      split
      · next here =>
          subst here
          rw [same before, mirrors.nodes slot before]
      · exact mirrors.nodes slot before }

theorem setRef (mirrors : Mirrors state other) (coin : Bool)
    : Mirrors (state.setEntry index ((state.entries index).setRef coin))
        (other.setEntry index ((other.entries index).setRef coin)) := by
  cases coin with
  | true =>
      refine mirrors.tint (fun _ => NodeMeta.isRefed_setRef _) (fun filled => ?_)
      rw [mirrors.nodes index filled]
  | false =>
      refine mirrors.tint (mirrors.marks index) (fun filled => ?_)
      exact congrArg ClockNode.nodeMeta (mirrors.nodes index filled)

theorem setOid (mirrors : Mirrors state other) (oid : LockedOid τ)
    : Mirrors (state.setOid rid oid) (other.setOid rid oid) :=
  { mirrors with
    oids := by
      change Function.update other.oids rid oid = Function.update state.oids rid oid
      rw [mirrors.oids] }

theorem setTuple (mirrors : Mirrors state other) {first second : Image Byte}
    (same : rid ∈ other.published → second = first)
    : Mirrors (state.setTuple rid first) (other.setTuple rid second) :=
  { mirrors with
    tuples := by
      intro record member
      change Function.update other.storage rid second record
        = Function.update state.storage rid first record
      rw [Function.update_apply, Function.update_apply]
      split
      · next here => exact same (here ▸ member)
      · exact mirrors.tuples record member }

theorem setReturned (mirrors : Mirrors state other) (returned : List Rid)
    : Mirrors { state with returned } { other with returned } :=
  { mirrors with returned := rfl }

end Mirrors

/-- A record that is in the cache has a filled entry. -/
theorem Consistent.filled_of_cached (consistent : Consistent config other)
    (said : other.place rid = .cached index)
    : ¬ other.Hollow index := by
  obtain ⟨returned, _, carries⟩ := consistent.directory.cached rid index said
  intro hollow
  rcases hollow with empty | ⟨t, job, claimed⟩
  · exact consistent.ne_sentinel returned (carries.symm.trans empty)
  · have known := consistent.sound t
    rw [claimed] at known
    obtain ⟨searching, _, slot⟩ := known
    have place := searching.place
    rw [← slot, carries, said] at place
    cases place

/-- An entry that is being replaced is filled. -/
theorem Consistent.filled_of_victim (consistent : Consistent config other) {job : Probe}
    {curRid : Rid} (here : other.pc t = .probeReplace job index curRid)
    : ¬ other.Hollow index := by
  have known := consistent.sound t
  rw [here] at known
  obtain ⟨_, _, victim, _⟩ := known
  intro hollow
  rcases hollow with empty | ⟨thread, claimer, claimed⟩
  · exact consistent.ne_sentinel victim.owns.returned (victim.slot.symm.trans empty)
  · have theirs := consistent.sound thread
    rw [claimed] at theirs
    obtain ⟨searching, _, slot⟩ := theirs
    have same : claimer.oid = curRid := slot.symm.trans victim.slot
    have owner := consistent.exclusive victim.owns.writes
      (same ▸ searching.sound.owns.holds)
    rw [owner, here] at claimed
    cases claimed

/-- Where a field is accessed, both caches have the same bytes. -/
def Mirrors.At (state other : CacheState τ) : Location → Prop
  | .entry index _ => other.entries index = state.entries index
  | .tuple rid _ => rid ∈ other.published

theorem Mirrors.located (mirrors : Mirrors state other) (consistent : Consistent config other)
    {view : View τ} {field : Field} {location : Location} (live : view ∈ other.views)
    (found : view.value.locate config.schema field = some location)
    : Mirrors.At state other location := by
  have sound := consistent.views view live
  unfold QueryValue.locate at found
  split at found
  · next place index _ hit =>
      obtain rfl := Option.some.inj found
      exact mirrors.nodes index (consistent.filled_of_cached (sound.hit index hit))
  · obtain ⟨rid, there, rfl⟩ := Option.map_eq_some_iff.mp found
    change rid ∈ other.published
    rw [sound.tuple rid there]
    exact sound.published

theorem Mirrors.fetch (mirrors : Mirrors state other) {location : Location}
    (known : Mirrors.At state other location) (size : Nat)
    : other.fetch size location = state.fetch size location := by
  cases location with
  | entry index start =>
      have same : other.entries index = state.entries index := known
      rw [CacheState.fetch, CacheState.fetch, same]
  | tuple rid start => rw [CacheState.fetch, CacheState.fetch, mirrors.tuples rid known]

theorem Mirrors.store (mirrors : Mirrors state other) {location : Location}
    (known : Mirrors.At state other location) (bytes : List Byte)
    : Mirrors (state.store bytes location) (other.store bytes location) := by
  cases location with
  | entry index start =>
      have same : other.entries index = state.entries index := known
      rw [CacheState.store, CacheState.store, same]
      exact mirrors.setEntry _
  | tuple rid start =>
      refine mirrors.setTuple (fun member => ?_)
      rw [mirrors.tuples rid member]

variable [DecidableEq τ]

/-- The same move of one thread. An entry that it leaves behind is filled. -/
theorem Mirrors.goto (mirrors : Mirrors state other) {pc : Pc} (same : pc.Trails pc)
    (leaves
      : ∀ job index, other.pc t = .probePut job index
        → other.entries index = state.entries index)
    : Mirrors (state.goto t pc) (other.goto t pc) :=
  { mirrors with
    pc := by
      intro thread
      change (Function.update state.pc t pc thread).Trails (Function.update other.pc t pc thread)
      rw [Function.update_apply, Function.update_apply]
      split
      · exact same
      · exact mirrors.pc thread
    nodes := by
      intro index filled
      by_cases hollow : other.Hollow index
      · rcases hollow with empty | ⟨thread, job, claimed⟩
        · exact absurd (.inl empty) filled
        · by_cases here : thread = t
          · subst here
            exact leaves job index claimed
          · refine absurd (.inr ⟨thread, job, ?_⟩) filled
            exact (Function.update_of_ne here ..).trans claimed
      · exact mirrors.nodes index hollow }

/-- The usual case: the thread leaves no entry behind. -/
theorem Mirrors.onward (mirrors : Mirrors state other) {before pc : Pc}
    (there : other.pc t = before) (same : pc.Trails pc)
    (free : ∀ job index, before ≠ .probePut job index)
    : Mirrors (state.goto t pc) (other.goto t pc) :=
  mirrors.goto same (fun job index claimed => absurd (there.symm.trans claimed) (free job index))

theorem Mirrors.view (mirrors : Mirrors state other) {before : Pc} {query : List Field}
    (there : other.pc t = before) (value : QueryValue)
    (free : ∀ job index, before ≠ .probePut job index)
    : Mirrors (state.view t rid query value).1 (other.view t rid query value).1 := by
  refine Mirrors.onward ?_ there rfl free
  exact { mirrors with views := congrArg (_ :: ·) mirrors.views }

/-- `insert` stores its tuple and returns. -/
theorem Mirrors.publish (mirrors : Mirrors state other) {val : Image Byte}
    (there : other.pc t = .insertStore rid val)
    : Mirrors
        ({ state.setTuple rid val with published := rid :: state.published }.goto t .idle)
        ({ other.setTuple rid val with published := rid :: other.published }.goto t .idle) := by
  refine Mirrors.onward ?_ there rfl (by simp)
  refine { mirrors with published := congrArg (rid :: ·) mirrors.published, tuples := ?_ }
  intro record member
  change Function.update other.storage rid val record = Function.update state.storage rid val record
  rw [Function.update_apply, Function.update_apply]
  split
  · rfl
  · next elsewhere =>
      exact mirrors.tuples record ((List.mem_cons.mp member).resolve_left elsewhere)

/-- A thread claims an entry that is empty in both. -/
theorem Mirrors.claim (mirrors : Mirrors state other) {job : Probe} {p : Nat}
    (there : other.pc t = .probeClaim job p index)
    : Mirrors
        ((state.setEntry index { state.entries index with rid := job.rid }).goto t
          (.probePut job index))
        ((other.setEntry index { other.entries index with rid := job.rid }).goto t
          (.probePut job index)) := by
  have moved : Mirrors (state.goto t (.probePut job index)) (other.goto t (.probePut job index)) :=
    mirrors.onward there rfl (by simp)
  refine
    { moved with
      rids := fun slot => ?_
      marks := fun slot => ?_
      nodes := fun slot filled => ?_ }
  · change (Function.update other.entries index _ slot).rid
      = (Function.update state.entries index _ slot).rid
    rw [Function.update_apply, Function.update_apply]
    split
    · rfl
    · exact mirrors.rids slot
  · change NodeMeta.isRefed (Function.update other.entries index _ slot).nodeMeta.data = true
      → NodeMeta.isRefed (Function.update state.entries index _ slot).nodeMeta.data = true
    rw [Function.update_apply, Function.update_apply]
    split
    · exact mirrors.marks index
    · exact mirrors.marks slot
  · have elsewhere : slot ≠ index := by
      intro here
      exact filled (.inr ⟨t, job, here ▸ Function.update_self ..⟩)
    have kept : Function.update other.entries index { other.entries index with rid := job.rid } slot
        = other.entries slot :=
      Function.update_of_ne elsewhere ..
    refine (kept.trans (moved.nodes slot (fun hollow => filled (hollow.imp ?_ id)))).trans
      (Function.update_of_ne elsewhere ..).symm
    exact (congrArg ClockNode.rid kept).trans

/-- A call starts in both. -/
theorem Mirrors.start {move : CacheMove τ} (mirrors : Mirrors state other)
    (consistent : Consistent config other) (here : state.pc t = .idle)
    (moved : state.start config t move = some (next, event))
    : ∃ last, other.start config t move = some (last, event) ∧ Mirrors next last := by
  have there : other.pc t = .idle := by
    have trails := mirrors.pc t
    rw [here] at trails
    exact trails
  cases move with
  | insert rid val =>
      simp only [CacheState.start, guarded_eq_some] at moved
      obtain ⟨fresh, rfl, rfl⟩ := moved
      rw [← mirrors.allocated] at fresh
      refine ⟨_, if_pos fresh, Mirrors.onward ?_ there rfl (by simp)⟩
      exact { mirrors.setOid _ with allocated := congrArg (rid :: ·) mirrors.allocated }
  | read rid query =>
      simp only [CacheState.start, guarded_eq_some] at moved
      obtain ⟨allowed, rfl, rfl⟩ := moved
      rw [← mirrors.published, ← mirrors.oids] at allowed
      exact ⟨_, if_pos allowed, mirrors.onward there rfl (by simp)⟩
  | readAndPromote rid query =>
      simp only [CacheState.start, guarded_eq_some] at moved
      obtain ⟨allowed, rfl, rfl⟩ := moved
      rw [← mirrors.published, ← mirrors.oids] at allowed
      refine ⟨_, if_pos allowed, Mirrors.onward ?_ there rfl (by simp)⟩
      have kept : other.viewsWithout t rid = state.viewsWithout t rid := by
        rw [viewsWithout, viewsWithout, mirrors.views]
      exact { mirrors with views := kept }
  | lock rid op =>
      simp only [CacheState.start, guarded_eq_some] at moved
      obtain ⟨allowed, rfl, rfl⟩ := moved
      rw [← mirrors.published] at allowed
      exact ⟨_, if_pos allowed, mirrors.onward there rfl (by simp)⟩
  | drop rid kind =>
      simp only [CacheState.start] at moved
      split at moved
      · cases moved
      · next oid label dropped =>
          obtain ⟨rfl, rfl⟩ := Prod.mk.inj (Option.some.inj moved)
          rw [← mirrors.oids] at dropped
          refine ⟨_, by simp only [CacheState.start, dropped]; rfl, ?_⟩
          refine { mirrors.setOid oid with views := ?_ }
          simp only [viewsWithout, mirrors.views]
  | getValue view field =>
      simp only [CacheState.start, guarded_eq_some] at moved
      obtain ⟨allowed, rfl, rfl⟩ := moved
      rw [← mirrors.views] at allowed
      refine ⟨other, ?_, mirrors⟩
      rw [CacheState.start, if_pos allowed]
      cases found : view.value.locate config.schema field with
      | none => rfl
      | some location =>
          have same := mirrors.fetch (mirrors.located consistent allowed.1 found) field.size
          rw [Option.map_some, Option.map_some, same]
  | getValueMut view field bytes =>
      simp only [CacheState.start, Option.ite_none_right_eq_some, Option.map_eq_some_iff,
        Prod.mk.injEq] at moved
      obtain ⟨allowed, location, found, rfl, rfl⟩ := moved
      rw [← mirrors.views, ← mirrors.oids] at allowed
      refine ⟨_, ?_, mirrors.store (mirrors.located consistent allowed.1 found) bytes⟩
      rw [CacheState.start, if_pos allowed, found, Option.map_some]
  | advance choice => cases moved

end Mirrors

/-! ### Passing by an entry -/

/-- Steps of one thread inside a call, none of which returns anything. -/
inductive Silent [DecidableEq τ] (config : CacheConfig) (t : τ) (state : CacheState τ)
    : CacheState τ → Prop
  | refl : Silent config t state state
  | step {middle next choice} (earlier : Silent config t state middle)
    (moved : middle.resume config t choice = some (next, .pending))
    : Silent config t state next

section Passing

variable [DecidableEq τ] {config : CacheConfig} {state next other : CacheState τ} {t : τ}
  {job : Probe} {p : Nat} {index : Word} {curRid : Rid}

section Operation

variable {rid : Rid} {op : LockOp} {after : After} {oid moved : LockedOid τ} {choice : Bool}
  {label : LockEvent}

theorem step_inside (taken : oid.resume t choice = some (moved, label))
    : (((other.setOid rid oid).goto t (.oid rid op after true)).oids rid).step t
        (if true then .advance choice else .call op)
      = some (moved, label) := by
  have word : ((other.setOid rid oid).goto t (.oid rid op after true)).oids rid = oid :=
    Function.update_self ..
  rw [word]
  exact taken

/-- A step inside an operation on a word. -/
theorem Silent.inside
    (earlier : Silent config t state ((other.setOid rid oid).goto t (.oid rid op after true)))
    (taken : oid.resume t choice = some (moved, .pending))
    : Silent config t state ((other.setOid rid moved).goto t (.oid rid op after true)) := by
  have step : ((other.setOid rid oid).goto t (.oid rid op after true)).resume config t choice
      = some (_, .pending) :=
    resume_pending (goto_pc (other.setOid rid oid) t (.oid rid op after true)) (step_inside taken)
  rw [goto_setOid, setOid_setOid, goto_goto] at step
  exact earlier.step step

/-- The operation returns. -/
theorem Silent.returns {pc : Pc}
    (earlier : Silent config t state ((other.setOid rid oid).goto t (.oid rid op after true)))
    (taken : oid.resume t choice = some (moved, label)) (done : label ≠ .pending)
    (control : after.next rid label = some pc)
    (keeps : after.returns rid other.returned = other.returned)
    (quiet : after.label rid label = .pending)
    : Silent config t state ((other.setOid rid moved).goto t pc) := by
  have step : ((other.setOid rid oid).goto t (.oid rid op after true)).resume config t choice
      = some (_, after.label rid label) :=
    resume_done (goto_pc (other.setOid rid oid) t (.oid rid op after true)) (step_inside taken)
      done control keeps
  rw [goto_setOid, setOid_setOid, goto_goto, quiet] at step
  exact earlier.step step

end Operation

/-- A `try_write` that fails, because the lock is taken or for no reason at all. -/
theorem Silent.tryWrite
    (earlier
      : Silent config t state (other.goto t (.oid curRid .tryWrite (.tried job p index) false)))
    (resting : (other.oids curRid).pc t = .idle)
    : Silent config t state (other.goto t (.probing job (p + 1))) := by
  have point (pc : LockPc) : ((other.oids curRid).moveTo t pc).pc t = pc :=
    Function.update_self ..
  have word (pc : LockPc) : ((other.oids curRid).moveTo t pc).data = (other.oids curRid).data :=
    rfl
  have called : (other.oids curRid).step t (.call .tryWrite)
      = some ((other.oids curRid).moveTo t .tryWriteLoad, .pending) := by
    simp [LockedOid.step, LockedOid.begin, resting]
  have entered : (other.goto t (.oid curRid .tryWrite (.tried job p index) false)).resume config t
      false = some (_, .pending) :=
    resume_pending (goto_pc other t _) called
  rw [goto_setOid, goto_goto] at entered
  have loading := earlier.step entered
  have ends : Silent config t state
      ((other.setOid curRid ((other.oids curRid).moveTo t .idle)).goto t
        (.probing job (p + 1))) := by
    by_cases busy : hasLock (other.oids curRid).data = true
    · have failed : ((other.oids curRid).moveTo t .tryWriteLoad).resume t false
          = some ((other.oids curRid).moveTo t .idle, .failed .writeLockBusy) := by
        simp [LockedOid.resume, point, word, busy]
      exact loading.returns failed (by simp) rfl rfl rfl
    · have loaded : ((other.oids curRid).moveTo t .tryWriteLoad).resume t false
          = some ((other.oids curRid).moveTo t (.tryWriteCas (other.oids curRid).data),
            .pending) := by
        simp [LockedOid.resume, point, word, busy]
      have failed : ((other.oids curRid).moveTo t (.tryWriteCas (other.oids curRid).data)).resume t
            true
          = some ((other.oids curRid).moveTo t .idle, .failed .lockBusy) := by
        simp [LockedOid.resume, point]
      exact (loading.inside loaded).returns failed (by simp) rfl rfl rfl
  rwa [moveTo_resting resting, setOid_same] at ends

/-- A thread that has found an entry taken can always pass by, and leave its reference bit clear. -/
theorem Consistent.passes (consistent : Consistent config other)
    (here : other.pc t = .probeRef job p index curRid)
    : Silent config t other
        ((other.setEntry index (other.entries index).clearRef).goto t (.probing job (p + 1))) := by
  have resting : (other.oids curRid).pc t = .idle :=
    (consistent.calls t).resting curRid (fun _ _ => by rw [here]; simp)
  cases refed : NodeMeta.isRefed (other.entries index).nodeMeta.data with
  | true =>
      have loaded : other.resume config t false
          = some (other.goto t (.probeClear job p index (other.entries index).nodeMeta.data),
            .pending) := by
        simp only [CacheState.resume, here, refed, if_true]
      have cleared
          : (other.goto t (.probeClear job p index (other.entries index).nodeMeta.data)).resume
              config t false
            = some ((other.setEntry index (other.entries index).clearRef).goto t
              (.probing job (p + 1)), .pending) := by
        simp [CacheState.resume, goto, setEntry, ClockNode.clearRef]
      exact (Silent.refl.step loaded).step cleared
  | false =>
      have tried : other.resume config t false
          = some (other.goto t (.oid curRid .tryWrite (.tried job p index) false), .pending) := by
        simp [CacheState.resume, here, refed]
      have kept : other.setEntry index (other.entries index).clearRef = other := by
        rw [ClockNode.clearRef_of_clear refed, setEntry, Function.update_eq_self]
      rw [kept]
      exact (Silent.refl.step tried).tryWrite resting

end Passing

/-! ### Every step is mirrored -/

section Steps

variable [DecidableEq τ] {config : CacheConfig} {state next other : CacheState τ} {t : τ}
  {event : CacheEvent}

theorem Probe.settle_trails (job : Probe) (index : Word) (evicted : Option Evicted)
    : (job.settle index evicted).Trails (job.settle index evicted) := by
  cases evicted with
  | none =>
      change (job.conclude index).Trails (job.conclude index)
      unfold Probe.conclude
      cases job.caller <;> rfl
  | some old => rfl

theorem After.next_trails {after : After} {rid : Rid} {label : LockEvent} {pc : Pc}
    (control : after.next rid label = some pc)
    : pc.Trails pc := by
  unfold After.next at control
  split at control
  case h_8 job index evicted _ =>
    obtain rfl := Option.some.inj control
    unfold Probe.finish
    split
    · exact job.settle_trails index evicted
    · rfl
  case h_9 job index _ =>
    obtain rfl := Option.some.inj control
    exact job.settle_trails index none
  case h_10 => cases control
  all_goals
    obtain rfl := Option.some.inj control
    rfl

omit [DecidableEq τ] in
theorem Mirrors.there (mirrors : Mirrors state other) {pc : Pc} (here : state.pc t = pc)
    : pc.Trails (other.pc t) :=
  here ▸ mirrors.pc t

section Step

variable {yes no yes' no' : CacheState τ} {first second : CacheEvent}

omit [DecidableEq τ] in
theorem Mirrors.plain (moved : some (yes, first) = some (next, event)) (mirrors : Mirrors yes yes')
    : ∃ last, some (yes', first) = some (last, event) ∧ Mirrors next last := by
  obtain ⟨rfl, rfl⟩ := Prod.mk.inj (Option.some.inj moved)
  exact ⟨yes', rfl, mirrors⟩

omit [DecidableEq τ] in
theorem Mirrors.branch {flag : Prop} [Decidable flag]
    (moved : (if flag then some (yes, first) else some (no, second)) = some (next, event))
    (mirrors : Mirrors yes yes') (orElse : Mirrors no no')
    : ∃ last, (if flag then some (yes', first) else some (no', second)) = some (last, event)
      ∧ Mirrors next last := by
  by_cases holds : flag
  · rw [if_pos holds] at moved ⊢
    exact plain moved mirrors
  · rw [if_neg holds] at moved ⊢
    exact plain moved orElse

end Step

/-- Away from the reference bits a step inside a call is the same in both. -/
theorem Mirrors.resume_same {choice : Bool} (mirrors : Mirrors state other)
    (consistent : Consistent config other)
    (loads : ∀ job p index curRid, state.pc t ≠ .probeRef job p index curRid)
    (clears : ∀ job p index data, state.pc t ≠ .probeClear job p index data)
    (moved : state.resume config t choice = some (next, event))
    : ∃ last, other.resume config t choice = some (last, event) ∧ Mirrors next last := by
  have known := consistent.sound t
  cases here : state.pc t with
  | idle => simp [CacheState.resume, here] at moved
  | oid rid op after entered =>
      have there : other.pc t = .oid rid op after entered := mirrors.there here
      simp only [CacheState.resume, here] at moved
      simp only [CacheState.resume, there, mirrors.oids]
      split at moved
      · cases moved
      · next oid stepped =>
          obtain ⟨rfl, rfl⟩ := Prod.mk.inj (Option.some.inj moved)
          refine ⟨_, rfl, ?_⟩
          rw [mirrors.returned]
          exact Mirrors.onward ((mirrors.setOid oid).setReturned _) there rfl (by simp)
      · next oid label returned stepped =>
          obtain ⟨pc, control, same⟩ := Option.map_eq_some_iff.mp moved
          obtain ⟨rfl, rfl⟩ := Prod.mk.inj same
          refine ⟨_, by rw [control]; rfl, ?_⟩
          rw [mirrors.returned]
          exact Mirrors.onward ((mirrors.setOid oid).setReturned _) there
            (After.next_trails control) (by simp)
  | insertIsRid rid val =>
      have there : other.pc t = .insertIsRid rid val := mirrors.there here
      simp only [CacheState.resume, here, guarded_eq_some] at moved
      obtain ⟨flag, rfl, rfl⟩ := moved
      refine ⟨_, ?_, mirrors.onward there rfl (by simp)⟩
      simp only [CacheState.resume, there, mirrors.oids, flag, if_true]
  | insertToRid rid val =>
      have there : other.pc t = .insertToRid rid val := mirrors.there here
      simp only [CacheState.resume, here] at moved
      simp only [CacheState.resume, there, mirrors.oids]
      exact plain moved (mirrors.onward there rfl (by simp))
  | insertStore rid val =>
      have there : other.pc t = .insertStore rid val := mirrors.there here
      simp only [CacheState.resume, here] at moved
      simp only [CacheState.resume, there]
      exact plain moved (mirrors.publish there)
  | readIsCached rid query promote =>
      have there : other.pc t = .readIsCached rid query promote := mirrors.there here
      simp only [CacheState.resume, here] at moved
      simp only [CacheState.resume, there, mirrors.oids]
      exact branch moved (mirrors.onward there rfl (by simp)) (mirrors.onward there rfl (by simp))
  | readIndex rid query =>
      have there : other.pc t = .readIndex rid query := mirrors.there here
      simp only [CacheState.resume, here] at moved
      simp only [CacheState.resume, there, mirrors.oids]
      exact plain moved (mirrors.onward there rfl (by simp))
  | readSetRef rid query index =>
      have there : other.pc t = .readSetRef rid query index := mirrors.there here
      simp only [CacheState.resume, here] at moved
      simp only [CacheState.resume, there]
      exact plain moved ((mirrors.setRef choice).onward there rfl (by simp))
  | readEntry rid query index =>
      have there : other.pc t = .readEntry rid query index := mirrors.there here
      simp only [CacheState.resume, here] at moved
      simp only [CacheState.resume, there, mirrors.rids]
      exact branch moved (mirrors.view there _ (by simp)) (mirrors.view there _ (by simp))
  | readRid rid query promote =>
      have there : other.pc t = .readRid rid query promote := mirrors.there here
      simp only [CacheState.resume, here] at moved
      simp only [CacheState.resume, there, mirrors.oids]
      exact branch moved (mirrors.onward there rfl (by simp)) (mirrors.view there _ (by simp))
  | promoteRid rid query =>
      have there : other.pc t = .promoteRid rid query := mirrors.there here
      simp only [CacheState.resume, here] at moved
      simp only [CacheState.resume, there, mirrors.oids]
      exact branch moved (mirrors.view there _ (by simp)) (mirrors.onward there rfl (by simp))
  | promoteCopy rid query tupleRid =>
      have there : other.pc t = .promoteCopy rid query tupleRid := mirrors.there here
      rw [there] at known
      obtain ⟨published, _, _, rfl⟩ := known
      simp only [CacheState.resume, here] at moved
      simp only [CacheState.resume, there, mirrors.tuples tupleRid published]
      exact branch moved (mirrors.onward there rfl (by simp)) (mirrors.view there _ (by simp))
  | probing job p =>
      have there : other.pc t = .probing job p := mirrors.there here
      simp only [CacheState.resume, here] at moved
      simp only [CacheState.resume, there, mirrors.hand, mirrors.rids]
      split at moved
      · next within =>
          have swept (hand : τ → Nat) : Mirrors { state with hand } { other with hand } :=
            { mirrors with hand := rfl }
          rw [if_pos within]
          exact branch moved ((swept _).onward there rfl (by simp))
            ((swept _).onward there rfl (by simp))
      · next beyond =>
          rw [if_neg beyond]
          split at moved
          · exact plain moved (mirrors.onward there rfl (by simp))
          · exact plain moved (mirrors.view there _ (by simp))
  | probeClaim job p index =>
      have there : other.pc t = .probeClaim job p index := mirrors.there here
      simp only [CacheState.resume, here] at moved
      simp only [CacheState.resume, there, mirrors.rids]
      exact branch moved (mirrors.claim there) (mirrors.onward there rfl (by simp))
  | probePut job index =>
      have there : other.pc t = .probePut job index := mirrors.there here
      simp only [CacheState.resume, here, Option.some.injEq, Prod.mk.injEq] at moved
      obtain ⟨rfl, rfl⟩ := moved
      refine ⟨_, by simp only [CacheState.resume, there]; rfl, ?_⟩
      refine (mirrors.setEntry job.node).goto rfl (fun claimer slot claimed => ?_)
      obtain ⟨_, rfl⟩ := Pc.probePut.inj (there.symm.trans claimed)
      simp only [CacheState.setEntry, Function.update_self]
  | probeRef job p index curRid => exact absurd here (loads job p index curRid)
  | probeClear job p index data => exact absurd here (clears job p index data)
  | probeValidate job p index curRid =>
      have there : other.pc t = .probeValidate job p index curRid := mirrors.there here
      simp only [CacheState.resume, here] at moved
      simp only [CacheState.resume, there, mirrors.rids]
      exact branch moved (mirrors.onward there rfl (by simp)) (mirrors.onward there rfl (by simp))
  | probeVictimRid job index curRid =>
      have there : other.pc t = .probeVictimRid job index curRid := mirrors.there here
      simp only [CacheState.resume, here] at moved
      simp only [CacheState.resume, there, mirrors.rids]
      exact plain moved (mirrors.onward there rfl (by simp))
  | probeReplace job index curRid =>
      have there : other.pc t = .probeReplace job index curRid := mirrors.there here
      have filled := mirrors.nodes index (consistent.filled_of_victim there)
      simp only [CacheState.resume, here] at moved
      simp only [CacheState.resume, there, filled]
      exact plain moved ((mirrors.setEntry job.node).onward there rfl (by simp))
  | probeSetRef job index evicted =>
      have there : other.pc t = .probeSetRef job index evicted := mirrors.there here
      simp only [CacheState.resume, here] at moved
      simp only [CacheState.resume, there]
      exact plain moved ((mirrors.setRef choice).onward there (job.settle_trails index evicted)
        (by simp))
  | evictWriteBack job index evicted =>
      have there : other.pc t = .evictWriteBack job index evicted := mirrors.there here
      simp only [CacheState.resume, here, Option.some.injEq, Prod.mk.injEq] at moved
      obtain ⟨rfl, rfl⟩ := moved
      refine ⟨_, by simp only [CacheState.resume, there]; rfl, ?_⟩
      refine Mirrors.onward (mirrors.setTuple (fun member => ?_)) there rfl (by simp)
      rw [mirrors.tuples _ member]

/-- A step inside a call is made in the new cache, too, or passed over there in silence. -/
theorem Mirrors.resume {choice : Bool} (mirrors : Mirrors state other)
    (consistent : Consistent config other) (marked : Marked config state)
    (markedToo : Marked config other)
    (moved : state.resume config t choice = some (next, event))
    : (∃ last, other.resume config t choice = some (last, event) ∧ Mirrors next last)
      ∨ event = .pending ∧ ∃ last, Silent config t other last ∧ Mirrors next last := by
  cases here : state.pc t with
  | probeRef job p index curRid =>
      have there : other.pc t = .probeRef job p index curRid := mirrors.there here
      simp only [CacheState.resume, here] at moved
      split at moved
      · obtain ⟨rfl, rfl⟩ := Prod.mk.inj (Option.some.inj moved)
        refine .inr ⟨rfl, other, .refl, { mirrors with pc := fun thread => ?_ }⟩
        change (Function.update state.pc t _ thread).Trails (other.pc thread)
        rw [Function.update_apply]
        split
        · next same => exact same ▸ ⟨curRid, there⟩
        · exact mirrors.pc thread
      · next clear =>
          obtain ⟨rfl, rfl⟩ := Prod.mk.inj (Option.some.inj moved)
          refine .inl ⟨_, ?_, mirrors.onward there rfl (by simp)⟩
          simp only [CacheState.resume, there]
          exact if_neg (fun refed => clear (mirrors.marks index refed))
  | probeClear job p index data =>
      obtain ⟨curRid, there⟩ : ∃ curRid, other.pc t = .probeRef job p index curRid :=
        mirrors.there here
      have plain := marked.points t
      rw [here] at plain
      simp only [CacheState.resume, here] at moved
      obtain ⟨rfl, rfl⟩ := Prod.mk.inj (Option.some.inj moved)
      refine .inr ⟨rfl, _, consistent.passes there, ?_⟩
      refine Mirrors.onward (mirrors.tint (fun refed => ?_) (fun _ => ?_)) there rfl (by simp)
      · rw [NodeMeta.isRefed_cleared] at refed
        cases refed
      · exact (markedToo.entries index).trans plain.2.symm
  | _ => exact .inl (mirrors.resume_same consistent (by simp [here]) (by simp [here]) moved)

/-- A call starts in the new cache, too. -/
theorem Mirrors.call {move : CacheMove τ} (mirrors : Mirrors state other)
    (consistent : Consistent config other) (starts : ∀ choice, move ≠ .advance choice)
    (taken : state.step config t move = some (next, event))
    : ∃ last, other.step config t move = some (last, event) ∧ Mirrors next last := by
  obtain ⟨here, started⟩ := step_start starts taken
  have there : other.pc t = .idle := mirrors.there here
  obtain ⟨last, answered, mirrored⟩ := mirrors.start consistent here started
  refine ⟨last, ?_, mirrored⟩
  cases move with
  | advance choice => exact absurd rfl (starts choice)
  | _ =>
      simp only [CacheState.step, there]
      exact answered

end Steps

end Alchemy.Cache
