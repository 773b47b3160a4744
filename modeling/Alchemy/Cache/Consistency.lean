import Alchemy.Cache.Ownership

/-! The invariant of the shared cache, and the rule that proves it step by step.
Words and entries point at each other, except for the pairs a thread is just moving. A step
obeys `Guarantee`: it touches only what the guards of its thread allow, so the knowledge of
every other thread survives, and only the mover's own part is left to check.
-/

namespace Alchemy.Cache

open Oid ByteImage CacheState

variable {τ : Type}

/-- An entry whose rid the word of the record does not confirm, because the thread is about
to store the index, or has just stored the rid.
-/
def Pc.transit : Pc → Option (Word × Rid)
  | .probePut job index => some (index, job.oid)
  | .probeReplace _ index curRid => some (index, curRid)
  | .oid _ _ (.placed job index _) _ => some (index, job.oid)
  | _ => none

/-- The thread is inside an operation of the lock machine. -/
def Pc.entered : Pc → Bool
  | .oid _ _ _ entered => entered
  | _ => false

section Invariant

variable (config : CacheConfig) (state : CacheState τ)

/-- Words and entries agree. -/
structure Directory : Prop where
  cached : ∀ rid index, state.place rid = .cached index
    → rid ∈ state.returned ∧ index.toNat < config.capacity ∧ (state.entries index).rid = rid
  uncached : ∀ rid ∈ state.returned, ∀ said, state.place rid = .rid said → said = rid
  slots : ∀ index, (state.entries index).rid ≠ sentinel
    → (state.entries index).rid ∈ state.returned
      ∧ (state.place (state.entries index).rid = .cached index
        ∨ ∃ t, (state.pc t).transit = some (index, (state.entries index).rid))

/-- A live query value refers to where its record is, and its owner keeps a guard on it. -/
structure View.Sound (view : View τ) : Prop where
  published : view.rid ∈ state.published
  held : state.Holds view.owner view.rid
  hit : ∀ index, view.value.field = some index → state.place view.rid = .cached index
  miss : view.value.field = none
    → state.place view.rid = .rid view.rid ∧ view.value.tuple = some view.rid
  tuple : ∀ rid ∈ view.value.tuple, rid = view.rid
  matched : view.value.tuple = none → config.schema.matchesQuery view.query = true

/-- The lock machines agree with the thread's program point. -/
structure CacheState.Calls (t : τ) : Prop where
  inside : ∀ rid op after, state.pc t = .oid rid op after true
    → op.Inside ((state.oids rid).pc t)
  resting : ∀ rid, (∀ op after, state.pc t ≠ .oid rid op after true)
    → (state.oids rid).pc t = .idle

/-- The invariant of the cache. -/
structure Consistent : Prop where
  safe : ∀ rid, (state.oids rid).Safe
  middle : ∀ rid, middleBits (state.oids rid).data = 0#16
  untouched : ∀ rid, rid ∉ state.allocated → state.oids rid = .fresh 0#64
  valid : sentinel ∉ state.allocated
  returned : ∀ rid ∈ state.returned, rid ∈ state.allocated
  published : ∀ rid ∈ state.published, rid ∈ state.returned
  calls : ∀ t, state.Calls t
  sound : ∀ t, (state.pc t).Sound config state t
  alone : ∀ t other rid, (state.pc t).allocating = some rid
    → (state.pc other).allocating = some rid → t = other
  directory : Directory config state
  views : ∀ view ∈ state.views, view.Sound config state

end Invariant

section Facts

variable {config : CacheConfig} {state : CacheState τ} {t other : τ} {rid : Rid}

/-- A write guard excludes the guards of all other threads. -/
theorem Consistent.exclusive (consistent : Consistent config state)
    (writes : state.Writes t rid) (held : state.Holds other rid)
    : other = t := by
  obtain ⟨guard, member, rfl⟩ := held
  exact (consistent.safe rid).exclusive writes member

theorem Consistent.allocated_of_holds (consistent : Consistent config state)
    (held : state.Holds t rid)
    : rid ∈ state.allocated := by
  by_contra fresh
  obtain ⟨guard, member, _⟩ := held
  rw [consistent.untouched rid fresh] at member
  exact List.not_mem_nil member

theorem Consistent.ne_sentinel (consistent : Consistent config state)
    (returned : rid ∈ state.returned)
    : rid ≠ sentinel :=
  fun same => consistent.valid (same ▸ consistent.returned rid returned)

/-- A record that is not returned has no query value. -/
theorem Consistent.unseen_of_unreturned (consistent : Consistent config state)
    (fresh : rid ∉ state.returned)
    : state.Unseen rid := by
  intro view live same
  exact fresh (same ▸ consistent.published _ (consistent.views view live).published)

/-- Records are allocated before any thread operates on their words. -/
theorem Consistent.allocated_of_after (consistent : Consistent config state) {op : LockOp}
    {after : After} (sound : after.Sound config state t rid op)
    : rid ∈ state.allocated := by
  have published := consistent.published rid
  have returned := consistent.returned rid
  cases after with
  | user => exact returned (published sound.2)
  | allocGuard val => exact sound.2.1
  | allocStored val => exact sound.2.1
  | tried job p index => exact returned sound.2.2.2
  | abandoned job p => exact returned sound.2.2.2.returned
  | retired job index => exact returned sound.2.2.2.owns.returned
  | placed job index evicted =>
      obtain ⟨_, rfl, searching, _⟩ := sound
      exact returned searching.sound.owns.returned
  | released job index => exact returned sound.2.2.2.returned

theorem Consistent.allocated_of_allocating (consistent : Consistent config state)
    (allocating : (state.pc t).allocating = some rid)
    : rid ∈ state.allocated := by
  have sound := consistent.sound t
  unfold Pc.allocating at allocating
  split at allocating
  · next here =>
      obtain rfl := Option.some.inj allocating
      rw [here, Pc.Sound] at sound
      exact consistent.allocated_of_after sound
  · next here =>
      obtain rfl := Option.some.inj allocating
      rw [here, Pc.Sound] at sound
      exact consistent.allocated_of_after sound
  · cases allocating

/-- A pair in transit belongs to the thread that moves it. -/
theorem Pc.Sound.transit {pc : Pc} {index : Word} (sound : pc.Sound config state t)
    (moving : pc.transit = some (index, rid))
    : state.Owns t rid ∧ state.place rid = .rid rid := by
  cases pc with
  | probePut job slot =>
      obtain ⟨rfl, rfl⟩ := Prod.mk.inj (Option.some.inj moving)
      exact ⟨sound.1.sound.owns, sound.1.place⟩
  | probeReplace job slot curRid =>
      obtain ⟨rfl, rfl⟩ := Prod.mk.inj (Option.some.inj moving)
      exact ⟨sound.2.2.1.owns, sound.2.2.2⟩
  | oid rid op after entered =>
      cases after with
      | placed job slot evicted =>
          obtain ⟨rfl, rfl⟩ := Prod.mk.inj (Option.some.inj moving)
          obtain ⟨_, _, searching, _⟩ := sound
          exact ⟨searching.sound.owns, searching.place⟩
      | _ => cases moving
  | _ => cases moving

/-- No two entries carry the same rid. Witness: the word points at one entry at most, and a
pair in transit has a thread of its own and a word that points nowhere.
-/
theorem Consistent.slot_unique (consistent : Consistent config state) {first second : Word}
    (carries : (state.entries first).rid = rid) (carriesToo : (state.entries second).rid = rid)
    (valid : rid ≠ sentinel)
    : first = second := by
  obtain ⟨_, left⟩ := consistent.directory.slots first (carries ▸ valid)
  obtain ⟨_, right⟩ := consistent.directory.slots second (carriesToo ▸ valid)
  rw [carries] at left
  rw [carriesToo] at right
  have moved {t : τ} {index : Word} (moving : (state.pc t).transit = some (index, rid)) :=
    (consistent.sound t).transit moving
  rcases left with left | ⟨t, left⟩ <;> rcases right with right | ⟨other, right⟩
  · exact Place.cached.inj (left.symm.trans right)
  · exact absurd (left.symm.trans (moved right).2) (by simp)
  · exact absurd (right.symm.trans (moved left).2) (by simp)
  · obtain rfl := consistent.exclusive (moved left).1.writes (moved right).1.holds
    exact (Prod.mk.inj (Option.some.inj (left.symm.trans right))).1

/-- A victim that its thread has locked and validated is still cached where it was found. -/
theorem Consistent.place_of_slot (consistent : Consistent config state) {index : Word}
    (slot : (state.entries index).rid = rid) (owns : state.Owns t rid)
    (still : (state.pc t).transit = none)
    : state.place rid = .cached index := by
  obtain ⟨_, here⟩ :=
    consistent.directory.slots index (slot ▸ consistent.ne_sentinel owns.returned)
  rw [slot] at here
  rcases here with here | ⟨other, moving⟩
  · exact here
  · obtain rfl :=
      consistent.exclusive owns.writes ((consistent.sound other).transit moving).1.holds
    rw [still] at moving
    cases moving

end Facts

section Rule

variable [DecidableEq τ]

@[simp]
theorem CacheState.goto_pc (state : CacheState τ) (t : τ) (pc : Pc)
    : (state.goto t pc).pc t = pc := by
  simp [CacheState.goto]

theorem CacheState.goto_other {state : CacheState τ} {t other : τ} (pc : Pc)
    (different : other ≠ t)
    : (state.goto t pc).pc other = state.pc other := by
  simp [CacheState.goto, different]

@[simp]
theorem CacheState.goto_entries (state : CacheState τ) (t : τ) (pc : Pc)
    : (state.goto t pc).entries = state.entries :=
  rfl

/-- What a step of thread `t` may change: words by the lock protocol, tuples and entries of
records it has write guards on, empty entries, and views of records it holds.
-/
structure Guarantee (state : CacheState τ) (t : τ) (next : CacheState τ) : Prop where
  pc : ∀ other, other ≠ t → next.pc other = state.pc other
  words : ∀ rid, next.oids rid = state.oids rid
    ∨ (rid ∈ next.allocated ∧ ∃ event, (state.oids rid).Effect t (next.oids rid) event)
  places : ∀ rid, next.place rid = state.place rid ∨ (state.Writes t rid ∧ state.Unseen rid)
  storage : ∀ rid, next.storage rid = state.storage rid ∨ state.Writes t rid
  entries : ∀ index,
    ((next.entries index).rid = (state.entries index).rid
      ∧ (next.entries index).val = (state.entries index).val)
    ∨ (((state.entries index).rid = sentinel ∨ state.Writes t (state.entries index).rid)
      ∧ state.Writes t (next.entries index).rid)
  views : ∀ view ∈ next.views,
    view ∈ state.views ∨ (view.owner = t ∧ state.Holds t view.rid)
  allocated : ∀ rid ∈ state.allocated, rid ∈ next.allocated
  newAllocated : ∀ rid ∈ next.allocated, rid ∈ state.allocated ∨ rid ≠ sentinel
  returned : ∀ rid ∈ state.returned, rid ∈ next.returned
  newReturned : ∀ rid ∈ next.returned,
    rid ∈ state.returned ∨ (state.pc t).allocating = some rid
  published : ∀ rid ∈ state.published, rid ∈ next.published
  newPublished : ∀ rid ∈ next.published, rid ∈ state.published ∨ state.Owns t rid
  allocating : ∀ rid, (next.pc t).allocating = some rid
    → (state.pc t).allocating = some rid ∨ rid ∉ state.allocated

/-- Standing still changes nothing. -/
theorem Guarantee.refl (state : CacheState τ) (t : τ) : Guarantee state t state where
  pc := fun _ _ => rfl
  words := fun _ => .inl rfl
  places := fun _ => .inl rfl
  storage := fun _ => .inl rfl
  entries := fun _ => .inl ⟨rfl, rfl⟩
  views := fun _ live => .inl live
  allocated := fun _ old => old
  newAllocated := fun _ old => .inl old
  returned := fun _ old => old
  newReturned := fun _ old => .inl old
  published := fun _ old => old
  newPublished := fun _ old => .inl old
  allocating := fun _ mine => .inl mine

/-- Nor does moving on without allocating. A step that also changes a field of the state
states what it may change of it, and takes the rest from here.
-/
theorem Guarantee.goto (state : CacheState τ) (t : τ) (pc : Pc) (still : pc.allocating = none)
    : Guarantee state t (state.goto t pc) :=
  { Guarantee.refl state t with
    pc := fun _ different => goto_other pc different
    allocating := by
      intro rid mine
      rw [goto_pc, still] at mine
      cases mine }

variable {config : CacheConfig} {state next : CacheState τ} {t other : τ}

/-- No other thread is disturbed by a step that obeys the guarantee.
Witness: its guards exclude the write guards the step would need.
-/
theorem Consistent.undisturbed (consistent : Consistent config state)
    (guarantee : Guarantee state t next) (different : other ≠ t)
    : state.Undisturbed other (state.pc other).allocating next where
  retains := by
    intro rid held
    have foreign : ¬state.Writes t rid :=
      fun writes => different (consistent.exclusive writes held)
    refine { guards := ?_, place := ?_, storage := ?_, unseen := ?_, returned := ?_,
             published := ?_, entries := ?_ }
    · intro kind member
      rcases guarantee.words rid with same | ⟨_, event, effect⟩
      · rw [same]
        exact member
      · exact effect.other_guard different member
    · exact (guarantee.places rid).resolve_right (fun touched => foreign touched.1)
    · exact (guarantee.storage rid).resolve_right foreign
    · intro writes unseen view live same
      rcases guarantee.views view live with old | ⟨_, holding⟩
      · exact unseen view old same
      · exact different (consistent.exclusive writes (same ▸ holding)).symm
    · exact guarantee.returned rid
    · constructor
      · intro member
        exact (guarantee.newPublished rid member).resolve_right (fun owns => foreign owns.writes)
      · exact guarantee.published rid
    · intro index slot
      rcases guarantee.entries index with ⟨same, val⟩ | ⟨empty | writes, _⟩
      · exact ⟨same.trans slot, val⟩
      · rw [slot] at empty
        exact absurd (empty ▸ consistent.allocated_of_holds held) consistent.valid
      · exact absurd (slot ▸ writes) foreign
  allocated := guarantee.allocated
  returned := guarantee.returned
  published := guarantee.published
  unreturned := by
    intro rid allocating fresh member
    rcases guarantee.newReturned rid member with old | mine
    · exact fresh old
    · exact different (consistent.alone other t rid allocating mine)

/-- The lock machines of another thread stay where they are. -/
theorem CacheState.Calls.undisturbed (calls : state.Calls other)
    (guarantee : Guarantee state t next) (different : other ≠ t)
    : next.Calls other := by
  have same (rid : Rid) : (next.oids rid).pc other = (state.oids rid).pc other := by
    rcases guarantee.words rid with same | ⟨_, event, effect⟩
    · rw [same]
    · exact effect.other_pc different
  refine ⟨?_, ?_⟩
  · intro rid op after here
    rw [guarantee.pc other different] at here
    rw [same]
    exact calls.inside rid op after here
  · intro rid away
    rw [guarantee.pc other different] at away
    rw [same]
    exact calls.resting rid away

/-- A query value whose owner keeps its guard stays sound: nobody may move a seen record. -/
theorem View.Sound.keep {view : View τ} (sound : view.Sound config state)
    (guarantee : Guarantee state t next) (live : view ∈ state.views)
    (held : next.Holds view.owner view.rid)
    : view.Sound config next := by
  have same : next.place view.rid = state.place view.rid :=
    (guarantee.places view.rid).resolve_right (fun touched => touched.2 view live rfl)
  exact
    { published := guarantee.published _ sound.published
      held := held
      hit := fun index here => same.trans (sound.hit index here)
      miss := fun absent => ⟨same.trans (sound.miss absent).1, (sound.miss absent).2⟩
      tuple := sound.tuple
      matched := sound.matched }

/-- No two threads allocate the same record: a newly allocated one was free before. -/
theorem Consistent.alone_step (consistent : Consistent config state)
    (guarantee : Guarantee state t next) {first second : τ} {rid : Rid}
    (left : (next.pc first).allocating = some rid)
    (right : (next.pc second).allocating = some rid)
    : first = second := by
  have clash {thread : τ} (different : thread ≠ t)
      (mine : (next.pc t).allocating = some rid)
      (theirs : (next.pc thread).allocating = some rid)
      : False := by
    rw [guarantee.pc thread different] at theirs
    rcases guarantee.allocating rid mine with before | fresh
    · exact different (consistent.alone thread t rid theirs before)
    · exact fresh (consistent.allocated_of_allocating theirs)
  by_cases mine : first = t
  · subst mine
    by_contra different
    exact clash (Ne.symm different) left right
  · by_cases mineToo : second = t
    · subst mineToo
      exact (clash mine right left).elim
    · rw [guarantee.pc first mine] at left
      rw [guarantee.pc second mineToo] at right
      exact consistent.alone first second rid left right

/-- The guarantee takes care of the other threads; what is left is the mover's own part. -/
theorem Consistent.after_step (consistent : Consistent config state)
    (guarantee : Guarantee state t next) (calls : next.Calls t)
    (sound : (next.pc t).Sound config next t) (directory : Directory config next)
    (views
      : ∀ view ∈ next.views,
          (view ∈ state.views ∧ next.Holds view.owner view.rid) ∨ view.Sound config next)
    : Consistent config next where
  safe := by
    intro rid
    rcases guarantee.words rid with same | ⟨_, event, effect⟩
    · rw [same]
      exact consistent.safe rid
    · exact (consistent.safe rid).step effect
  middle := by
    intro rid
    rcases guarantee.words rid with same | ⟨_, event, effect⟩
    · rw [same]
      exact consistent.middle rid
    · exact ((consistent.safe rid).middleBits_step effect).trans (consistent.middle rid)
  untouched := by
    intro rid fresh
    rcases guarantee.words rid with same | ⟨member, _⟩
    · rw [same]
      exact consistent.untouched rid (fun old => fresh (guarantee.allocated rid old))
    · exact absurd member fresh
  valid := by
    intro member
    exact (guarantee.newAllocated _ member).elim consistent.valid (fun valid => valid rfl)
  returned := by
    intro rid member
    rcases guarantee.newReturned rid member with old | mine
    · exact guarantee.allocated rid (consistent.returned rid old)
    · exact guarantee.allocated rid (consistent.allocated_of_allocating mine)
  published := by
    intro rid member
    rcases guarantee.newPublished rid member with old | owns
    · exact guarantee.returned rid (consistent.published rid old)
    · exact guarantee.returned rid owns.returned
  calls := by
    intro thread
    by_cases same : thread = t
    · exact same ▸ calls
    · exact (consistent.calls thread).undisturbed guarantee same
  sound := by
    intro thread
    by_cases same : thread = t
    · exact same ▸ sound
    · rw [guarantee.pc thread same]
      exact (consistent.sound thread).undisturbed (consistent.undisturbed guarantee same)
  alone := fun _ _ _ left right => consistent.alone_step guarantee left right
  directory := directory
  views := by
    intro view live
    rcases views view live with ⟨old, held⟩ | sound
    · exact (consistent.views view old).keep guarantee old held
    · exact sound

/-- A step of thread `t` that keeps to its rights and leads to a consistent cache. -/
structure Advance (config : CacheConfig) (state : CacheState τ) (t : τ) (next : CacheState τ)
    : Prop where
  guarantee : Guarantee state t next
  consistent : Consistent config next

/-- The proof rule for one step. -/
theorem Consistent.step_rule (consistent : Consistent config state)
    (guarantee : Guarantee state t next) (calls : next.Calls t)
    (sound : (next.pc t).Sound config next t) (directory : Directory config next)
    (views
      : ∀ view ∈ next.views,
          (view ∈ state.views ∧ next.Holds view.owner view.rid) ∨ view.Sound config next)
    : Advance config state t next :=
  ⟨guarantee, consistent.after_step guarantee calls sound directory views⟩

/-- A step that changes neither what the words say nor the rids of the entries, and leaves the
mover's pair in transit, keeps the directory.
-/
theorem Directory.same (directory : Directory config state)
    (pc : ∀ other, other ≠ t → next.pc other = state.pc other)
    (places : ∀ rid, next.place rid = state.place rid)
    (slots : ∀ index, (next.entries index).rid = (state.entries index).rid)
    (returned : next.returned = state.returned)
    (moving : ∀ pair, (state.pc t).transit = some pair → (next.pc t).transit = some pair)
    : Directory config next where
  cached := by
    intro rid index here
    rw [places] at here
    rw [slots, returned]
    exact directory.cached rid index here
  uncached := by
    intro rid member said here
    rw [places] at here
    rw [returned] at member
    exact directory.uncached rid member said here
  slots := by
    intro index
    rw [slots, places, returned]
    intro valid
    obtain ⟨member, here⟩ := directory.slots index valid
    refine ⟨member, here.imp_right ?_⟩
    rintro ⟨thread, transit⟩
    refine ⟨thread, ?_⟩
    by_cases same : thread = t
    · subst same
      exact moving _ transit
    · rw [pc thread same]
      exact transit

end Rule

end Alchemy.Cache
