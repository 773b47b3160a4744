import Alchemy.Cache.ContentSteps
import Alchemy.Cache.GuardAccounts

/-! What a table that is built on the cache relies on: which records there are, when a guard
is refused, and that a writer is alone, in terms of the guards its callers know of.
-/

namespace Alchemy.Oid

variable {τ : Type} [DecidableEq τ] {oid next : LockedOid τ} {t : τ}

/-- The errors of a lock that could not be taken. -/
def Busy : TransactionError → Prop
  | .readLockBusy | .writeLockBusy | .lockBusy => True
  | _ => False

theorem LockedOid.failed_busy {move : LockMove} {error : TransactionError}
    (moved : oid.step t move = some (next, .failed error))
    : Busy error := by
  cases move with
  | call op =>
      simp only [LockedOid.step, Option.ite_none_right_eq_some] at moved
      cases op with
      | read | tryRead | write | tryWrite => cases moved.2
      | _ => simp [LockedOid.begin] at moved
  | advance spurious =>
      simp only [LockedOid.step, LockedOid.resume] at moved
      split at moved
      all_goals try split at moved
      all_goals simp only [Option.some.injEq, Prod.mk.injEq, reduceCtorEq, and_false] at moved
      all_goals
        obtain ⟨_, label⟩ := moved
        cases label
        trivial

end Alchemy.Oid

namespace Alchemy.Cache

open Oid ByteImage CacheState

variable {τ : Type} [DecidableEq τ] {config : CacheConfig} {state next : CacheState τ} {t : τ}
  {event : CacheEvent} {held : τ → List (Rid × GuardKind)} {record : Rid → Image Byte}
  {rid : Rid}

/-! ### Events -/

/-- A record is there once its insertion has returned. -/
def CacheEvent.publishes (published : List Rid) : CacheEvent → List Rid
  | .inserted rid _ => rid :: published
  | _ => published

theorem CacheState.Effect.published_eq (effect : Effect config state t next event)
    : next.published = event.publishes state.published := by
  cases effect with
  | @lockDone _ _ after => cases after <;> rfl
  | wrote => exact store_published ..
  | _ => rfl

/-- Only an insertion inserts, and its record was not there before. -/
theorem CacheState.Effect.inserted_fresh {val : Image Byte}
    (effect : Effect config state t next (.inserted rid val))
    (consistent : Consistent config state)
    : rid ∉ state.published := by
  generalize same : CacheEvent.inserted rid val = event at effect
  cases effect with
  | publish here =>
      cases same
      have known := consistent.sound t
      rw [here] at known
      exact known.2.1
  | @lockDone _ _ after => cases after <;> cases same
  | _ => cases same

/-- A guard is refused because the word is locked, or the compare-exchange lost. -/
theorem CacheState.Effect.failed_busy {error : TransactionError}
    (effect : Effect config state t next (.locked rid (.failed error)))
    : Busy error := by
  generalize same : CacheEvent.locked rid (.failed error) = event at effect
  cases effect with
  | @lockDone _ _ after _ _ _ _ _ here moved =>
      cases after with
      | user =>
          cases same
          exact LockedOid.failed_busy moved
      | _ => cases same
  | drop here dropped =>
      cases same
      exact LockedOid.failed_busy dropped
  | _ => cases same

/-- A guard is granted on a record that is there. -/
theorem CacheState.Effect.granted_published {kind : GuardKind}
    (effect : Effect config state t next (.locked rid (.granted kind)))
    (consistent : Consistent config state)
    : rid ∈ state.published := by
  generalize same : CacheEvent.locked rid (.granted kind) = event at effect
  cases effect with
  | @lockDone _ _ after _ _ _ _ _ here =>
      cases after with
      | user =>
          cases same
          have known := consistent.sound t
          rw [here] at known
          exact known.2
      | _ => cases same
  | drop here dropped =>
      cases same
      cases (dropOp_returns (LockedOid.call_outcome dropped)).1
  | _ => cases same

/-! ### Guards -/

/-- A guard in the books is a guard on the word. -/
theorem CacheState.Accounted.mem_guards (accounted : state.Accounted held) {kind : GuardKind}
    (member : (rid, kind) ∈ held t)
    : ⟨t, kind⟩ ∈ (state.oids rid).guards := by
  have counted := accounted t rid kind
  have positive := List.count_pos_iff.mpr member
  exact List.count_pos_iff.mp (by omega)

/-- By the books, too, a writer is alone and holds one guard. -/
theorem CacheState.Accounted.alone (accounted : state.Accounted held)
    (consistent : Consistent config state) (writes : (rid, .write) ∈ held t)
    : (held t).count (rid, .write) = 1
      ∧ ∀ other kind, (rid, kind) ∈ held other → other = t ∧ kind = .write := by
  have only := ((consistent.safe rid).accounts.of_write (accounted.mem_guards writes)).1
  constructor
  · have counted := accounted t rid .write
    have positive := List.count_pos_iff.mpr writes
    rw [only, List.count_singleton_self] at counted
    omega
  · intro other kind member
    have guard := accounted.mem_guards member
    rw [only, List.mem_singleton] at guard
    cases guard
    exact ⟨rfl, rfl⟩

/-- No caller holds a guard that excludes one of this kind. -/
def Unheld (held : τ → List (Rid × GuardKind)) (rid : Rid) : GuardKind → Prop
  | .read => ∀ t, (rid, .write) ∉ held t
  | .write => ∀ t kind, (rid, kind) ∉ held t

/-- A guard that was granted was free. -/
theorem CacheState.Accounted.granted (consistent : Consistent config next) {kind : GuardKind}
    (accounted : next.Accounted (Function.update held t ((rid, kind) :: held t)))
    : Unheld held rid kind := by
  have kept {other : τ} {kind' : GuardKind} (member : (rid, kind') ∈ held other)
      : (rid, kind') ∈ Function.update held t ((rid, kind) :: held t) other := by
    by_cases same : other = t
    · subst same
      rw [Function.update_self]
      exact List.mem_cons_of_mem _ member
    · rwa [Function.update_of_ne same]
  have mine : (rid, kind) ∈ Function.update held t ((rid, kind) :: held t) t := by
    rw [Function.update_self]
    exact List.mem_cons_self
  cases kind with
  | read =>
      intro other member
      cases ((accounted.alone consistent (kept member)).2 t .read mine).2
  | write =>
      intro other kind' member
      obtain ⟨once, alone⟩ := accounted.alone consistent mine
      obtain ⟨rfl, rfl⟩ := alone other kind' (kept member)
      rw [Function.update_self, List.count_cons_self] at once
      have positive := List.count_pos_iff.mpr member
      omega

/-! ### Query values, clock hands and images -/

omit [DecidableEq τ] in
/-- A query value gives access to every field that is cached, from the entry or the tuple. -/
theorem View.Sound.located {view : View τ} {field place : Field}
    (sound : view.Sound config state) (cached : config.schema.toCachedField field = some place)
    : ∃ location, view.value.locate config.schema field = some location := by
  unfold QueryValue.locate
  rw [cached]
  cases hit : view.value.field with
  | some index => exact ⟨_, rfl⟩
  | none =>
      rw [(sound.miss hit).2]
      exact ⟨_, rfl⟩

/-- A store through a query value. -/
theorem step_getValueMut {view : View τ} {field : Field} {bytes : List Byte}
    (taken : state.step config t (.getValueMut view field bytes) = some (next, event))
    : ⟨t, .write⟩ ∈ (state.oids view.rid).guards ∧ event = .wrote view.rid field bytes
      ∧ next.pc t = state.pc t := by
  obtain ⟨_, started⟩ := step_start (by simp) taken
  simp only [CacheState.start, Option.ite_none_right_eq_some, Option.map_eq_some_iff,
    Prod.mk.injEq] at started
  obtain ⟨⟨_, _, held, _⟩, location, _, rfl, rfl⟩ := started
  exact ⟨held, rfl, by cases location <;> rfl⟩

/-- Dropping a guard. -/
theorem step_drop {kind : GuardKind}
    (taken : state.step config t (.drop rid kind) = some (next, event))
    : ⟨t, kind⟩ ∈ (state.oids rid).guards ∧ event = .locked rid (.dropped kind)
      ∧ next.pc t = state.pc t := by
  obtain ⟨_, started⟩ := step_start (by simp) taken
  simp only [CacheState.start] at started
  split at started
  · cases started
  · next oid label dropped =>
      obtain ⟨rfl, rfl⟩ := Prod.mk.inj (Option.some.inj started)
      obtain ⟨rfl, _⟩ := dropOp_returns (LockedOid.call_outcome dropped)
      refine ⟨?_, rfl, rfl⟩
      cases LockedOid.step_effect dropped with
      | dropRead _ member | dropWrite _ member => exact member
      | quiet isQuiet => cases isQuiet

omit [DecidableEq τ] in
/-- Records with the same declared fields have the same content. -/
theorem Content.same {image other : Image Byte} (content : Content config state rid image)
    (same : SameFields config.fields image other)
    : Content config state rid other where
  cached := fun index place => (content.cached index place).trans same
  uncached := fun place nobody => (content.uncached place nobody).trans same
  evicted := fun thread val evicting => (content.evicted thread val evicting).trans same

omit [DecidableEq τ] in
/-- A record has one content. -/
theorem Content.unique {image other : Image Byte} (consistent : Consistent config state)
    (published : rid ∈ state.published) (first : Content config state rid image)
    (second : Content config state rid other)
    : SameFields config.fields image other := by
  have joined {bytes : Image Byte} (left : SameFields config.fields bytes image)
      (right : SameFields config.fields bytes other)
      : SameFields config.fields image other :=
    fun field declared => (left field declared).symm.trans (right field declared)
  cases place : state.place rid with
  | cached index => exact joined (first.cached index place) (second.cached index place)
  | rid said =>
      obtain rfl := consistent.directory.uncached rid (consistent.published rid published) said place
      by_cases evicting : ∃ t val, state.victim t = some (said, val)
      · obtain ⟨t, val, evicting⟩ := evicting
        exact joined (first.evicted t val evicting) (second.evicted t val evicting)
      · have nobody : ∀ t val, state.victim t ≠ some (said, val) :=
          fun t val here => evicting ⟨t, val, here⟩
        exact joined (first.uncached place nobody) (second.uncached place nobody)

omit [DecidableEq τ] in
/-- Clock hands decide where a search starts, and nothing else. -/
theorem Contents.shift (contents : Contents config state record) (hand : τ → Nat)
    : Contents config { state with hand } record :=
  fun rid member =>
    (contents rid member).frame rfl rfl (fun _ _ => rfl) (fun _ _ => Iff.rfl)

theorem Consistent.shift (consistent : Consistent config state) (t : τ) (hand : τ → Nat)
    : Consistent config { state with hand } := by
  have guarantee : Guarantee state t { state with hand } :=
    { Guarantee.refl state t with }
  refine consistent.after_step guarantee ?_ ?_ ?_ ?_
  · exact ⟨(consistent.calls t).inside, (consistent.calls t).resting⟩
  · exact (consistent.sound t).undisturbed
      { retains := fun rid _ => { Retains.refl state t rid with }
        allocated := fun _ old => old
        returned := fun _ old => old
        published := fun _ old => old
        unreturned := fun _ _ fresh => fresh }
  · exact ⟨consistent.directory.cached, consistent.directory.uncached,
      consistent.directory.slots⟩
  · exact fun view live => .inl ⟨live, (consistent.views view live).held⟩

end Alchemy.Cache
