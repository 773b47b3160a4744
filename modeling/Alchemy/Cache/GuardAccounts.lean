import Alchemy.Cache.Bijection

/-! What a caller of the cache sees: the call it is in, the event that ends it, and the guards
it holds afterwards. While a call runs it holds guards of its own: the one on a record it
inserts, and the one on a record it evicts.
-/

namespace Alchemy.Oid

variable {τ : Type} [DecidableEq τ] {oid after : LockedOid τ} {t : τ} {label : LockEvent}

/-- What an event of the lock machine gives its thread, and what it takes away. -/
def LockEvent.gained : LockEvent → List GuardKind
  | .granted kind => [kind]
  | .upgraded => [.write]
  | _ => []

def LockEvent.lost : LockEvent → List GuardKind
  | .dropped kind => [kind]
  | .upgraded => [.read]
  | _ => []

/-- A thread loses only guards it has. -/
theorem LockedOid.Effect.lost_held (effect : oid.Effect t after label) (safe : oid.Safe)
    {kind : GuardKind} (gone : kind ∈ label.lost)
    : ⟨t, kind⟩ ∈ oid.guards := by
  cases effect with
  | quiet isQuiet =>
      cases label with
      | pending | kept | failed => cases gone
      | granted | upgraded | stored | dropped => cases isQuiet
  | upgrade waiting =>
      obtain rfl := List.mem_singleton.mp gone
      have known := safe.sound t
      rw [waiting] at known
      exact known.1
  | dropRead _ member | dropWrite _ member =>
      obtain rfl := List.mem_singleton.mp gone
      exact member
  | grantRead | grantWrite | storeRid | storeIndex => cases gone

/-- A step on a word changes the guards of its thread by what its event says. -/
theorem LockedOid.Effect.count_guards (effect : oid.Effect t after label) (safe : oid.Safe) (kind : GuardKind)
    : after.guards.count ⟨t, kind⟩ + label.lost.count kind
      = oid.guards.count ⟨t, kind⟩ + label.gained.count kind := by
  have erased {taken : GuardKind} (member : ⟨t, taken⟩ ∈ oid.guards)
      : (oid.guards.erase ⟨t, taken⟩).count ⟨t, kind⟩ + [taken].count kind
        = oid.guards.count ⟨t, kind⟩ := by
    have positive := List.count_pos_iff.mpr member
    by_cases same : taken = kind
    · subst same
      rw [List.count_erase_self, List.count_singleton_self]
      omega
    · rw [List.count_erase_of_ne (by simp [Ne.symm same]), List.count_singleton]
      simp [same]
  cases effect with
  | quiet isQuiet =>
      cases label with
      | pending | kept | failed => rfl
      | granted | upgraded | stored | dropped => cases isQuiet
  | grantRead | grantWrite =>
      simp only [LockedOid.grant, LockEvent.lost, LockEvent.gained, List.count_cons,
        List.count_nil]
      cases kind
      all_goals simp
  | upgrade waiting =>
      have taken := erased
        ((LockedOid.Effect.upgrade waiting).lost_held safe (List.mem_singleton_self _))
      simp only [LockEvent.lost, LockEvent.gained, List.count_cons, List.count_nil] at taken ⊢
      cases kind with
      | read =>
          simp at taken ⊢
          omega
      | write => simp
  | dropRead _ member | dropWrite _ member => exact erased member
  | storeRid | storeIndex => rfl

/-- The guards of the other threads stay as they are. -/
theorem LockedOid.Effect.count_other {other : τ}
    (effect : oid.Effect t after label) (different : other ≠ t) (kind : GuardKind)
    : after.guards.count ⟨other, kind⟩ = oid.guards.count ⟨other, kind⟩ := by
  cases effect with
  | quiet | storeRid | storeIndex => rfl
  | grantRead | grantWrite => simp [LockedOid.grant, different.symm]
  | upgrade =>
      rw [List.count_cons, List.count_erase_of_ne (by simp [different])]
      simp [different.symm]
  | dropRead | dropWrite => exact List.count_erase_of_ne (by simp [different])

end Alchemy.Oid

namespace Alchemy.Cache

open Oid ByteImage CacheState

/-! ### Calls -/

/-- A call in progress, with its arguments. -/
inductive Call
  | insert (rid : Rid) (val : Image Byte)
  | query (rid : Rid) (fields : List Field)
  | lock (rid : Rid) (op : LockOp)

def Probe.call (job : Probe) : Call :=
  match job.caller with
  | .insert val => .insert job.oid val
  | .promote query => .query job.oid query

def After.call (rid : Rid) (op : LockOp) : After → Call
  | .user => .lock rid op
  | .allocGuard val | .allocStored val => .insert rid val
  | .tried job _ _ | .abandoned job _ | .retired job _ | .placed job _ _ | .released job _ =>
      job.call

/-- The call a thread is in. -/
def Pc.call : Pc → Option Call
  | .idle => none
  | .oid rid op after _ => some (after.call rid op)
  | .insertIsRid rid val | .insertToRid rid val | .insertStore rid val => some (.insert rid val)
  | .readIsCached rid query _ | .readIndex rid query | .readSetRef rid query _
  | .readEntry rid query _ | .readRid rid query _ | .promoteRid rid query
  | .promoteCopy rid query _ => some (.query rid query)
  | .probing job _ | .probeClaim job _ _ | .probePut job _ | .probeRef job _ _ _
  | .probeClear job _ _ _ | .probeValidate job _ _ _ | .probeVictimRid job _ _
  | .probeReplace job _ _ | .probeSetRef job _ _ | .evictWriteBack job _ _ => some job.call

/-- The events that end a call. -/
def Call.Returns : Call → CacheEvent → Prop
  | .insert rid val, event => event = .inserted rid val
  | .query rid fields, event => ∃ value, event = .viewed rid fields value
  | .lock rid op, event => ∃ label, event = .locked rid label ∧ op.Returns label

/-- Events of the steps inside a call. -/
def CacheEvent.isInner : CacheEvent → Bool
  | .pending | .placed _ => true
  | _ => false

variable {τ : Type} {config : CacheConfig} {state next : CacheState τ} {t : τ}
  {event : CacheEvent} {active : Call}

theorem Probe.conclude_call (job : Probe) (index : Word)
    : (job.conclude index).call = some job.call := by
  unfold Probe.conclude Probe.call
  cases job.caller <;> rfl

theorem Probe.settle_call (job : Probe) (index : Word) (evicted : Option Evicted)
    : (job.settle index evicted).call = some job.call := by
  cases evicted with
  | none => exact job.conclude_call index
  | some old => rfl

theorem Probe.finish_call (job : Probe) (index : Word) (evicted : Option Evicted)
    : (job.finish index evicted).call = some job.call := by
  unfold Probe.finish
  cases job.caller with
  | insert val => exact job.settle_call index evicted
  | promote query => rfl

theorem Think.call {before after : Pc} (link : Think config state t before after)
    (inside : before.call = some active)
    : after.call = some active := by
  cases link with
  | startRead | startLock => cases inside
  | exhausted caller =>
      rw [← inside]
      simp [Pc.call, Probe.call, caller]
  | _ => exact inside

theorem Seen.call {before : Pc} {rid : Rid} {query : List Field} {value : QueryValue}
    (link : Seen config state before rid query value) (inside : before.call = some active)
    : active = .query rid query := by
  cases link with
  | exhausted caller =>
      rw [← Option.some.inj inside]
      simp [Probe.call, caller]
  | _ => exact (Option.some.inj inside).symm

/-- An operation on a word that returns leaves its call going on, except for a lock that a
user asked for.
-/
theorem After.next_call {rid : Rid} {op : LockOp} {label : LockEvent} {after : After} {pc : Pc}
    (returns : op.Returns label) (control : after.next rid label = some pc)
    : (pc.call = some (after.call rid op) ∧ after.label rid label = .pending)
      ∨ (pc = .idle ∧ (after.call rid op).Returns (after.label rid label)) := by
  unfold After.next at control
  split at control
  all_goals cases control
  · exact .inr ⟨rfl, label, rfl, returns⟩
  · exact .inl ⟨rfl, rfl⟩
  · exact .inl ⟨rfl, rfl⟩
  · exact .inl ⟨rfl, rfl⟩
  · exact .inl ⟨rfl, rfl⟩
  · exact .inl ⟨rfl, rfl⟩
  · exact .inl ⟨rfl, rfl⟩
  · exact .inl ⟨Probe.finish_call .., rfl⟩
  · exact .inl ⟨Probe.conclude_call .., rfl⟩

/-- A step inside a call leaves the thread in that call, or ends it with one of its events. -/
theorem CacheState.Effect.call [DecidableEq τ] (effect : Effect config state t next event)
    (calls : state.Calls t) (inside : (state.pc t).call = some active)
    : ((next.pc t).call = some active ∧ event.isInner = true)
      ∨ (next.pc t = .idle ∧ active.Returns event) := by
  cases effect with
  | think link => exact .inl ⟨by rw [goto_pc]; exact link.call inside, rfl⟩
  | tint link =>
      refine .inl ⟨?_, rfl⟩
      rw [goto_pc, ← inside]
      generalize state.pc t = before at link
      cases link with
      | read | clear => rfl
      | promote => exact Probe.settle_call ..
  | seen link =>
      obtain rfl := link.call inside
      exact .inr ⟨goto_pc _ t _, _, rfl⟩
  | claim here | put here | replace here | writeBack here =>
      rw [here] at inside
      exact .inl ⟨by rw [goto_pc]; exact inside, rfl⟩
  | publish here =>
      rw [here] at inside
      obtain rfl := Option.some.inj inside
      exact .inr ⟨goto_pc _ t _, rfl⟩
  | alloc here | promote here | drop here | got here | wrote here =>
      rw [here] at inside
      cases inside
  | lockPending here =>
      rw [here] at inside
      exact .inl ⟨by rw [stepOid_pc]; exact inside, rfl⟩
  | lockDone here moved done control =>
      rw [here] at inside
      obtain rfl := Option.some.inj inside
      have returns := ((calls.outcome here moved).resolve_left (fun pending => done pending.1)).1
      rcases After.next_call returns control with ⟨same, quiet⟩ | ⟨rfl, ends⟩
      · exact .inl ⟨by rw [stepOid_pc]; exact same, by rw [quiet]; rfl⟩
      · exact .inr ⟨stepOid_pc .., ends⟩

/-! ### Guards -/

/-- The guard `insert` holds on its record; `read_and_promote` uses that of its caller. -/
def Probe.kept (job : Probe) : List Rid :=
  match job.caller with
  | .insert _ => [job.oid]
  | .promote _ => []

def After.working (rid : Rid) : After → List Rid
  | .user | .allocGuard _ => []
  | .allocStored _ => [rid]
  | .tried job _ _ => job.kept
  | .abandoned job _ | .retired job _ | .released job _ => rid :: job.kept
  | .placed job _ evicted => (evicted.map Evicted.oid).toList ++ job.kept

/-- The records on which the call of a thread holds write guards of its own. -/
def Pc.working : Pc → List Rid
  | .oid rid _ after _ => after.working rid
  | .insertIsRid rid _ | .insertToRid rid _ | .insertStore rid _ => [rid]
  | .probing job _ | .probeClaim job _ _ | .probePut job _ | .probeRef job _ _ _
  | .probeClear job _ _ _ => job.kept
  | .probeValidate job _ _ curRid | .probeVictimRid job _ curRid | .probeReplace job _ curRid =>
      curRid :: job.kept
  | .probeSetRef job _ evicted => (evicted.map Evicted.oid).toList ++ job.kept
  | .evictWriteBack job _ evicted => evicted.oid :: job.kept
  | .idle | .readIsCached _ _ _ | .readIndex _ _ | .readSetRef _ _ _ | .readEntry _ _ _
  | .readRid _ _ _ | .promoteRid _ _ | .promoteCopy _ _ _ => []

/-- The guards a caller holds after an event, given those it held before. -/
def CacheEvent.account (held : List (Rid × GuardKind)) : CacheEvent → List (Rid × GuardKind)
  | .locked rid (.granted kind) => (rid, kind) :: held
  | .locked rid .upgraded => (rid, .write) :: held.erase (rid, .read)
  | .locked rid (.dropped kind) => held.erase (rid, kind)
  | .inserted rid _ => (rid, .write) :: held
  | _ => held

/-- Guards of a call: one write guard for each record it works on. -/
def Pc.owned (pc : Pc) (rid : Rid) : GuardKind → Nat
  | .read => 0
  | .write => pc.working.count rid

theorem Pc.owned_congr {before after : Pc} (same : after.working = before.working)
    (rid : Rid) (kind : GuardKind)
    : after.owned rid kind = before.owned rid kind := by
  cases kind with
  | read => rfl
  | write => exact congrArg (List.count rid) same

/-- Every guard is held by a caller or by the call it is in. -/
def CacheState.Accounted [DecidableEq τ] (state : CacheState τ) (held : τ → List (Rid × GuardKind)) : Prop :=
  ∀ thread rid kind,
    (state.oids rid).guards.count ⟨thread, kind⟩
      = (held thread).count (rid, kind) + (state.pc thread).owned rid kind

variable {held : τ → List (Rid × GuardKind)}

theorem Probe.conclude_working (job : Probe) (index : Word)
    : (job.conclude index).working = job.kept := by
  unfold Probe.conclude Probe.kept
  cases job.caller <;> rfl

theorem Probe.settle_working (job : Probe) (index : Word) (evicted : Option Evicted)
    : (job.settle index evicted).working = (evicted.map Evicted.oid).toList ++ job.kept := by
  cases evicted with
  | none => exact job.conclude_working index
  | some old => rfl

theorem Probe.finish_working (job : Probe) (index : Word) (evicted : Option Evicted)
    : (job.finish index evicted).working = (evicted.map Evicted.oid).toList ++ job.kept := by
  unfold Probe.finish
  cases job.caller with
  | insert val => exact job.settle_working index evicted
  | promote query => rfl

theorem Think.working {before after : Pc} (link : Think config state t before after)
    : after.working = before.working := by
  cases link with
  | exhausted caller => simp [Pc.working, Probe.kept, caller]
  | _ => rfl

theorem Tint.working {before after : Pc} {index : Word} (link : Tint before index after)
    : after.working = before.working := by
  cases link with
  | read | clear => rfl
  | promote => exact Probe.settle_working ..

theorem Seen.working {before : Pc} {rid : Rid} {query : List Field} {value : QueryValue}
    (link : Seen config state before rid query value)
    : before.working = [] := by
  cases link with
  | exhausted caller => simp [Pc.working, Probe.kept, caller]
  | _ => rfl

variable [DecidableEq τ]

/-- A guard more in the books of a caller. -/
theorem count_held (target rid : Rid) (taken kind : GuardKind) (held : List (Rid × GuardKind))
    : ((target, taken) :: held).count (rid, kind)
      = held.count (rid, kind) + if rid = target then [taken].count kind else 0 := by
  by_cases here : rid = target
  · subst here
    by_cases same : taken = kind
    · simp [same]
    · simp [same]
  · simp [here, Ne.symm here]

/-- A guard less, if the caller holds it. -/
theorem count_returned {target : Rid} {taken : GuardKind} {held : List (Rid × GuardKind)}
    (member : (target, taken) ∈ held) (rid : Rid) (kind : GuardKind)
    : (held.erase (target, taken)).count (rid, kind)
        + (if rid = target then [taken].count kind else 0)
      = held.count (rid, kind) := by
  rw [← count_held]
  exact (List.perm_cons_erase member).symm.count_eq _

/-- One more record that a call works on. -/
theorem Pc.owned_cons {before after : Pc} {target : Rid}
    (more : after.working = target :: before.working) (rid : Rid) (kind : GuardKind)
    : after.owned rid kind
      = before.owned rid kind + if rid = target then [GuardKind.write].count kind else 0 := by
  cases kind with
  | read => simp [Pc.owned]
  | write =>
      rw [Pc.owned, Pc.owned, more, List.count_cons]
      by_cases here : rid = target
      · simp [here]
      · simp [here, Ne.symm here]

namespace CacheState.Accounted

/-- A guard that no call holds is one of its caller's. -/
theorem mem_held (accounted : state.Accounted held) {rid : Rid} {kind : GuardKind}
    (resting : (state.pc t).owned rid kind = 0) (member : ⟨t, kind⟩ ∈ (state.oids rid).guards)
    : (rid, kind) ∈ held t := by
  have counted := accounted t rid kind
  have positive := List.count_pos_iff.mpr member
  exact List.count_pos_iff.mp (by omega)

/-- A step that leaves all words alone keeps the accounts, if what its thread holds and
what its call holds add up as before.
-/
theorem still (accounted : state.Accounted held) {mine : List (Rid × GuardKind)}
    (words : ∀ rid, (next.oids rid).guards = (state.oids rid).guards)
    (others : ∀ other, other ≠ t → next.pc other = state.pc other)
    (balance
      : ∀ rid kind, mine.count (rid, kind) + (next.pc t).owned rid kind
          = (held t).count (rid, kind) + (state.pc t).owned rid kind)
    : next.Accounted (Function.update held t mine) := by
  intro thread rid kind
  rw [words, accounted thread rid kind]
  by_cases same : thread = t
  · subst same
    rw [Function.update_self, balance]
  · rw [Function.update_of_ne same, others thread same]

/-- A step on the word of `target` keeps them, if the event pays for the difference. -/
theorem word (accounted : state.Accounted held) (consistent : Consistent config state)
    {target : Rid} {oid : LockedOid τ} {label : LockEvent} {mine : List (Rid × GuardKind)}
    (effect : (state.oids target).Effect t oid label)
    (words : next.oids = Function.update state.oids target oid)
    (others : ∀ other, other ≠ t → next.pc other = state.pc other)
    (balance
      : ∀ rid kind,
          mine.count (rid, kind) + (next.pc t).owned rid kind
            + (if rid = target then label.lost.count kind else 0)
          = (held t).count (rid, kind) + (state.pc t).owned rid kind
            + (if rid = target then label.gained.count kind else 0))
    : next.Accounted (Function.update held t mine) := by
  intro thread rid kind
  have before := accounted thread rid kind
  rw [words]
  by_cases same : thread = t
  · subst same
    have paid := balance rid kind
    rw [Function.update_self]
    by_cases here : rid = target
    · subst here
      have counted := effect.count_guards (consistent.safe rid) kind
      rw [Function.update_self]
      simp only [if_true] at paid
      omega
    · rw [Function.update_of_ne here]
      simp only [if_neg here] at paid
      omega
  · rw [Function.update_of_ne same, others thread same, ← before]
    by_cases here : rid = target
    · subst here
      rw [Function.update_self, effect.count_other same]
    · rw [Function.update_of_ne here]

/-- The end of an operation on a word, by cases on what it was for. -/
theorem lockDone (accounted : state.Accounted held) (consistent : Consistent config state)
    {rid : Rid} {op : LockOp} {after : After} {entered choice : Bool} {oid : LockedOid τ}
    {label : LockEvent} {pc : Pc} (here : state.pc t = .oid rid op after entered)
    (moved : (state.oids rid).step t (if entered then .advance choice else .call op)
      = some (oid, label))
    (done : label ≠ .pending) (control : after.next rid label = some pc)
    : (state.stepOid t rid oid (after.returns rid state.returned) pc).Accounted
        (Function.update held t ((after.label rid label).account (held t))) := by
  have known := consistent.sound t
  rw [here] at known
  have returns := (((consistent.calls t).outcome here moved).resolve_left
    (fun pending => done pending.1)).1
  have effect := LockedOid.step_effect moved
  refine accounted.word consistent effect rfl
    (fun other different => stepOid_pc_other different) ?_
  intro word kind
  rw [stepOid_pc, here]
  cases after with
  | user =>
      obtain rfl := Option.some.inj control
      obtain ⟨_, keeps⟩ := acquires_returns known.1 returns
      have resting : (Pc.oid rid op .user entered).owned word kind = Pc.idle.owned word kind :=
        Pc.owned_congr rfl word kind
      cases label with
      | granted taken =>
          simp only [After.label, CacheEvent.account, LockEvent.lost, LockEvent.gained,
            count_held, List.count_nil, ite_self, resting]
          omega
      | upgraded =>
          have member : (rid, GuardKind.read) ∈ held t :=
            accounted.mem_held (by rw [here]; rfl) (effect.lost_held (consistent.safe rid)
              (List.mem_singleton_self _))
          have paid := count_returned member word kind
          simp only [After.label, CacheEvent.account, LockEvent.lost, LockEvent.gained,
            count_held, resting]
          omega
      | dropped taken => exact absurd rfl (keeps taken)
      | pending | kept | failed | stored => rfl
  | allocGuard val =>
      obtain ⟨rfl, _⟩ := known
      obtain rfl := returns
      obtain rfl := Option.some.inj control
      have mine : (Pc.oid rid (.storeRid rid) (.allocStored val) false).working
          = rid :: (Pc.oid rid .write (.allocGuard val) entered).working := rfl
      rw [Pc.owned_cons mine]
      simp only [LockEvent.lost, LockEvent.gained, List.count_nil, ite_self]
      exact (Nat.add_assoc ..).symm
  | allocStored val =>
      obtain ⟨rfl, _⟩ := known
      obtain rfl := returns
      obtain rfl := Option.some.inj control
      rfl
  | tried job p index =>
      obtain ⟨rfl, _⟩ := known
      rcases returns with rfl | ⟨err, rfl⟩ <;> obtain rfl := Option.some.inj control
      · have mine : (Pc.probeValidate job p index rid).working
            = rid :: (Pc.oid rid .tryWrite (.tried job p index) entered).working := rfl
        rw [Pc.owned_cons mine]
        simp only [LockEvent.lost, LockEvent.gained, List.count_nil, ite_self]
        exact (Nat.add_assoc ..).symm
      · rfl
  | abandoned job p =>
      obtain ⟨rfl, _⟩ := known
      obtain rfl := returns
      obtain rfl := Option.some.inj control
      have mine : (Pc.oid rid .dropWrite (.abandoned job p) entered).working
          = rid :: (Pc.probing job (p + 1)).working := rfl
      rw [Pc.owned_cons mine]
      simp only [LockEvent.lost, LockEvent.gained, List.count_nil, ite_self]
      exact Nat.add_assoc ..
  | retired job index =>
      obtain ⟨rfl, _⟩ := known
      obtain rfl := returns
      obtain rfl := Option.some.inj control
      rfl
  | placed job index evicted =>
      obtain ⟨rfl, _⟩ := known
      obtain rfl := returns
      obtain rfl := Option.some.inj control
      have mine : (job.finish index evicted).working
          = (Pc.oid rid (.storeIndex index) (.placed job index evicted) entered).working :=
        job.finish_working index evicted
      rw [Pc.owned_congr mine]
      rfl
  | released job index =>
      obtain ⟨rfl, _⟩ := known
      obtain rfl := returns
      obtain rfl := Option.some.inj control
      have mine : (Pc.oid rid .dropWrite (.released job index) entered).working
          = rid :: (job.conclude index).working :=
        congrArg (rid :: ·) (job.conclude_working index).symm
      rw [Pc.owned_cons mine]
      simp only [LockEvent.lost, LockEvent.gained, List.count_nil, ite_self]
      exact Nat.add_assoc ..

/-- Every step keeps the accounts, with the guards its event gives to the caller. -/
theorem step (accounted : state.Accounted held) (consistent : Consistent config state)
    (effect : Effect config state t next event)
    : next.Accounted (Function.update held t (event.account (held t))) := by
  cases effect with
  | think link =>
      refine accounted.still (fun _ => rfl) (fun _ different => goto_other _ different) ?_
      intro rid kind
      rw [goto_pc, Pc.owned_congr link.working]
      rfl
  | tint link =>
      refine accounted.still (fun _ => rfl) (fun _ different => goto_other _ different) ?_
      intro rid kind
      rw [goto_pc, Pc.owned_congr link.working]
      rfl
  | seen link =>
      refine accounted.still (fun _ => rfl) (fun _ different => goto_other _ different) ?_
      intro rid kind
      have idle : Pc.idle.working = (state.pc t).working := link.working.symm
      rw [CacheState.view, goto_pc, Pc.owned_congr idle]
      rfl
  | claim here | put here | replace here | writeBack here =>
      refine accounted.still (fun _ => rfl) (fun _ different => goto_other _ different) ?_
      intro rid kind
      rw [goto_pc, here]
      rfl
  | @publish target val here =>
      refine accounted.still (fun _ => rfl) (fun _ different => goto_other _ different) ?_
      intro rid kind
      rw [goto_pc, here]
      have mine : (Pc.insertStore target val).working = target :: Pc.idle.working := rfl
      rw [Pc.owned_cons mine, CacheEvent.account, count_held]
      omega
  | @alloc target val here fresh =>
      refine accounted.still ?_ (fun _ different => goto_other _ different) ?_
      · intro rid
        by_cases same : rid = target
        · subst same
          have untouched := consistent.untouched rid fresh
          rw [untouched]
          exact congrArg LockedOid.guards (state.setOid_self rid _)
        · exact congrArg LockedOid.guards (setOid_other same)
      · intro rid kind
        rw [goto_pc, here]
        rfl
  | promote here =>
      refine accounted.still (fun _ => rfl) (fun _ different => goto_other _ different) ?_
      intro rid kind
      rw [goto_pc, here]
      rfl
  | @drop target kind oid label here dropped =>
      obtain ⟨rfl, _⟩ := dropOp_returns (LockedOid.call_outcome dropped)
      have effect := LockedOid.step_effect dropped
      have member : (target, kind) ∈ held t :=
        accounted.mem_held (by rw [here]; cases kind <;> rfl)
          (effect.lost_held (consistent.safe target) (List.mem_singleton_self _))
      refine accounted.word consistent effect rfl (fun _ _ => rfl) ?_
      intro rid other
      have paid := count_returned member rid other
      have same : ((state.setOid target oid).pc t).owned rid other
          = (state.pc t).owned rid other := rfl
      simp only [CacheEvent.account, LockEvent.lost, LockEvent.gained, List.count_nil, ite_self,
        same]
      omega
  | got => exact accounted.still (fun _ => rfl) (fun _ _ => rfl) (fun _ _ => rfl)
  | @wrote view field bytes location =>
      refine accounted.still ?_ ?_ ?_
      · intro rid
        cases location <;> rfl
      · intro other _
        cases location <;> rfl
      · intro rid kind
        cases location <;> rfl
  | lockPending here moved =>
      refine accounted.word consistent (LockedOid.step_effect moved) rfl
        (fun other different => stepOid_pc_other different) ?_
      intro rid kind
      rw [stepOid_pc, here]
      rfl
  | lockDone here moved done control =>
      exact accounted.lockDone consistent here moved done control

end CacheState.Accounted

end Alchemy.Cache
