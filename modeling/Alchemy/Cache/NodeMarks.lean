import Alchemy.Cache.CacheSteps

/-! The small print of the cache state: of the metadata of a node only the reference bit is ever
set, and clock hands stay inside the cache. The nodes that probing threads carry are new.
-/

namespace Alchemy.Cache

open Oid ByteImage CacheState Interleaving

namespace NodeMeta

theorem cleared_of_clear {data : BitVec 32} (clear : isRefed data = false)
    : cleared data = ⟨data⟩ := by
  have zero : data &&& refMask = 0#32 := by
    simpa [isRefed, BitVec.lt_def, BitVec.toNat_eq] using clear
  have split : data &&& refMask ||| data &&& ~~~refMask = data := by
    rw [← BitVec.and_or_distrib_left, BitVec.or_not_self, BitVec.and_allOnes]
  rw [zero, BitVec.zero_or] at split
  rw [cleared, split]

theorem isRefed_cleared (data : BitVec 32) : isRefed (cleared data).data = false := by
  have disjoint : ~~~refMask &&& refMask = 0#32 := by decide
  simp [isRefed, cleared, BitVec.and_assoc, disjoint]

theorem isRefed_setRef (node : NodeMeta) : isRefed node.setRef.data = true := by
  have kept : (node.data ||| refMask) &&& refMask = refMask := by grind
  have positive : 0#32 < refMask := by decide
  simp [isRefed, setRef, kept, positive]

/-- No bit but the reference bit is set. -/
def Plain (node : NodeMeta) : Prop :=
  cleared node.data = .new

theorem new_plain : NodeMeta.new.Plain := by
  show cleared 0#32 = .new
  decide

theorem Plain.setRef {node : NodeMeta} (plain : node.Plain) : node.setRef.Plain := by
  have same : (node.data ||| refMask) &&& ~~~refMask = node.data &&& ~~~refMask := by
    ext i
    simp only [BitVec.getElem_and, BitVec.getElem_or, BitVec.getElem_not]
    grind
  exact (congrArg NodeMeta.mk same).trans plain

end NodeMeta

theorem ClockNode.setRef_plain {node : ClockNode} (plain : node.nodeMeta.Plain) (coin : Bool)
    : (node.setRef coin).nodeMeta.Plain := by
  cases coin with
  | false => exact plain
  | true => exact plain.setRef

/-- The node that a thread carries while an operation on a word is under way. -/
def After.Plain : After → Prop
  | .tried job _ _ | .abandoned job _ | .retired job _ | .placed job _ _ | .released job _ =>
      job.node.nodeMeta.Plain
  | _ => True

/-- The node that a thread carries, and the metadata that it has loaded. -/
def Pc.Plain : Pc → Prop
  | .oid _ _ after _ => after.Plain
  | .probeClear job _ _ data => job.node.nodeMeta.Plain ∧ NodeMeta.Plain ⟨data⟩
  | .probing job _ | .probeClaim job _ _ | .probePut job _ | .probeRef job _ _ _
  | .probeValidate job _ _ _ | .probeVictimRid job _ _ | .probeReplace job _ _
  | .probeSetRef job _ _ | .evictWriteBack job _ _ => job.node.nodeMeta.Plain
  | _ => True

variable {τ : Type}

structure Marked (config : CacheConfig) (state : CacheState τ) : Prop where
  hands : ∀ t, state.hand t < config.capacity
  entries : ∀ index, (state.entries index).nodeMeta.Plain
  points : ∀ t, (state.pc t).Plain

variable [DecidableEq τ] {config : CacheConfig} {state next : CacheState τ} {t : τ}
  {event : CacheEvent}

theorem Probe.conclude_plain (job : Probe) (index : Word) : (job.conclude index).Plain := by
  unfold Probe.conclude
  split <;> trivial

theorem Probe.settle_plain {job : Probe} (plain : job.node.nodeMeta.Plain) (index : Word)
    (evicted : Option Evicted)
    : (job.settle index evicted).Plain := by
  cases evicted with
  | none => exact job.conclude_plain index
  | some old => exact plain

theorem After.next_plain {after : After} {rid : Rid} {label : LockEvent} {pc : Pc}
    (plain : after.Plain) (control : after.next rid label = some pc)
    : pc.Plain := by
  unfold After.next at control
  split at control
  case h_8 job index evicted _ =>
    obtain rfl := Option.some.inj control
    unfold Probe.finish
    split
    · exact Probe.settle_plain plain index evicted
    · exact plain
  case h_9 job index _ =>
    obtain rfl := Option.some.inj control
    exact job.conclude_plain index
  case h_10 => cases control
  all_goals
    obtain rfl := Option.some.inj control
    trivial

namespace Marked

omit [DecidableEq τ] in
theorem setEntry (marked : Marked config state) {index : Word} {node : ClockNode}
    (plain : node.nodeMeta.Plain)
    : Marked config (state.setEntry index node) where
  hands := marked.hands
  entries other := by
    change (Function.update state.entries index node other).nodeMeta.Plain
    rw [Function.update_apply]
    split
    · exact plain
    · exact marked.entries other
  points := marked.points

/-- One thread moves, and hands and entries stay. -/
theorem move (marked : Marked config state) {pc : Pc} (hand : next.hand = state.hand)
    (entries : next.entries = state.entries) (moved : next.pc = Function.update state.pc t pc)
    (plain : pc.Plain)
    : Marked config next where
  hands := hand ▸ marked.hands
  entries := entries ▸ marked.entries
  points other := by
    rw [moved, Function.update_apply]
    split
    · exact plain
    · exact marked.points other

/-- Calls start without a node. -/
theorem start {move : CacheMove τ} (marked : Marked config state)
    (moved : state.start config t move = some (next, event))
    : Marked config next := by
  cases move with
  | insert rid val | read rid query | readAndPromote rid query | lock rid op =>
      simp only [CacheState.start, guarded_eq_some] at moved
      obtain ⟨_, rfl, _⟩ := moved
      exact marked.move rfl rfl rfl trivial
  | drop rid kind =>
      simp only [CacheState.start] at moved
      split at moved
      · cases moved
      · obtain ⟨rfl, _⟩ := Prod.mk.inj (Option.some.inj moved)
        exact ⟨marked.hands, marked.entries, marked.points⟩
  | getValue view field =>
      simp only [CacheState.start, guarded_eq_some] at moved
      obtain ⟨_, rfl, _⟩ := moved
      exact marked
  | getValueMut view field bytes =>
      simp only [CacheState.start, Option.ite_none_right_eq_some, Option.map_eq_some_iff,
        Prod.mk.injEq] at moved
      obtain ⟨_, location, _, rfl, _⟩ := moved
      cases location with
      | entry index start => exact marked.setEntry (marked.entries index)
      | tuple rid start => exact ⟨marked.hands, marked.entries, marked.points⟩
  | advance choice => cases moved

/-- Inside a call, a node comes from a probe, and metadata from an entry. -/
theorem resume {choice : Bool} (marked : Marked config state)
    (moved : state.resume config t choice = some (next, event))
    : Marked config next := by
  have plain := marked.points t
  cases here : state.pc t with
  | idle => simp [CacheState.resume, here] at moved
  | oid rid op after entered =>
      rw [here] at plain
      simp only [CacheState.resume, here] at moved
      split at moved
      · cases moved
      · obtain ⟨rfl, _⟩ := Prod.mk.inj (Option.some.inj moved)
        exact marked.move rfl rfl rfl plain
      · obtain ⟨pc, control, same⟩ := Option.map_eq_some_iff.mp moved
        obtain ⟨rfl, _⟩ := Prod.mk.inj same
        exact marked.move rfl rfl rfl (After.next_plain plain control)
  | insertIsRid rid val =>
      simp only [CacheState.resume, here, guarded_eq_some] at moved
      obtain ⟨_, rfl, _⟩ := moved
      exact marked.move rfl rfl rfl trivial
  | insertToRid rid val =>
      simp only [CacheState.resume, here, Option.some.injEq, Prod.mk.injEq] at moved
      obtain ⟨rfl, _⟩ := moved
      exact marked.move rfl rfl rfl NodeMeta.new_plain
  | insertStore rid val | readIndex rid query =>
      simp only [CacheState.resume, here, Option.some.injEq, Prod.mk.injEq] at moved
      obtain ⟨rfl, _⟩ := moved
      exact marked.move rfl rfl rfl trivial
  | readSetRef rid query index =>
      simp only [CacheState.resume, here, Option.some.injEq, Prod.mk.injEq] at moved
      obtain ⟨rfl, _⟩ := moved
      have tinted := ClockNode.setRef_plain (marked.entries index) choice
      exact move (marked.setEntry tinted) rfl rfl rfl trivial
  | readIsCached rid query promote | readEntry rid query index | readRid rid query promote
  | promoteRid rid query =>
      simp only [CacheState.resume, here] at moved
      split at moved
      all_goals
        obtain ⟨rfl, _⟩ := Prod.mk.inj (Option.some.inj moved)
        exact marked.move rfl rfl rfl trivial
  | promoteCopy rid query tupleRid =>
      simp only [CacheState.resume, here] at moved
      split at moved
      · obtain ⟨rfl, _⟩ := Prod.mk.inj (Option.some.inj moved)
        exact marked.move rfl rfl rfl NodeMeta.new_plain
      · obtain ⟨rfl, _⟩ := Prod.mk.inj (Option.some.inj moved)
        exact marked.move rfl rfl rfl trivial
  | probing job p =>
      rw [here] at plain
      simp only [CacheState.resume, here] at moved
      split at moved
      · have swept : Marked config { state with
            hand := Function.update state.hand t (config.advanceIndex (state.hand t)).toNat } :=
          { marked with
            hands := by
              intro other
              change Function.update state.hand t _ other < config.capacity
              rw [Function.update_apply]
              split
              · exact config.advanceIndex_toNat (state.hand t)
              · exact marked.hands other }
        split at moved
        all_goals
          obtain ⟨rfl, _⟩ := Prod.mk.inj (Option.some.inj moved)
          exact swept.move rfl rfl rfl plain
      · split at moved
        all_goals
          obtain ⟨rfl, _⟩ := Prod.mk.inj (Option.some.inj moved)
          exact marked.move rfl rfl rfl trivial
  | probeClaim job p index =>
      rw [here] at plain
      simp only [CacheState.resume, here] at moved
      split at moved
      · obtain ⟨rfl, _⟩ := Prod.mk.inj (Option.some.inj moved)
        have claimed : Marked config
            (state.setEntry index { state.entries index with rid := job.rid }) :=
          marked.setEntry (marked.entries index)
        exact claimed.move rfl rfl rfl plain
      · obtain ⟨rfl, _⟩ := Prod.mk.inj (Option.some.inj moved)
        exact marked.move rfl rfl rfl plain
  | probePut job index | probeReplace job index curRid =>
      rw [here] at plain
      simp only [CacheState.resume, here, Option.some.injEq, Prod.mk.injEq] at moved
      obtain ⟨rfl, _⟩ := moved
      exact move (marked.setEntry plain) rfl rfl rfl plain
  | probeRef job p index curRid =>
      rw [here] at plain
      simp only [CacheState.resume, here] at moved
      split at moved
      · obtain ⟨rfl, _⟩ := Prod.mk.inj (Option.some.inj moved)
        exact marked.move rfl rfl rfl ⟨plain, marked.entries index⟩
      · obtain ⟨rfl, _⟩ := Prod.mk.inj (Option.some.inj moved)
        exact marked.move rfl rfl rfl plain
  | probeClear job p index data =>
      rw [here] at plain
      simp only [CacheState.resume, here, Option.some.injEq, Prod.mk.injEq] at moved
      obtain ⟨rfl, _⟩ := moved
      refine move (marked.setEntry ?_) rfl rfl rfl plain.1
      change (NodeMeta.cleared data).Plain
      rw [show NodeMeta.cleared data = .new from plain.2]
      exact NodeMeta.new_plain
  | probeValidate job p index curRid =>
      rw [here] at plain
      simp only [CacheState.resume, here] at moved
      split at moved
      all_goals
        obtain ⟨rfl, _⟩ := Prod.mk.inj (Option.some.inj moved)
        exact marked.move rfl rfl rfl plain
  | probeSetRef job index evicted =>
      rw [here] at plain
      simp only [CacheState.resume, here, Option.some.injEq, Prod.mk.injEq] at moved
      obtain ⟨rfl, _⟩ := moved
      have tinted := ClockNode.setRef_plain (marked.entries index) choice
      exact move (marked.setEntry tinted) rfl rfl rfl (Probe.settle_plain plain index evicted)
  | probeVictimRid job index curRid | evictWriteBack job index evicted =>
      rw [here] at plain
      simp only [CacheState.resume, here, Option.some.injEq, Prod.mk.injEq] at moved
      obtain ⟨rfl, _⟩ := moved
      exact marked.move rfl rfl rfl plain

theorem step {move : CacheMove τ} (marked : Marked config state)
    (taken : state.step config t move = some (next, event))
    : Marked config next := by
  cases move with
  | advance choice => exact marked.resume taken
  | _ => exact marked.start (step_start (by simp) taken).2

end Marked

omit [DecidableEq τ] in
theorem init_marked {storage : Rid → Image Byte} {hand : τ → Nat}
    (hands : ∀ t, hand t < config.capacity)
    : Marked config (CacheState.init storage hand) where
  hands := hands
  entries := fun _ => NodeMeta.new_plain
  points := fun _ => trivial

end Alchemy.Cache
