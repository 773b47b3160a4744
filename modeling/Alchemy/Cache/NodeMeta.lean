import Alchemy.Cache.ClockCache
import Alchemy.Library.Interleaving

/-! One `NodeMeta` word under any number of threads: the reference bit, the dirty bit and the
hotness in the top byte. Most operations are one atomic step; `clear_if_set` loads the word and
stores it back, and `try_dec_hotness` loads it and tries to exchange it.
-/

namespace Alchemy.Cache.NodeMeta

open Interleaving

/-! ### The word -/

def hotnessMask : BitVec 32 := 0xff000000#32

def hotnessShift : Nat := 24

def dirtyMask : BitVec 32 := 0x00100000#32

/-- The test of `is_dirty`. -/
def isDirty (data : BitVec 32) : Bool := 0#32 < data &&& dirtyMask

def setDirty (node : NodeMeta) : NodeMeta := ⟨node.data ||| dirtyMask⟩

def clearRef (node : NodeMeta) : NodeMeta := ⟨node.data &&& ~~~refMask⟩

def hotness (data : BitVec 32) : BitVec 32 := data >>> hotnessShift

/-- `inc_hotness`; an overflow of the top byte is lost. -/
def incHotness (node : NodeMeta) (amount : BitVec 32) : NodeMeta :=
  ⟨node.data + amount <<< hotnessShift⟩

/-- What `try_dec_hotness` tries to put in place of the word it loaded; `none` says that it gives
up.
-/
def decremented (old amount : BitVec 32) : Option (BitVec 32) :=
  let amountShifted := amount <<< hotnessShift
  if amountShifted ≤ old then
    some ((old &&& ~~~hotnessMask) ||| (old - amountShifted))
  else
    none

/-! ### Its threads -/

/-- Between the two accesses of an operation. -/
inductive Pc
  | idle
  | clearStore (data : BitVec 32)
  | decExchange (old new : BitVec 32)
deriving DecidableEq, Repr

/-- A call that loads or updates the word, or the second access of a call under way. A weak
exchange may fail without a reason.
-/
inductive Action
  | setRef
  | clearRef
  | clearIfSet
  | setDirty
  | incHotness (amount : BitVec 32)
  | tryDecHotness (amount : BitVec 32)
  | store
  | exchange (spurious : Bool)
deriving DecidableEq, Repr

/-- What a step reports: that its call goes on, or what the call returns. -/
inductive Event
  | pending
  | done
  | cleared (wasSet : Bool)
  | hotness (old : BitVec 32)
  | decremented (tried : Bool)
deriving DecidableEq, Repr

structure Shared (τ : Type) where
  node : NodeMeta
  pc : τ → Pc

variable {τ : Type}

/-- A new word and no call under way. -/
def Shared.start : Shared τ where
  node := .new
  pc _ := .idle

/-- The calls that are one atomic update. -/
def Action.update : Action → NodeMeta → Option (NodeMeta × Event)
  | .setRef, node => some (node.setRef, .done)
  | .clearRef, node => some (node.clearRef, .done)
  | .setDirty, node => some (node.setDirty, .done)
  | .incHotness amount, node =>
      some (node.incHotness amount, .hotness (NodeMeta.hotness node.data))
  | _, _ => none

variable [DecidableEq τ]

def step (shared : Shared τ) (move : τ × Action) : Option (Shared τ × Event) :=
  let t := move.1
  match shared.pc t, move.2 with
  | .idle, .clearIfSet =>
      if isRefed shared.node.data then
        some ({ shared with pc := Function.update shared.pc t (.clearStore shared.node.data) },
          .pending)
      else
        some (shared, .cleared false)
  | .idle, .tryDecHotness amount =>
      match NodeMeta.decremented shared.node.data amount with
      | none => some (shared, .decremented false)
      | some new =>
          some ({ shared with
            pc := Function.update shared.pc t (.decExchange shared.node.data new) }, .pending)
  | .idle, action =>
      (action.update shared.node).map (fun result => ({ shared with node := result.1 }, result.2))
  | .clearStore data, .store =>
      some (⟨NodeMeta.cleared data, Function.update shared.pc t .idle⟩, .cleared true)
  | .decExchange old new, .exchange spurious =>
      some (⟨if shared.node.data = old ∧ spurious = false then ⟨new⟩ else shared.node,
        Function.update shared.pc t .idle⟩, .decremented true)
  | _, _ => none

/-! ### The bits below the hotness -/

/-- Everything but the hotness. -/
def marks (data : BitVec 32) : BitVec 24 := data.setWidth 24

/-- The dirty bit by its position. -/
theorem isDirty_eq (data : BitVec 32) : isDirty data = data.getLsbD 20 := by
  have single : dirtyMask = BitVec.twoPow 32 20 := by decide
  rw [isDirty, single, BitVec.and_twoPow]
  cases data.getLsbD 20 <;> decide

/-- The reference bit by its position. -/
theorem isRefed_eq (data : BitVec 32) : isRefed data = data.getLsbD 16 := by
  have single : refMask = BitVec.twoPow 32 16 := by decide
  rw [isRefed, single, BitVec.and_twoPow]
  cases data.getLsbD 16 <;> decide

/-- The two bits are marks. -/
theorem bits_of_marks {old new : BitVec 32} (same : marks new = marks old)
    : isDirty new = isDirty old ∧ isRefed new = isRefed old := by
  have bit (i : Nat) (low : i < 24) : new.getLsbD i = old.getLsbD i := by
    have here := congrArg (BitVec.getLsbD · i) same
    simpa [marks, BitVec.getLsbD_setWidth, low] using here
  simp only [isDirty_eq, isRefed_eq]
  exact ⟨bit 20 (by decide), bit 16 (by decide)⟩

/-- A shifted amount does not reach below the hotness. -/
theorem marks_shifted (amount : BitVec 32) : marks (amount <<< hotnessShift) = 0#24 := by
  ext i inside
  simp [marks, hotnessShift]

theorem marks_incHotness (node : NodeMeta) (amount : BitVec 32)
    : marks (node.incHotness amount).data = marks node.data := by
  have shifted := marks_shifted amount
  simp only [marks] at shifted ⊢
  rw [incHotness, BitVec.setWidth_add _ _ (by decide), shifted, BitVec.add_zero]

/-- The exchange writes the marks it has read. -/
theorem marks_decremented {old amount new : BitVec 32} (decided : decremented old amount = some new)
    : marks new = marks old := by
  simp only [decremented] at decided
  split at decided
  next =>
    cases decided
    have whole : marks old = marks (old - amount <<< hotnessShift) := by
      have shifted := marks_shifted amount
      simp only [marks] at shifted ⊢
      have split := congrArg (BitVec.setWidth 24)
        (BitVec.sub_add_cancel old (amount <<< hotnessShift)).symm
      rwa [BitVec.setWidth_add _ _ (by decide), shifted, BitVec.add_zero] at split
    have kept : marks (old &&& ~~~hotnessMask) = marks old := by
      have all : marks (~~~hotnessMask) = BitVec.allOnes 24 := by decide
      simp only [marks] at all ⊢
      rw [BitVec.setWidth_and, all, BitVec.and_allOnes]
    simp only [marks] at whole kept ⊢
    rw [BitVec.setWidth_or, kept, ← whole, BitVec.or_self]
  next => cases decided

/-- Clearing the reference bit does not clean. -/
theorem isDirty_clear (data : BitVec 32) : isDirty (data &&& ~~~refMask) = isDirty data := by
  have other : (~~~refMask).getLsbD 20 = true := by decide
  rw [isDirty_eq, isDirty_eq, BitVec.getLsbD_and, other, Bool.and_true]

theorem isDirty_setRef (node : NodeMeta) : isDirty node.setRef.data = isDirty node.data := by
  have other : refMask.getLsbD 20 = false := by decide
  rw [isDirty_eq, isDirty_eq, setRef, BitVec.getLsbD_or, other, Bool.or_false]

theorem isDirty_setDirty (node : NodeMeta) : isDirty node.setDirty.data = true := by
  have bit : dirtyMask.getLsbD 20 = true := by decide
  rw [isDirty_eq, setDirty, BitVec.getLsbD_or, bit, Bool.or_true]

/-! ### Steps -/

/-- What a step does, with what held before it. -/
inductive Effect (shared : Shared τ) (t : τ) : Action → Shared τ → Event → Prop
  | update {action node event} (idle : shared.pc t = .idle)
    (updated : action.update shared.node = some (node, event))
    : Effect shared t action { shared with node } event
  | loadRef (idle : shared.pc t = .idle) (refed : isRefed shared.node.data = true)
    : Effect shared t .clearIfSet
        { shared with pc := Function.update shared.pc t (.clearStore shared.node.data) } .pending
  | unset (idle : shared.pc t = .idle) (clear : isRefed shared.node.data = false)
    : Effect shared t .clearIfSet shared (.cleared false)
  | loadHotness {amount new} (idle : shared.pc t = .idle)
    (decided : NodeMeta.decremented shared.node.data amount = some new)
    : Effect shared t (.tryDecHotness amount)
        { shared with pc := Function.update shared.pc t (.decExchange shared.node.data new) }
        .pending
  | cold {amount} (idle : shared.pc t = .idle)
    (decided : NodeMeta.decremented shared.node.data amount = none)
    : Effect shared t (.tryDecHotness amount) shared (.decremented false)
  | stored {data} (loaded : shared.pc t = .clearStore data)
    : Effect shared t .store ⟨NodeMeta.cleared data, Function.update shared.pc t .idle⟩
        (.cleared true)
  | exchanged {old new spurious} (loaded : shared.pc t = .decExchange old new)
    : Effect shared t (.exchange spurious)
        ⟨if shared.node.data = old ∧ spurious = false then ⟨new⟩ else shared.node,
          Function.update shared.pc t .idle⟩
        (.decremented true)

variable {shared next : Shared τ} {t : τ} {action : Action} {event : Event}

/-- Every step has one of the effects. -/
theorem step_effect (taken : step shared (t, action) = some (next, event))
    : Effect shared t action next event := by
  simp only [step] at taken
  split at taken
  next idle =>
    split at taken
    next refed =>
      cases taken
      exact .loadRef idle refed
    next clear =>
      cases taken
      exact .unset idle (by simpa using clear)
  next amount idle =>
    split at taken
    next decided =>
      cases taken
      exact .cold idle decided
    next new decided =>
      cases taken
      exact .loadHotness idle decided
  next idle _ _ =>
    obtain ⟨⟨node, answer⟩, updated, same⟩ := Option.map_eq_some_iff.mp taken
    cases same
    exact .update idle updated
  next data loaded =>
    cases taken
    exact .stored loaded
  next old new spurious loaded =>
    cases taken
    exact .exchanged loaded
  next => cases taken

/-- A thread that is about to exchange the word has computed a word with the same marks. -/
def Shared.Prepared (shared : Shared τ) : Prop :=
  ∀ t old new, shared.pc t = .decExchange old new → marks new = marks old

/-- Only `try_dec_hotness` prepares an exchange. -/
theorem Shared.Prepared.step (prepared : shared.Prepared)
    (taken : step shared (t, action) = some (next, event))
    : next.Prepared := by
  intro u old new waiting
  cases step_effect taken with
  | update | unset | cold => exact prepared u old new waiting
  | loadRef | stored | exchanged =>
      by_cases same : u = t
      · simp [same] at waiting
      · exact prepared u old new (by simpa [same] using waiting)
  | @loadHotness _ computed _ decided =>
      by_cases same : u = t
      · have here : Pc.decExchange shared.node.data computed = .decExchange old new := by
          simpa [same] using waiting
        cases here
        exact marks_decremented decided
      · exact prepared u old new (by simpa [same] using waiting)

/-- Exchanges are prepared in every run, by induction on it. -/
theorem prepared_of_run {trace : List ((τ × Action) × Event)} {last : Shared τ}
    (run : Run step Shared.start trace last)
    : last.Prepared :=
  run.invariant (fun _ _ _ waiting => by cases waiting) (fun prepared taken => prepared.step taken)

omit [DecidableEq τ] in
/-- An exchange, whether it succeeds or not, keeps the marks. -/
theorem Shared.Prepared.exchange (prepared : shared.Prepared) {old new : BitVec 32}
    (loaded : shared.pc t = .decExchange old new) (spurious : Bool)
    : marks (if shared.node.data = old ∧ spurious = false then (⟨new⟩ : NodeMeta)
        else shared.node).data = marks shared.node.data := by
  split
  next won => rw [won.1, prepared t old new loaded]
  next => rfl

/-- The steps of `inc_hotness` and `try_dec_hotness`. -/
def Action.IsHotness : Action → Prop
  | .incHotness _ | .tryDecHotness _ | .exchange _ => True
  | .setRef | .clearRef | .clearIfSet | .setDirty | .store => False

/-- A step of a hotness operation keeps the marks. -/
theorem Shared.Prepared.hotness (prepared : shared.Prepared) (operation : action.IsHotness)
    (taken : NodeMeta.step shared (t, action) = some (next, event))
    : marks next.node.data = marks shared.node.data := by
  cases step_effect taken with
  | @update _ node _ _ updated =>
      cases action with
      | incHotness amount =>
          simp only [Action.update, Option.some.injEq, Prod.mk.injEq] at updated
          rw [← updated.1]
          exact marks_incHotness shared.node amount
      | setRef | clearRef | setDirty => exact operation.elim
      | clearIfSet | tryDecHotness | store | exchange => cases updated
  | loadRef | unset | stored => exact operation.elim
  | loadHotness | cold => rfl
  | exchanged loaded => exact prepared.exchange loaded _

/-! ### The dirty bit over whole runs -/

/-- The word is dirty, and so is every word that a `clear_if_set` is about to store. -/
structure Shared.Stained (shared : Shared τ) : Prop where
  dirty : isDirty shared.node.data = true
  loaded : ∀ t data, shared.pc t = .clearStore data → isDirty data = true

/-- The atomic updates never clean. -/
theorem Action.update_dirty {old node : NodeMeta} (dirty : isDirty old.data = true)
    (updated : action.update old = some (node, event))
    : isDirty node.data = true := by
  cases action with
  | setRef =>
      simp only [Action.update, Option.some.injEq, Prod.mk.injEq] at updated
      rwa [← updated.1, isDirty_setRef]
  | clearRef =>
      simp only [Action.update, Option.some.injEq, Prod.mk.injEq] at updated
      rwa [← updated.1, NodeMeta.clearRef, isDirty_clear]
  | setDirty =>
      simp only [Action.update, Option.some.injEq, Prod.mk.injEq] at updated
      rw [← updated.1, isDirty_setDirty]
  | incHotness amount =>
      simp only [Action.update, Option.some.injEq, Prod.mk.injEq] at updated
      rwa [← updated.1, (bits_of_marks (marks_incHotness _ _)).1]
  | clearIfSet | tryDecHotness | store | exchange => cases updated

/-- One thread moves on, without a clean word to store. -/
theorem Shared.Stained.loaded_update (stained : shared.Stained) {pc : Pc}
    (fresh : ∀ data, pc = .clearStore data → isDirty data = true) (u : τ) (data : BitVec 32)
    (waiting : Function.update shared.pc t pc u = .clearStore data)
    : isDirty data = true := by
  by_cases same : u = t
  · exact fresh data (by simpa [same] using waiting)
  · exact stained.loaded u data (by simpa [same] using waiting)

/-- A dirty word stays dirty when no clean one is about to be stored. -/
theorem Shared.Stained.step (stained : shared.Stained) (prepared : shared.Prepared)
    (taken : step shared (t, action) = some (next, event))
    : next.Stained := by
  cases step_effect taken with
  | update _ updated => exact ⟨Action.update_dirty stained.dirty updated, stained.loaded⟩
  | unset | cold => exact stained
  | loadRef =>
      refine ⟨stained.dirty, stained.loaded_update ?_⟩
      rintro data ⟨⟩
      exact stained.dirty
  | loadHotness => exact ⟨stained.dirty, stained.loaded_update (by simp)⟩
  | stored loaded =>
      exact ⟨(isDirty_clear _).trans (stained.loaded t _ loaded), stained.loaded_update (by simp)⟩
  | exchanged loaded =>
      refine ⟨?_, stained.loaded_update (by simp)⟩
      rw [(bits_of_marks (prepared.exchange loaded _)).1]
      exact stained.dirty

/-- In every run of the operations on one word: after a `set_dirty` the word is dirty in all
later states exactly if no thread was then between the load and the store of a `clear_if_set`
that had loaded a clean word, and no step of a hotness operation changes the dirty or the
reference bit.
-/
theorem dirty_kept_iff {trace : List ((τ × Action) × Event)} {before : Shared τ}
    (run : Run step Shared.start trace before)
    : (∀ t after event, step before (t, .setDirty) = some (after, event)
        → ((∀ later last, Run step after later last → isDirty last.node.data = true)
          ↔ ¬ ∃ u data, before.pc u = .clearStore data ∧ isDirty data = false))
      ∧ ∀ t action after event, action.IsHotness
        → step before (t, action) = some (after, event)
        → isDirty after.node.data = isDirty before.node.data
          ∧ isRefed after.node.data = isRefed before.node.data := by
  have prepared := prepared_of_run run
  refine ⟨fun t after event taken => ?_, fun t action after event operation taken =>
    bits_of_marks (prepared.hotness operation taken)⟩
  have ready := prepared.step taken
  cases step_effect taken with
  | update _ updated =>
    cases updated
    constructor
    · -- the thread with the clean word stores it next
      rintro always ⟨u, data, loaded, clean⟩
      have stored : step ⟨before.node.setDirty, before.pc⟩ (u, .store)
          = some (⟨NodeMeta.cleared data, Function.update before.pc u .idle⟩, .cleared true) := by
        simp [step, loaded]
      have dirty := always _ _ (Run.single stored)
      rw [cleared, isDirty_clear, clean] at dirty
      cases dirty
    · intro none later last onward
      have stained : (⟨before.node.setDirty, before.pc⟩ : Shared τ).Stained :=
        ⟨isDirty_setDirty _, fun u data loaded => by
          by_contra clean
          exact none ⟨u, data, loaded, by simpa using clean⟩⟩
      have both : last.Stained ∧ last.Prepared := by
        induction onward with
        | start => exact ⟨stained, ready⟩
        | extend _ taken ih => exact ⟨ih.1.step ih.2 taken, ih.2.step taken⟩
      exact both.1.dirty

/-- On a new word nothing can undo `set_dirty`. -/
theorem dirty_kept_on_new_word
    : ∃ after, step (Shared.start : Shared Bool) (false, .setDirty) = some (after, .done)
      ∧ ∀ later last, Run step after later last → isDirty last.node.data = true := by
  refine ⟨⟨NodeMeta.new.setDirty, fun _ => .idle⟩, rfl, ?_⟩
  refine ((dirty_kept_iff .start).1 false _ .done rfl).mpr ?_
  rintro ⟨u, data, loaded, _⟩
  cases loaded

/-- A thread sets the reference bit and begins to clear it; another one sets the dirty bit; the
store of the first one undoes that.
-/
theorem dirty_undone
    : ∃ trace last, Run step (Shared.start : Shared Bool) trace last
      ∧ ((true, .setDirty), .done) ∈ trace
      ∧ isDirty last.node.data = false := by
  obtain ⟨trace, last, run, outcome⟩ := exec_reaches
    (fun result : Shared Bool × List ((Bool × Action) × Event) =>
      decide (((true, .setDirty), .done) ∈ result.2) && !isDirty result.1.node.data)
    (by decide +kernel : (exec step (Shared.start : Shared Bool)
      [(false, .setRef), (false, .clearIfSet), (true, .setDirty), (false, .store)]).any _ = true)
  simp only [Bool.and_eq_true, decide_eq_true_eq, Bool.not_eq_true'] at outcome
  exact ⟨trace, last, run, outcome.1, outcome.2⟩

end Alchemy.Cache.NodeMeta
