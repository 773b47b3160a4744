import Alchemy.Allocator.RidUniqueness
import Mathlib.Algebra.BigOperators.Group.Finset.Piecewise
import Mathlib.Algebra.BigOperators.Ring.Finset
import Mathlib.Algebra.Order.BigOperators.Group.Finset
import Mathlib.Data.Nat.Bitwise

/-! How many oids an `OidArray` hands out before it runs out of arenas.
A thread asks for a new arena only when it has used up the ones it had, so it strands less
than one arena; `OidArray::new` adds one arena for each of 128 threads.
-/

namespace Alchemy.Allocator

open IntrusiveList Interleaving

/-! ### Arenas taken and slots used -/

section Tally

variable {τ : Type} [DecidableEq τ] {layout : HeapLayout} {state next : HeapState τ}
  {place : Nat → Holder τ} {t : τ} {move : HeapMove} {event : HeapEvent} {mem : Memory}
  {trace : List ((τ × HeapMove) × HeapEvent)} {threads : Finset τ} {taken popped calls : τ → Nat}

/-- The list at `head` has `count` nodes. -/
def Counts (mem : Memory) (head count : Nat) : Prop :=
  ∃ nodes, Linked mem head nodes ∧ nodes.length = count

/-- Thread `t` has taken an arena and not initialised it yet. -/
def HeapState.Holding (state : HeapState τ) (t : τ) : Prop :=
  ∃ item use ptr, state.pc t = .append item (.initArena use ptr)

/-- The number of slots in the arenas of thread `t` that it has not used yet. Nothing is ever
deleted, so its free list is empty.
-/
inductive HeapState.Unused (layout : HeapLayout) (state : HeapState τ) (t : τ) : Nat → Prop
  | held (holding : state.Holding t) : Unused layout state t layout.slotsPerArena
  | absent (holding : ¬ state.Holding t) (none : state.tls t = none) : Unused layout state t 0
  | arena {inner count} (holding : ¬ state.Holding t) (has : state.tls t = some inner)
    (noFree : inner.freeHead = 0) (counts : Counts state.mem inner.arena.listNode count)
    : Unused layout state t count

/-- The account of one thread: the slots of the `taken` arenas are `popped` or unused, and no
more slots were popped than calls of `append` made. A call that still searches has not
popped its slot.
-/
structure Account (layout : HeapLayout) (state : HeapState τ) (taken popped calls : Nat) (t : τ)
    : Prop where
  slots : ∃ unused ≤ layout.slotsPerArena, state.Unused layout t unused
    ∧ layout.slotsPerArena * taken = popped + unused
  called : popped ≤ calls
  searching : ∀ item point, state.pc t = .append item point → (∀ ptr, point ≠ .fill ptr)
    → popped < calls

/-- The accounts of all threads, and the arenas that are left on the shared list. -/
structure Tally (layout : HeapLayout) (threads : Finset τ) (taken popped calls : τ → Nat)
    (state : HeapState τ) : Prop where
  account : ∀ t, Account layout state (taken t) (popped t) (calls t) t
  left : ∃ rest, Counts state.mem state.heap.listNode rest
    ∧ rest + ∑ t ∈ threads, taken t = layout.arenaCnt

theorem Counts.pop {mem : Memory} {head count : Nat} (counts : Counts mem head count)
    (nonnull : head ≠ 0)
    : ∃ fewer, count = fewer + 1 ∧ Counts mem (mem head) fewer := by
  obtain ⟨nodes, linked, rfl⟩ := counts
  obtain ⟨rest, rfl, below⟩ := linked.head_cons nonnull
  exact ⟨rest.length, rfl, rest, below, rfl⟩

theorem Counts.null {mem : Memory} {count : Nat} (counts : Counts mem 0 count) : count = 0 := by
  obtain ⟨nodes, linked, rfl⟩ := counts
  have empty : Linked mem 0 [] := rfl
  exact congrArg List.length (linked.unique empty)

/-- A write that spares the good nodes of a list keeps its length. -/
theorem Counts.frame {mem next : Memory} {head count : Nat} {good : Nat → Prop}
    (counts : Counts mem head count) (list : LinkedIn mem head good)
    (same : ∀ node, good node → next node = mem node)
    : Counts next head count := by
  obtain ⟨nodes, linked, rfl⟩ := counts
  obtain ⟨others, linkedToo, all⟩ := list
  obtain rfl := linked.unique linkedToo
  exact ⟨nodes, linked.frame (fun node member => same node (all node member)), rfl⟩

/-- No step writes into an arena on the shared list or into an unused slot. -/
theorem HeapState.Effect.spares (effect : state.Effect layout place t move next event)
    (placed : state.Placed layout place) {slot : Nat}
    (listed : place slot = .heap ∨ ∃ u, place slot = .arena u)
    : next.mem slot = state.mem slot := by
  have notLive {index : Nat} (isLive : index ∈ state.live) : slot ≠ layout.indexToPtr index := by
    rintro rfl
    rw [(placed.live index isLive).2] at listed
    simp at listed
  cases effect with
  | install isArena held built here =>
      subst built
      refine threadBlocks_frame ?_
      intro member
      rw [held slot member] at listed
      simp at listed
  | fill isSlot held here =>
      refine Function.update_of_ne ?_ _ _
      rintro rfl
      rw [held] at listed
      simp at listed
  | delete _ _ isLive => exact Function.update_of_ne (notLive isLive) _ _
  | overwrite isLive => exact Function.update_of_ne (notLive isLive) _ _
  | _ => rfl

/-- The unused slots of a thread stay, if its allocator does and it takes no arena. -/
theorem HeapState.Effect.unused_kept {u : τ} {count : Nat}
    (effect : state.Effect layout place t move next event) (placed : state.Placed layout place)
    (same : next.Holding u ↔ state.Holding u) (tls : next.tls u = state.tls u)
    (unused : state.Unused layout u count)
    : next.Unused layout u count := by
  cases unused with
  | held holding => exact .held (same.mpr holding)
  | absent holding none => exact .absent (fun held => holding (same.mp held)) (tls.trans none)
  | arena holding has noFree counts =>
      refine .arena (fun held => holding (same.mp held)) (tls.trans has) noFree ?_
      exact counts.frame (placed.arena u _ has)
        (fun slot good => effect.spares placed (.inr ⟨u, good.2⟩))

/-- The arenas on the shared list stay, if its head does. -/
theorem HeapState.Effect.left_kept {rest : Nat}
    (effect : state.Effect layout place t move next event) (placed : state.Placed layout place)
    (heap : next.heap = state.heap) (counts : Counts state.mem state.heap.listNode rest)
    : Counts next.mem next.heap.listNode rest := by
  rw [heap]
  refine counts.frame placed.heap (fun arena good => effect.spares placed (.inl ?_))
  exact good.2 arena (layout.arena_mem_slotsOf arena)

/-- The calls of `append` after one more move. -/
def countCall (calls : τ → Nat) (t : τ) : HeapMove → τ → Nat
  | .append _ => Function.update calls t (calls t + 1)
  | .delete _ | .overwrite _ _ | .advance => calls

theorem countCall_other {u : τ} (other : u ≠ t) : countCall calls t move u = calls u := by
  cases move with
  | append => exact Function.update_of_ne other _ _
  | delete | overwrite | advance => rfl

/-- A step is accounted for by the account of the thread that takes it. -/
theorem Tally.mover (tally : Tally layout threads taken popped calls state)
    (effect : state.Effect layout place t move next event) (placed : state.Placed layout place)
    {arenas slots rest : Nat}
    (mine : Account layout next arenas slots (countCall calls t move t) t)
    (counts : Counts next.mem next.heap.listNode rest)
    (total : rest + ∑ u ∈ threads, Function.update taken t arenas u = layout.arenaCnt)
    : Tally layout threads (Function.update taken t arenas) (Function.update popped t slots)
        (countCall calls t move) next := by
  refine ⟨?_, rest, counts, total⟩
  intro u
  by_cases mover : u = t
  · subst mover
    simpa using mine
  · obtain ⟨pc, tls⟩ := effect.other mover
    rw [Function.update_of_ne mover, Function.update_of_ne mover, countCall_other mover]
    have account := tally.account u
    obtain ⟨unused, few, has, slots⟩ := account.slots
    have same : next.Holding u ↔ state.Holding u := by simp only [HeapState.Holding, pc]
    refine ⟨⟨unused, few, effect.unused_kept placed same tls has, slots⟩, account.called, ?_⟩
    rw [pc]
    exact account.searching

/-- A step that takes neither an arena nor a slot. -/
theorem Tally.keep (tally : Tally layout threads taken popped calls state)
    (effect : state.Effect layout place t move next event) (placed : state.Placed layout place)
    (heap : next.heap = state.heap) (tls : next.tls t = state.tls t)
    (same : next.Holding t ↔ state.Holding t)
    (called : popped t ≤ countCall calls t move t)
    (searching : ∀ item point, next.pc t = .append item point → (∀ ptr, point ≠ .fill ptr)
      → popped t < countCall calls t move t)
    : Tally layout threads taken popped (countCall calls t move) next := by
  obtain ⟨rest, counts, total⟩ := tally.left
  obtain ⟨unused, few, has, slots⟩ := (tally.account t).slots
  have spared := effect.left_kept placed heap counts
  have mine : Account layout next (taken t) (popped t) (countCall calls t move t) t :=
    ⟨⟨unused, few, effect.unused_kept placed same tls has, slots⟩, called, searching⟩
  have after := tally.mover effect placed mine spared (by simpa using total)
  simpa using after

omit [DecidableEq τ] in
/-- A thread that asks for an arena has used all its slots. -/
theorem HeapState.Unused.exhausted {count : Nat} {use : ArenaUse}
    (unused : state.Unused layout t count) (holding : ¬ state.Holding t)
    (uses : state.Uses t use)
    : count = 0 := by
  cases unused with
  | held held => exact absurd held holding
  | absent => rfl
  | arena _ has _ counts =>
      cases use with
      | first => exact absurd (has.symm.trans uses) (by simp)
      | refill =>
          obtain ⟨inner, hasToo, noArena, _⟩ := uses
          obtain rfl := Option.some.inj (has.symm.trans hasToo)
          exact (noArena ▸ counts).null

/-- A search is neither at an arena to initialise nor at a slot to fill. -/
theorem AppendPc.Searching.elsewhere {point : AppendPc} (searching : point.Searching)
    : (∀ use ptr, point ≠ .initArena use ptr) ∧ ∀ ptr, point ≠ .fill ptr := by
  cases point with
  | lookup | newArena | popFree | arenaAlloc => simp
  | initArena | fill => exact searching.elim

omit [DecidableEq τ] in
/-- A thread that stands elsewhere has no arena in its hands. -/
theorem HeapState.not_holding {item : Nat} {point : AppendPc}
    (here : state.pc t = .append item point) (elsewhere : ∀ use ptr, point ≠ .initArena use ptr)
    : ¬ state.Holding t := by
  rintro ⟨item', use, ptr, there⟩
  obtain ⟨_, same⟩ := HeapPc.append.inj (here.symm.trans there)
  exact elsewhere use ptr same

/-- Taking an arena adds one to the arenas of the thread and takes one from the list. -/
theorem Tally.takeArena (tally : Tally layout threads taken popped calls state)
    (placed : state.Placed layout place)
    (members : ∀ t, 0 < calls t → t ∈ threads) {item arena : Nat} {use : ArenaUse} {point : AllocPc}
    (uses : state.Uses t use) (head : state.heap.listNode = arena) (nonnull : arena ≠ 0)
    (here : state.pc t = .append item (.newArena use point))
    : ∃ taken' popped', Tally layout threads taken' popped' calls
        ({ state with heap := { state.heap with listNode := state.mem arena } }.moveTo t
          (.append item (.initArena use arena))) := by
  have account := tally.account t
  have called : popped t < calls t := account.searching item _ here (by simp)
  obtain ⟨unused, _, has, slots⟩ := account.slots
  obtain rfl := has.exhausted (HeapState.not_holding here (by simp)) uses
  obtain ⟨rest, counts, total⟩ := tally.left
  obtain ⟨fewer, rfl, below⟩ := counts.pop (head ▸ nonnull)
  rw [head] at below
  have effect : state.Effect layout place t .advance _ .progressed :=
    .takeArena uses head nonnull here
  have mine : Account layout
      ({ state with heap := { state.heap with listNode := state.mem arena } }.moveTo t
        (.append item (.initArena use arena))) (taken t + 1) (popped t) (calls t) t := by
    refine ⟨⟨_, Nat.le_refl _, .held ⟨item, use, arena, Function.update_self ..⟩, ?_⟩,
      account.called, fun _ _ _ _ => called⟩
    rw [Nat.mul_succ]
    omega
  refine ⟨_, _, tally.mover effect placed mine below ?_⟩
  have member : t ∈ threads := members t (by omega)
  have split := Finset.sum_update_of_mem member taken (taken t)
  rw [Function.update_eq_self] at split
  rw [Finset.sum_update_of_mem member]
  omega

/-- Initialising an arena makes its slots the unused ones. -/
theorem Tally.install (tally : Tally layout threads taken popped calls state)
    (placed : state.Placed layout place) {item ptr : Nat} {use : ArenaUse}
    (isArena : ptr ∈ layout.arenas) (held : ∀ slot ∈ layout.slotsOf ptr, place slot = .hand t)
    (here : state.pc t = .append item (.initArena use ptr))
    : Tally layout threads taken popped calls
        (({ state with
            mem := (ArrayAllocator.new layout.slotsPerArena layout.size ptr state.mem).1
          }.setTls t
            { arena := (ArrayAllocator.new layout.slotsPerArena layout.size ptr state.mem).2
              freeHead := 0 }).moveTo t (.append item .popFree)) := by
  have account := tally.account t
  have called : popped t < calls t := account.searching item _ here (by simp)
  obtain ⟨unused, few, has, slots⟩ := account.slots
  have full : unused = layout.slotsPerArena := by
    cases has with
    | held => rfl
    | absent holding => exact absurd ⟨item, use, ptr, here⟩ holding
    | arena holding => exact absurd ⟨item, use, ptr, here⟩ holding
  obtain ⟨rest, counts, total⟩ := tally.left
  have effect : state.Effect layout place t .advance _ .progressed := .install isArena held rfl here
  have linked : Linked (threadBlocks layout.size ptr layout.slotsPerArena state.mem).1
      (threadBlocks layout.size ptr layout.slotsPerArena state.mem).2
      (blocks ptr layout.size layout.slotsPerArena).reverse :=
    threadBlocks_linked layout.positive (HeapLayout.arena_nonnull isArena)
  have mine : Account layout
      (({ state with
            mem := (ArrayAllocator.new layout.slotsPerArena layout.size ptr state.mem).1
          }.setTls t
            { arena := (ArrayAllocator.new layout.slotsPerArena layout.size ptr state.mem).2
              freeHead := 0 }).moveTo t (.append item .popFree))
      (taken t) (popped t) (calls t) t := by
    refine ⟨⟨unused, few, .arena ?_ (Function.update_self ..) rfl ?_, slots⟩,
      account.called, fun _ _ _ _ => called⟩
    · exact HeapState.not_holding (Function.update_self ..) (by simp)
    · exact ⟨_, linked, by simp [blocks, full]⟩
  have after := tally.mover effect placed mine (effect.left_kept placed rfl counts)
    (by simpa using total)
  simpa [countCall] using after

/-- A slot popped from the arena is one slot used. -/
theorem Tally.popArena (tally : Tally layout threads taken popped calls state)
    (placed : state.Placed layout place) {item ptr : Nat} {inner : TlsAllocator} {point : AllocPc}
    (has : state.tls t = some inner) (head : inner.arena.listNode = ptr) (nonnull : ptr ≠ 0)
    (here : state.pc t = .append item (.arenaAlloc point))
    : ∃ popped', Tally layout threads taken popped' calls
        ((state.setTls t
            { inner with arena := { inner.arena with listNode := state.mem ptr } }).moveTo t
          (.append item (.fill ptr))) := by
  have account := tally.account t
  have called : popped t < calls t := account.searching item _ here (by simp)
  obtain ⟨unused, few, count, slots⟩ := account.slots
  have unheld := HeapState.not_holding here (by simp)
  obtain ⟨rest, left, total⟩ := tally.left
  have effect : state.Effect layout place t .advance _ .progressed :=
    .popArena has head nonnull here
  cases count with
  | held holding => exact absurd holding unheld
  | absent _ none => exact absurd (has.symm.trans none) (by simp)
  | arena _ hasToo noFree counts =>
      obtain rfl := Option.some.inj (has.symm.trans hasToo)
      obtain ⟨fewer, rfl, below⟩ := counts.pop (head ▸ nonnull)
      rw [head] at below
      have mine : Account layout
          ((state.setTls t
              { inner with arena := { inner.arena with listNode := state.mem ptr } }).moveTo t
            (.append item (.fill ptr)))
          (taken t) (popped t + 1) (calls t) t := by
        refine ⟨⟨fewer, by omega, .arena ?_ (Function.update_self ..) noFree below, by omega⟩,
          called, ?_⟩
        · exact HeapState.not_holding (Function.update_self ..) (by simp)
        · intro item' point' there filled
          obtain ⟨_, same⟩ := HeapPc.append.inj ((Function.update_self ..).symm.trans there)
          exact absurd same.symm (filled ptr)
      have after := tally.mover effect placed mine (effect.left_kept placed rfl left)
        (by simpa using total)
      exact ⟨_, by simpa [countCall] using after⟩

/-- Every step but a `delete` keeps the accounts. -/
theorem Tally.step (tally : Tally layout threads taken popped calls state)
    (members : ∀ t, 0 < calls t → t ∈ threads)
    (effect : state.Effect layout place t move next event) (placed : state.Placed layout place)
    (kept : ∀ index, move ≠ .delete index)
    : ∃ taken' popped', Tally layout threads taken' popped' (countCall calls t move) next := by
  have account := tally.account t
  have finished {state : HeapState τ} {item : Nat} {point : AppendPc}
      : (state.moveTo t .idle).pc t ≠ .append item point := by simp [HeapState.moveTo]
  have idle {state : HeapState τ} : ¬ (state.moveTo t .idle).Holding t := by
    rintro ⟨_, _, _, holding⟩
    exact finished holding
  have whole := effect
  cases effect with
  | call waiting =>
      refine ⟨taken, popped, tally.keep whole placed rfl rfl ?_ ?_ ?_⟩
      · simp [HeapState.Holding, HeapState.moveTo, waiting]
      · simpa [countCall] using Nat.le_succ_of_le account.called
      · simpa [countCall] using fun _ _ _ _ => Nat.lt_succ_of_le account.called
  | @look item source point here ready bound searching =>
      have there : (state.moveTo t (.append item point)).pc t = .append item point :=
        Function.update_self ..
      refine ⟨taken, popped, tally.keep whole placed rfl rfl ?_ account.called ?_⟩
      · exact iff_of_false (HeapState.not_holding there searching.2.elsewhere.1)
          (HeapState.not_holding here searching.1.elsewhere.1)
      · exact fun _ _ _ _ => account.searching item source here searching.1.elsewhere.2
  | fail here =>
      refine ⟨taken, popped, tally.keep whole placed rfl rfl ?_ account.called ?_⟩
      · exact iff_of_false idle (HeapState.not_holding here (by simp))
      · exact fun _ _ holding => absurd holding finished
  | takeArena uses head nonnull here => exact tally.takeArena placed members uses head nonnull here
  | install isArena held built here =>
      subst built
      exact ⟨taken, popped, tally.install placed isArena held here⟩
  | popFree has nonnull here =>
      obtain ⟨unused, _, count, _⟩ := account.slots
      cases count with
      | held holding => exact absurd holding (HeapState.not_holding here (by simp))
      | absent _ none => exact absurd (has.symm.trans none) (by simp)
      | arena _ hasToo noFree =>
          obtain rfl := Option.some.inj (has.symm.trans hasToo)
          exact absurd noFree nonnull
  | popArena has head nonnull here => exact ⟨taken, tally.popArena placed has head nonnull here⟩
  | fill slot held here =>
      refine ⟨taken, popped, tally.keep whole placed rfl rfl ?_ account.called ?_⟩
      · exact iff_of_false idle (HeapState.not_holding here (by simp))
      · exact fun _ _ holding => absurd holding finished
  | delete => exact absurd rfl (kept _)
  | overwrite isLive =>
      exact ⟨taken, popped,
        tally.keep whole placed rfl rfl Iff.rfl account.called account.searching⟩

/-! ### Whole runs -/

def HeapMove.isAppend : HeapMove → Bool
  | .append _ => true
  | .delete _ | .overwrite _ _ | .advance => false

/-- The calls of `append` in a run, by one thread and by all. -/
def callsOf (trace : List ((τ × HeapMove) × HeapEvent)) (t : τ) : Nat :=
  trace.countP (fun entry => decide (entry.1.1 = t) && entry.1.2.isAppend)

def allCalls (trace : List ((τ × HeapMove) × HeapEvent)) : Nat :=
  trace.countP (fun entry => entry.1.2.isAppend)

theorem callsOf_extend (trace : List ((τ × HeapMove) × HeapEvent)) (t : τ) (move : HeapMove)
    (event : HeapEvent)
    : callsOf (trace ++ [((t, move), event)]) = countCall (callsOf trace) t move := by
  funext u
  cases move with
  | append item =>
      by_cases same : u = t
      · subst same
        simp [callsOf, countCall, HeapMove.isAppend]
      · simp [callsOf, countCall, HeapMove.isAppend, same, Ne.symm same]
  | delete | overwrite | advance => simp [callsOf, countCall, HeapMove.isAppend]

/-- A call is made by one thread. -/
theorem sum_callsOf_le (trace : List ((τ × HeapMove) × HeapEvent)) (threads : Finset τ)
    : ∑ t ∈ threads, callsOf trace t ≤ allCalls trace := by
  induction trace with
  | nil => simp [callsOf, allCalls]
  | cons entry rest ih =>
      have one : ∑ t ∈ threads, (if decide (entry.1.1 = t) && entry.1.2.isAppend then 1 else 0)
          ≤ if entry.1.2.isAppend then 1 else 0 := by
        cases entry.1.2.isAppend with
        | false => simp
        | true =>
            simp only [Bool.and_true, decide_eq_true_eq, Finset.sum_ite_eq, if_true]
            split <;> omega
      simp only [callsOf, allCalls, List.countP_cons, Finset.sum_add_distrib] at ih ⊢
      omega

omit [DecidableEq τ] in
/-- At first all arenas are on the shared list. -/
theorem HeapLayout.fresh_tally (layout : HeapLayout) (mem : Memory) (threads : Finset τ)
    : Tally layout threads (fun _ => 0) (fun _ => 0) (fun _ => 0) (layout.fresh mem) where
  account t := by
    have idle : (layout.fresh mem : HeapState τ).pc t = .idle := rfl
    refine ⟨⟨0, Nat.zero_le _, .absent ?_ rfl, rfl⟩, Nat.le_refl _, ?_⟩
    · rintro ⟨_, _, _, holding⟩
      exact absurd (idle.symm.trans holding) (by simp)
    · exact fun _ _ searching => absurd (idle.symm.trans searching) (by simp)
  left := by
    have linked : Linked (layout.fresh mem : HeapState τ).mem
        (layout.fresh mem : HeapState τ).heap.listNode layout.arenas.reverse :=
      threadBlocks_linked layout.arenaSize_pos layout.nonnull
    exact ⟨layout.arenaCnt, ⟨layout.arenas.reverse, linked, by simp [HeapLayout.arenas, blocks]⟩,
      by simp⟩

theorem mem_of_callsOf
    (callers : ∀ entry ∈ trace, entry.1.2.isAppend = true → entry.1.1 ∈ threads)
    (called : 0 < callsOf trace t)
    : t ∈ threads := by
  obtain ⟨entry, member, mine⟩ := List.countP_pos_iff.mp called
  simp only [Bool.and_eq_true, decide_eq_true_eq] at mine
  exact mine.1 ▸ callers entry member mine.2

/-- Without deletes, the accounts hold along every run. -/
theorem tally_of_run (run : Run (heapStep layout) (layout.fresh mem) trace state)
    (kept : ∀ entry ∈ trace, ∀ index, entry.1.2 ≠ .delete index)
    (callers : ∀ entry ∈ trace, entry.1.2.isAppend = true → entry.1.1 ∈ threads)
    : ∃ taken popped, Tally layout threads taken popped (callsOf trace) state := by
  induction run with
  | start => exact ⟨_, _, layout.fresh_tally mem threads⟩
  | @extend trace state action next event earlier taken ih =>
      obtain ⟨t, move⟩ := action
      simp only [List.mem_append, List.mem_singleton, or_imp, forall_and, forall_eq] at kept callers
      obtain ⟨arenas, slots, tally⟩ := ih kept.1 callers.1
      obtain ⟨place, placed⟩ := placed_of_run earlier
      rw [callsOf_extend]
      exact tally.step (fun _ => mem_of_callsOf callers.1) (heapStep_effect placed taken) placed
        kept.2

/-- When an `append` fails, the calls have used up all arenas but one for each thread. -/
theorem Tally.out_of_memory (tally : Tally layout threads taken popped calls state)
    (members : ∀ t, 0 < calls t → t ∈ threads)
    (effect : state.Effect layout place t move next .outOfMemory)
    : layout.capacity < ∑ t ∈ threads, calls t + layout.slotsPerArena * threads.card := by
  cases effect with
  | @fail item use point here drained =>
      obtain ⟨rest, counts, total⟩ := tally.left
      obtain rfl := (drained ▸ counts).null
      have strands (u : τ) : layout.slotsPerArena * taken u ≤ popped u + layout.slotsPerArena := by
        obtain ⟨unused, few, _, slots⟩ := (tally.account u).slots
        omega
      have called : popped t < calls t := (tally.account t).searching item _ here (by simp)
      have fewer : ∑ u ∈ threads, layout.slotsPerArena * taken u
          < ∑ u ∈ threads, (calls u + layout.slotsPerArena) := by
        refine Finset.sum_lt_sum ?_ ⟨t, members t (by omega), ?_⟩
        · exact fun u _ => (strands u).trans (Nat.add_le_add_right (tally.account u).called _)
        · exact (strands t).trans_lt (Nat.add_lt_add_right called _)
      rw [← Finset.mul_sum, Finset.sum_add_distrib, Finset.sum_const, Nat.nsmul_eq_mul] at fewer
      calc layout.capacity
        _ = layout.slotsPerArena * ∑ u ∈ threads, taken u := by
            rw [HeapLayout.capacity, ← total, Nat.zero_add, Nat.mul_comm]
        _ < ∑ u ∈ threads, calls u + threads.card * layout.slotsPerArena := fewer
        _ = ∑ u ∈ threads, calls u + layout.slotsPerArena * threads.card := by rw [Nat.mul_comm]

end Tally

/-! ### `OidArray` -/

/-- `align_up` -/
def alignUp (size align : UInt64) : UInt64 :=
  (size + align - 1) &&& ~~~(align - 1)

/-- Clearing the low `k` bits rounds down to a multiple of `2 ^ k`, bit by bit. -/
theorem clear_low_bits (word mask : UInt64) {k : Nat} (width : k ≤ 64)
    (shape : mask.toNat = (2 ^ (64 - k) - 1) <<< k)
    : (word &&& mask).toNat = word.toNat / 2 ^ k * 2 ^ k := by
  have rounded : word.toNat / 2 ^ k * 2 ^ k = (word.toNat >>> k) <<< k := by
    rw [Nat.shiftRight_eq_div_pow, Nat.shiftLeft_eq]
  rw [UInt64.toNat_and, shape, rounded]
  refine Nat.eq_of_testBit_eq fun index => ?_
  rw [Nat.testBit_and, Nat.testBit_shiftLeft, Nat.testBit_shiftLeft, Nat.testBit_shiftRight,
    Nat.testBit_two_pow_sub_one]
  by_cases low : index < k
  · simp [Nat.not_le_of_lt low]
  · by_cases high : index < 64
    · have inside : index - k < 64 - k := by omega
      simp [Nat.le_of_not_lt low, inside]
    · have large : word.toNat < 2 ^ index :=
        Nat.lt_of_lt_of_le word.toNat_lt
          (Nat.pow_le_pow_right (by decide) (Nat.le_of_not_lt high))
      have same : k + (index - k) = index := by omega
      simp [same, Nat.testBit_lt_two_pow large]

namespace OidArray

/-- `size_of::<LockedOid>()` -/
def oidSize : UInt64 := 8

/-- `ARENA_SIZE` -/
def arenaSize : UInt64 := 64 * oidSize

/-- The size of the region that `OidArray::new` allocates. -/
def regionSize (cap : UInt64) : UInt64 :=
  alignUp (cap * oidSize + arenaSize * 128) arenaSize

/-- The number of arenas that `OidArray::new` makes of the region. -/
def arenaCnt (cap : UInt64) : Nat :=
  (regionSize cap / arenaSize).toNat

/-- The number of oids there is room for, when nothing overflows. -/
def room (cap : Nat) : Nat :=
  (cap * 8 + 64 * 1024 + 511) / 512 * 64

/-- The size is computed without overflow when the oids can be numbered by `u32`. -/
theorem padded_size {cap : UInt64} (fits : room cap.toNat ≤ 2 ^ 32 - 1)
    : (cap * oidSize + arenaSize * 128 + arenaSize - 1).toNat
      = cap.toNat * 8 + 64 * 1024 + 511 := by
  have small : cap.toNat < 2 ^ 32 := by
    unfold room at fits
    omega
  have scaled : (cap * oidSize).toNat = cap.toNat * 8 := by
    have eight : oidSize.toNat = 8 := rfl
    rw [UInt64.toNat_mul, eight]
    omega
  have padded : (cap * oidSize + arenaSize * 128 + arenaSize).toNat
      = cap.toNat * 8 + 64 * 1024 + 512 := by
    have slack : (arenaSize * 128).toNat = 64 * 1024 := rfl
    have arena : arenaSize.toNat = 512 := rfl
    rw [UInt64.toNat_add, UInt64.toNat_add, scaled, slack, arena]
    omega
  have one : (1 : UInt64).toNat = 1 := rfl
  rw [UInt64.toNat_sub_of_le _ _ (by rw [UInt64.le_iff_toNat_le, padded, one]; omega), padded, one]
  omega

theorem arenaCnt_eq {cap : UInt64} (fits : room cap.toNat ≤ 2 ^ 32 - 1)
    : arenaCnt cap * 64 = room cap.toNat := by
  have cleared := clear_low_bits (cap * oidSize + arenaSize * 128 + arenaSize - 1)
    (~~~(arenaSize - 1)) (by decide : 9 ≤ 64) (by decide)
  rw [padded_size fits] at cleared
  have region : (regionSize cap).toNat = _ := cleared
  have arena : arenaSize.toNat = 2 ^ 9 := rfl
  rw [arenaCnt, UInt64.toNat_div, region, arena, Nat.mul_div_cancel _ (by decide), room]
  rfl

/-- Room for `cap` oids and for one more arena in each of 128 threads. -/
theorem le_room (cap : Nat)
    : cap + 64 * 128 ≤ room cap := by
  unfold room
  omega

/-- The heap of `OidArray::new(cap)` over the region at `start`. -/
def heap (cap : UInt64) (start : Nat) (nonnull : 0 < start)
    (fits : room cap.toNat ≤ 2 ^ 32 - 1) : HeapLayout where
  arenaCnt := arenaCnt cap
  slotsPerArena := 64
  start := start
  size := oidSize.toNat
  holdsNode := by decide
  occupied := Nat.succ_pos 63
  nonnull := nonnull
  indexed := (arenaCnt_eq fits).trans_le fits

end OidArray

/-- `Storage`, up to the region it covers. -/
structure Storage where
  cap : Nat

/-- `Storage::new` -/
def Storage.new (cap : Nat) : Storage where
  cap := cap

/-- What `Storage::get` asserts of a rid. -/
def Storage.Inside (storage : Storage) (rid : Nat) : Prop :=
  rid < storage.cap

section Table

variable {τ : Type} [DecidableEq τ] {mem : Memory} {state : HeapState τ}
  {trace : List ((τ × HeapMove) × HeapEvent)}

/-- An array for `cap` oids has room for `cap` appends by up to 128 threads, each of which may hold
an arena of its own.
-/
theorem OidArray.serves {cap : UInt64} {start : Nat} {nonnull : 0 < start}
    {fits : OidArray.room cap.toNat ≤ 2 ^ 32 - 1}
    (run : Run (heapStep (OidArray.heap cap start nonnull fits))
      ((OidArray.heap cap start nonnull fits).fresh mem) trace state)
    (kept : ∀ entry ∈ trace, ∀ index, entry.1.2 ≠ .delete index)
    {threads : Finset τ} (few : threads.card ≤ 128)
    (callers : ∀ entry ∈ trace, entry.1.2.isAppend = true → entry.1.1 ∈ threads)
    (calls : allCalls trace ≤ cap.toNat)
    : ∀ entry ∈ trace, entry.2 ≠ .outOfMemory := by
  have capacity : (OidArray.heap cap start nonnull fits).capacity = OidArray.room cap.toNat :=
    OidArray.arenaCnt_eq fits
  rintro ⟨⟨t, move⟩, event⟩ member rfl
  obtain ⟨before, after, source, next, rfl, reached, taken⟩ := run.step_of_mem member
  obtain ⟨place, placed⟩ := placed_of_run reached
  have earlier {entry} (inside : entry ∈ before) :=
    List.mem_append_left (((t, move), HeapEvent.outOfMemory) :: after) inside
  have called (entry) (inside : entry ∈ before) := callers entry (earlier inside)
  obtain ⟨arenas, slots, tally⟩ :=
    tally_of_run reached (fun entry inside => kept entry (earlier inside)) called
  have exceeded :=
    tally.out_of_memory (fun _ => mem_of_callsOf called) (heapStep_effect placed taken)
  have counted : allCalls before ≤ cap.toNat :=
    (List.sublist_append_left before _).countP_le.trans calls
  have room := OidArray.le_room cap.toNat
  have sum := sum_callsOf_le before threads
  have shared : (OidArray.heap cap start nonnull fits).slotsPerArena * threads.card ≤ 64 * 128 :=
    Nat.mul_le_mul_left 64 few
  omega

/-- Rids lie inside the storage that has the array's capacity. -/
theorem HeapLayout.appended_inside {layout : HeapLayout} {t : τ} {move : HeapMove} {index : Nat}
    (run : Run (heapStep layout) (layout.fresh mem) trace state)
    (member : ((t, move), .appended index) ∈ trace)
    : (Storage.new layout.capacity).Inside index := by
  obtain ⟨before, after, source, next, rfl, reached, taken⟩ := run.step_of_mem member
  obtain ⟨place, placed⟩ := placed_of_run reached
  exact (((heapStep_effect placed taken).sound placed).fresh index rfl).2

/-- An array for `cap` oids serves `cap` calls of `alloc_rid` by up to 128 threads, in any
interleaving: no call runs out of space, and every rid lies inside the storage that has the
array's capacity.
-/
theorem oidArray_serves_cap_calls (cap : UInt64) {start : Nat} (nonnull : 0 < start)
    (fits : OidArray.room cap.toNat ≤ 2 ^ 32 - 1)
    (run : Run (heapStep (OidArray.heap cap start nonnull fits))
      ((OidArray.heap cap start nonnull fits).fresh mem) trace state)
    (kept : ∀ entry ∈ trace, ∀ index, entry.1.2 ≠ .delete index)
    (threads : Finset τ) (few : threads.card ≤ 128)
    (callers : ∀ entry ∈ trace, entry.1.2.isAppend = true → entry.1.1 ∈ threads)
    (calls : allCalls trace ≤ cap.toNat)
    : (∀ entry ∈ trace, entry.2 ≠ .outOfMemory)
      ∧ ∀ t move index, ((t, move), .appended index) ∈ trace
          → (Storage.new (OidArray.heap cap start nonnull fits).capacity).Inside index :=
  ⟨OidArray.serves run kept few callers calls, fun _ _ _ => HeapLayout.appended_inside run⟩

/-- `tuple_cnt`, the capacity that a table with `storage(size)` asks for. -/
def tupleCnt (storageSize tupleSize : UInt64) : UInt64 :=
  storageSize / tupleSize

/-- So a table accepts as many inserts as its storage size has room for tuples. -/
theorem table_accepts_inserts {storageSize tupleSize : UInt64} {start : Nat} {nonnull : 0 < start}
    {fits : OidArray.room (tupleCnt storageSize tupleSize).toNat ≤ 2 ^ 32 - 1}
    (run : Run (heapStep (OidArray.heap (tupleCnt storageSize tupleSize) start nonnull fits))
      ((OidArray.heap (tupleCnt storageSize tupleSize) start nonnull fits).fresh mem) trace state)
    (kept : ∀ entry ∈ trace, ∀ index, entry.1.2 ≠ .delete index)
    {threads : Finset τ} (few : threads.card ≤ 128)
    (callers : ∀ entry ∈ trace, entry.1.2.isAppend = true → entry.1.1 ∈ threads)
    (inserts : allCalls trace ≤ storageSize.toNat / tupleSize.toNat)
    : ∀ entry ∈ trace, entry.2 ≠ .outOfMemory :=
  OidArray.serves run kept few callers (by rwa [tupleCnt, UInt64.toNat_div])

end Table

/-- The heap of an array for two oids: 129 arenas. -/
def forTwoOids : HeapLayout :=
  OidArray.heap 2 4096 (by decide) (by decide)

/-- Two threads call `alloc_rid` on an array for two oids; each takes an arena of its own. -/
theorem oidArray_serves_cap_calls_two_threads
    : ∃ (trace : List ((Bool × HeapMove) × HeapEvent)) (state : HeapState Bool),
        Run (heapStep forTwoOids) (forTwoOids.fresh (fun _ => 0)) trace state
        ∧ allCalls trace = 2
        ∧ ((true, .advance), .appended 8255) ∈ trace
        ∧ ((false, .advance), .appended 8191) ∈ trace
        ∧ (∀ entry ∈ trace, entry.2 ≠ .outOfMemory)
        ∧ (Storage.new forTwoOids.capacity).Inside 8255
        ∧ (Storage.new forTwoOids.capacity).Inside 8191 := by
  obtain ⟨trace, state, run, passed⟩ := exec_reaches
    (fun result : HeapState Bool × List ((Bool × HeapMove) × HeapEvent) =>
      decide (allCalls result.2 = 2
        ∧ ((true, .advance), .appended 8255) ∈ result.2
        ∧ ((false, .advance), .appended 8191) ∈ result.2
        ∧ ∀ entry ∈ result.2, entry.1.2 = .append 0 ∨ entry.1.2 = .advance))
    (by decide +kernel
      : (exec (heapStep forTwoOids) (forTwoOids.fresh (fun _ => 0))
          ((true, .append 0) :: List.replicate 10 (true, .advance)
            ++ (false, .append 0) :: List.replicate 10 (false, .advance))).any _ = true)
  obtain ⟨calls, first, second, moves⟩ := of_decide_eq_true passed
  have served := oidArray_serves_cap_calls 2 (by decide) (by decide) run
    (fun entry member index same => by
      rcases moves entry member with append | advance
      · exact absurd (append.symm.trans same) (by simp)
      · exact absurd (advance.symm.trans same) (by simp))
    Finset.univ (by decide) (fun _ _ _ => Finset.mem_univ _) calls.le
  exact ⟨trace, state, run, calls, first, second, served.1, served.2 _ _ _ first,
    served.2 _ _ _ second⟩

end Alchemy.Allocator
