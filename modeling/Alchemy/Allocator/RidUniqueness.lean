import Alchemy.Allocator.HeapSteps

/-! Every index `append` returns is new and in range, and an `append` that fails has changed
nothing: until it takes an arena or a slot it only looks, and from then on it succeeds.
-/

namespace Alchemy.Allocator

open IntrusiveList Interleaving

section Rids

variable {τ : Type} [DecidableEq τ] {layout : HeapLayout} {state next : HeapState τ}
  {place : Nat → Holder τ} {t : τ} {move : HeapMove} {event : HeapEvent} {mem : Memory}
  {trace : List ((τ × HeapMove) × HeapEvent)}

omit [DecidableEq τ] in
/-- At first every arena is on the shared list. -/
theorem HeapLayout.fresh_placed (layout : HeapLayout) (mem : Memory)
    : (layout.fresh mem : HeapState τ).Placed layout (fun _ => .heap) where
  heap := by
    refine ⟨layout.arenas.reverse, threadBlocks_linked layout.arenaSize_pos layout.nonnull, ?_⟩
    intro arena member
    exact ⟨List.mem_reverse.mp member, fun _ _ => rfl⟩
  arena := nofun
  free := nofun
  live := by simp [HeapLayout.fresh]
  distinct := List.nodup_nil
  ready := nofun

theorem placed_of_run (run : Run (heapStep layout) (layout.fresh mem) trace state)
    : ∃ place, state.Placed layout place := by
  induction run with
  | start => exact ⟨_, layout.fresh_placed mem⟩
  | extend _ taken ih =>
      obtain ⟨place, placed⟩ := ih
      exact (heapStep_effect placed taken).placed placed

/-! ### What each step may report -/

/-- An index returned is in range and not live. An `append` runs out of memory only when
the shared list is empty and its thread has no slot left. A step that only looks, and one
that reports failure, leaves memory, allocators and live indices as they were.
-/
structure SoundStep (layout : HeapLayout) (state : HeapState τ) (action : τ × HeapMove)
    (event : HeapEvent) (next : HeapState τ)
    : Prop where
  fresh : ∀ index, event = .appended index → index ∉ state.live ∧ index < layout.capacity
  exhausted : event = .outOfMemory
    → state.heap.listNode = 0 ∧ Exhausted (state.tls action.1)
  unchanged : event = .pending ∨ event = .outOfMemory
    → next.mem = state.mem ∧ next.heap = state.heap ∧ next.tls = state.tls
      ∧ next.live = state.live

/-- Every effect is sound; only `fill` returns an index, of the slot it held. -/
theorem HeapState.Effect.sound (effect : state.Effect layout place t move next event)
    (placed : state.Placed layout place)
    : SoundStep layout state (t, move) event next := by
  cases effect with
  | call => exact ⟨nofun, nofun, fun _ => ⟨rfl, rfl, rfl, rfl⟩⟩
  | look => exact ⟨nofun, nofun, fun _ => ⟨rfl, rfl, rfl, rfl⟩⟩
  | fail _ drained exhausted =>
      exact ⟨nofun, fun _ => ⟨drained, exhausted⟩, fun _ => ⟨rfl, rfl, rfl, rfl⟩⟩
  | takeArena => exact ⟨nofun, nofun, by simp⟩
  | install => exact ⟨nofun, nofun, by simp⟩
  | popFree => exact ⟨nofun, nofun, by simp⟩
  | popArena => exact ⟨nofun, nofun, by simp⟩
  | fill slot held =>
      refine ⟨?_, nofun, by simp⟩
      rintro index ⟨⟩
      exact ⟨placed.fresh_index slot held, (HeapLayout.indexToPtr_ptrToIndex slot).1⟩
  | delete => exact ⟨nofun, nofun, by simp⟩
  | overwrite => exact ⟨nofun, nofun, by simp⟩

/-! ### An append that fails has only looked -/

/-- What the steps of thread `t` reported since it last called `append`. -/
def sinceCall (t : τ) (trace : List ((τ × HeapMove) × HeapEvent)) : List HeapEvent :=
  trace.foldl
    (fun events entry =>
      if entry.1.1 = t then
        match entry.1.2 with
        | .append _ => []
        | .advance => events ++ [entry.2]
        | .delete _ => events
        | .overwrite _ _ => events
      else
        events)
    []

/-- Either the `append` under way has only looked, or it cannot fail any more. -/
def OnlyLooked (trace : List ((τ × HeapMove) × HeapEvent)) (state : HeapState τ) : Prop :=
  ∀ t item point, state.pc t = .append item point
    → (∀ event ∈ sinceCall t trace, event = .pending) ∨ state.Bound t point

omit [DecidableEq τ] in
theorem HeapState.Bound.congr {point : AppendPc} (bound : state.Bound t point)
    (same : next.tls t = state.tls t)
    : next.Bound t point := by
  unfold HeapState.Bound at *
  rw [same]
  exact bound

/-- A step leaves the program counters and allocators of the other threads alone. -/
theorem HeapState.Effect.other {u : τ} (effect : state.Effect layout place t move next event)
    (other : u ≠ t)
    : next.pc u = state.pc u ∧ next.tls u = state.tls u := by
  cases effect <;> simp [HeapState.moveTo, HeapState.setTls, other]

/-- A freshly initialised arena has a slot. -/
theorem new_listNode_nonnull {ptr : Nat} (isArena : ptr ∈ layout.arenas) (mem : Memory)
    : (ArrayAllocator.new layout.slotsPerArena layout.size ptr mem).2.listNode ≠ 0 := by
  obtain ⟨count, same⟩ := Nat.exists_eq_succ_of_ne_zero (Nat.ne_of_gt layout.occupied)
  rw [same]
  exact blockAddr_nonnull (HeapLayout.arena_nonnull isArena)

/-- The alternative is kept by the thread that moves: looking stays looking or stays bound
to succeed, and a step that moves a slot or an arena binds it.
-/
theorem OnlyLooked.mover (looked : OnlyLooked trace state)
    (effect : state.Effect layout place t move next event)
    : ∀ item point, next.pc t = .append item point
      → (∀ label ∈ sinceCall t (trace ++ [((t, move), event)]), label = .pending)
        ∨ next.Bound t point := by
  intro item point here
  cases effect with
  | call => exact .inl (by simp [sinceCall])
  | @look item' source point' there _ bound =>
      obtain ⟨rfl, rfl⟩ : item' = item ∧ point' = point := by
        simpa [HeapState.moveTo] using here
      rcases looked t item' source there with pending | wasBound
      · refine .inl ?_
        simpa [sinceCall, or_imp, forall_and] using pending
      · exact .inr ((bound wasBound).congr rfl)
  | fail => simp [HeapState.moveTo] at here
  | takeArena =>
      obtain ⟨rfl, rfl⟩ := by simpa [HeapState.moveTo] using here
      exact .inr trivial
  | @install item' _ ptr arena isArena _ built =>
      obtain ⟨rfl, rfl⟩ : item' = item ∧ .popFree = point := by
        simpa [HeapState.moveTo] using here
      subst built
      refine .inr ?_
      simp [HeapState.Bound, HeapState.moveTo, HeapState.setTls, Exhausted,
        new_listNode_nonnull isArena]
  | popFree =>
      obtain ⟨rfl, rfl⟩ := by simpa [HeapState.moveTo] using here
      exact .inr trivial
  | popArena =>
      obtain ⟨rfl, rfl⟩ := by simpa [HeapState.moveTo] using here
      exact .inr trivial
  | fill => simp [HeapState.moveTo] at here
  | delete idle =>
      have there : state.pc t = .append item point := here
      simp [idle] at there
  | overwrite =>
      rcases looked t item point here with pending | wasBound
      · exact .inl (by simpa [sinceCall] using pending)
      · exact .inr (wasBound.congr rfl)

theorem OnlyLooked.step (looked : OnlyLooked trace state)
    (effect : state.Effect layout place t move next event)
    : OnlyLooked (trace ++ [((t, move), event)]) next := by
  intro u item point here
  by_cases mover : u = t
  · subst mover
    exact looked.mover effect item point here
  · obtain ⟨pc, tls⟩ := effect.other mover
    rw [pc] at here
    rcases looked u item point here with pending | bound
    · exact .inl (by simpa [sinceCall, Ne.symm mover] using pending)
    · exact .inr (bound.congr tls)

theorem onlyLooked_of_run (run : Run (heapStep layout) (layout.fresh mem) trace state)
    : OnlyLooked trace state := by
  induction run with
  | start => exact nofun
  | extend earlier taken ih =>
      obtain ⟨place, placed⟩ := placed_of_run earlier
      exact ih.step (heapStep_effect placed taken)

/-- An `append` that runs out of memory had only looked since it was called. -/
theorem HeapState.Effect.fail_looked {label : HeapEvent}
    (effect : state.Effect layout place t move next .outOfMemory)
    (looked : OnlyLooked trace state) (member : label ∈ sinceCall t trace)
    : label = .pending := by
  cases effect with
  | @fail item use point here =>
      rcases looked t item _ here with pending | bound
      · exact pending label member
      · exact bound.elim

/-- Uniqueness of the indices of a `HeapArray`, in every interleaving of appends and
deletes: each step is sound, an `append` that fails took no step that changed anything, and
indices and slot pointers determine each other.
-/
theorem heapArray_rids_unique (layout : HeapLayout)
    (run : Run (heapStep layout) (layout.fresh mem) trace state)
    : Along (heapStep layout) (layout.fresh mem) trace (SoundStep layout)
      ∧ (∀ before t after, trace = before ++ ((t, .advance), .outOfMemory) :: after
          → ∀ event ∈ sinceCall t before, event = .pending)
      ∧ (∀ index < layout.capacity, layout.ptrToIndex (layout.indexToPtr index) = index)
      ∧ ∀ ptr ∈ layout.slots, layout.ptrToIndex ptr < layout.capacity
          ∧ layout.indexToPtr (layout.ptrToIndex ptr) = ptr := by
  refine ⟨?_, ?_, fun _ => HeapLayout.ptrToIndex_indexToPtr,
    fun _ => HeapLayout.indexToPtr_ptrToIndex⟩
  · intro before action event after state next _ reached taken
    obtain ⟨place, placed⟩ := placed_of_run reached
    exact (heapStep_effect placed taken).sound placed
  · rintro before t after rfl label member
    rw [List.append_cons] at run
    obtain ⟨middle, first, _⟩ := run.split
    obtain ⟨source, reached, taken⟩ := first.last_step
    obtain ⟨place, placed⟩ := placed_of_run reached
    exact (heapStep_effect placed taken).fail_looked (onlyLooked_of_run reached) member

end Rids

/-- One arena of two slots. -/
def oneArena : HeapLayout where
  arenaCnt := 1
  slotsPerArena := 2
  start := 128
  size := 16
  holdsNode := by decide
  occupied := by decide
  nonnull := by decide
  indexed := by decide

/-- One thread takes the arena and appends index 1; the other finds no arena and fails. -/
theorem heapArray_rids_unique_two_threads
    : ∃ trace state,
        Run (heapStep oneArena) (oneArena.fresh (fun _ => 0) : HeapState Bool) trace state
        ∧ ((true, .advance), .appended 1) ∈ trace
        ∧ ((false, .advance), .outOfMemory) ∈ trace
        ∧ Along (heapStep oneArena) (oneArena.fresh (fun _ => 0)) trace (SoundStep oneArena) := by
  obtain ⟨trace, state, run, passed⟩ := exec_reaches
    (fun result : HeapState Bool × List ((Bool × HeapMove) × HeapEvent) =>
      decide (((true, .advance), .appended 1) ∈ result.2
        ∧ ((false, .advance), .outOfMemory) ∈ result.2))
    (by decide
      : (exec (heapStep oneArena) (oneArena.fresh (fun _ => 0))
          ((true, .append 7) :: List.replicate 10 (true, .advance)
            ++ (false, .append 9) :: List.replicate 2 (false, .advance))).any _ = true)
  obtain ⟨appended, failed⟩ := of_decide_eq_true passed
  exact ⟨trace, state, run, appended, failed, (heapArray_rids_unique oneArena run).1⟩

end Alchemy.Allocator
