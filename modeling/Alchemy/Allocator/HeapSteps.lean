import Alchemy.Allocator.SlotPlacement

/-! What one step on a `HeapArray` does to the places of its slots.
The shared list of arenas is pop-only: once an arena left it, no compare-exchange that
expects the arena at the head can succeed any more, whatever its slots hold by then.
-/

namespace Alchemy.Allocator

open IntrusiveList Interleaving

section Steps

variable {τ : Type} [DecidableEq τ] {layout : HeapLayout} {state next : HeapState τ}
  {place : Nat → Holder τ} {t : τ} {event : HeapEvent}

/-- No slot is left for thread `t` without a new arena. -/
def Exhausted : Option TlsAllocator → Prop
  | none => True
  | some inner => inner.arena.listNode = 0 ∧ inner.freeHead = 0

/-- The `append` of thread `t` has a slot or an arena in reach and cannot fail any more. -/
def HeapState.Bound (state : HeapState τ) (t : τ) : AppendPc → Prop
  | .lookup => False
  | .newArena _ _ => False
  | .initArena _ _ => True
  | .popFree => ¬ Exhausted (state.tls t)
  | .arenaAlloc _ => ¬ Exhausted (state.tls t)
  | .fill _ => True

/-- The `append` has neither an arena nor a slot in hand. -/
def AppendPc.Searching : AppendPc → Prop
  | .lookup | .newArena _ _ | .popFree | .arenaAlloc _ => True
  | .initArena _ _ | .fill _ => False

/-- Everything a step of thread `t` can do, by its move. -/
inductive HeapState.Effect (layout : HeapLayout) (state : HeapState τ)
    (place : Nat → Holder τ) (t : τ)
    : HeapMove → HeapState τ → HeapEvent → Prop
  | call {item} (idle : state.pc t = .idle)
    : Effect layout state place t (.append item)
        (state.moveTo t (.append item .lookup)) .pending
  | look {item source point} (here : state.pc t = .append item source)
    (ready : state.Ready layout place t point)
    (bound : state.Bound t source → state.Bound t point)
    (searching : source.Searching ∧ point.Searching)
    : Effect layout state place t .advance
        (state.moveTo t (.append item point)) .pending
  | fail {item use point} (here : state.pc t = .append item (.newArena use point))
    (drained : state.heap.listNode = 0) (exhausted : Exhausted (state.tls t))
    : Effect layout state place t .advance (state.moveTo t .idle) .outOfMemory
  | takeArena {item use point arena} (uses : state.Uses t use)
    (head : state.heap.listNode = arena) (nonnull : arena ≠ 0)
    (here : state.pc t = .append item (.newArena use point))
    : Effect layout state place t .advance
        ({ state with
            heap := { state.heap with listNode := state.mem arena } }.moveTo t
          (.append item (.initArena use arena)))
        .progressed
  | install {item use ptr arena} (isArena : ptr ∈ layout.arenas)
    (held : ∀ slot ∈ layout.slotsOf ptr, place slot = .hand t)
    (built : ArrayAllocator.new layout.slotsPerArena layout.size ptr state.mem = arena)
    (here : state.pc t = .append item (.initArena use ptr))
    : Effect layout state place t .advance
        (({ state with mem := arena.1 }.setTls t { arena := arena.2, freeHead := 0 }).moveTo t
          (.append item .popFree))
        .progressed
  | popFree {item inner} (has : state.tls t = some inner) (nonnull : inner.freeHead ≠ 0)
    (here : state.pc t = .append item .popFree)
    : Effect layout state place t .advance
        ((state.setTls t { inner with freeHead := state.mem inner.freeHead }).moveTo t
          (.append item (.fill inner.freeHead)))
        .progressed
  | popArena {item point inner ptr} (has : state.tls t = some inner)
    (head : inner.arena.listNode = ptr) (nonnull : ptr ≠ 0)
    (here : state.pc t = .append item (.arenaAlloc point))
    : Effect layout state place t .advance
        ((state.setTls t
            { inner with arena := { inner.arena with listNode := state.mem ptr } }).moveTo t
          (.append item (.fill ptr)))
        .progressed
  | fill {item ptr} (slot : ptr ∈ layout.slots) (held : place ptr = .hand t)
    (here : state.pc t = .append item (.fill ptr))
    : Effect layout state place t .advance
        ({ state with
            mem := Function.update state.mem ptr item
            live := layout.ptrToIndex ptr :: state.live }.moveTo t .idle)
        (.appended (layout.ptrToIndex ptr))
  | delete {index inner} (idle : state.pc t = .idle) (has : state.tls t = some inner)
    (isLive : index ∈ state.live)
    : Effect layout state place t (.delete index)
        ({ state with
            mem := Function.update state.mem (layout.indexToPtr index) inner.freeHead
            live := state.live.erase index }.setTls t
          { inner with freeHead := layout.indexToPtr index })
        (.deleted index)
  | overwrite {index value} (isLive : index ∈ state.live)
    : Effect layout state place t (.overwrite index value)
        { state with mem := Function.update state.mem (layout.indexToPtr index) value }
        .overwritten

omit [DecidableEq τ] in
theorem HeapState.Uses.exhausted {use : ArenaUse} (uses : state.Uses t use)
    : Exhausted (state.tls t) := by
  cases use with
  | first =>
      have absent : state.tls t = none := uses
      simp [absent, Exhausted]
  | refill =>
      obtain ⟨inner, has, noArena, noFree⟩ := uses
      simp [has, Exhausted, noArena, noFree]

/-- One access of the shared allocator by an `append` that wants an arena. -/
theorem HeapState.newArena_effect {item : Nat} {use : ArenaUse} {point : AllocPc}
    (placed : state.Placed layout place)
    (here : state.pc t = .append item (.newArena use point))
    (taken : state.advanceAppend layout t item (.newArena use point) = some (next, event))
    : state.Effect layout place t .advance next event := by
  have ready := placed.ready t item _ here
  -- the null check is reached from the first load and from a failed exchange
  have check (uses : state.Uses t use)
      (step : state.heap.allocStep state.mem point
        = (state.heap, checkNode state.heap.listNode))
      : state.Effect layout place t .advance next event := by
    unfold checkNode at step
    by_cases null : state.heap.listNode = 0
    · simp only [HeapState.advanceAppend, step, null, ↓reduceIte, Option.some.injEq,
        Prod.mk.injEq] at taken
      obtain ⟨rfl, rfl⟩ := taken
      exact .fail here null uses.exhausted
    · simp only [HeapState.advanceAppend, step, null, ↓reduceIte, Option.some.injEq,
        Prod.mk.injEq] at taken
      obtain ⟨rfl, rfl⟩ := taken
      exact .look here ⟨uses, (placed.heap.pop null).1.1⟩ id ⟨trivial, trivial⟩
  cases point with
  | load => exact check ready rfl
  | next node =>
      simp only [HeapState.advanceAppend, ArrayAllocator.allocStep, Option.some.injEq,
        Prod.mk.injEq] at taken
      obtain ⟨rfl, rfl⟩ := taken
      exact .look here ⟨ready.1, ready.2, fun _ => rfl⟩ id ⟨trivial, trivial⟩
  | cas node link =>
      obtain ⟨uses, isArena, linked⟩ := ready
      by_cases head : state.heap.listNode = node
      · have nonnull : node ≠ 0 := Nat.ne_of_gt (HeapLayout.arena_nonnull isArena)
        obtain ⟨⟨_, listed⟩, _⟩ := placed.heap.pop (head ▸ nonnull)
        rw [head] at listed
        obtain rfl := linked (listed node (layout.arena_mem_slotsOf node))
        simp only [HeapState.advanceAppend, ArrayAllocator.allocStep, head, ↓reduceIte,
          Option.some.injEq, Prod.mk.injEq] at taken
        obtain ⟨rfl, rfl⟩ := taken
        exact .takeArena uses head nonnull here
      · exact check uses (if_neg head)

/-- One access of the thread's own arena. -/
theorem HeapState.arenaAlloc_effect {item : Nat} {point : AllocPc}
    (placed : state.Placed layout place)
    (here : state.pc t = .append item (.arenaAlloc point))
    (taken : state.advanceAppend layout t item (.arenaAlloc point) = some (next, event))
    : state.Effect layout place t .advance next event := by
  have ready := placed.ready t item _ here
  cases point with
  | load =>
      obtain ⟨inner, has, empty⟩ := ready
      by_cases null : inner.arena.listNode = 0
      · simp only [HeapState.advanceAppend, has, ArrayAllocator.allocStep, checkNode, null,
          ↓reduceIte, Option.some.injEq, Prod.mk.injEq] at taken
        obtain ⟨rfl, rfl⟩ := taken
        refine .look here ⟨inner, has, null, empty⟩ ?_ ⟨trivial, trivial⟩
        intro inReach
        exact inReach (by simp [has, Exhausted, null, empty])
      · simp only [HeapState.advanceAppend, has, ArrayAllocator.allocStep, checkNode, null,
          ↓reduceIte, Option.some.injEq, Prod.mk.injEq] at taken
        obtain ⟨rfl, rfl⟩ := taken
        exact .look here ⟨inner, has, empty, rfl, null⟩ id ⟨trivial, trivial⟩
  | next node =>
      obtain ⟨inner, has, empty, head, nonnull⟩ := ready
      simp only [HeapState.advanceAppend, has, ArrayAllocator.allocStep, Option.some.injEq,
        Prod.mk.injEq] at taken
      obtain ⟨rfl, rfl⟩ := taken
      exact .look here ⟨inner, has, empty, head, nonnull, rfl⟩ id ⟨trivial, trivial⟩
  | cas node link =>
      obtain ⟨inner, has, empty, head, nonnull, rfl⟩ := ready
      simp only [HeapState.advanceAppend, has, ArrayAllocator.allocStep, head, ↓reduceIte,
        Option.some.injEq, Prod.mk.injEq] at taken
      obtain ⟨rfl, rfl⟩ := taken
      exact .popArena has head nonnull here

/-- One step of a call of `append`, by where it stands. -/
theorem HeapState.advanceAppend_effect {item : Nat} {point : AppendPc}
    (placed : state.Placed layout place) (here : state.pc t = .append item point)
    (taken : state.advanceAppend layout t item point = some (next, event))
    : state.Effect layout place t .advance next event := by
  have ready := placed.ready t item point here
  cases point with
  | lookup =>
      cases has : state.tls t with
      | none =>
          simp only [HeapState.advanceAppend, has, Option.some.injEq, Prod.mk.injEq] at taken
          obtain ⟨rfl, rfl⟩ := taken
          exact .look here has id ⟨trivial, trivial⟩
      | some inner =>
          simp only [HeapState.advanceAppend, has, Option.some.injEq, Prod.mk.injEq] at taken
          obtain ⟨rfl, rfl⟩ := taken
          exact .look here ⟨inner, has⟩ False.elim ⟨trivial, trivial⟩
  | newArena use point => exact newArena_effect placed here taken
  | initArena use ptr =>
      obtain ⟨uses, isArena, held⟩ := ready
      cases use with
      | first =>
          simp only [HeapState.advanceAppend, ArenaUse.install, Option.some.injEq,
            Prod.mk.injEq] at taken
          obtain ⟨rfl, rfl⟩ := taken
          exact .install isArena held rfl here
      | refill =>
          obtain ⟨inner, has, _, noFree⟩ := uses
          simp only [HeapState.advanceAppend, ArenaUse.install, has, Option.map_some, noFree,
            Option.some.injEq, Prod.mk.injEq] at taken
          obtain ⟨rfl, rfl⟩ := taken
          exact .install isArena held rfl here
  | popFree =>
      obtain ⟨inner, has⟩ := ready
      by_cases null : inner.freeHead = 0
      · simp only [HeapState.advanceAppend, has, null, ↓reduceIte, Option.some.injEq,
          Prod.mk.injEq] at taken
        obtain ⟨rfl, rfl⟩ := taken
        exact .look here ⟨inner, has, null⟩ id ⟨trivial, trivial⟩
      · simp only [HeapState.advanceAppend, has, null, ↓reduceIte, Option.some.injEq,
          Prod.mk.injEq] at taken
        obtain ⟨rfl, rfl⟩ := taken
        exact .popFree has null here
  | arenaAlloc point => exact arenaAlloc_effect placed here taken
  | fill ptr =>
      simp only [HeapState.advanceAppend, Option.some.injEq, Prod.mk.injEq] at taken
      obtain ⟨rfl, rfl⟩ := taken
      exact .fill ready.1 ready.2 here

/-- Inversion of the step function. -/
theorem heapStep_effect {move : HeapMove} (placed : state.Placed layout place)
    (taken : heapStep layout state (t, move) = some (next, event))
    : state.Effect layout place t move next event := by
  cases move with
  | append item =>
      cases here : state.pc t with
      | idle =>
          simp only [heapStep, here, Option.some.injEq, Prod.mk.injEq] at taken
          obtain ⟨rfl, rfl⟩ := taken
          exact .call here
      | append item point => simp [heapStep, here] at taken
  | delete index =>
      cases here : state.pc t with
      | idle =>
          cases has : state.tls t with
          | none => simp [heapStep, here, has] at taken
          | some inner =>
              simp only [heapStep, here, has, guarded_eq_some] at taken
              obtain ⟨isLive, rfl, rfl⟩ := taken
              exact .delete here has isLive
      | append item point => simp [heapStep, here] at taken
  | overwrite index value =>
      simp only [heapStep, guarded_eq_some] at taken
      obtain ⟨isLive, rfl, rfl⟩ := taken
      exact .overwrite isLive
  | advance =>
      cases here : state.pc t with
      | idle => simp [heapStep, here] at taken
      | append item point =>
          simp only [heapStep, here] at taken
          exact HeapState.advanceAppend_effect placed here taken

/-! ### The placement survives every step -/

theorem HeapState.Placed.takeArena {item arena : Nat} {use : ArenaUse}
    (placed : state.Placed layout place) (uses : state.Uses t use)
    (head : state.heap.listNode = arena) (nonnull : arena ≠ 0)
    : ({ state with heap := { state.heap with listNode := state.mem arena } }.moveTo t
        (.append item (.initArena use arena))).Placed layout
        (reassign place (layout.slotsOf arena) (.hand t)) := by
  obtain ⟨⟨isArena, listed⟩, rest⟩ := placed.heap.pop (head ▸ nonnull)
  rw [head] at isArena listed rest
  have frame : Frame state
      ({ state with heap := { state.heap with listNode := state.mem arena } }.moveTo t
        (.append item (.initArena use arena)))
      place (reassign place (layout.slotsOf arena) (.hand t)) (· = t) := by
    refine Frame.of_reassign ?_ (fun _ _ => rfl) ?_ (fun _ _ => rfl) (fun _ _ => rfl) (by simp)
    · exact fun u other => Function.update_of_ne other _ _
    · intro slot member u _
      simp [listed slot member, Holder.thread]
  refine frame.placed placed ?_ ?_ placed.distinct ?_
  · refine rest.frame ?_
    rintro other ⟨⟨isArenaToo, listedToo⟩, different⟩
    refine ⟨rfl, isArenaToo, ?_⟩
    intro slot member
    have outside : slot ∉ layout.slotsOf arena := fun shared =>
      different (HeapLayout.slotsOf_inj isArenaToo isArena member shared)
    exact (reassign_kept outside).trans (listedToo slot member)
  · exact placed.live_frame (fun slot member => by simp [listed slot member])
  · rintro u rfl
    refine ⟨?_, ?_, ?_⟩
    · intro inner has
      exact linkedIn_frame (placed.arena u inner has)
        (fun slot member => by simp [listed slot member]) (fun _ _ => rfl)
    · intro inner has
      exact linkedIn_frame (placed.free u inner has)
        (fun slot member => by simp [listed slot member]) (fun _ _ => rfl)
    · intro item' point here
      obtain ⟨rfl, rfl⟩ : item = item' ∧ .initArena use arena = point := by
        simpa [HeapState.moveTo] using here
      exact ⟨uses, isArena, fun slot member => reassign_moved member⟩

theorem HeapState.Placed.install {item ptr : Nat}
    (placed : state.Placed layout place) (isArena : ptr ∈ layout.arenas)
    (held : ∀ slot ∈ layout.slotsOf ptr, place slot = .hand t)
    : (({ state with
            mem := (ArrayAllocator.new layout.slotsPerArena layout.size ptr state.mem).1
          }.setTls t
            { arena := (ArrayAllocator.new layout.slotsPerArena layout.size ptr state.mem).2
              freeHead := 0 }).moveTo t (.append item .popFree)).Placed layout
        (reassign place (layout.slotsOf ptr) (.arena t)) := by
  refine placed.move (· = t) ?_ ?_ rfl ?_ ?_ ?_ (by simp) ?_ placed.distinct ?_
  · exact fun u other => Function.update_of_ne other _ _
  · exact fun u other => Function.update_of_ne other _ _
  · exact fun slot member => by simp [held slot member]
  · intro slot member u other
    simpa [held slot member, Holder.thread] using Ne.symm other
  · exact fun slot outside => threadBlocks_frame outside
  · exact placed.live_frame (fun slot member => by simp [held slot member])
  · rintro u rfl
    refine ⟨?_, ?_, ?_⟩
    · intro inner has
      obtain rfl : _ = inner := by simpa [HeapState.moveTo, HeapState.setTls] using has
      refine ⟨_, threadBlocks_linked layout.positive (HeapLayout.arena_nonnull isArena), ?_⟩
      intro slot member
      have within : slot ∈ layout.slotsOf ptr := List.mem_reverse.mp member
      exact ⟨HeapLayout.slotsOf_subset isArena within, reassign_moved within⟩
    · intro inner has
      obtain rfl : _ = inner := by simpa [HeapState.moveTo, HeapState.setTls] using has
      exact LinkedIn.null
    · intro item' point here
      obtain ⟨rfl, rfl⟩ : item = item' ∧ .popFree = point := by
        simpa [HeapState.moveTo] using here
      exact ⟨_, Function.update_self _ _ _⟩

/-- A slot leaves one of the thread's own lists, whose head it was. -/
theorem HeapState.Placed.takeSlot {item ptr : Nat} {inner : TlsAllocator} {mine : Holder τ}
    (placed : state.Placed layout place) (slot : ptr ∈ layout.slots) (held : place ptr = mine)
    (owned : mine.thread = some t)
    (arena : LinkedIn state.mem inner.arena.listNode
      (fun slot => slot ∈ layout.slots ∧ place slot = .arena t ∧ slot ≠ ptr))
    (free : LinkedIn state.mem inner.freeHead
      (fun slot => slot ∈ layout.slots ∧ place slot = .free t ∧ slot ≠ ptr))
    : ((state.setTls t inner).moveTo t (.append item (.fill ptr))).Placed layout
        (reassign place [ptr] (.hand t)) := by
  have notHeap : mine ≠ .heap := by rintro rfl; simp [Holder.thread] at owned
  have notLive : mine ≠ .live := by rintro rfl; simp [Holder.thread] at owned
  have kept {other} (different : other ≠ ptr)
      : reassign place [ptr] (.hand t) other = place other :=
    reassign_kept (by simpa using different)
  refine placed.move (· = t) ?_ ?_ rfl ?_ ?_ (fun _ _ => rfl) (by simp) ?_ placed.distinct ?_
  · exact fun u other => Function.update_of_ne other _ _
  · exact fun u other => Function.update_of_ne other _ _
  · simpa [held] using notHeap
  · intro other member u different
    obtain rfl := List.mem_singleton.mp member
    simpa [held, owned] using Ne.symm different
  · exact placed.live_frame (by simpa [held] using notLive)
  · rintro u rfl
    refine ⟨?_, ?_, ?_⟩
    · intro inner' has
      obtain rfl : inner = inner' := by simpa [HeapState.moveTo, HeapState.setTls] using has
      refine arena.frame ?_
      rintro other ⟨isSlot, there, different⟩
      exact ⟨rfl, isSlot, (kept different).trans there⟩
    · intro inner' has
      obtain rfl : inner = inner' := by simpa [HeapState.moveTo, HeapState.setTls] using has
      refine free.frame ?_
      rintro other ⟨isSlot, there, different⟩
      exact ⟨rfl, isSlot, (kept different).trans there⟩
    · intro item' point here
      obtain ⟨rfl, rfl⟩ : item = item' ∧ .fill ptr = point := by
        simpa [HeapState.moveTo] using here
      exact ⟨slot, reassign_moved (by simp)⟩

theorem HeapState.Placed.popFree {item : Nat} {inner : TlsAllocator}
    (placed : state.Placed layout place) (has : state.tls t = some inner)
    (nonnull : inner.freeHead ≠ 0)
    : ((state.setTls t { inner with freeHead := state.mem inner.freeHead }).moveTo t
        (.append item (.fill inner.freeHead))).Placed layout
        (reassign place [inner.freeHead] (.hand t)) := by
  obtain ⟨⟨slot, held⟩, rest⟩ := (placed.free t inner has).pop nonnull
  refine placed.takeSlot slot held rfl ?_ ?_
  · refine (placed.arena t inner has).frame ?_
    rintro other ⟨isSlot, there⟩
    refine ⟨rfl, isSlot, there, ?_⟩
    rintro rfl
    simp [held] at there
  · refine rest.frame ?_
    rintro other ⟨⟨isSlot, there⟩, different⟩
    exact ⟨rfl, isSlot, there, different⟩

theorem HeapState.Placed.popArena {item ptr : Nat} {inner : TlsAllocator}
    (placed : state.Placed layout place) (has : state.tls t = some inner)
    (head : inner.arena.listNode = ptr) (nonnull : ptr ≠ 0)
    : ((state.setTls t
          { inner with arena := { inner.arena with listNode := state.mem ptr } }).moveTo t
        (.append item (.fill ptr))).Placed layout (reassign place [ptr] (.hand t)) := by
  obtain ⟨⟨slot, held⟩, rest⟩ := (placed.arena t inner has).pop (head ▸ nonnull)
  rw [head] at slot held rest
  refine placed.takeSlot slot held rfl ?_ ?_
  · refine rest.frame ?_
    rintro other ⟨⟨isSlot, there⟩, different⟩
    exact ⟨rfl, isSlot, there, different⟩
  · refine (placed.free t inner has).frame ?_
    rintro other ⟨isSlot, there⟩
    refine ⟨rfl, isSlot, there, ?_⟩
    rintro rfl
    simp [held] at there

omit [DecidableEq τ] in
/-- A slot in hand is not live, so its index is none of the live ones. -/
theorem HeapState.Placed.fresh_index {ptr : Nat} (placed : state.Placed layout place)
    (slot : ptr ∈ layout.slots) (held : place ptr = .hand t)
    : layout.ptrToIndex ptr ∉ state.live := by
  intro already
  have live := (placed.live _ already).2
  rw [(HeapLayout.indexToPtr_ptrToIndex slot).2, held] at live
  cases live

theorem HeapState.Placed.fill {item ptr : Nat} (placed : state.Placed layout place)
    (slot : ptr ∈ layout.slots) (held : place ptr = .hand t)
    : ({ state with
          mem := Function.update state.mem ptr item
          live := layout.ptrToIndex ptr :: state.live }.moveTo t .idle).Placed layout
        (reassign place [ptr] .live) := by
  have same (other) (outside : other ∉ [ptr])
      : Function.update state.mem ptr item other = state.mem other :=
    Function.update_of_ne (by simpa using outside) _ _
  refine placed.move (· = t) ?_ (fun _ _ => rfl) rfl ?_ ?_ same (by simp) ?_ ?_ ?_
  · exact fun u other => Function.update_of_ne other _ _
  · simp [held]
  · intro other member u different
    obtain rfl := List.mem_singleton.mp member
    simpa [held, Holder.thread] using Ne.symm different
  · intro index member
    rcases List.mem_cons.mp member with rfl | earlier
    · obtain ⟨inRange, back⟩ := HeapLayout.indexToPtr_ptrToIndex slot
      exact ⟨inRange, reassign_moved (by simp [back])⟩
    · exact placed.live_frame (by simp [held]) index earlier
  · exact List.nodup_cons.mpr ⟨placed.fresh_index slot held, placed.distinct⟩
  · rintro u rfl
    refine ⟨?_, ?_, ?_⟩
    · exact fun inner has => linkedIn_frame (placed.arena u inner has) (by simp [held]) same
    · exact fun inner has => linkedIn_frame (placed.free u inner has) (by simp [held]) same
    · intro item' point here
      simp [HeapState.moveTo] at here

theorem HeapState.Placed.delete {index : Nat} {inner : TlsAllocator}
    (placed : state.Placed layout place) (idle : state.pc t = .idle)
    (has : state.tls t = some inner) (isLive : index ∈ state.live)
    : ({ state with
          mem := Function.update state.mem (layout.indexToPtr index) inner.freeHead
          live := state.live.erase index }.setTls t
        { inner with freeHead := layout.indexToPtr index }).Placed layout
        (reassign place [layout.indexToPtr index] (.free t)) := by
  obtain ⟨inRange, held⟩ := placed.live index isLive
  have same (other) (outside : other ∉ [layout.indexToPtr index])
      : Function.update state.mem (layout.indexToPtr index) inner.freeHead other
        = state.mem other :=
    Function.update_of_ne (by simpa using outside) _ _
  refine placed.move (· = t) (fun _ _ => rfl) ?_ rfl ?_ ?_ same (by simp) ?_ ?_ ?_
  · exact fun u other => Function.update_of_ne other _ _
  · simp [held]
  · simp [held, Holder.thread]
  · intro other member
    obtain ⟨different, earlier⟩ := placed.distinct.mem_erase_iff.mp member
    obtain ⟨inRangeToo, heldToo⟩ := placed.live other earlier
    refine ⟨inRangeToo, (reassign_kept ?_).trans heldToo⟩
    rw [List.mem_singleton]
    exact fun collide => different (blockAddr_inj layout.positive collide)
  · exact placed.distinct.erase index
  · rintro u rfl
    refine ⟨?_, ?_, ?_⟩
    · intro inner' has'
      obtain rfl : _ = inner' := by simpa [HeapState.setTls] using has'
      exact linkedIn_frame (placed.arena u inner has) (by simp [held]) same
    · intro inner' has'
      obtain rfl : _ = inner' := by simpa [HeapState.setTls] using has'
      have pushed := (placed.free u inner has).push
        (HeapLayout.indexToPtr_nonnull : layout.indexToPtr index ≠ 0) (by simp [held])
      refine pushed.frame ?_
      rintro other (⟨isSlot, there⟩ | rfl)
      · refine ⟨rfl, isSlot, (reassign_kept ?_).trans there⟩
        rw [List.mem_singleton]
        rintro rfl
        simp [held] at there
      · exact ⟨rfl, HeapLayout.mem_slots.mpr ⟨index, inRange, rfl⟩, reassign_moved (by simp)⟩
    · intro item point here
      have there : state.pc u = .append item point := here
      simp [idle] at there

omit [DecidableEq τ] in
theorem HeapState.Placed.overwrite {index value : Nat} (placed : state.Placed layout place)
    (isLive : index ∈ state.live)
    : { state with
          mem := Function.update state.mem (layout.indexToPtr index) value }.Placed layout
        (reassign place [layout.indexToPtr index] .live) := by
  obtain ⟨_, held⟩ := placed.live index isLive
  refine placed.move (fun _ => False) (fun _ _ => rfl) (fun _ _ => rfl) rfl ?_ ?_ ?_ (by simp)
    ?_ placed.distinct (fun _ => False.elim)
  · simp [held]
  · simp [held, Holder.thread]
  · exact fun other outside => Function.update_of_ne (by simpa using outside) _ _
  · intro other member
    obtain ⟨inRange, there⟩ := placed.live other member
    refine ⟨inRange, ?_⟩
    by_cases moves : layout.indexToPtr other ∈ [layout.indexToPtr index]
    · exact reassign_moved moves
    · exact (reassign_kept moves).trans there

/-- A step that only moves the thread on keeps every slot where it is. -/
theorem HeapState.Placed.moveTo {pc : HeapPc} (placed : state.Placed layout place)
    (ready : ∀ item point, pc = .append item point → state.Ready layout place t point)
    : (state.moveTo t pc).Placed layout place := by
  have frame : Frame state (state.moveTo t pc) place place (· = t) := {
    pc := fun u other => Function.update_of_ne other _ _
    tls := fun _ _ => rfl
    others := fun _ _ _ _ => ⟨rfl, rfl⟩
    heapSame := fun _ _ => rfl
    heapFrom := fun _ => id }
  refine frame.placed placed placed.heap placed.live placed.distinct ?_
  rintro u rfl
  refine ⟨placed.arena u, placed.free u, ?_⟩
  intro item point here
  exact ready item point (by simpa [HeapState.moveTo] using here)

/-- Every step leads from a placement to a placement. -/
theorem HeapState.Effect.placed {move : HeapMove}
    (effect : state.Effect layout place t move next event)
    (placed : state.Placed layout place)
    : ∃ place', next.Placed layout place' := by
  cases effect with
  | call =>
      refine ⟨place, placed.moveTo ?_⟩
      rintro item point ⟨⟩
      trivial
  | look _ ready =>
      refine ⟨place, placed.moveTo ?_⟩
      rintro item point ⟨⟩
      exact ready
  | fail => exact ⟨place, placed.moveTo nofun⟩
  | takeArena uses head nonnull => exact ⟨_, placed.takeArena uses head nonnull⟩
  | install isArena held built =>
      subst built
      exact ⟨_, placed.install isArena held⟩
  | popFree has nonnull => exact ⟨_, placed.popFree has nonnull⟩
  | popArena has head nonnull => exact ⟨_, placed.popArena has head nonnull⟩
  | fill slot held => exact ⟨_, placed.fill slot held⟩
  | delete idle has isLive => exact ⟨_, placed.delete idle has isLive⟩
  | overwrite isLive => exact ⟨_, placed.overwrite isLive⟩

end Steps

end Alchemy.Allocator
