import Alchemy.Allocator.HeapArray

/-! Where every slot of a `HeapArray` is: in an arena still on the shared list, in the hands
of one thread, in a thread's arena, on a thread's free list, or live.
One function assigns each slot its holder, so the places are disjoint by construction.
-/

namespace Alchemy.Allocator

open IntrusiveList Interleaving

inductive Holder (τ : Type)
  | heap
  | hand (t : τ)
  | arena (t : τ)
  | free (t : τ)
  | live

/-- The thread a slot belongs to, if it belongs to one. -/
def Holder.thread {τ : Type} : Holder τ → Option τ
  | .heap => none
  | .hand t => some t
  | .arena t => some t
  | .free t => some t
  | .live => none

/-- Give all the `moved` slots to one holder. -/
def reassign {τ : Type} (place : Nat → Holder τ) (moved : List Nat) (holder : Holder τ)
    : Nat → Holder τ :=
  fun slot => if slot ∈ moved then holder else place slot

theorem reassign_moved {τ : Type} {place : Nat → Holder τ} {moved : List Nat}
    {holder : Holder τ} {slot : Nat} (member : slot ∈ moved)
    : reassign place moved holder slot = holder :=
  if_pos member

theorem reassign_kept {τ : Type} {place : Nat → Holder τ} {moved : List Nat}
    {holder : Holder τ} {slot : Nat} (outside : slot ∉ moved)
    : reassign place moved holder slot = place slot :=
  if_neg outside

section Placement

variable {τ : Type} {layout : HeapLayout} {state next : HeapState τ}
  {place place' : Nat → Holder τ} {t u : τ} {event : HeapEvent}

/-- Why thread `t` asks for an arena: it has no allocator, or an exhausted one. -/
def HeapState.Uses (state : HeapState τ) (t : τ) : ArenaUse → Prop
  | .first => state.tls t = none
  | .refill =>
      ∃ inner, state.tls t = some inner ∧ inner.arena.listNode = 0 ∧ inner.freeHead = 0

/-- What thread `t` may rely on between two steps of its `append`. The link read from an
arena is right for as long as the arena is on the shared list; once it was taken, the
compare-exchange cannot succeed.
-/
def HeapState.Ready (layout : HeapLayout) (state : HeapState τ) (place : Nat → Holder τ)
    (t : τ)
    : AppendPc → Prop
  | .lookup => True
  | .newArena use .load => state.Uses t use
  | .newArena use (.next node) => state.Uses t use ∧ node ∈ layout.arenas
  | .newArena use (.cas node link) =>
      state.Uses t use
      ∧ node ∈ layout.arenas
      ∧ (place node = .heap → state.mem node = link)
  | .initArena use ptr =>
      state.Uses t use
      ∧ ptr ∈ layout.arenas
      ∧ ∀ slot ∈ layout.slotsOf ptr, place slot = .hand t
  | .popFree => ∃ inner, state.tls t = some inner
  | .arenaAlloc .load => ∃ inner, state.tls t = some inner ∧ inner.freeHead = 0
  | .arenaAlloc (.next node) =>
      ∃ inner, state.tls t = some inner ∧ inner.freeHead = 0
        ∧ inner.arena.listNode = node ∧ node ≠ 0
  | .arenaAlloc (.cas node link) =>
      ∃ inner, state.tls t = some inner ∧ inner.freeHead = 0
        ∧ inner.arena.listNode = node ∧ node ≠ 0 ∧ state.mem node = link
  | .fill ptr => ptr ∈ layout.slots ∧ place ptr = .hand t

/-- Every list consists of slots of its own holder, and so does the list of live indices. -/
structure HeapState.Placed (layout : HeapLayout) (state : HeapState τ)
    (place : Nat → Holder τ)
    : Prop where
  heap : LinkedIn state.mem state.heap.listNode
    (fun arena => arena ∈ layout.arenas ∧ ∀ slot ∈ layout.slotsOf arena, place slot = .heap)
  arena : ∀ t inner, state.tls t = some inner
    → LinkedIn state.mem inner.arena.listNode
        (fun slot => slot ∈ layout.slots ∧ place slot = .arena t)
  free : ∀ t inner, state.tls t = some inner
    → LinkedIn state.mem inner.freeHead
        (fun slot => slot ∈ layout.slots ∧ place slot = .free t)
  live : ∀ index ∈ state.live,
    index < layout.capacity ∧ place (layout.indexToPtr index) = .live
  distinct : state.live.Nodup
  ready : ∀ t item point, state.pc t = .append item point → state.Ready layout place t point

/-- A step leaves alone what the threads hold that do not `move`, and never writes into an
arena on the shared list.
-/
structure Frame (state next : HeapState τ) (place place' : Nat → Holder τ)
    (moves : τ → Prop)
    : Prop where
  pc : ∀ u, ¬ moves u → next.pc u = state.pc u
  tls : ∀ u, ¬ moves u → next.tls u = state.tls u
  others : ∀ u, ¬ moves u → ∀ slot, (place slot).thread = some u
    → next.mem slot = state.mem slot ∧ place' slot = place slot
  heapSame : ∀ slot, place slot = .heap → next.mem slot = state.mem slot
  heapFrom : ∀ slot, place' slot = .heap → place slot = .heap

variable {moves : τ → Prop} {moved : List Nat} {holder mine : Holder τ}

/-- Moving slots between one thread, the shared list and the live ones is such a step. -/
theorem Frame.of_reassign
    (pc : ∀ u, ¬ moves u → next.pc u = state.pc u)
    (tls : ∀ u, ¬ moves u → next.tls u = state.tls u)
    (source : ∀ slot ∈ moved, ∀ u, ¬ moves u → (place slot).thread ≠ some u)
    (kept : ∀ slot, slot ∉ moved → next.mem slot = state.mem slot)
    (heapSame : ∀ slot, place slot = .heap → next.mem slot = state.mem slot)
    (notHeap : holder ≠ .heap)
    : Frame state next place (reassign place moved holder) moves where
  pc := pc
  tls := tls
  heapSame := heapSame
  others u other slot held := by
    have outside : slot ∉ moved := fun member => source slot member u other held
    exact ⟨kept slot outside, reassign_kept outside⟩
  heapFrom slot held := by
    by_cases member : slot ∈ moved
    · exact absurd ((reassign_moved member).symm.trans held) notHeap
    · exact (reassign_kept member).symm.trans held

theorem Frame.uses {use : ArenaUse} (frame : Frame state next place place' moves)
    (other : ¬ moves u) (uses : state.Uses u use)
    : next.Uses u use := by
  cases use <;> simpa only [HeapState.Uses, frame.tls u other] using uses

/-- The reliance of the other threads survives the step. -/
theorem Frame.ready {point : AppendPc} (frame : Frame state next place place' moves)
    (placed : state.Placed layout place) (other : ¬ moves u)
    (ready : state.Ready layout place u point)
    : next.Ready layout place' u point := by
  have tls := frame.tls u other
  cases point with
  | lookup => trivial
  | newArena use point =>
      cases point with
      | load => exact frame.uses other ready
      | next node => exact ⟨frame.uses other ready.1, ready.2⟩
      | cas node link =>
          obtain ⟨uses, isArena, linked⟩ := ready
          refine ⟨frame.uses other uses, isArena, ?_⟩
          intro still
          have listed := frame.heapFrom node still
          exact (frame.heapSame node listed).trans (linked listed)
  | initArena use ptr =>
      obtain ⟨uses, isArena, held⟩ := ready
      refine ⟨frame.uses other uses, isArena, ?_⟩
      intro slot member
      have mine := held slot member
      exact (frame.others u other slot (by rw [mine]; rfl)).2.trans mine
  | popFree => simpa only [HeapState.Ready, tls] using ready
  | arenaAlloc point =>
      cases point with
      | load => simpa only [HeapState.Ready, tls] using ready
      | next node => simpa only [HeapState.Ready, tls] using ready
      | cas node link =>
          obtain ⟨inner, has, empty, head, nonnull, linked⟩ := ready
          obtain ⟨⟨_, mine⟩, _⟩ := (placed.arena u inner has).pop (head ▸ nonnull)
          rw [head] at mine
          have same := (frame.others u other node (by rw [mine]; rfl)).1
          exact ⟨inner, tls.trans has, empty, head, nonnull, same.trans linked⟩
  | fill ptr =>
      obtain ⟨slot, mine⟩ := ready
      exact ⟨slot, (frame.others u other ptr (by rw [mine]; rfl)).2.trans mine⟩

/-- The part of a placement that is about one thread. -/
structure HeapState.PlacedFor (layout : HeapLayout) (state : HeapState τ)
    (place : Nat → Holder τ) (t : τ)
    : Prop where
  arena : ∀ inner, state.tls t = some inner
    → LinkedIn state.mem inner.arena.listNode
        (fun slot => slot ∈ layout.slots ∧ place slot = .arena t)
  free : ∀ inner, state.tls t = some inner
    → LinkedIn state.mem inner.freeHead
        (fun slot => slot ∈ layout.slots ∧ place slot = .free t)
  ready : ∀ item point, state.pc t = .append item point → state.Ready layout place t point

theorem Frame.placedFor (frame : Frame state next place place' moves)
    (placed : state.Placed layout place) (other : ¬ moves u)
    : next.PlacedFor layout place' u where
  arena inner has := by
    rw [frame.tls u other] at has
    refine (placed.arena u inner has).frame ?_
    rintro slot ⟨isSlot, mine⟩
    obtain ⟨same, held⟩ := frame.others u other slot (by rw [mine]; rfl)
    exact ⟨same, isSlot, held.trans mine⟩
  free inner has := by
    rw [frame.tls u other] at has
    refine (placed.free u inner has).frame ?_
    rintro slot ⟨isSlot, mine⟩
    obtain ⟨same, held⟩ := frame.others u other slot (by rw [mine]; rfl)
    exact ⟨same, isSlot, held.trans mine⟩
  ready item point here := by
    rw [frame.pc u other] at here
    exact frame.ready placed other (placed.ready u item point here)

/-- A placement after a step: the frame gives the part of the threads that did not move. -/
theorem Frame.placed (frame : Frame state next place place' moves)
    (placed : state.Placed layout place)
    (heap : LinkedIn next.mem next.heap.listNode
      (fun arena => arena ∈ layout.arenas
        ∧ ∀ slot ∈ layout.slotsOf arena, place' slot = .heap))
    (live : ∀ index ∈ next.live,
      index < layout.capacity ∧ place' (layout.indexToPtr index) = .live)
    (distinct : next.live.Nodup)
    (movers : ∀ u, moves u → next.PlacedFor layout place' u)
    : next.Placed layout place' := by
  have each (u : τ) : next.PlacedFor layout place' u := by
    by_cases mover : moves u
    · exact movers u mover
    · exact frame.placedFor placed mover
  exact {
    heap, live, distinct
    arena := fun u => (each u).arena
    free := fun u => (each u).free
    ready := fun u => (each u).ready }

/-! ### What a move of slots spares -/

/-- Slots that change hands without having been on the shared list leave that list alone. -/
theorem HeapState.Placed.heap_frame (placed : state.Placed layout place)
    (apart : ∀ slot ∈ moved, place slot ≠ .heap)
    (same : ∀ slot, slot ∉ moved → next.mem slot = state.mem slot)
    : LinkedIn next.mem state.heap.listNode
        (fun arena => arena ∈ layout.arenas
          ∧ ∀ slot ∈ layout.slotsOf arena, reassign place moved holder slot = .heap) := by
  have kept {slot} (listed : place slot = .heap) : slot ∉ moved :=
    fun member => apart slot member listed
  refine placed.heap.frame ?_
  rintro arena ⟨isArena, listed⟩
  refine ⟨same arena (kept (listed arena (layout.arena_mem_slotsOf arena))), isArena, ?_⟩
  intro slot member
  exact (reassign_kept (kept (listed slot member))).trans (listed slot member)

/-- The same for a list of one thread. -/
theorem linkedIn_frame {head : Nat}
    (list : LinkedIn state.mem head (fun slot => slot ∈ layout.slots ∧ place slot = mine))
    (apart : ∀ slot ∈ moved, place slot ≠ mine)
    (same : ∀ slot, slot ∉ moved → next.mem slot = state.mem slot)
    : LinkedIn next.mem head
        (fun slot => slot ∈ layout.slots ∧ reassign place moved holder slot = mine) := by
  refine list.frame ?_
  rintro slot ⟨isSlot, held⟩
  have outside : slot ∉ moved := fun member => apart slot member held
  exact ⟨same slot outside, isSlot, (reassign_kept outside).trans held⟩

/-- The same for the live slots. -/
theorem HeapState.Placed.live_frame (placed : state.Placed layout place)
    (apart : ∀ slot ∈ moved, place slot ≠ .live)
    : ∀ index ∈ state.live,
        index < layout.capacity
        ∧ reassign place moved holder (layout.indexToPtr index) = .live := by
  intro index member
  obtain ⟨inRange, held⟩ := placed.live index member
  have outside : layout.indexToPtr index ∉ moved := fun moves => apart _ moves held
  exact ⟨inRange, (reassign_kept outside).trans held⟩

variable (moves) in
/-- Slots of the moving threads, or live ones, change hands: what is left to show is about
the live indices and the movers.
-/
theorem HeapState.Placed.move (placed : state.Placed layout place)
    (pc : ∀ u, ¬ moves u → next.pc u = state.pc u)
    (tls : ∀ u, ¬ moves u → next.tls u = state.tls u)
    (heap : next.heap = state.heap)
    (apart : ∀ slot ∈ moved, place slot ≠ .heap)
    (source : ∀ slot ∈ moved, ∀ u, ¬ moves u → (place slot).thread ≠ some u)
    (kept : ∀ slot, slot ∉ moved → next.mem slot = state.mem slot)
    (notHeap : holder ≠ .heap)
    (live : ∀ index ∈ next.live,
      index < layout.capacity ∧ reassign place moved holder (layout.indexToPtr index) = .live)
    (distinct : next.live.Nodup)
    (movers : ∀ u, moves u → next.PlacedFor layout (reassign place moved holder) u)
    : next.Placed layout (reassign place moved holder) := by
  have heapSame (slot) (listed : place slot = .heap) : next.mem slot = state.mem slot :=
    kept slot (fun member => apart slot member listed)
  have frame := Frame.of_reassign pc tls source kept heapSame notHeap
  refine frame.placed placed ?_ live distinct movers
  rw [heap]
  exact placed.heap_frame apart kept

end Placement

end Alchemy.Allocator
