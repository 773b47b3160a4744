import Alchemy.Allocator.ArrayAllocator
import Alchemy.Library.Interleaving
import Mathlib.Tactic.Ring

/-! `HeapArray`: arenas of `N` slots popped from one shared `ArrayAllocator`, and for each
thread an arena of its own and a free list of the slots it deleted.
The links of both levels live in the slots, so a live slot may overwrite a link that a slow
thread is about to read.
-/

namespace Alchemy.Allocator

open IntrusiveList Interleaving

/-- The region `HeapArray::new` is called on. The assertions of the two `ArrayAllocator`s
ask for slots that hold a link and for arenas with at least one slot.
-/
structure HeapLayout where
  arenaCnt : Nat
  /-- `N` -/
  slotsPerArena : Nat
  start : Nat
  /-- `size_of::<T>()` -/
  size : Nat
  holdsNode : 8 ≤ size
  occupied : 0 < slotsPerArena
  nonnull : 0 < start
  indexed : arenaCnt * slotsPerArena ≤ 2 ^ 32 - 1

namespace HeapLayout

def capacity (layout : HeapLayout) : Nat :=
  layout.arenaCnt * layout.slotsPerArena

/-- `ARENA_SIZE`, the size of one block of the shared allocator. -/
def arenaSize (layout : HeapLayout) : Nat :=
  layout.slotsPerArena * layout.size

/-- `ptr_to_index`; the cast keeps 32 bits. -/
def ptrToIndex (layout : HeapLayout) (ptr : Nat) : Nat :=
  (ptr - layout.start) / layout.size % 2 ^ 32

def indexToPtr (layout : HeapLayout) (index : Nat) : Nat :=
  layout.start + index * layout.size

def arenas (layout : HeapLayout) : List Nat :=
  blocks layout.start layout.arenaSize layout.arenaCnt

def slots (layout : HeapLayout) : List Nat :=
  blocks layout.start layout.size layout.capacity

def slotsOf (layout : HeapLayout) (arena : Nat) : List Nat :=
  blocks arena layout.size layout.slotsPerArena

end HeapLayout

/-- `TlsAllocatorInner`: the thread's arena and the head of its free list. -/
structure TlsAllocator where
  arena : ArrayAllocator
  freeHead : Nat
deriving DecidableEq, Repr

/-- `get_tls_allocator` asks for a first arena, the loop of `append` for a later one. -/
inductive ArenaUse
  | first
  | refill
deriving DecidableEq, Repr

/-- Where a call of `append` stands. -/
inductive AppendPc
  | lookup
  | newArena (use : ArenaUse) (point : AllocPc)
  | initArena (use : ArenaUse) (arena : Nat)
  | popFree
  | arenaAlloc (point : AllocPc)
  | fill (ptr : Nat)
deriving DecidableEq, Repr

inductive HeapPc
  | idle
  | append (item : Nat) (point : AppendPc)
deriving DecidableEq, Repr

/-- `live` lists the indices that `append` returned and that were not deleted since. -/
structure HeapState (τ : Type) where
  mem : Memory
  heap : ArrayAllocator
  tls : τ → Option TlsAllocator
  live : List Nat
  pc : τ → HeapPc

/-- An item is its first word: no other word of a slot is ever read as a link. -/
inductive HeapMove
  | append (item : Nat)
  | delete (index : Nat)
  | overwrite (index value : Nat)
  | advance
deriving DecidableEq, Repr

/-- A `progressed` step moved a slot or an arena; a `pending` one only looked. -/
inductive HeapEvent
  | pending
  | progressed
  | appended (index : Nat)
  | outOfMemory
  | deleted (index : Nat)
  | overwritten
deriving DecidableEq, Repr

section Machine

variable {τ : Type} [DecidableEq τ]

def HeapLayout.fresh (layout : HeapLayout) (mem : Memory) : HeapState τ :=
  let (linked, heap) := ArrayAllocator.new layout.arenaCnt layout.arenaSize layout.start mem
  { mem := linked, heap, tls := fun _ => none, live := [], pc := fun _ => .idle }

def HeapState.moveTo (state : HeapState τ) (t : τ) (pc : HeapPc) : HeapState τ :=
  { state with pc := Function.update state.pc t pc }

def HeapState.setTls (state : HeapState τ) (t : τ) (inner : TlsAllocator) : HeapState τ :=
  { state with tls := Function.update state.tls t (some inner) }

/-- `TlsAllocator::new` or `update_arena`. -/
def ArenaUse.install (use : ArenaUse) (arena : ArrayAllocator) (old : Option TlsAllocator)
    : Option TlsAllocator :=
  match use with
  | .first => some { arena, freeHead := 0 }
  | .refill => old.map (fun inner => { inner with arena })

/-- One step of the `append` that thread `t` has under way. The arena is initialised in
one step: until it is installed only its first word can be read by another thread.
-/
def HeapState.advanceAppend (layout : HeapLayout) (state : HeapState τ) (t : τ) (item : Nat)
    : AppendPc → Option (HeapState τ × HeapEvent)
  | .lookup =>
      match state.tls t with
      | none => some (state.moveTo t (.append item (.newArena .first .load)), .pending)
      | some _ => some (state.moveTo t (.append item .popFree), .pending)
  | .newArena use point =>
      let (heap, outcome) := state.heap.allocStep state.mem point
      match outcome with
      | .again next =>
          some ({ state with heap }.moveTo t (.append item (.newArena use next)), .pending)
      | .outOfMemory => some ({ state with heap }.moveTo t .idle, .outOfMemory)
      | .taken arena =>
          some ({ state with heap }.moveTo t (.append item (.initArena use arena)), .progressed)
  | .initArena use ptr =>
      let (mem, arena) := ArrayAllocator.new layout.slotsPerArena layout.size ptr state.mem
      match use.install arena (state.tls t) with
      | none => none
      | some inner =>
          some (({ state with mem }.setTls t inner).moveTo t (.append item .popFree), .progressed)
  | .popFree =>
      match state.tls t with
      | none => none
      | some inner =>
          if inner.freeHead = 0 then
            some (state.moveTo t (.append item (.arenaAlloc .load)), .pending)
          else
            some ((state.setTls t { inner with freeHead := state.mem inner.freeHead }).moveTo t
              (.append item (.fill inner.freeHead)), .progressed)
  | .arenaAlloc point =>
      match state.tls t with
      | none => none
      | some inner =>
          let (arena, outcome) := inner.arena.allocStep state.mem point
          match outcome with
          | .again next => some (state.moveTo t (.append item (.arenaAlloc next)), .pending)
          | .outOfMemory =>
              some (state.moveTo t (.append item (.newArena .refill .load)), .pending)
          | .taken ptr =>
              some ((state.setTls t { inner with arena }).moveTo t (.append item (.fill ptr)),
                .progressed)
  | .fill ptr =>
      let index := layout.ptrToIndex ptr
      some ({ state with
                mem := Function.update state.mem ptr item
                live := index :: state.live }.moveTo t .idle,
        .appended index)

/-- One move of one thread. A thread deletes between its appends, a live index, and only
once it has an allocator; a live slot may be overwritten at any time.
-/
def heapStep (layout : HeapLayout) (state : HeapState τ) (action : τ × HeapMove)
    : Option (HeapState τ × HeapEvent) :=
  let t := action.1
  match action.2, state.pc t with
  | .append item, .idle => some (state.moveTo t (.append item .lookup), .pending)
  | .delete index, .idle =>
      match state.tls t with
      | none => none
      | some inner =>
          if index ∈ state.live then
            let ptr := layout.indexToPtr index
            some ({ state with
                      mem := Function.update state.mem ptr inner.freeHead
                      live := state.live.erase index }.setTls t { inner with freeHead := ptr },
              .deleted index)
          else
            none
  | .overwrite index value, _ =>
      if index ∈ state.live then
        some ({ state with mem := Function.update state.mem (layout.indexToPtr index) value },
          .overwritten)
      else
        none
  | .advance, .append item point => state.advanceAppend layout t item point
  | _, _ => none

end Machine

/-! ### Indices and pointers -/

namespace HeapLayout

variable {layout : HeapLayout}

theorem positive (layout : HeapLayout) : 0 < layout.size :=
  Nat.lt_of_lt_of_le (by decide) layout.holdsNode

theorem ptrToIndex_indexToPtr {index : Nat} (inRange : index < layout.capacity)
    : layout.ptrToIndex (layout.indexToPtr index) = index := by
  have small : index < 2 ^ 32 :=
    Nat.lt_of_lt_of_le inRange (Nat.le_trans layout.indexed (Nat.sub_le _ _))
  rw [ptrToIndex, indexToPtr, Nat.add_sub_cancel_left, Nat.mul_div_cancel _ layout.positive,
    Nat.mod_eq_of_lt small]

theorem mem_slots {ptr : Nat}
    : ptr ∈ layout.slots ↔ ∃ index < layout.capacity, layout.indexToPtr index = ptr :=
  mem_blocks

theorem indexToPtr_ptrToIndex {ptr : Nat} (slot : ptr ∈ layout.slots)
    : layout.ptrToIndex ptr < layout.capacity
      ∧ layout.indexToPtr (layout.ptrToIndex ptr) = ptr := by
  obtain ⟨index, inRange, rfl⟩ := mem_slots.mp slot
  rw [ptrToIndex_indexToPtr inRange]
  exact ⟨inRange, rfl⟩

theorem indexToPtr_nonnull {index : Nat} : layout.indexToPtr index ≠ 0 :=
  blockAddr_nonnull layout.nonnull

/-- The slots of the arena at position `position` are the indices from
`position * slotsPerArena` on.
-/
theorem mem_slotsOf_arena {position ptr : Nat}
    : ptr ∈ layout.slotsOf (blockAddr layout.start layout.arenaSize position)
      ↔ ∃ offset < layout.slotsPerArena,
          layout.indexToPtr (position * layout.slotsPerArena + offset) = ptr := by
  have address (offset : Nat)
      : blockAddr (blockAddr layout.start layout.arenaSize position) layout.size offset
        = layout.indexToPtr (position * layout.slotsPerArena + offset) := by
    simp only [blockAddr, indexToPtr, arenaSize]
    ring
  simp only [slotsOf, mem_blocks, address]

theorem slotsOf_subset {arena ptr : Nat} (isArena : arena ∈ layout.arenas)
    (within : ptr ∈ layout.slotsOf arena)
    : ptr ∈ layout.slots := by
  obtain ⟨position, inRange, rfl⟩ := mem_blocks.mp isArena
  obtain ⟨offset, small, rfl⟩ := mem_slotsOf_arena.mp within
  refine mem_slots.mpr ⟨_, ?_, rfl⟩
  calc position * layout.slotsPerArena + offset
      < position * layout.slotsPerArena + layout.slotsPerArena := by omega
    _ = (position + 1) * layout.slotsPerArena := by ring
    _ ≤ layout.arenaCnt * layout.slotsPerArena := Nat.mul_le_mul_right _ inRange

/-- Arenas with a slot in common are one arena, by dividing the slot's index. -/
theorem slotsOf_inj {arena other ptr : Nat} (isArena : arena ∈ layout.arenas)
    (isArenaToo : other ∈ layout.arenas) (within : ptr ∈ layout.slotsOf arena)
    (withinToo : ptr ∈ layout.slotsOf other)
    : arena = other := by
  obtain ⟨position, _, rfl⟩ := mem_blocks.mp isArena
  obtain ⟨position', _, rfl⟩ := mem_blocks.mp isArenaToo
  obtain ⟨offset, small, rfl⟩ := mem_slotsOf_arena.mp within
  obtain ⟨offset', small', same⟩ := mem_slotsOf_arena.mp withinToo
  have index := blockAddr_inj layout.positive same
  have quotient (k o : Nat) (fits : o < layout.slotsPerArena)
      : (k * layout.slotsPerArena + o) / layout.slotsPerArena = k := by
    rw [Nat.mul_comm, Nat.mul_add_div layout.occupied, Nat.div_eq_of_lt fits, Nat.add_zero]
  rw [← quotient position offset small, ← index, quotient position' offset' small']

theorem arena_mem_slotsOf (layout : HeapLayout) (arena : Nat) : arena ∈ layout.slotsOf arena :=
  mem_blocks.mpr ⟨0, layout.occupied, by simp [blockAddr]⟩

theorem arena_nonnull {arena : Nat} (isArena : arena ∈ layout.arenas) : 0 < arena := by
  obtain ⟨position, _, rfl⟩ := mem_blocks.mp isArena
  exact Nat.pos_of_ne_zero (blockAddr_nonnull layout.nonnull)

theorem arenaSize_pos (layout : HeapLayout) : 0 < layout.arenaSize :=
  Nat.mul_pos layout.occupied layout.positive

end HeapLayout

end Alchemy.Allocator
