import Alchemy.Library.IntrusiveList
import Mathlib.Data.List.Range

/-! `ArrayAllocator`: a lock-free stack of blocks linked through their own first word.
`alloc` and `dealloc` are cut at their atomic accesses, so that several threads can be
interleaved between the load of a link and the compare-exchange that relies on it.
-/

namespace Alchemy.Allocator

open IntrusiveList

/-- The word an 8-byte load at an address reads. -/
abbrev Memory := Nat → Nat

structure ArrayAllocator where
  cap : Nat
  start : Nat
  /-- `size_of::<T>()` -/
  size : Nat
  listNode : Nat
deriving DecidableEq, Repr

def blockAddr (start size index : Nat) : Nat :=
  start + index * size

/-- The addresses of the first `cap` blocks. -/
def blocks (start size cap : Nat) : List Nat :=
  (List.range cap).map (blockAddr start size)

/-- The loop of `new` after `count` rounds: the memory, and the link in `node_n`. -/
def threadBlocks (size data : Nat) : Nat → Memory → Memory × Nat
  | 0, mem => (mem, 0)
  | count + 1, mem =>
      let (linked, nodeN) := threadBlocks size data count mem
      let blockStart := blockAddr data size count
      (Function.update linked blockStart nodeN, blockStart)

/-- `ArrayAllocator::new`; its assertion on the size is a field of the layouts below. -/
def ArrayAllocator.new (cap size data : Nat) (mem : Memory) : Memory × ArrayAllocator :=
  let (linked, newNode) := threadBlocks size data cap mem
  (linked, { cap, start := data, size, listNode := newNode })

/-- Where a call of `alloc` stands: before its first load of `list_node`, before the load
of `(*node).next`, or before the compare-exchange.
-/
inductive AllocPc
  | load
  | next (node : Nat)
  | cas (node next : Nat)
deriving DecidableEq, Repr

inductive AllocOutcome
  | again (pc : AllocPc)
  | outOfMemory
  | taken (node : Nat)
deriving DecidableEq, Repr

/-- The head of the loop body: the null check. -/
def checkNode (node : Nat) : AllocOutcome :=
  if node = 0 then .outOfMemory else .again (.next node)

/-- One atomic access of `alloc`. -/
def ArrayAllocator.allocStep (self : ArrayAllocator) (mem : Memory)
    : AllocPc → ArrayAllocator × AllocOutcome
  | .load => (self, checkNode self.listNode)
  | .next node => (self, .again (.cas node (mem node)))
  | .cas node next =>
      if self.listNode = node then
        ({ self with listNode := next }, .taken node)
      else
        (self, checkNode self.listNode)

/-- The index `alloc` returns for a block. -/
def ArrayAllocator.indexOf (self : ArrayAllocator) (node : Nat) : Nat :=
  (node - self.start) / self.size

/-- Where a call of `dealloc` stands: before its load of `list_node`, before the write of
the link into the block, or before the compare-exchange.
-/
inductive DeallocPc
  | load
  | write (next : Nat)
  | cas (next : Nat)
deriving DecidableEq, Repr

/-- One access of `dealloc(ptr)`; `none` is its return. The exchange is a weak one. -/
def ArrayAllocator.deallocStep (self : ArrayAllocator) (mem : Memory) (ptr : Nat)
    (spurious : Bool)
    : DeallocPc → Memory × ArrayAllocator × Option DeallocPc
  | .load => (mem, self, some (.write self.listNode))
  | .write next => (Function.update mem ptr next, self, some (.cas next))
  | .cas next =>
      if self.listNode = next ∧ spurious = false then
        (mem, { self with listNode := ptr }, none)
      else
        (mem, self, some (.write self.listNode))

/-! ### What `new` establishes -/

section New

variable {start size cap index : Nat}

theorem mem_blocks {node : Nat}
    : node ∈ blocks start size cap ↔ ∃ index < cap, blockAddr start size index = node := by
  simp [blocks]

theorem blockAddr_inj {other : Nat} (positive : 0 < size)
    (same : blockAddr start size index = blockAddr start size other)
    : index = other :=
  Nat.eq_of_mul_eq_mul_right positive (Nat.add_left_cancel same)

theorem blocks_nodup (positive : 0 < size) : (blocks start size cap).Nodup :=
  List.nodup_range.map (fun _ _ same => blockAddr_inj positive same)

theorem blockAddr_nonnull (nonnull : 0 < start) : blockAddr start size index ≠ 0 := by
  unfold blockAddr
  omega

theorem indexOf_blockAddr {self : ArrayAllocator} (positive : 0 < self.size)
    : self.indexOf (blockAddr self.start self.size index) = index := by
  simp [ArrayAllocator.indexOf, blockAddr, positive]

theorem blocks_succ
    : blocks start size (cap + 1) = blocks start size cap ++ [blockAddr start size cap] := by
  simp [blocks, List.range_succ]

/-- The loop writes the first words of the blocks and nothing else. -/
theorem threadBlocks_frame {mem : Memory} {address : Nat}
    (outside : address ∉ blocks start size cap)
    : (threadBlocks size start cap mem).1 address = mem address := by
  induction cap with
  | zero => rfl
  | succ count ih =>
      rw [blocks_succ, List.mem_append, List.mem_singleton, not_or] at outside
      rw [← ih outside.1]
      exact Function.update_of_ne outside.2 _ _

/-- The loop links the blocks from the last one down to the first, by induction on the
rounds: each round pushes one block.
-/
theorem threadBlocks_linked {mem : Memory} (positive : 0 < size) (nonnull : 0 < start)
    : Linked (threadBlocks size start cap mem).1 (threadBlocks size start cap mem).2
        (blocks start size cap).reverse := by
  induction cap with
  | zero => rfl
  | succ count ih =>
      rw [blocks_succ, List.reverse_append, List.reverse_singleton, List.singleton_append]
      refine ih.push (blockAddr_nonnull nonnull) ?_
      rw [List.mem_reverse, mem_blocks]
      rintro ⟨index, earlier, same⟩
      exact absurd (blockAddr_inj positive same) (Nat.ne_of_lt earlier)

end New

end Alchemy.Allocator
