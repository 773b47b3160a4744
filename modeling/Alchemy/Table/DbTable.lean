import Alchemy.Allocator.RidUniqueness
import Alchemy.Cache.Reset
import Alchemy.Library.Simulation

/-! `DbTable`: an index over a `ClockCache` whose oid words are the slots of a `HeapArray`.
`insert` takes a slot, runs through the cache and publishes the rid in the index; look-ups go from
the index to the lock of a record. The slots that are in use hold the oid words, so the allocator
sees in its memory what the cache stores there.
-/

namespace Alchemy.Table

open Allocator Cache Oid ByteImage Interleaving

/-- An index from keys to rids. -/
abbrev DbIndex := UInt64 → Option Rid

/-- The parameters of a table. What `range` returns is up to the index. -/
structure TableConfig where
  layout : HeapLayout
  cache : CacheConfig
  key : Image Byte → UInt64
  range : DbIndex → UInt64 → UInt64 → Nat → List Rid

/-- Where a thread stands: outside of `insert`, in the `append` of `alloc_rid`, in the rest of
`ClockCache::insert`, or before the insertion into the index.
-/
inductive TablePc
  | outside
  | append (record : Image Byte)
  | insert (key : UInt64)
  | publish (key : UInt64) (rid : Rid)

structure DbTable (τ : Type) where
  heap : HeapState τ
  cache : CacheState τ
  index : DbIndex
  pc : τ → TablePc

/-- `lockKey` is any of `read_oid`, `write_oid` and their `sync` variants, and `call` the calls
that go straight to the cache: `lock_rid_r` and `lock_rid_w`, `read`, `read_and_promote`, and what
is done with guards and query values.
-/
inductive TableMove (τ : Type)
  | insert (record : Image Byte)
  | lockKey (key : UInt64) (op : LockOp)
  | range (low high : UInt64) (length : Nat)
  | call (move : CacheMove τ)
  | advance (choice : Bool)

inductive TableEvent
  | pending
  | inserted (rid : Rid)
  | outOfSpace
  | indexNotFound (key : UInt64)
  | ranged (rids : List Rid)
  | cache (event : CacheEvent)

variable {τ : Type}

/-- The slots in use hold the oid words. -/
def withWords (layout : HeapLayout) (heap : HeapState τ) (oids : Rid → LockedOid τ)
    : HeapState τ :=
  { heap with
    mem := fun ptr =>
      if ptr ∈ heap.live.map layout.indexToPtr then
        (oids (BitVec.ofNat 32 (layout.ptrToIndex ptr))).data.toNat
      else heap.mem ptr }

namespace DbTable

/-- A new table. The storage is as it was allocated, and `thread_init` puts the clock hands
anywhere.
-/
def build (config : TableConfig) (storage : Rid → Image Byte) (hand : τ → Nat) : DbTable τ where
  heap := config.layout.fresh (fun _ => 0)
  cache := .init storage hand
  index := fun _ => none
  pc := fun _ => .outside

variable [DecidableEq τ]

def goto (table : DbTable τ) (t : τ) (pc : TablePc) : DbTable τ :=
  { table with pc := Function.update table.pc t pc }

/-- One step on the slots. -/
def heapStep (config : TableConfig) (table : DbTable τ) (t : τ) (move : HeapMove)
    : Option (HeapState τ × HeapEvent) :=
  Allocator.heapStep config.layout (withWords config.layout table.heap table.cache.oids) (t, move)

/-- A call of the cache, or a step inside one. -/
def cacheCall (config : TableConfig) (table : DbTable τ) (t : τ) (move : CacheMove τ)
    : Option (DbTable τ × TableEvent) :=
  (table.cache.step config.cache t move).map (fun (cache, event) =>
    ({ table with cache }, .cache event))

/-- A thread that is in no call starts one. -/
def start (config : TableConfig) (table : DbTable τ) (t : τ)
    : TableMove τ → Option (DbTable τ × TableEvent)
  | .insert record =>
      (table.heapStep config t (.append (fromRid 0#32).toNat)).map (fun (heap, _) =>
        ({ table with heap }.goto t (.append record), .pending))
  | .lockKey key op =>
      match table.index key with
      | none => some (table, .indexNotFound key)
      | some rid => table.cacheCall config t (.lock rid op)
  | .range low high length => some (table, .ranged (config.range table.index low high length))
  | .call (.insert _ _) | .call (.advance _) => none
  | .call move => table.cacheCall config t move
  | .advance _ => none

/-- A step of the call the thread is in. -/
def resume (config : TableConfig) (table : DbTable τ) (t : τ) (choice : Bool)
    : Option (DbTable τ × TableEvent) :=
  match table.pc t with
  | .outside => table.cacheCall config t (.advance choice)
  | .append record =>
      match table.heapStep config t .advance with
      | none => none
      | some (heap, .appended index) =>
          (table.cache.step config.cache t (.insert (BitVec.ofNat 32 index) record)).map
            (fun (cache, _) =>
              ({ table with heap, cache }.goto t (.insert (config.key record)), .pending))
      -- the `expect` of `alloc_rid`
      | some (heap, .outOfMemory) => some ({ table with heap }.goto t .outside, .outOfSpace)
      | some (heap, _) => some ({ table with heap }, .pending)
  | .insert key =>
      match table.cache.step config.cache t (.advance choice) with
      | none => none
      | some (cache, .inserted rid _) =>
          some ({ table with cache }.goto t (.publish key rid), .pending)
      | some (cache, _) => some ({ table with cache }, .pending)
  | .publish key rid =>
      some ({ table with index := Function.update table.index key (some rid) }.goto t .outside,
        .inserted rid)

def step (config : TableConfig) (table : DbTable τ) (t : τ)
    : TableMove τ → Option (DbTable τ × TableEvent)
  | .advance choice => table.resume config t choice
  | move =>
      match table.pc t, table.cache.pc t with
      | .outside, .idle => table.start config t move
      | _, _ => none

end DbTable

/-- The step function of the whole table; an action names its thread. -/
def tableStep [DecidableEq τ] (config : TableConfig) (table : DbTable τ)
    (action : τ × TableMove τ)
    : Option (DbTable τ × TableEvent) :=
  table.step config action.1 action.2

/-! ### `reset` -/

/-- `OidArray::reset` zeroes the region, which is all the memory the allocator has, and builds a
`HeapArray` with as many arenas as the region has room for.
-/
def resetOids (layout : HeapLayout) : HeapState τ :=
  let (linked, heap) := ArrayAllocator.new (layout.capacity * layout.size / layout.arenaSize)
    layout.arenaSize layout.start (fun _ => 0)
  { mem := linked, heap, tls := fun _ => none, live := [], pc := fun _ => .idle }

def DbTable.reset (config : TableConfig) (table : DbTable τ) : DbTable τ where
  heap := resetOids config.layout
  cache := table.cache.reset config.cache
  index := fun _ => none
  pc := table.pc

/-- `reset` borrows the table mutably: no call is under way, and neither a guard nor a query value
is left.
-/
structure DbTable.Quiet (table : DbTable τ) : Prop where
  outside : ∀ t, table.pc t = .outside
  cache : table.cache.Quiet

theorem resetOids_eq_fresh (layout : HeapLayout)
    : (resetOids layout : HeapState τ) = layout.fresh (fun _ => 0) := by
  have arenas : layout.capacity * layout.size / layout.arenaSize = layout.arenaCnt := by
    rw [HeapLayout.capacity, HeapLayout.arenaSize, Nat.mul_assoc]
    exact Nat.mul_div_cancel _ (Nat.mul_pos layout.occupied layout.positive)
  rw [resetOids, arenas, HeapLayout.fresh]

/-- The tables of a process: new ones, what becomes of them in any run, and what `reset` makes of
them when nobody uses them.
-/
inductive Lives [DecidableEq τ] (config : TableConfig) : DbTable τ → Prop
  | build (storage : Rid → Image Byte) (hand : τ → Nat)
    (hands : ∀ t, hand t < config.cache.capacity)
    : Lives config (.build config storage hand)
  | run {table trace later} (lives : Lives config table)
    (ran : Run (tableStep config) table trace later)
    : Lives config later
  | reset {table} (lives : Lives config table) (quiet : table.Quiet)
    : Lives config (table.reset config)

end Alchemy.Table
