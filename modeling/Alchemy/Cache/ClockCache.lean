import Alchemy.Cache.Schema
import Alchemy.Oid.LockSteps

/-! `ClockCache` as atomic steps of many threads: insert, read, read_and_promote with the
probing and eviction they trigger, guards, and the values reached through a `QueryValue`.
Each access to an oid word or to an entry is one step, and so is each copy of a node or of a
tuple. The oid words are the lock machines of `Alchemy.Oid`, one per record.
-/

namespace Alchemy.Cache

open Oid ByteImage

/-! ### Cache entries -/

/-- `NodeMeta`, of which the cache uses the reference bit. -/
structure NodeMeta where
  data : BitVec 32
deriving DecidableEq, Repr

namespace NodeMeta

def refMask : BitVec 32 := 0x00010000#32

def new : NodeMeta := ⟨0#32⟩

def setRef (node : NodeMeta) : NodeMeta := ⟨node.data ||| refMask⟩

/-- The test of `clear_if_set`. -/
def isRefed (data : BitVec 32) : Bool := 0#32 < data &&& refMask

/-- What `clear_if_set` stores back, computed from the value it loaded. -/
def cleared (data : BitVec 32) : NodeMeta := ⟨data &&& ~~~refMask⟩

end NodeMeta

structure ClockNode where
  rid : Rid
  nodeMeta : NodeMeta
  val : Image Byte

namespace ClockNode

def new (val : Image Byte) (rid : Rid) : ClockNode :=
  { rid, nodeMeta := .new, val }

/-- An entry as `new_cap` leaves it. -/
def vacant : ClockNode :=
  { rid := sentinel, nodeMeta := .new, val := fun _ => 0 }

/-- `set_ref`, with the outcome of its coin. -/
def setRef (node : ClockNode) (coin : Bool) : ClockNode :=
  if coin then { node with nodeMeta := node.nodeMeta.setRef } else node

end ClockNode

/-! ### Query values -/

/-- References into the cache entry and into the table storage. -/
structure QueryValue where
  field : Option Word
  tuple : Option Rid
deriving DecidableEq

/-- A live `QueryValue`: it borrows a guard of `owner` on `rid`. -/
structure View (τ : Type) where
  owner : τ
  rid : Rid
  query : List Field
  value : QueryValue
deriving DecidableEq

/-- Where a field of a record is accessed, and from which byte on. -/
inductive Location
  | entry (index : Word) (start : Nat)
  | tuple (rid : Rid) (start : Nat)

/-- The branch `get_value` and `get_value_mut` share; `none` is the failing `expect`. -/
def QueryValue.locate (value : QueryValue) (schema : Schema) (field : Field)
    : Option Location :=
  match schema.toCachedField field, value.field with
  | some place, some index => some (.entry index place.beginAt.toNat)
  | _, _ => value.tuple.map (fun rid => .tuple rid field.beginAt.toNat)

/-! ### Program points -/

/-- Who called `probe_and_replace_rng`, with what it needs afterwards. -/
inductive Caller
  | insert (val : Image Byte)
  | promote (query : List Field)

/-- The arguments of `probe_and_replace_rng`; `oid` is the record of the guard passed in. -/
structure Probe where
  oid : Rid
  rid : Rid
  node : ClockNode
  caller : Caller

/-- `Some((old, oid_to_evict))`. -/
structure Evicted where
  node : ClockNode
  oid : Rid

/-- What a thread does once an operation on an oid word has returned. -/
inductive After
  | user
  | allocGuard (val : Image Byte)
  | allocStored (val : Image Byte)
  | tried (job : Probe) (p : Nat) (index : Word)
  | abandoned (job : Probe) (p : Nat)
  | retired (job : Probe) (index : Word)
  | placed (job : Probe) (index : Word) (evicted : Option Evicted)
  | released (job : Probe) (index : Word)

/-- Where a thread stands between two atomic steps. In `oid` it is about to enter an
operation of the lock machine or inside one.
-/
inductive Pc
  | idle
  | oid (rid : Rid) (op : LockOp) (after : After) (entered : Bool)
  | insertIsRid (rid : Rid) (val : Image Byte)
  | insertToRid (rid : Rid) (val : Image Byte)
  | insertStore (rid : Rid) (val : Image Byte)
  | readIsCached (rid : Rid) (query : List Field) (promote : Bool)
  | readIndex (rid : Rid) (query : List Field)
  | readSetRef (rid : Rid) (query : List Field) (index : Word)
  | readEntry (rid : Rid) (query : List Field) (index : Word)
  | readRid (rid : Rid) (query : List Field) (promote : Bool)
  | promoteRid (rid : Rid) (query : List Field)
  | promoteCopy (rid : Rid) (query : List Field) (tupleRid : Rid)
  | probing (job : Probe) (p : Nat)
  | probeClaim (job : Probe) (p : Nat) (index : Word)
  | probePut (job : Probe) (index : Word)
  | probeRef (job : Probe) (p : Nat) (index : Word) (curRid : Rid)
  | probeClear (job : Probe) (p : Nat) (index : Word) (data : BitVec 32)
  | probeValidate (job : Probe) (p : Nat) (index : Word) (curRid : Rid)
  | probeVictimRid (job : Probe) (index : Word) (curRid : Rid)
  | probeReplace (job : Probe) (index : Word) (curRid : Rid)
  | probeSetRef (job : Probe) (index : Word) (evicted : Option Evicted)
  | evictWriteBack (job : Probe) (index : Word) (evicted : Evicted)

/-! ### State, moves and events -/

/-- The parameters of one cache. The capacity is a positive `u32`; `fields` are the fields
of `S::Tuple`.
-/
structure CacheConfig where
  capacity : Nat
  probeLen : Nat
  schema : Schema
  fields : List Field
  capacity_pos : 0 < capacity
  capacity_u32 : capacity < 2 ^ 32

/-- Shared memory and threads. `allocated`, `returned` and `published` list the rids the oid
heap has handed out, `alloc_rid` has returned and `insert` has returned.
-/
structure CacheState (τ : Type) where
  oids : Rid → LockedOid τ
  entries : Word → ClockNode
  storage : Rid → Image Byte
  hand : τ → Nat
  pc : τ → Pc
  views : List (View τ)
  allocated : List Rid
  returned : List Rid
  published : List Rid

inductive CacheMove (τ : Type)
  | insert (rid : Rid) (val : Image Byte)
  | read (rid : Rid) (query : List Field)
  | readAndPromote (rid : Rid) (query : List Field)
  | lock (rid : Rid) (op : LockOp)
  | drop (rid : Rid) (kind : GuardKind)
  | getValue (view : View τ) (field : Field)
  | getValueMut (view : View τ) (field : Field) (bytes : List Byte)
  | advance (choice : Bool)

inductive CacheEvent
  | pending
  | locked (rid : Rid) (event : LockEvent)
  | placed (index : Word)
  | inserted (rid : Rid) (val : Image Byte)
  | viewed (rid : Rid) (query : List Field) (value : QueryValue)
  | got (rid : Rid) (field : Field) (bytes : Option (List Byte))
  | wrote (rid : Rid) (field : Field) (bytes : List Byte)

variable {τ : Type} [DecidableEq τ]

/-- The empty cache over zeroed oid words. Storage and clock hands start anywhere. -/
def CacheState.init (storage : Rid → Image Byte) (hand : τ → Nat) : CacheState τ where
  oids := fun _ => .fresh 0#64
  entries := fun _ => .vacant
  storage
  hand
  pc := fun _ => .idle
  views := []
  allocated := []
  returned := []
  published := []

namespace CacheState

def goto (state : CacheState τ) (t : τ) (pc : Pc) : CacheState τ :=
  { state with pc := Function.update state.pc t pc }

def setOid (state : CacheState τ) (rid : Rid) (oid : LockedOid τ) : CacheState τ :=
  { state with oids := Function.update state.oids rid oid }

def setEntry (state : CacheState τ) (index : Word) (node : ClockNode) : CacheState τ :=
  { state with entries := Function.update state.entries index node }

def setTuple (state : CacheState τ) (rid : Rid) (image : Image Byte) : CacheState τ :=
  { state with storage := Function.update state.storage rid image }

/-- A step of thread `t` on the word of `rid`. -/
def stepOid (state : CacheState τ) (t : τ) (rid : Rid) (oid : LockedOid τ)
    (returned : List Rid) (pc : Pc)
    : CacheState τ :=
  { state.setOid rid oid with returned }.goto t pc

/-- A call returns a query value to thread `t`. -/
def view (state : CacheState τ) (t : τ) (rid : Rid) (query : List Field)
    (value : QueryValue)
    : CacheState τ × CacheEvent :=
  ({ state with views := ⟨t, rid, query, value⟩ :: state.views }.goto t .idle,
    .viewed rid query value)

/-- The bytes a reference to a value of `size` bytes reads. -/
def fetch (state : CacheState τ) (size : Nat) : Location → List Byte
  | .entry index start => ByteImage.read (state.entries index).val ⟨start, size⟩
  | .tuple rid start => ByteImage.read (state.storage rid) ⟨start, size⟩

/-- A write through such a reference. -/
def store (state : CacheState τ) (bytes : List Byte) : Location → CacheState τ
  | .entry index start =>
      state.setEntry index
        { state.entries index with val := write (state.entries index).val start bytes }
  | .tuple rid start => state.setTuple rid (write (state.storage rid) start bytes)

/-- Views that stay when thread `t` gives up its borrow of `rid`. -/
def viewsWithout (state : CacheState τ) (t : τ) (rid : Rid) : List (View τ) :=
  state.views.filter (fun view => !(decide (view.owner = t) && decide (view.rid = rid)))

end CacheState

/-! ### Where control goes -/

/-- The end of `insert`, or the `matches` test at the end of `read_and_promote`. -/
def Probe.conclude (job : Probe) (index : Word) : Pc :=
  match job.caller with
  | .insert val => .insertStore job.oid val
  | .promote query => .readEntry job.oid query index

/-- The `if let Some(evicted)` both callers have. -/
def Probe.settle (job : Probe) (index : Word) : Option Evicted → Pc
  | some evicted => .evictWriteBack job index evicted
  | none => job.conclude index

/-- The first thing the caller does with `Some((index, evicted))`. -/
def Probe.finish (job : Probe) (index : Word) (evicted : Option Evicted) : Pc :=
  match job.caller with
  | .insert _ => job.settle index evicted
  | .promote _ => .probeSetRef job index evicted

/-- Where a thread goes when its operation on the word of `rid` returns with `event`. -/
def After.next (rid : Rid) : After → LockEvent → Option Pc
  | .user, _ => some .idle
  | .allocGuard val, .granted .write =>
      some (.oid rid (.storeRid rid) (.allocStored val) false)
  | .allocStored val, .stored _ => some (.insertIsRid rid val)
  | .tried job p index, .granted .write => some (.probeValidate job p index rid)
  | .tried job p _, .failed _ => some (.probing job (p + 1))
  | .abandoned job p, .dropped _ => some (.probing job (p + 1))
  | .retired job index, .stored _ => some (.probeReplace job index rid)
  | .placed job index evicted, .stored _ => some (job.finish index evicted)
  | .released job index, .dropped _ => some (job.conclude index)
  | _, _ => none

/-- The rids `alloc_rid` has returned: it ends with its `store_rid`. -/
def After.returns (rid : Rid) (returned : List Rid) : After → List Rid
  | .allocStored _ => rid :: returned
  | _ => returned

def After.label (rid : Rid) (event : LockEvent) : After → CacheEvent
  | .user => .locked rid event
  | _ => .pending

/-- `advance_index`, on the thread's clock hand. -/
def CacheConfig.advanceIndex (config : CacheConfig) (hand : Nat) : Word :=
  BitVec.ofNat 64 ((hand + 1) % config.capacity)

/-! ### The step function -/

/-- Operations that acquire a guard. -/
def acquires : LockOp → Bool
  | .read | .tryRead | .write | .tryWrite | .upgrade => true
  | _ => false

def dropOp : GuardKind → LockOp
  | .read => .dropRead
  | .write => .dropWrite

namespace CacheState

/-- An idle thread starts a call. `insert` begins with `heap.append`, which writes a fresh word
and hands out a `rid` that it has not handed out before, and never the sentinel, which
`Rid::from_u32` rejects; `read_and_promote` borrows its guard mutably, so no query value of
that guard outlives the call; dropping the last guard on a record ends the borrows of it.
-/
def start (config : CacheConfig) (state : CacheState τ) (t : τ)
    : CacheMove τ → Option (CacheState τ × CacheEvent)
  | .insert rid val =>
      if rid ∉ state.allocated ∧ rid ≠ sentinel then
        some
          ({ state.setOid rid (.fresh (fromRid 0#32)) with
              allocated := rid :: state.allocated }.goto t
            (.oid rid .write (.allocGuard val) false), .pending)
      else none
  | .read rid query =>
      if rid ∈ state.published ∧ (∃ guard ∈ (state.oids rid).guards, guard.owner = t)
          ∧ ∀ field ∈ query, field ∈ config.fields then
        some (state.goto t (.readIsCached rid query false), .pending)
      else none
  | .readAndPromote rid query =>
      if rid ∈ state.published ∧ ⟨t, .write⟩ ∈ (state.oids rid).guards
          ∧ ∀ field ∈ query, field ∈ config.fields then
        some
          ({ state with views := state.viewsWithout t rid }.goto t
            (.readIsCached rid query true), .pending)
      else none
  | .lock rid op =>
      if rid ∈ state.published ∧ acquires op then
        some (state.goto t (.oid rid op .user false), .pending)
      else none
  | .drop rid kind =>
      match (state.oids rid).step t (.call (dropOp kind)) with
      | none => none
      | some (oid, event) =>
          let kept :=
            if ∃ guard ∈ oid.guards, guard.owner = t then state.views
            else state.viewsWithout t rid
          some ({ state.setOid rid oid with views := kept }, .locked rid event)
  | .getValue view field =>
      if view ∈ state.views ∧ view.owner = t ∧ field ∈ config.fields then
        some (state, .got view.rid field
          ((view.value.locate config.schema field).map (state.fetch field.size)))
      else none
  | .getValueMut view field bytes =>
      if view ∈ state.views ∧ view.owner = t ∧ ⟨t, .write⟩ ∈ (state.oids view.rid).guards
          ∧ field ∈ config.fields ∧ bytes.length = field.size then
        (view.value.locate config.schema field).map (fun location =>
          (state.store bytes location, .wrote view.rid field bytes))
      else none
  | .advance _ => none

/-- The next atomic step of the call the thread is in. `choice` is the coin of `gen_bool`, or
lets a weak compare-exchange fail spuriously.
-/
def resume (config : CacheConfig) (state : CacheState τ) (t : τ) (choice : Bool)
    : Option (CacheState τ × CacheEvent) :=
  match state.pc t with
  | .idle => none
  | .oid rid op after entered =>
      match (state.oids rid).step t (if entered then .advance choice else .call op) with
      | none => none
      | some (oid, .pending) =>
          some (state.stepOid t rid oid state.returned (.oid rid op after true), .pending)
      | some (oid, event) =>
          (after.next rid event).map (fun pc =>
            (state.stepOid t rid oid (after.returns rid state.returned) pc,
              after.label rid event))
  | .insertIsRid rid val =>
      -- `assert!(lock.is_rid())`: a failing assertion stops the thread.
      if isRid (state.oids rid).data then some (state.goto t (.insertToRid rid val), .pending)
      else none
  | .insertToRid rid val =>
      let tupleRid := toRid (state.oids rid).data
      let node := ClockNode.new (config.schema.toCached val) tupleRid
      some (state.goto t (.probing ⟨rid, tupleRid, node, .insert val⟩ 0), .pending)
  | .insertStore rid val =>
      some ({ state.setTuple rid val with published := rid :: state.published }.goto t .idle,
        .inserted rid val)
  | .readIsCached rid query promote =>
      if isCached (state.oids rid).data then some (state.goto t (.readIndex rid query), .pending)
      else some (state.goto t (.readRid rid query promote), .pending)
  | .readIndex rid query =>
      some (state.goto t (.readSetRef rid query (toCacheIndex (state.oids rid).data)), .pending)
  | .readSetRef rid query index =>
      some ((state.setEntry index ((state.entries index).setRef choice)).goto t
        (.readEntry rid query index), .pending)
  | .readEntry rid query index =>
      if config.schema.matchesQuery query then some (state.view t rid query ⟨some index, none⟩)
      else some (state.view t rid query ⟨some index, some (state.entries index).rid⟩)
  | .readRid rid query promote =>
      if promote then some (state.goto t (.promoteRid rid query), .pending)
      else some (state.view t rid query ⟨none, some (toRid (state.oids rid).data)⟩)
  | .promoteRid rid query =>
      let tupleRid := toRid (state.oids rid).data
      if config.probeLen = 0 then some (state.view t rid query ⟨none, some tupleRid⟩)
      else some (state.goto t (.promoteCopy rid query tupleRid), .pending)
  | .promoteCopy rid query tupleRid =>
      let node := ClockNode.new (config.schema.toCached (state.storage tupleRid)) tupleRid
      if choice then
        some (state.goto t (.probing ⟨rid, tupleRid, node, .promote query⟩ 0), .pending)
      else some (state.view t rid query ⟨none, some tupleRid⟩)
  | .probing job p =>
      if p < config.probeLen then
        let index := config.advanceIndex (state.hand t)
        let moved := { state with hand := Function.update state.hand t index.toNat }
        if (state.entries index).rid = sentinel then
          some (moved.goto t (.probeClaim job p index), .pending)
        else some (moved.goto t (.probeRef job p index (state.entries index).rid), .pending)
      else
        match job.caller with
        | .insert val => some (state.goto t (.insertStore job.oid val), .pending)
        | .promote query => some (state.view t job.oid query ⟨none, some job.rid⟩)
  | .probeClaim job p index =>
      if !choice && (state.entries index).rid == sentinel then
        some ((state.setEntry index { state.entries index with rid := job.rid }).goto t
          (.probePut job index), .pending)
      else some (state.goto t (.probing job (p + 1)), .pending)
  | .probePut job index =>
      some ((state.setEntry index job.node).goto t
        (.oid job.oid (.storeIndex index) (.placed job index none) false), .placed index)
  | .probeRef job p index curRid =>
      let data := (state.entries index).nodeMeta.data
      if NodeMeta.isRefed data then some (state.goto t (.probeClear job p index data), .pending)
      else some (state.goto t (.oid curRid .tryWrite (.tried job p index) false), .pending)
  | .probeClear job p index data =>
      some ((state.setEntry index { state.entries index with nodeMeta := .cleared data }).goto t
        (.probing job (p + 1)), .pending)
  | .probeValidate job p index curRid =>
      if !choice && (state.entries index).rid == curRid then
        some (state.goto t (.probeVictimRid job index curRid), .pending)
      else some (state.goto t (.oid curRid .dropWrite (.abandoned job p) false), .pending)
  | .probeVictimRid job index curRid =>
      some (state.goto t
        (.oid curRid (.storeRid (state.entries index).rid) (.retired job index) false), .pending)
  | .probeReplace job index curRid =>
      some ((state.setEntry index job.node).goto t
        (.oid job.oid (.storeIndex index)
          (.placed job index (some ⟨state.entries index, curRid⟩)) false), .placed index)
  | .probeSetRef job index evicted =>
      some ((state.setEntry index ((state.entries index).setRef choice)).goto t
        (job.settle index evicted), .pending)
  | .evictWriteBack job index evicted =>
      let rid := evicted.node.rid
      some ((state.setTuple rid
        (config.schema.writeBack evicted.node.val (state.storage rid))).goto t
        (.oid evicted.oid .dropWrite (.released job index) false), .pending)

/-- One step of thread `t`. -/
def step (config : CacheConfig) (state : CacheState τ) (t : τ)
    : CacheMove τ → Option (CacheState τ × CacheEvent)
  | .advance choice => state.resume config t choice
  | move =>
      match state.pc t with
      | .idle => state.start config t move
      | _ => none

end CacheState

/-- The step function of the whole cache; an action names its thread. -/
def cacheStep (config : CacheConfig) (state : CacheState τ) (action : τ × CacheMove τ)
    : Option (CacheState τ × CacheEvent) :=
  state.step config action.1 action.2

end Alchemy.Cache
