import Alchemy.Allocator.Capacity
import Alchemy.Table.FlushedPages

/-! How many tuples one thread can insert into an `InsertonlyTable`. `new` reckons the pages
from the bytes of `cap` tuples, but a page holds whole tuples only.
-/

namespace Alchemy.Table

open Allocator Interleaving IntrusiveList

variable {τ T : Type} [DecidableEq τ]

/-! ### `InsertonlyTable::new` -/

/-- The number of pages that `InsertonlyTable::new(cap)` asks for, in the arithmetic of
`usize`.
-/
def pmPageCnt (cap size : UInt64) : Nat :=
  (alignUp (cap * size) hugepageSize.toUInt64 / hugepageSize.toUInt64).toNat

/-- Without an overflow these are the pages that the bytes of `cap` tuples fill. -/
theorem pmPageCnt_eq {cap size : UInt64}
    (fits : cap.toNat * size.toNat + hugepageSize < 2 ^ 64)
    : pmPageCnt cap size = (cap.toNat * size.toNat + hugepageSize - 1) / hugepageSize := by
  have page : hugepageSize.toUInt64.toNat = 2 ^ 21 := rfl
  have huge : hugepageSize = 2 ^ 21 := rfl
  have one : (1 : UInt64).toNat = 1 := rfl
  rw [huge] at fits ⊢
  generalize bytes : cap.toNat * size.toNat = total at fits ⊢
  have padded : (cap * size + hugepageSize.toUInt64).toNat = total + 2 ^ 21 := by
    rw [UInt64.toNat_add, UInt64.toNat_mul, page, bytes, Nat.mod_eq_of_lt (by omega : total < _)]
    exact Nat.mod_eq_of_lt fits
  have less : (cap * size + hugepageSize.toUInt64 - 1).toNat = total + 2 ^ 21 - 1 := by
    rw [UInt64.toNat_sub_of_le _ _ (by rw [UInt64.le_iff_toNat_le, padded, one]; omega), padded,
      one]
  have cleared := clear_low_bits (cap * size + hugepageSize.toUInt64 - 1)
    (~~~(hugepageSize.toUInt64 - 1)) (by decide : 21 ≤ 64) (by decide)
  rw [pmPageCnt, alignUp, UInt64.toNat_div, cleared, less, page]
  exact Nat.mul_div_cancel _ (by decide)

/-- `InsertonlyTable::new(cap)` over the region at `addr`. -/
def InsertonlyTable.newCap (cap : UInt64) (type : TupleType T) (addr : Nat) (nonnull : 0 < addr)
    (mem : Memory) (pages : Nat → Nat → T)
    : InsertonlyTable τ T :=
  .new (hugePages (pmPageCnt cap type.size.toUInt64) addr nonnull) mem pages

/-! ### One thread alone -/

/-- The tuples that `insert` has been called with, in order. -/
def callsOf (trace : List ((τ × InsertMove T) × InsertEvent T)) : List T :=
  trace.filterMap (fun entry =>
    match entry.1.2 with
    | .insert tuple => some tuple
    | .advance => none)

/-- Only `t` moves. -/
def AloneIn (t : τ) (trace : List ((τ × InsertMove T) × InsertEvent T)) : Prop :=
  ∀ entry ∈ trace, entry.1.1 = t

def InsertPc.isIdle : InsertPc T → Bool
  | .idle => true
  | .alloc _ | .copy _ _ _ | .retry _ | .panicked => false

def InsertPc.isCopy : InsertPc T → Bool
  | .copy _ _ _ => true
  | .idle | .alloc _ | .retry _ | .panicked => false

namespace InsertonlyTable

variable {type : TupleType T} {layout : BlockLayout} {table next : InsertonlyTable τ T} {t : τ}
  {move : InsertMove T} {event : InsertEvent T}
  {trace : List ((τ × InsertMove T) × InsertEvent T)}

/-- The books of a thread that is alone: a call has returned or is the one under way, a page
that is taken is flushed or is being copied to, and a panic found no page for a full buffer.
-/
structure Lone (layout : BlockLayout) (type : TupleType T) (t : τ)
    (trace : List ((τ × InsertMove T) × InsertEvent T)) (table : InsertonlyTable τ T)
    : Prop where
  calls : (callsOf trace).length
    = (insertedBy t trace).length + if (table.pc t).isIdle then 0 else 1
  pages : table.storage.owned.length
    = (flushedBy t trace).length + if (table.pc t).isCopy then 1 else 0
  spent : table.pc t = .panicked
    → table.storage.owned.length = layout.cap ∧ (table.getTlsPage type t).next = type.cap

/-- The tuples inserted are those of the flushed pages and of the buffer. -/
theorem Sound.length_inserted (sound : table.Sound layout type trace) (t : τ)
    : (insertedBy t trace).length
      = type.cap * (flushedBy t trace).length + (table.getTlsPage type t).next := by
  rw [← sound.kept t, stored, List.length_append, List.length_flatMap, buffered_eq type]
  simp [pageTuples, PageBuffer.tuples, Nat.mul_comm]

omit [DecidableEq τ] in
theorem callsOf_append (first second : List ((τ × InsertMove T) × InsertEvent T))
    : callsOf (first ++ second) = callsOf first ++ callsOf second :=
  List.filterMap_append

theorem flushedBy_append (t : τ) (first second : List ((τ × InsertMove T) × InsertEvent T))
    : flushedBy t (first ++ second) = flushedBy t first ++ flushedBy t second := by
  simp [flushedBy, flushes_append]

/-- A thread between its calls can only begin one, and a thread inside cannot. -/
theorem length_calls_step (taken : insertStep type table (t, move) = some (next, event))
    : (callsOf [((t, move), event)]).length = if (table.pc t).isIdle then 1 else 0 := by
  cases move with
  | insert tuple =>
      cases here : table.pc t with
      | idle => rfl
      | alloc | copy | retry | panicked => simp [insertStep, here] at taken
  | advance =>
      cases here : table.pc t with
      | idle => simp [insertStep, here] at taken
      | alloc | copy | retry | panicked => rfl

/-- A step returns from the call, or the thread is inside after it. -/
theorem Effect.returns (effect : table.Effect type t next event) (move : InsertMove T)
    : (insertedBy t [((t, move), event)]).length + (if (next.pc t).isIdle then 0 else 1) = 1 := by
  cases effect with
  | insert here => simp [insertedBy, setPage, here, InsertPc.isIdle]
  | again here => simp [insertedBy, here, InsertPc.isIdle]
  | _ => simp [insertedBy, goTo, InsertPc.isIdle]

/-- A page is taken before the copy and flushed after it. -/
theorem Effect.takes (effect : table.Effect type t next event) (move : InsertMove T)
    : next.storage.owned.length + (if (table.pc t).isCopy then 1 else 0)
      = table.storage.owned.length + (flushedBy t [((t, move), event)]).length
        + if (next.pc t).isCopy then 1 else 0 := by
  cases effect with
  | insert here => simp [flushedBy, flushes, setPage, here, InsertPc.isCopy]
  | again here => simp [flushedBy, flushes, here, InsertPc.isCopy, AllocatorState.moveTo]
  | full here | exhausted here | taken here | copy here | flush here | retry here =>
      simp [flushedBy, flushes, goTo, setPage, copyTuple, here, InsertPc.isCopy,
        AllocatorState.moveTo]

/-- An allocation fails only on an empty list, and then every page is taken. -/
theorem Sound.length_owned (sound : table.Sound layout type trace)
    (empty : table.storage.allocator.listNode = 0)
    : table.storage.owned.length = layout.cap := by
  obtain ⟨free, linked, perm⟩ := sound.parts
  cases free with
  | nil => simpa [BlockLayout.blocks, blocks] using perm.length_eq
  | cons node rest => exact absurd (linked.1.symm.trans empty) linked.2.1

/-- Whether pages are taken or free, there are no more than `new` made. -/
theorem Sound.length_owned_le (sound : table.Sound layout type trace)
    : table.storage.owned.length ≤ layout.cap := by
  obtain ⟨free, linked, perm⟩ := sound.parts
  have total := perm.length_eq
  simp only [List.length_append, List.length_map, BlockLayout.blocks, blocks, List.length_range]
    at total
  omega

theorem empty_of_outOfMemory {storage after : AllocatorState τ} {point : AllocPc}
    (advance : storage.advanceAlloc t point = (after, .outOfMemory))
    : storage.allocator.listNode = 0 := by
  by_contra nonempty
  cases point with
  | load =>
      simp [AllocatorState.advanceAlloc, ArrayAllocator.allocStep, checkNode, nonempty] at advance
  | next node => simp [AllocatorState.advanceAlloc, ArrayAllocator.allocStep] at advance
  | cas node link =>
      by_cases head : storage.allocator.listNode = node
      · simp [AllocatorState.advanceAlloc, ArrayAllocator.allocStep, head] at advance
      · simp [AllocatorState.advanceAlloc, ArrayAllocator.allocStep, checkNode, head, nonempty]
          at advance

/-- A step of the thread keeps its books. -/
theorem Lone.step (lone : table.Lone layout type t trace)
    (sound : table.Sound layout type trace)
    (taken : insertStep type table (t, move) = some (next, event))
    : next.Lone layout type t (trace ++ [((t, move), event)]) := by
  have effect := insertStep_effect taken
  constructor
  · have called := length_calls_step taken
    have returned := effect.returns move
    have before := lone.calls
    rw [callsOf_append, insertedBy_append, List.length_append, List.length_append, called, before]
    cases (table.pc t).isIdle <;> simp only [Bool.false_eq_true, ↓reduceIte] at * <;> omega
  · have took := effect.takes move
    have before := lone.pages
    rw [flushedBy_append, List.length_append]
    omega
  · intro panicked
    cases effect with
    | insert here => simp [setPage, here] at panicked
    | again here => simp [here] at panicked
    | exhausted here alloc advance =>
        have stands := sound.stands t
        rw [here] at stands
        exact ⟨sound.length_owned (empty_of_outOfMemory advance), stands.2⟩
    | _ => simp [goTo] at panicked

/-- The books of every state that the thread reaches alone, by induction on the run. -/
theorem lone_of_run {mem : Memory} {pages : Nat → Nat → T} (positive : 1 ≤ type.cap)
    (run : Run (insertStep type) (new layout mem pages) trace table) (alone : AloneIn t trace)
    : table.Lone layout type t trace := by
  induction run with
  | start => exact ⟨rfl, rfl, fun panicked => by cases panicked⟩
  | @extend trace table action next event earlier taken ih =>
      have mine : action.1 = t := alone (action, event) (by simp)
      obtain ⟨u, move⟩ := action
      cases mine
      have before := ih (fun entry member => alone entry (List.mem_append_left _ member))
      exact before.step (sound_of_run positive earlier) taken

/-- Between its calls the thread has inserted no more than the pages and the buffer hold. -/
theorem Lone.calls_le (lone : table.Lone layout type t trace)
    (sound : table.Sound layout type trace) (idle : table.pc t = .idle)
    : (callsOf trace).length ≤ type.cap * (layout.cap + 1) := by
  have calls := lone.calls
  have pages := lone.pages
  have inserted := sound.length_inserted t
  have bounded := sound.bounded t
  have owned := sound.length_owned_le
  simp only [idle, InsertPc.isIdle, InsertPc.isCopy, Bool.false_eq_true, ↓reduceIte] at calls pages
  have most := Nat.mul_le_mul_left type.cap (by omega : (flushedBy t trace).length ≤ layout.cap)
  rw [Nat.mul_add_one]
  omega

/-- A call panics when the pages and the buffer are full. -/
theorem Lone.calls_panicked (lone : table.Lone layout type t trace)
    (sound : table.Sound layout type trace) (panicked : table.pc t = .panicked)
    : (callsOf trace).length = type.cap * (layout.cap + 1) + 1 := by
  have calls := lone.calls
  have pages := lone.pages
  have inserted := sound.length_inserted t
  obtain ⟨owned, full⟩ := lone.spent panicked
  simp only [panicked, InsertPc.isIdle, InsertPc.isCopy, Bool.false_eq_true, ↓reduceIte]
    at calls pages
  rw [Nat.add_zero, owned] at pages
  rw [calls, inserted, full, ← pages, Nat.mul_add_one]

/-! ### A call alone comes to its end -/

/-- How far an allocation is from its end when nobody else moves the head of the list. -/
def allocRank (head : Nat) : AllocPc → Nat
  | .load => 3
  | .next node => if node = head then 2 else 4
  | .cas node _ => if node = head then 1 else 3

/-- A bound on the steps that are left of a call. -/
def rank (type : TupleType T) (table : InsertonlyTable τ T) (t : τ) : Nat :=
  match table.pc t with
  | .idle | .panicked => 0
  | .alloc _ =>
      match table.storage.pc t with
      | .alloc point => type.cap + 3 + allocRank table.storage.allocator.listNode point
      | _ => 0
  | .copy _ _ index => type.cap - index + 2
  | .retry _ => 1

/-- An access of `alloc` fails for good, takes a page, or comes nearer to it. -/
theorem advanceAlloc_rank (storage : AllocatorState τ) (t : τ) (point : AllocPc)
    : (∃ after index, storage.advanceAlloc t point = (after, .allocated index))
      ∨ (∃ after, storage.advanceAlloc t point = (after, .outOfMemory))
      ∨ ∃ later, storage.advanceAlloc t point = (storage.moveTo t (.alloc later), .pending)
        ∧ allocRank storage.allocator.listNode later
          < allocRank storage.allocator.listNode point := by
  have checked {head : Nat} {point : AllocPc} (large : 3 ≤ allocRank head point)
      (check : storage.allocator.allocStep storage.mem point = (storage.allocator, checkNode head))
      : (∃ after index, storage.advanceAlloc t point = (after, .allocated index))
        ∨ (∃ after, storage.advanceAlloc t point = (after, .outOfMemory))
        ∨ ∃ later, storage.advanceAlloc t point = (storage.moveTo t (.alloc later), .pending)
          ∧ allocRank head later < allocRank head point := by
    by_cases null : head = 0
    · refine .inr (.inl ⟨storage.moveTo t .idle, ?_⟩)
      simp [AllocatorState.advanceAlloc, check, checkNode, null]
    · refine .inr (.inr ⟨.next head, ?_, ?_⟩)
      · simp [AllocatorState.advanceAlloc, check, checkNode, null]
      · have two : allocRank head (.next head) = 2 := by simp [allocRank]
        rw [two]
        exact large
  cases point with
  | load => exact checked (Nat.le_refl 3) rfl
  | next node =>
      refine .inr (.inr ⟨.cas node (storage.mem node), rfl, ?_⟩)
      by_cases head : node = storage.allocator.listNode
      · simp [allocRank, head]
      · simp [allocRank, head]
  | cas node link =>
      by_cases head : storage.allocator.listNode = node
      · exact .inl ⟨_, _, by
          simp only [AllocatorState.advanceAlloc, ArrayAllocator.allocStep, head, ↓reduceIte]
          rfl⟩
      · exact checked (by simp [allocRank, Ne.symm head]) (if_neg head)

/-- Inside a call the thread can go on, and comes nearer to the end of the call. -/
theorem Sound.advance (sound : table.Sound layout type trace) (inside : table.pc t ≠ .idle)
    (alive : table.pc t ≠ .panicked)
    : ∃ next event, insertStep type table (t, .advance) = some (next, event)
      ∧ (next.pc t = .idle ∨ next.pc t = .panicked
        ∨ next.rank type t < table.rank type t ∧ next.pc t ≠ .idle ∧ next.pc t ≠ .panicked) := by
  cases here : table.pc t with
  | idle => exact absurd here inside
  | panicked => exact absurd here alive
  | alloc tuple =>
      have stands := sound.stands t
      rw [here] at stands
      obtain ⟨⟨point, alloc⟩, _⟩ := stands
      rcases advanceAlloc_rank table.storage t point
        with ⟨after, index, advance⟩ | ⟨after, advance⟩ | ⟨later, advance, nearer⟩
      · refine ⟨_, _, by simp only [insertStep, here, alloc, advance]; rfl, .inr (.inr ?_)⟩
        refine ⟨?_, by simp [goTo], by simp [goTo]⟩
        simp only [rank, goTo, Function.update_self, here, alloc]
        omega
      · refine ⟨_, _, by simp only [insertStep, here, alloc, advance]; rfl, .inr (.inl ?_)⟩
        simp [goTo]
      · refine ⟨_, _, by simp only [insertStep, here, alloc, advance]; rfl, .inr (.inr ?_)⟩
        refine ⟨?_, by simp [here], by simp [here]⟩
        simp only [rank, here, alloc, AllocatorState.moveTo, Function.update_self]
        omega
  | copy tuple pmPage index =>
      by_cases more : index < type.cap
      · refine ⟨_, _, by simp only [insertStep, here, more, ↓reduceIte]; rfl, .inr (.inr ?_)⟩
        refine ⟨?_, by simp [goTo], by simp [goTo]⟩
        simp only [rank, goTo, Function.update_self, here]
        omega
      · refine ⟨_, _, by simp only [insertStep, here, more, ↓reduceIte]; rfl, .inr (.inr ?_)⟩
        refine ⟨?_, by simp [goTo], by simp [goTo]⟩
        simp only [rank, goTo, Function.update_self, here]
        omega
  | retry tuple =>
      refine ⟨_, _, by simp only [insertStep, here]; rfl, .inl ?_⟩
      simp [goTo]

/-- Alone, a call returns or panics, by induction on the steps that are left. -/
theorem call_ends {mem : Memory} {pages : Nat → Nat → T} (positive : 1 ≤ type.cap)
    (run : Run (insertStep type) (new layout mem pages) trace table)
    : ∃ more last, Run (insertStep type) table more last
      ∧ AloneIn t more ∧ callsOf more = []
      ∧ (last.pc t = .idle ∨ last.pc t = .panicked) := by
  by_cases idle : table.pc t = .idle
  · exact ⟨[], table, .start, fun _ member => (by cases member), rfl, .inl idle⟩
  by_cases panicked : table.pc t = .panicked
  · exact ⟨[], table, .start, fun _ member => (by cases member), rfl, .inr panicked⟩
  induction left : table.rank type t using Nat.strong_induction_on generalizing table trace with
  | _ budget ih =>
      obtain ⟨next, event, taken, ended⟩ := (sound_of_run positive run).advance idle panicked
      have single := Run.single taken
      rcases ended with idle | panicked | ⟨nearer, inside, alive⟩
      · exact ⟨_, next, single, by simp [AloneIn], rfl, .inl idle⟩
      · exact ⟨_, next, single, by simp [AloneIn], rfl, .inr panicked⟩
      · obtain ⟨more, last, later, alone, calls, ended⟩ :=
          ih _ (left ▸ nearer) (run.extend taken) inside alive rfl
        refine ⟨_, last, single.trans later, ?_, ?_, ended⟩
        · simpa [AloneIn] using alone
        · rw [callsOf_append, calls]
          rfl

/-- A thread that is alone can have its tuples inserted one after the other until one of the
calls panics, by induction on the tuples.
-/
theorem calls_end {mem : Memory} {pages : Nat → Nat → T} (positive : 1 ≤ type.cap) (t : τ)
    (tuples : List T)
    : ∃ trace last, Run (insertStep type) (new layout mem pages) trace last
      ∧ AloneIn t trace
      ∧ (callsOf trace = tuples ∧ last.pc t = .idle
        ∨ callsOf trace <+: tuples ∧ last.pc t = .panicked) := by
  induction tuples using List.reverseRecOn with
  | nil => exact ⟨[], _, .start, fun _ member => (by cases member), .inl ⟨rfl, rfl⟩⟩
  | append_singleton tuples tuple ih =>
      obtain ⟨trace, table, run, alone, ⟨calls, idle⟩ | ⟨calls, panicked⟩⟩ := ih
      · obtain ⟨next, event, taken⟩ : ∃ next event,
            insertStep type table (t, .insert tuple) = some (next, event) := by
          by_cases room : (table.getTlsPage type t).next < type.cap
          · exact ⟨_, _, by simp only [insertStep, idle, PageBuffer.tryInsert, room]; rfl⟩
          · exact ⟨_, _, by simp only [insertStep, idle, PageBuffer.tryInsert, room]; rfl⟩
        obtain ⟨more, last, later, aloneLater, none, ended⟩ :=
          call_ends positive (run.extend taken) (t := t)
        have all : callsOf (trace ++ [((t, .insert tuple), event)] ++ more) = tuples ++ [tuple] := by
          rw [callsOf_append, callsOf_append, calls, none, List.append_nil]
          rfl
        refine ⟨_, last, (run.extend taken).trans later, ?_, ?_⟩
        · intro entry member
          rcases List.mem_append.mp member with member | member
          · rcases List.mem_append.mp member with member | member
            · exact alone entry member
            · rw [List.mem_singleton.mp member]
          · exact aloneLater entry member
        · rcases ended with idle | panicked
          · exact .inl ⟨all, idle⟩
          · exact .inr ⟨⟨[], by rw [all, List.append_nil]⟩, panicked⟩
      · exact ⟨trace, table, run, alone, .inr ⟨calls.trans ⟨_, rfl⟩, panicked⟩⟩

/-- A thread alone can insert the tuples in order, every call returns, and none can panic. -/
structure Accepts (type : TupleType T) (t : τ) (tuples : List T) (table : InsertonlyTable τ T)
    : Prop where
  returns : ∃ trace last, Run (insertStep type) table trace last
    ∧ AloneIn t trace ∧ callsOf trace = tuples ∧ last.pc t = .idle
  safe : ∀ trace last, Run (insertStep type) table trace last
    → AloneIn t trace → callsOf trace <+: tuples → last.pc t ≠ .panicked

/-- The tuples are accepted exactly if they fit the pages and the buffer. -/
theorem accepts_iff {mem : Memory} {pages : Nat → Nat → T} (positive : 1 ≤ type.cap)
    (tuples : List T)
    : (new layout mem pages).Accepts type t tuples
      ↔ tuples.length ≤ type.cap * (layout.cap + 1) := by
  constructor
  · rintro ⟨⟨trace, last, run, alone, rfl, idle⟩, _⟩
    exact (lone_of_run positive run alone).calls_le (sound_of_run positive run) idle
  · intro fits
    have safe : ∀ trace last, Run (insertStep type) (new layout mem pages) trace last
        → AloneIn t trace → callsOf trace <+: tuples → last.pc t ≠ .panicked := by
      intro trace last run alone calls panicked
      have many := (lone_of_run positive run alone).calls_panicked
        (sound_of_run positive run) panicked
      have most := calls.length_le
      omega
    obtain ⟨trace, last, run, alone, ended⟩ := calls_end positive t tuples
    rcases ended with ⟨calls, idle⟩ | ⟨calls, panicked⟩
    · exact ⟨⟨trace, last, run, alone, calls, idle⟩, safe⟩
    · exact absurd panicked (safe trace last run alone calls)

end InsertonlyTable

/-- `n` tuples fit `pages` pages and a buffer exactly if all but the last `perPage` or fewer of
them fill no more than the pages.
-/
theorem le_mul_succ_iff {n perPage pages : Nat} (positive : 1 ≤ perPage) (some : 1 ≤ n)
    : n ≤ perPage * (pages + 1) ↔ (n - 1) / perPage ≤ pages := by
  have whole : (n - 1) / perPage ≤ pages ↔ n - 1 < (pages + 1) * perPage := by
    rw [← Nat.lt_succ_iff, Nat.div_lt_iff_lt_mul positive]
  rw [whole, Nat.mul_comm]
  omega

/-- `InsertonlyTable::new(cap)` accepts `cap` inserts from one thread exactly if the flushes that
they need, one for every full page but the last, do not exceed the pages that `new` asks for.
Without an overflow these are the pages that the bytes of `cap` tuples fill.
-/
theorem insertonly_accepts_cap_iff (type : TupleType T) (nonempty : 1 ≤ type.size)
    (small : type.size ≤ hugepageSize) (cap : UInt64) (some : 1 ≤ cap.toNat) {addr : Nat}
    (nonnull : 0 < addr) (mem : Memory) (pages : Nat → Nat → T) (t : τ) (tuples : List T)
    (count : tuples.length = cap.toNat)
    : ((InsertonlyTable.newCap cap type addr nonnull mem pages).Accepts type t tuples
        ↔ (cap.toNat - 1) / (hugepageSize / type.size) ≤ pmPageCnt cap type.size.toUInt64)
      ∧ (cap.toNat * type.size + hugepageSize < 2 ^ 64
        → pmPageCnt cap type.size.toUInt64
          = (cap.toNat * type.size + hugepageSize - 1) / hugepageSize) := by
  constructor
  · have positive : 1 ≤ type.cap := Nat.div_pos small nonempty
    rw [InsertonlyTable.newCap, InsertonlyTable.accepts_iff positive, count]
    exact le_mul_succ_iff positive some
  · intro fits
    have size : type.size.toUInt64.toNat = type.size := by
      have page : hugepageSize < 2 ^ 64 := by decide
      exact Nat.mod_eq_of_lt (Nat.lt_of_le_of_lt small page)
    rw [pmPageCnt_eq (by rwa [size]), size]

/-- Tuples of 64 bytes. -/
def cacheLines : TupleType Nat where
  size := 64
  zeroed := 0
  firstWord := fun contents => contents 0

def cacheLineTable : InsertonlyTable Unit Nat :=
  .newCap 100000 cacheLines hugepageSize hugepageSize_pos (fun _ => 0) (fun _ _ => 0)

/-- A hundred thousand of them take three flushes. -/
theorem insertonly_accepts_hundred_thousand
    : cacheLineTable.Accepts cacheLines () (List.replicate 100000 7) :=
  (insertonly_accepts_cap_iff cacheLines (by decide) (by decide) 100000 (by decide) _ _ _ () _
    List.length_replicate).1.mpr (by decide +kernel)

/-- Tuples of a byte more than half a page: one fills a page. -/
def halfPages : TupleType Nat where
  size := hugepageSize / 2 + 1
  zeroed := 0
  firstWord := fun contents => contents 0

def InsertPc.isPanicked : InsertPc T → Bool
  | .panicked => true
  | .idle | .alloc _ | .copy _ _ _ | .retry _ => false

/-- Five inserts and the steps of the calls; all but the first have a page to flush. -/
def fiveInserts : List (Unit × InsertMove Nat) :=
  ((), .insert 1)
    :: [2, 3, 4].flatMap (fun tuple => ((), .insert tuple) :: List.replicate 6 ((), .advance))
    ++ [((), .insert 5), ((), .advance)]

def halfPageTable : InsertonlyTable Unit Nat :=
  .newCap 5 halfPages hugepageSize hugepageSize_pos (fun _ => 0) (fun _ _ => 0)

/-- Room for five of them is three pages, and the fifth insert needs a fourth one. -/
theorem insertonly_refuses_fifth
    : ∃ trace last,
        Run (insertStep halfPages) halfPageTable trace last
        ∧ callsOf trace = [1, 2, 3, 4, 5]
        ∧ (last.pc ()).isPanicked = true := by
  obtain ⟨trace, last, run, passed⟩ := exec_reaches
    (fun result : InsertonlyTable Unit Nat × List ((Unit × InsertMove Nat) × InsertEvent Nat) =>
      decide (callsOf result.2 = [1, 2, 3, 4, 5]) && (result.1.pc ()).isPanicked)
    (by decide +kernel : (exec (insertStep halfPages) halfPageTable fiveInserts).any _ = true)
  simp only [Bool.and_eq_true, decide_eq_true_eq] at passed
  exact ⟨trace, last, run, passed.1, passed.2⟩

end Alchemy.Table
