import Alchemy.Allocator.BlockOwnership

/-! `InsertonlyTable`: every thread fills a page of its own and copies it to a persistent page
when the next tuple does not fit. Persistent pages come from an `ArrayAllocator` whose free list
runs through the pages, so a copy overwrites the link that other threads may be about to read.
-/

namespace Alchemy.Table

open Allocator Interleaving IntrusiveList

def hugepageSize : Nat := 2 * 1024 * 1024

/-- The persistent pages of a table. -/
def hugePages (pmPageCnt addr : Nat) (nonnull : 0 < addr) : BlockLayout where
  cap := pmPageCnt
  start := addr
  size := hugepageSize
  holdsNode := by decide
  nonnull := nonnull

theorem hugepageSize_pos : 0 < hugepageSize := by
  decide

/-- What the table needs to know of its tuple type: `size_of`, the tuple of zero bytes that a
new page is full of, and the first word of a page with given tuples.
-/
structure TupleType (T : Type) where
  size : Nat
  zeroed : T
  firstWord : (Nat → T) → Nat

variable {τ T : Type} [DecidableEq τ]

/-- `PageBuffer::CAP` -/
def TupleType.cap (type : TupleType T) : Nat :=
  hugepageSize / type.size

structure PageBuffer (T : Type) where
  next : Nat
  data : Nat → T

namespace PageBuffer

def new (type : TupleType T) : PageBuffer T :=
  ⟨0, fun _ => type.zeroed⟩

def tryInsert (type : TupleType T) (page : PageBuffer T) (value : T)
    : PageBuffer T × Except T Unit :=
  if page.next < type.cap then
    (⟨page.next + 1, Function.update page.data page.next value⟩, .ok ())
  else
    (page, .error value)

def resetIndex (page : PageBuffer T) : PageBuffer T :=
  { page with next := 0 }

/-- The first `next` tuples. -/
def tuples (page : PageBuffer T) : List T :=
  (List.range page.next).map page.data

end PageBuffer

/-- Where a call of `insert` stands: in `alloc`, before it copies one tuple of the page, or
before its second `try_insert`. A failed `alloc` is unwrapped.
-/
inductive InsertPc (T : Type)
  | idle
  | alloc (tuple : T)
  | copy (tuple : T) (pmPage index : Nat)
  | retry (tuple : T)
  | panicked

/-- `pages` are the contents of the persistent pages, as tuples. -/
structure InsertonlyTable (τ T : Type) where
  storage : AllocatorState τ
  tlsPages : τ → Option (PageBuffer T)
  pages : Nat → Nat → T
  pc : τ → InsertPc T

inductive InsertMove (T : Type)
  | insert (tuple : T)
  | advance

/-- `inserted` is the return of `insert`, `flushed` its call of `reset_index`. -/
inductive InsertEvent (T : Type)
  | pending
  | inserted (tuple : T)
  | flushed (pmPage : Nat)
  | outOfMemory

namespace InsertonlyTable

/-- `InsertonlyTable::new` on a region of any contents. -/
def new (layout : BlockLayout) (mem : Memory) (pages : Nat → Nat → T) : InsertonlyTable τ T where
  storage := layout.fresh mem
  tlsPages := fun _ => none
  pages := pages
  pc := fun _ => .idle

def goTo (table : InsertonlyTable τ T) (t : τ) (pc : InsertPc T) : InsertonlyTable τ T :=
  { table with pc := Function.update table.pc t pc }

def setPage (table : InsertonlyTable τ T) (t : τ) (page : PageBuffer T) : InsertonlyTable τ T :=
  { table with tlsPages := Function.update table.tlsPages t (some page) }

def getTlsPage (table : InsertonlyTable τ T) (type : TupleType T) (t : τ) : PageBuffer T :=
  (table.tlsPages t).getD (.new type)

/-- One tuple of the copy. The first word of the page changes with its contents. -/
def copyTuple (table : InsertonlyTable τ T) (type : TupleType T) (pmPage index : Nat) (tuple : T)
    : InsertonlyTable τ T :=
  let contents := Function.update (table.pages pmPage) index tuple
  { table with
    pages := Function.update table.pages pmPage contents
    storage :=
      { table.storage with
        mem := Function.update table.storage.mem pmPage (type.firstWord contents) } }

end InsertonlyTable

/-- One move of one thread. -/
def insertStep (type : TupleType T) (table : InsertonlyTable τ T) (action : τ × InsertMove T)
    : Option (InsertonlyTable τ T × InsertEvent T) :=
  let t := action.1
  let page := table.getTlsPage type t
  match action.2, table.pc t with
  | .insert tuple, .idle =>
      match page.tryInsert type tuple with
      | (page, .ok ()) => some (table.setPage t page, .inserted tuple)
      | (page, .error tuple) =>
          some
            (({ table with storage := table.storage.moveTo t (.alloc .load) }.setPage t page).goTo t
              (.alloc tuple), .pending)
  | .advance, .alloc tuple =>
      match table.storage.pc t with
      | .alloc point =>
          match table.storage.advanceAlloc t point with
          | (storage, .allocated index) =>
              let pmPage := blockAddr storage.allocator.start storage.allocator.size index
              some ({ table with storage }.goTo t (.copy tuple pmPage 0), .pending)
          | (storage, .outOfMemory) =>
              some ({ table with storage }.goTo t .panicked, .outOfMemory)
          | (storage, _) => some ({ table with storage }, .pending)
      | _ => none
  | .advance, .copy tuple pmPage index =>
      if index < type.cap then
        some
          ((table.copyTuple type pmPage index (page.data index)).goTo t
            (.copy tuple pmPage (index + 1)), .pending)
      else
        some ((table.setPage t page.resetIndex).goTo t (.retry tuple), .flushed pmPage)
  | .advance, .retry tuple =>
      -- `let _ = page.try_insert(tuple)`
      let (page, _) := page.tryInsert type tuple
      some ((table.setPage t page).goTo t .idle, .inserted tuple)
  | _, _ => none

/-! ### What a step can do -/

section Effects

variable {type : TupleType T} {table next : InsertonlyTable τ T} {t : τ} {move : InsertMove T}
  {event : InsertEvent T}

/-- One access of `alloc`: it goes on with a link it has just read, if with one at all, or finds
no block, or takes the first one.
-/
inductive AllocEffect (storage : AllocatorState τ) (t : τ) (point : AllocPc)
    : AllocatorState τ × AllocatorEvent → Prop
  | again {later : AllocPc}
    (fresh : ∀ node link, later = .cas node link → storage.mem node = link)
    : AllocEffect storage t point (storage.moveTo t (.alloc later), .pending)
  | exhausted : AllocEffect storage t point (storage.moveTo t .idle, .outOfMemory)
  | taken {node link : Nat} (exchange : point = .cas node link)
    (head : storage.allocator.listNode = node)
    : AllocEffect storage t point
        ({ storage with
            allocator := { storage.allocator with listNode := link }
            owned := (t, node) :: storage.owned }.moveTo t .idle,
          .allocated (storage.allocator.indexOf node))

theorem checkNode_effect {storage : AllocatorState τ} {point : AllocPc} {head : Nat}
    (check : storage.allocator.allocStep storage.mem point = (storage.allocator, checkNode head))
    : AllocEffect storage t point (storage.advanceAlloc t point) := by
  unfold AllocatorState.advanceAlloc checkNode at *
  by_cases null : head = 0
  · simp only [check, null, ↓reduceIte]
    exact .exhausted
  · simp only [check, null, ↓reduceIte]
    exact .again (fun node link same => by cases same)

theorem advanceAlloc_effect (storage : AllocatorState τ) (t : τ) (point : AllocPc)
    : AllocEffect storage t point (storage.advanceAlloc t point) := by
  cases point with
  | load => exact checkNode_effect rfl
  | next node => exact .again (fun node link same => by cases same; rfl)
  | cas node link =>
      by_cases head : storage.allocator.listNode = node
      · simp only [AllocatorState.advanceAlloc, ArrayAllocator.allocStep, head, ↓reduceIte]
        exact .taken rfl head
      · exact checkNode_effect (if_neg head)

/-- Everything a step of thread `t` can do. -/
inductive InsertonlyTable.Effect (type : TupleType T) (table : InsertonlyTable τ T) (t : τ)
    : InsertonlyTable τ T → InsertEvent T → Prop
  | insert {tuple : T} (here : table.pc t = .idle)
    (room : (table.getTlsPage type t).next < type.cap)
    : Effect type table t
        (table.setPage t ((table.getTlsPage type t).tryInsert type tuple).1) (.inserted tuple)
  | full {tuple : T} (here : table.pc t = .idle)
    (full : ¬(table.getTlsPage type t).next < type.cap)
    : Effect type table t
        (({ table with storage := table.storage.moveTo t (.alloc .load) }.setPage t
            (table.getTlsPage type t)).goTo t (.alloc tuple))
        .pending
  | again {tuple : T} {point later : AllocPc} (here : table.pc t = .alloc tuple)
    (fresh : ∀ node link, later = .cas node link → table.storage.mem node = link)
    (alloc : table.storage.pc t = .alloc point)
    (advance
      : table.storage.advanceAlloc t point = (table.storage.moveTo t (.alloc later), .pending))
    : Effect type table t { table with storage := table.storage.moveTo t (.alloc later) } .pending
  | exhausted {tuple : T} {point : AllocPc} (here : table.pc t = .alloc tuple)
    (alloc : table.storage.pc t = .alloc point)
    (advance
      : table.storage.advanceAlloc t point = (table.storage.moveTo t .idle, .outOfMemory))
    : Effect type table t ({ table with storage := table.storage.moveTo t .idle }.goTo t .panicked)
        .outOfMemory
  | taken {tuple : T} {node link : Nat} (here : table.pc t = .alloc tuple)
    (alloc : table.storage.pc t = .alloc (.cas node link))
    (head : table.storage.allocator.listNode = node)
    : Effect type table t
        ({ table with
            storage :=
              { table.storage with
                  allocator := { table.storage.allocator with listNode := link }
                  owned := (t, node) :: table.storage.owned }.moveTo t .idle }.goTo t
          (.copy tuple
            (blockAddr table.storage.allocator.start table.storage.allocator.size
              (table.storage.allocator.indexOf node)) 0))
        .pending
  | copy {tuple : T} {pmPage index : Nat} (here : table.pc t = .copy tuple pmPage index)
    (more : index < type.cap)
    : Effect type table t
        ((table.copyTuple type pmPage index ((table.getTlsPage type t).data index)).goTo t
          (.copy tuple pmPage (index + 1)))
        .pending
  | flush {tuple : T} {pmPage index : Nat} (here : table.pc t = .copy tuple pmPage index)
    (done : ¬index < type.cap)
    : Effect type table t
        ((table.setPage t (table.getTlsPage type t).resetIndex).goTo t (.retry tuple))
        (.flushed pmPage)
  | retry {tuple : T} (here : table.pc t = .retry tuple)
    : Effect type table t
        ((table.setPage t ((table.getTlsPage type t).tryInsert type tuple).1).goTo t .idle)
        (.inserted tuple)

/-- Inversion of the step function, by the move and where the thread stands. -/
theorem insertStep_effect (taken : insertStep type table (t, move) = some (next, event))
    : table.Effect type t next event := by
  cases move with
  | insert tuple =>
      cases here : table.pc t with
      | idle =>
          by_cases room : (table.getTlsPage type t).next < type.cap
          · simp only [insertStep, here, PageBuffer.tryInsert, room, ↓reduceIte,
              Option.some.injEq, Prod.mk.injEq] at taken
            obtain ⟨rfl, rfl⟩ := taken
            have effect : table.Effect type t
                (table.setPage t ((table.getTlsPage type t).tryInsert type tuple).1)
                (.inserted tuple) :=
              .insert here room
            simpa only [PageBuffer.tryInsert, room, ↓reduceIte] using effect
          · simp only [insertStep, here, PageBuffer.tryInsert, room, ↓reduceIte,
              Option.some.injEq, Prod.mk.injEq] at taken
            obtain ⟨rfl, rfl⟩ := taken
            exact .full here room
      | alloc | copy | retry | panicked => simp [insertStep, here] at taken
  | advance =>
      cases here : table.pc t with
      | idle | panicked => simp [insertStep, here] at taken
      | alloc tuple =>
          cases alloc : table.storage.pc t with
          | idle | dealloc => simp [insertStep, here, alloc] at taken
          | alloc point =>
              have effect := advanceAlloc_effect table.storage t point
              simp only [insertStep, here, alloc] at taken
              generalize advance : table.storage.advanceAlloc t point = result at taken effect
              cases effect with
              | again fresh =>
                  cases taken
                  exact .again here fresh alloc advance
              | exhausted =>
                  cases taken
                  exact .exhausted here alloc advance
              | taken exchange head =>
                  cases taken
                  exact .taken here (exchange ▸ alloc) head
      | copy tuple pmPage index =>
          by_cases more : index < type.cap
          · simp only [insertStep, here, more, ↓reduceIte, Option.some.injEq, Prod.mk.injEq]
              at taken
            obtain ⟨rfl, rfl⟩ := taken
            exact .copy here more
          · simp only [insertStep, here, more, ↓reduceIte, Option.some.injEq, Prod.mk.injEq]
              at taken
            obtain ⟨rfl, rfl⟩ := taken
            exact .flush here more
      | retry tuple =>
          simp only [insertStep, here, Option.some.injEq, Prod.mk.injEq] at taken
          obtain ⟨rfl, rfl⟩ := taken
          exact .retry here

end Effects

end Alchemy.Table
