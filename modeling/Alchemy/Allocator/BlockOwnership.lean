import Alchemy.Allocator.ArrayAllocator
import Alchemy.Library.Interleaving

/-! Threads sharing one `ArrayAllocator`: who owns which block.
The compare-exchange of `alloc` compares the head only, so it is right exactly when the
link it read from that head is still the one stored there.
-/

namespace Alchemy.Allocator

open IntrusiveList Interleaving

/-- The region `new` is called on, with what its assertions and its safety section ask. -/
structure BlockLayout where
  cap : Nat
  start : Nat
  size : Nat
  holdsNode : 8 ≤ size
  nonnull : 0 < start

inductive OwnerPc
  | idle
  | alloc (point : AllocPc)
  | dealloc (ptr : Nat) (point : DeallocPc)
deriving DecidableEq, Repr

/-- `owned` lists the blocks handed out, with the thread that got them. A block stays in
the list while its owner's `dealloc` is under way.
-/
structure AllocatorState (τ : Type) where
  mem : Memory
  allocator : ArrayAllocator
  owned : List (τ × Nat)
  pc : τ → OwnerPc

inductive AllocatorMove
  | callAlloc
  | callDealloc (ptr : Nat)
  | overwrite (ptr value : Nat)
  | advance (spurious : Bool)
deriving DecidableEq, Repr

inductive AllocatorEvent
  | pending
  | allocated (index : Nat)
  | outOfMemory
  | freed (ptr : Nat)
  | overwritten
deriving DecidableEq, Repr

def BlockLayout.blocks (layout : BlockLayout) : List Nat :=
  Allocator.blocks layout.start layout.size layout.cap

section Machine

variable {τ : Type} [DecidableEq τ]

/-- The state after `new` on a region with arbitrary contents. -/
def BlockLayout.fresh (layout : BlockLayout) (mem : Memory) : AllocatorState τ :=
  let (linked, allocator) := ArrayAllocator.new layout.cap layout.size layout.start mem
  { mem := linked, allocator, owned := [], pc := fun _ => .idle }

def AllocatorState.moveTo (state : AllocatorState τ) (t : τ) (pc : OwnerPc)
    : AllocatorState τ :=
  { state with pc := Function.update state.pc t pc }

/-- One access of the `alloc` that thread `t` has under way. -/
def AllocatorState.advanceAlloc (state : AllocatorState τ) (t : τ) (point : AllocPc)
    : AllocatorState τ × AllocatorEvent :=
  let (allocator, outcome) := state.allocator.allocStep state.mem point
  match outcome with
  | .again next => ({ state with allocator }.moveTo t (.alloc next), .pending)
  | .outOfMemory => ({ state with allocator }.moveTo t .idle, .outOfMemory)
  | .taken node =>
      ({ state with allocator, owned := (t, node) :: state.owned }.moveTo t .idle,
        .allocated (allocator.indexOf node))

/-- One access of the `dealloc(ptr)` that thread `t` has under way. -/
def AllocatorState.advanceDealloc (state : AllocatorState τ) (t : τ) (ptr : Nat)
    (spurious : Bool) (point : DeallocPc)
    : AllocatorState τ × AllocatorEvent :=
  let (mem, allocator, outcome) :=
    state.allocator.deallocStep state.mem ptr spurious point
  match outcome with
  | some next => ({ state with mem, allocator }.moveTo t (.dealloc ptr next), .pending)
  | none =>
      ({ state with mem, allocator, owned := state.owned.erase (t, ptr) }.moveTo t .idle,
        .freed ptr)

/-- One move of one thread. Only the owner deallocates or overwrites a block, and only
between its calls.
-/
def allocatorStep (state : AllocatorState τ) (action : τ × AllocatorMove)
    : Option (AllocatorState τ × AllocatorEvent) :=
  let t := action.1
  match action.2, state.pc t with
  | .callAlloc, .idle => some (state.moveTo t (.alloc .load), .pending)
  | .callDealloc ptr, .idle =>
      if (t, ptr) ∈ state.owned then
        some (state.moveTo t (.dealloc ptr .load), .pending)
      else
        none
  | .overwrite ptr value, .idle =>
      if (t, ptr) ∈ state.owned then
        some ({ state with mem := Function.update state.mem ptr value }, .overwritten)
      else
        none
  | .advance _, .alloc point => some (state.advanceAlloc t point)
  | .advance spurious, .dealloc ptr point =>
      some (state.advanceDealloc t ptr spurious point)
  | _, _ => none

end Machine

section Ownership

variable {τ : Type} [DecidableEq τ] {layout : BlockLayout} {state next : AllocatorState τ}
  {t : τ} {event : AllocatorEvent}

/-- What thread `t` may rely on between two of its steps. -/
def AllocatorState.Ready (state : AllocatorState τ) (t : τ) : OwnerPc → Prop
  | .idle => True
  | .alloc .load => True
  | .alloc (.next node) => node ≠ 0
  | .alloc (.cas node _) => node ≠ 0
  | .dealloc ptr .load => (t, ptr) ∈ state.owned
  | .dealloc ptr (.write _) => (t, ptr) ∈ state.owned
  | .dealloc ptr (.cas link) => (t, ptr) ∈ state.owned ∧ state.mem ptr = link

/-- Everything a step of thread `t` can do. -/
inductive AllocatorState.Effect (state : AllocatorState τ) (t : τ)
    : AllocatorState τ → AllocatorEvent → Prop
  | move {pc event} (ready : state.Ready t pc) (quiet : ∀ index, event ≠ .allocated index)
    (notPop : ∀ node link, state.pc t = .alloc (.cas node link)
      → state.allocator.listNode ≠ node)
    : Effect state t (state.moveTo t pc) event
  | overwrite {ptr value} (idle : state.pc t = .idle) (owns : (t, ptr) ∈ state.owned)
    : Effect state t { state with mem := Function.update state.mem ptr value } .overwritten
  | link {ptr link} (here : state.pc t = .dealloc ptr (.write link))
    (owns : (t, ptr) ∈ state.owned)
    : Effect state t
        ({ state with mem := Function.update state.mem ptr link }.moveTo t
          (.dealloc ptr (.cas link)))
        .pending
  | pop {node link} (here : state.pc t = .alloc (.cas node link))
    (head : state.allocator.listNode = node) (nonnull : node ≠ 0)
    : Effect state t
        ({ state with
            allocator := { state.allocator with listNode := link }
            owned := (t, node) :: state.owned }.moveTo t .idle)
        (.allocated (state.allocator.indexOf node))
  | push {ptr link} (here : state.pc t = .dealloc ptr (.cas link))
    (owns : (t, ptr) ∈ state.owned) (linked : state.mem ptr = link)
    (head : state.allocator.listNode = link)
    : Effect state t
        ({ state with
            allocator := { state.allocator with listNode := ptr }
            owned := state.owned.erase (t, ptr) }.moveTo t .idle)
        (.freed ptr)

/-- The null check either leaves the loop or goes on with a nonnull node. -/
theorem AllocatorState.checkNode_effect {point : AllocPc} {head : Nat}
    (notPop : ∀ node link, state.pc t = .alloc (.cas node link)
      → state.allocator.listNode ≠ node)
    (check : state.allocator.allocStep state.mem point = (state.allocator, checkNode head))
    : state.Effect t (state.advanceAlloc t point).1 (state.advanceAlloc t point).2 := by
  unfold AllocatorState.advanceAlloc checkNode at *
  by_cases null : head = 0
  · simp only [check, null, ↓reduceIte]
    exact .move trivial (by simp) notPop
  · simp only [check, null, ↓reduceIte]
    exact .move null (by simp) notPop

theorem AllocatorState.advanceAlloc_effect {point : AllocPc} (here : state.pc t = .alloc point)
    (ready : state.Ready t (.alloc point))
    : state.Effect t (state.advanceAlloc t point).1 (state.advanceAlloc t point).2 := by
  cases point with
  | load => exact checkNode_effect (by simp [here]) rfl
  | next node => exact .move ready (fun _ => nofun) (by simp [here])
  | cas node link =>
      by_cases head : state.allocator.listNode = node
      · simp only [AllocatorState.advanceAlloc, ArrayAllocator.allocStep, head, ↓reduceIte]
        exact .pop here head ready
      · refine checkNode_effect ?_ (if_neg head)
        intro node' link' there
        obtain ⟨rfl, rfl⟩ : node = node' ∧ link = link' := by simpa [here] using there
        exact head

theorem AllocatorState.advanceDealloc_effect {ptr : Nat} {point : DeallocPc} (spurious : Bool)
    (here : state.pc t = .dealloc ptr point) (ready : state.Ready t (.dealloc ptr point))
    : state.Effect t (state.advanceDealloc t ptr spurious point).1
        (state.advanceDealloc t ptr spurious point).2 := by
  cases point with
  | load => exact .move ready (fun _ => nofun) (by simp [here])
  | write link => exact .link here ready
  | cas link =>
      unfold AllocatorState.advanceDealloc ArrayAllocator.deallocStep
      by_cases won : state.allocator.listNode = link ∧ spurious = false
      · simp only [won, and_self, ↓reduceIte]
        exact .push here ready.1 ready.2 won.1
      · simp only [won, ↓reduceIte]
        exact .move ready.1 (by simp) (by simp [here])

/-- Inversion of the step function, by the move and where the thread stands. -/
theorem allocatorStep_effect {move : AllocatorMove} (ready : state.Ready t (state.pc t))
    (taken : allocatorStep state (t, move) = some (next, event))
    : state.Effect t next event := by
  cases move with
  | callAlloc =>
      cases here : state.pc t with
      | idle =>
          simp only [allocatorStep, here, Option.some.injEq, Prod.mk.injEq] at taken
          obtain ⟨rfl, rfl⟩ := taken
          exact .move trivial (by simp) (by simp [here])
      | alloc point => simp [allocatorStep, here] at taken
      | dealloc ptr point => simp [allocatorStep, here] at taken
  | callDealloc ptr =>
      cases here : state.pc t with
      | idle =>
          simp only [allocatorStep, here, guarded_eq_some] at taken
          obtain ⟨owns, rfl, rfl⟩ := taken
          exact .move owns (by simp) (by simp [here])
      | alloc point => simp [allocatorStep, here] at taken
      | dealloc ptr point => simp [allocatorStep, here] at taken
  | overwrite ptr value =>
      cases here : state.pc t with
      | idle =>
          simp only [allocatorStep, here, guarded_eq_some] at taken
          obtain ⟨owns, rfl, rfl⟩ := taken
          exact .overwrite here owns
      | alloc point => simp [allocatorStep, here] at taken
      | dealloc ptr point => simp [allocatorStep, here] at taken
  | advance spurious =>
      cases here : state.pc t with
      | idle => simp [allocatorStep, here] at taken
      | alloc point =>
          simp only [allocatorStep, here, Option.some.injEq] at taken
          rw [here] at ready
          simpa only [taken] using AllocatorState.advanceAlloc_effect here ready
      | dealloc ptr point =>
          simp only [allocatorStep, here, Option.some.injEq] at taken
          rw [here] at ready
          simpa only [taken] using AllocatorState.advanceDealloc_effect spurious here ready

/-! ### Each block is owned once or free once -/

/-- The free list is null-terminated, and it and the owners' blocks together are the blocks
of the region. The region lists distinct addresses, so no block occurs twice.
-/
def AllocatorState.Partitioned (layout : BlockLayout) (state : AllocatorState τ) : Prop :=
  ∃ free,
    Linked state.mem state.allocator.listNode free
    ∧ (free ++ state.owned.map Prod.snd).Perm layout.blocks

/-- An index that `alloc` returns is in range and names a block that was free. -/
def GrantsFree (layout : BlockLayout) (state : AllocatorState τ) (_ : τ × AllocatorMove)
    (event : AllocatorEvent) (_ : AllocatorState τ)
    : Prop :=
  ∀ index, event = .allocated index
    → index < layout.cap
      ∧ ∃ free, Linked state.mem state.allocator.listNode free
        ∧ blockAddr layout.start layout.size index ∈ free

/-- A compare-exchange of `alloc` that finds its head finds the link of that head unchanged
since `alloc` read it.
-/
def FreshPop (state : AllocatorState τ) (action : τ × AllocatorMove) (_ : AllocatorEvent)
    (_ : AllocatorState τ)
    : Prop :=
  ∀ node link, state.pc action.1 = .alloc (.cas node link)
    → state.allocator.listNode = node
    → state.mem node = link

theorem BlockLayout.positive (layout : BlockLayout) : 0 < layout.size :=
  Nat.lt_of_lt_of_le (by decide) layout.holdsNode

omit [DecidableEq τ] in
/-- No block is on the free list or in the owners' list twice, nor in both. -/
theorem AllocatorState.Partitioned.nodup (parts : state.Partitioned layout)
    : ∃ free, Linked state.mem state.allocator.listNode free
      ∧ (free ++ state.owned.map Prod.snd).Perm layout.blocks
      ∧ (state.owned.map Prod.snd).Nodup
      ∧ ∀ owner ptr, (owner, ptr) ∈ state.owned → ptr ∉ free ∧ ptr ≠ 0 := by
  obtain ⟨free, linked, perm⟩ := parts
  have distinct := perm.nodup_iff.mpr (blocks_nodup layout.positive)
  refine ⟨free, linked, perm, distinct.of_append_right, ?_⟩
  intro owner ptr owns
  have listed : ptr ∈ state.owned.map Prod.snd := List.mem_map_of_mem owns
  constructor
  · intro isFree
    exact List.disjoint_of_nodup_append distinct isFree listed
  · have block := perm.mem_iff.mp (List.mem_append_right free listed)
    obtain ⟨index, _, rfl⟩ := mem_blocks.mp block
    exact blockAddr_nonnull layout.nonnull

/-- A step of another thread leaves a block and its owner alone. -/
theorem AllocatorState.Effect.keeps_other {u : τ} {ptr : Nat} (effect : state.Effect t next event)
    (distinct : (state.owned.map Prod.snd).Nodup) (other : u ≠ t)
    (owns : (u, ptr) ∈ state.owned)
    : (u, ptr) ∈ next.owned ∧ next.mem ptr = state.mem ptr := by
  have apart {mine : Nat} (held : (t, mine) ∈ state.owned) : ptr ≠ mine := by
    rintro rfl
    have same := List.inj_on_of_nodup_map distinct owns held rfl
    exact other (congrArg Prod.fst same)
  cases effect with
  | move => exact ⟨owns, rfl⟩
  | overwrite _ held => exact ⟨owns, Function.update_of_ne (apart held) _ _⟩
  | link _ held => exact ⟨owns, Function.update_of_ne (apart held) _ _⟩
  | pop => exact ⟨List.mem_cons_of_mem _ owns, rfl⟩
  | push _ held =>
      refine ⟨(List.mem_erase_of_ne ?_).mpr owns, rfl⟩
      intro same
      exact other (congrArg Prod.fst same)

/-- Every thread's reliance survives a step, its own and the others'. -/
theorem AllocatorState.Effect.ready {u : τ} (effect : state.Effect t next event)
    (parts : state.Partitioned layout) (ready : state.Ready u (state.pc u))
    : next.Ready u (next.pc u) := by
  obtain ⟨_, _, _, distinct, _⟩ := parts.nodup
  by_cases mover : u = t
  · subst mover
    cases effect with
    | move ready => simpa [AllocatorState.moveTo, AllocatorState.Ready] using ready
    | overwrite idle => simp [idle, AllocatorState.Ready]
    | link here owns => simpa [AllocatorState.moveTo, AllocatorState.Ready] using owns
    | pop => simp [AllocatorState.moveTo, AllocatorState.Ready]
    | push => simp [AllocatorState.moveTo, AllocatorState.Ready]
  · have same : next.pc u = state.pc u := by
      cases effect <;> simp [AllocatorState.moveTo, mover]
    rw [same]
    cases here : state.pc u with
    | idle => trivial
    | alloc point =>
        rw [here] at ready
        cases point <;> exact ready
    | dealloc ptr point =>
        rw [here] at ready
        cases point with
        | load => exact (effect.keeps_other distinct mover ready).1
        | write link => exact (effect.keeps_other distinct mover ready).1
        | cas link =>
            obtain ⟨owns, mem⟩ := effect.keeps_other distinct mover ready.1
            exact ⟨owns, mem.trans ready.2⟩

omit [DecidableEq τ] in
/-- Popping a head whose link was read afresh hands over one free block. -/
theorem AllocatorState.Partitioned.pop {node link : Nat} (parts : state.Partitioned layout)
    (head : state.allocator.listNode = node) (nonnull : node ≠ 0)
    (fresh : state.mem node = link)
    : ∃ rest, Linked state.mem state.allocator.listNode (node :: rest)
      ∧ Linked state.mem link rest
      ∧ (rest ++ node :: state.owned.map Prod.snd).Perm layout.blocks := by
  obtain ⟨free, linked, perm⟩ := parts
  obtain ⟨rest, rfl, below⟩ := linked.head_cons (head ▸ nonnull)
  rw [head] at linked below perm
  exact ⟨rest, head ▸ linked, fresh ▸ below, List.perm_middle.trans perm⟩

/-- The partition survives every step but a stale pop. -/
theorem AllocatorState.Effect.partitioned (effect : state.Effect t next event)
    (parts : state.Partitioned layout)
    (fresh : ∀ node link, state.pc t = .alloc (.cas node link)
      → state.allocator.listNode = node → state.mem node = link)
    : next.Partitioned layout := by
  obtain ⟨free, linked, perm, _, outside⟩ := parts.nodup
  cases effect with
  | move => exact ⟨free, linked, perm⟩
  | overwrite _ owns => exact ⟨free, linked.update (outside _ _ owns).1, perm⟩
  | link _ owns => exact ⟨free, linked.update (outside _ _ owns).1, perm⟩
  | pop here head nonnull =>
      obtain ⟨rest, _, below, handed⟩ := parts.pop head nonnull (fresh _ _ here head)
      exact ⟨rest, below, handed⟩
  | @push ptr link here owns linkedTo head =>
      refine ⟨ptr :: free, ⟨rfl, (outside _ _ owns).2, ?_⟩, ?_⟩
      · simpa only [AllocatorState.moveTo, linkedTo, ← head] using linked
      · have returned := (List.perm_cons_erase owns).map Prod.snd
        refine List.Perm.trans ?_ perm
        refine List.perm_middle.symm.trans (List.Perm.append_left free ?_)
        exact returned.symm

omit [DecidableEq τ] in
/-- Two partitions around a pop force its link to be the one stored in the block. -/
theorem AllocatorState.Partitioned.pop_fresh {node link : Nat}
    (parts : state.Partitioned layout) (head : state.allocator.listNode = node)
    (nonnull : node ≠ 0) {free : List Nat} (after : Linked state.mem link free)
    (perm : (free ++ node :: state.owned.map Prod.snd).Perm layout.blocks)
    : state.mem node = link := by
  obtain ⟨rest, _, below, handed⟩ := parts.pop head nonnull rfl
  have same := (List.perm_append_right_iff _).mp (perm.trans handed.symm)
  exact (below.perm_head after same).symm

/-- What holds besides the partition: every thread's reliance, and the fixed region. -/
structure AllocatorState.Consistent (layout : BlockLayout) (state : AllocatorState τ) : Prop where
  ready : ∀ t, state.Ready t (state.pc t)
  start : state.allocator.start = layout.start
  size : state.allocator.size = layout.size

omit [DecidableEq τ] in
theorem BlockLayout.fresh_consistent (layout : BlockLayout) (mem : Memory)
    : (layout.fresh mem : AllocatorState τ).Consistent layout where
  ready _ := trivial
  start := rfl
  size := rfl

omit [DecidableEq τ] in
theorem BlockLayout.fresh_partitioned (layout : BlockLayout) (mem : Memory)
    : (layout.fresh mem : AllocatorState τ).Partitioned layout := by
  refine ⟨layout.blocks.reverse, threadBlocks_linked layout.positive layout.nonnull, ?_⟩
  simp [BlockLayout.fresh, List.reverse_perm]

theorem AllocatorState.Consistent.step (consistent : state.Consistent layout)
    (parts : state.Partitioned layout) (effect : state.Effect t next event)
    : next.Consistent layout where
  ready u := effect.ready parts (consistent.ready u)
  start := by cases effect <;> exact consistent.start
  size := by cases effect <;> exact consistent.size

/-- From a partition, every index granted is that of the first free block. -/
theorem AllocatorState.Consistent.grantsFree {move : AllocatorMove}
    (consistent : state.Consistent layout) (parts : state.Partitioned layout)
    (effect : state.Effect t next event)
    : GrantsFree layout state (t, move) event next := by
  intro index granted
  cases effect with
  | move _ quiet => exact absurd granted (quiet index)
  | overwrite => simp at granted
  | link => simp at granted
  | push => simp at granted
  | @pop node link here head nonnull =>
      obtain ⟨free, linked, perm⟩ := parts
      obtain ⟨rest, rfl, _⟩ := linked.head_cons (head ▸ nonnull)
      have block : node ∈ layout.blocks := perm.mem_iff.mp (by simp [head])
      obtain ⟨position, inRange, rfl⟩ := mem_blocks.mp block
      have same : position = index := by
        have indexed := AllocatorEvent.allocated.inj granted
        rwa [← consistent.start, ← consistent.size,
          indexOf_blockAddr (consistent.size ▸ layout.positive)] at indexed
      subst same
      exact ⟨inRange, _, linked, by simp [head]⟩

/-- A partition before and after a step makes its pop, if it is one, a fresh one. -/
theorem AllocatorState.Effect.freshPop {move : AllocatorMove} (effect : state.Effect t next event)
    (before : state.Partitioned layout) (after : next.Partitioned layout)
    : FreshPop state (t, move) event next := by
  intro node link there headIs
  cases effect with
  | move _ _ notPop => exact absurd headIs (notPop node link there)
  | overwrite idle => simp [idle] at there
  | link here => simp [here] at there
  | push here => simp [here] at there
  | pop here _ nonnull =>
      obtain ⟨rfl, rfl⟩ : _ = node ∧ _ = link := by simpa [here] using there
      obtain ⟨free, linked, perm⟩ := after
      exact before.pop_fresh headIs nonnull linked perm

variable {mem : Memory} {trace : List ((τ × AllocatorMove) × AllocatorEvent)}

/-- Along a run that keeps the partition, every state is consistent, every grant is of a
free block and every pop is fresh. Witness: induction on the run.
-/
theorem partitioned_run (run : Run allocatorStep (layout.fresh mem) trace state)
    (parts : Throughout allocatorStep (layout.fresh mem) trace (·.Partitioned layout))
    : state.Consistent layout
      ∧ Along allocatorStep (layout.fresh mem) trace (GrantsFree layout)
      ∧ Along allocatorStep (layout.fresh mem) trace FreshPop := by
  induction run with
  | start => exact ⟨layout.fresh_consistent mem, along_nil, along_nil⟩
  | @extend past before action _ _ earlier taken ih =>
      obtain ⟨pastParts, after⟩ := (throughout_extend earlier taken).mp parts
      obtain ⟨consistent, grants, pops⟩ := ih pastParts
      have here : before.Partitioned layout := pastParts past [] before (by simp) earlier
      have effect := allocatorStep_effect (consistent.ready action.1) taken
      refine ⟨consistent.step here effect, ?_, ?_⟩
      · exact (along_extend earlier taken).mpr ⟨grants, consistent.grantsFree here effect⟩
      · exact (along_extend earlier taken).mpr ⟨pops, effect.freshPop here after⟩

/-- Along a run whose pops are all fresh the partition holds in every state. -/
theorem partitioned_of_freshPop (run : Run allocatorStep (layout.fresh mem) trace state)
    (pops : Along allocatorStep (layout.fresh mem) trace FreshPop)
    : Throughout allocatorStep (layout.fresh mem) trace (·.Partitioned layout) := by
  induction run with
  | start => exact throughout_nil.mpr (layout.fresh_partitioned mem)
  | @extend past before action _ _ earlier taken ih =>
      obtain ⟨pastPops, fresh⟩ := (along_extend earlier taken).mp pops
      have parts := ih pastPops
      have effect :=
        allocatorStep_effect ((partitioned_run earlier parts).1.ready action.1) taken
      refine (throughout_extend earlier taken).mpr ⟨parts, ?_⟩
      exact effect.partitioned (parts past [] before (by simp) earlier) fresh

/-- No block is handed out twice in a run exactly when every successful compare-exchange of
`alloc` still finds, in the head it removes, the link it read there.
-/
theorem arrayAllocator_partitioned_iff (layout : BlockLayout) (mem : Memory)
    (run : Run allocatorStep (layout.fresh mem) trace state)
    : (Throughout allocatorStep (layout.fresh mem) trace (·.Partitioned layout)
        ∧ Along allocatorStep (layout.fresh mem) trace (GrantsFree layout))
      ↔ Along allocatorStep (layout.fresh mem) trace FreshPop := by
  constructor
  · rintro ⟨parts, _⟩
    exact (partitioned_run run parts).2.2
  · intro pops
    have parts := partitioned_of_freshPop run pops
    exact ⟨parts, (partitioned_run run parts).2.1⟩

end Ownership

/-! ### A stale pop -/

/-- Two blocks of eight bytes. -/
def twoBlocks : BlockLayout where
  cap := 2
  start := 64
  size := 8
  holdsNode := by decide
  nonnull := by decide

def advances (thread : Bool) (count : Nat) : List (Bool × AllocatorMove) :=
  List.replicate count (thread, .advance false)

/-- One thread reads head 72 and its link 64 and is stopped; the other takes both blocks
and returns 72, so that the first one's exchange succeeds and puts 64 back on the list.
-/
def staleAlloc : List (Bool × AllocatorMove) :=
  (true, .callAlloc) :: advances true 2
    ++ (false, .callAlloc) :: advances false 3
    ++ (false, .callAlloc) :: advances false 3
    ++ (false, .callDealloc 72) :: advances false 3
    ++ advances true 1
    ++ (true, .callAlloc) :: advances true 3

theorem staleAlloc_owned
    : ∃ trace state,
        Run allocatorStep (twoBlocks.fresh (fun _ => 0) : AllocatorState Bool) trace state
        ∧ state.owned = [(true, 64), (true, 72), (false, 64)] := by
  obtain ⟨trace, state, run, twice⟩ := exec_reaches
    (fun result : AllocatorState Bool × List ((Bool × AllocatorMove) × AllocatorEvent) =>
      decide (result.1.owned = [(true, 64), (true, 72), (false, 64)]))
    (by decide
      : (exec allocatorStep (twoBlocks.fresh (fun _ => 0)) staleAlloc).any _ = true)
  exact ⟨trace, state, run, of_decide_eq_true twice⟩

/-- After the stale pop the next `alloc` returns index 0 to one thread while the other
still owns that block.
-/
theorem alloc_hands_out_block_twice
    : ¬ ∀ (layout : BlockLayout) (mem : Memory)
        (trace : List ((Bool × AllocatorMove) × AllocatorEvent)) (state : AllocatorState Bool),
        Run allocatorStep (layout.fresh mem) trace state → state.Partitioned layout := by
  intro all
  obtain ⟨trace, state, run, owned⟩ := staleAlloc_owned
  obtain ⟨_, _, _, distinct, _⟩ := (all twoBlocks _ trace state run).nodup
  simp [owned] at distinct

/-- The same run seen from the equivalence: it owns a block twice, so some pop was stale. -/
theorem arrayAllocator_partitioned_iff_stale
    : ∃ trace state,
        Run allocatorStep (twoBlocks.fresh (fun _ => 0) : AllocatorState Bool) trace state
        ∧ state.owned = [(true, 64), (true, 72), (false, 64)]
        ∧ ¬ Along allocatorStep (twoBlocks.fresh (fun _ => 0)) trace FreshPop := by
  obtain ⟨trace, state, run, owned⟩ := staleAlloc_owned
  refine ⟨trace, state, run, owned, ?_⟩
  intro pops
  have parts := ((arrayAllocator_partitioned_iff twoBlocks _ run).mpr pops).1
  obtain ⟨_, _, _, distinct, _⟩ := (parts trace [] state (by simp) run).nodup
  simp [owned] at distinct

end Alchemy.Allocator
