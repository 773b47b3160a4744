import Alchemy.Table.InsertonlyTable

/-! What an `InsertonlyTable` keeps: the flushed pages of a thread and its buffer hold the tuples
it has inserted. Pages are never returned to the allocator, so a link read from a page that is
still free is the link there, and no two threads get one page.
-/

namespace Alchemy.Table

open Allocator Interleaving IntrusiveList

variable {τ T : Type} [DecidableEq τ]

section Accounts

variable {type : TupleType T} {layout : BlockLayout} {table next : InsertonlyTable τ T} {t : τ}
  {event : InsertEvent T} {trace : List ((τ × InsertMove T) × InsertEvent T)}

/-- The tuples that a thread has inserted, in order. -/
def insertedBy (t : τ) (trace : List ((τ × InsertMove T) × InsertEvent T)) : List T :=
  trace.filterMap (fun entry =>
    match entry.2 with
    | .inserted tuple => if entry.1.1 = t then some tuple else none
    | _ => none)

/-- The pages that threads have flushed, in order. -/
def flushes (trace : List ((τ × InsertMove T) × InsertEvent T)) : List (τ × Nat) :=
  trace.filterMap (fun entry =>
    match entry.2 with
    | .flushed pmPage => some (entry.1.1, pmPage)
    | _ => none)

/-- The pages that one thread has flushed. -/
def flushedBy (t : τ) (trace : List ((τ × InsertMove T) × InsertEvent T)) : List Nat :=
  ((flushes trace).filter (fun entry => decide (entry.1 = t))).map Prod.snd

theorem insertedBy_append (t : τ) (trace more : List ((τ × InsertMove T) × InsertEvent T))
    : insertedBy t (trace ++ more) = insertedBy t trace ++ insertedBy t more :=
  List.filterMap_append

omit [DecidableEq τ] in
theorem flushes_append (trace more : List ((τ × InsertMove T) × InsertEvent T))
    : flushes (trace ++ more) = flushes trace ++ flushes more :=
  List.filterMap_append

namespace InsertonlyTable

/-- The tuples on a persistent page. -/
def pageTuples (table : InsertonlyTable τ T) (type : TupleType T) (pmPage : Nat) : List T :=
  (List.range type.cap).map (table.pages pmPage)

/-- The tuples in the buffer of a thread. -/
def buffered (table : InsertonlyTable τ T) (t : τ) : List T :=
  ((table.tlsPages t).map PageBuffer.tuples).getD []

/-- All tuples that a thread has on its flushed pages and in its buffer. -/
def stored (table : InsertonlyTable τ T) (type : TupleType T) (t : τ)
    (trace : List ((τ × InsertMove T) × InsertEvent T))
    : List T :=
  (flushedBy t trace).flatMap (table.pageTuples type) ++ table.buffered t

/-- What thread `t` may rely on between two of its steps. -/
def Stands (type : TupleType T) (table : InsertonlyTable τ T) (t : τ) : InsertPc T → Prop
  | .idle | .panicked => table.storage.pc t = .idle
  | .alloc _ =>
      (∃ point, table.storage.pc t = .alloc point)
      ∧ (table.getTlsPage type t).next = type.cap
  | .copy _ pmPage index =>
      table.storage.pc t = .idle
      ∧ (table.getTlsPage type t).next = type.cap
      ∧ (t, pmPage) ∈ table.storage.owned
      ∧ index ≤ type.cap
      ∧ ∀ slot < index, table.pages pmPage slot = (table.getTlsPage type t).data slot
  | .retry _ => table.storage.pc t = .idle ∧ (table.getTlsPage type t).next = 0

/-- The state after a run with this trace. -/
structure Sound (layout : BlockLayout) (type : TupleType T)
    (trace : List ((τ × InsertMove T) × InsertEvent T)) (table : InsertonlyTable τ T)
    : Prop where
  parts : table.storage.Partitioned layout
  consistent : table.storage.Consistent layout
  /-- A link read from a free page is the link there, since pages are not returned. -/
  links : ∀ t node link, table.storage.pc t = .alloc (.cas node link)
    → node ∉ table.storage.owned.map Prod.snd → table.storage.mem node = link
  bounded : ∀ t, (table.getTlsPage type t).next ≤ type.cap
  stands : ∀ t, table.Stands type t (table.pc t)
  owned : ∀ entry ∈ flushes trace, entry ∈ table.storage.owned
  unflushed : ∀ t tuple pmPage index, table.pc t = .copy tuple pmPage index
    → (t, pmPage) ∉ flushes trace
  distinct : (flushes trace).Nodup
  kept : ∀ t, table.stored type t trace = insertedBy t trace

/-- A page has one owner. -/
theorem Sound.owner_unique (sound : table.Sound layout type trace) {first second : τ × Nat}
    (member : first ∈ table.storage.owned) (member' : second ∈ table.storage.owned)
    (same : first.2 = second.2)
    : first = second := by
  obtain ⟨_, _, _, distinct, _⟩ := sound.parts.nodup
  exact List.inj_on_of_nodup_map distinct member member' same

/-- The page that a successful exchange takes is the first free one. -/
theorem Sound.head_block (sound : table.Sound layout type trace) {node link : Nat}
    (alloc : table.storage.pc t = .alloc (.cas node link))
    (head : table.storage.allocator.listNode = node)
    : node ∈ layout.blocks ∧ node ∉ table.storage.owned.map Prod.snd := by
  have nonnull : node ≠ 0 := by
    have ready := sound.consistent.ready t
    rwa [alloc] at ready
  obtain ⟨free, linked, perm, _, outside⟩ := sound.parts.nodup
  obtain ⟨rest, rfl, _⟩ := linked.head_cons (head ▸ nonnull)
  refine ⟨perm.mem_iff.mp (by simp [head]), ?_⟩
  intro member
  obtain ⟨entry, owned, rfl⟩ := List.mem_map.mp member
  exact (outside entry.1 entry.2 owned).1 (by simp [head])

/-- The first free page still has the link that was read there. -/
theorem Sound.freshPop (sound : table.Sound layout type trace) {node link : Nat}
    (alloc : table.storage.pc t = .alloc (.cas node link))
    (head : table.storage.allocator.listNode = node)
    : table.storage.mem node = link := by
  exact sound.links t node link alloc (sound.head_block alloc head).2

/-- The index that `alloc` computes leads back to the page. -/
theorem Sound.address_of_head (sound : table.Sound layout type trace) {node link : Nat}
    (alloc : table.storage.pc t = .alloc (.cas node link))
    (head : table.storage.allocator.listNode = node)
    : blockAddr table.storage.allocator.start table.storage.allocator.size
        (table.storage.allocator.indexOf node)
      = node := by
  obtain ⟨position, _, rfl⟩ := mem_blocks.mp (sound.head_block alloc head).1
  rw [← sound.consistent.start, ← sound.consistent.size,
    indexOf_blockAddr (sound.consistent.size ▸ layout.positive)]

/-- The allocator moves as one of its own, or not at all. -/
theorem Effect.storage (effect : table.Effect type t next event)
    (sound : table.Sound layout type trace)
    : next.storage = table.storage ∨ ∃ inner, table.storage.Effect t next.storage inner := by
  have stands := sound.stands t
  have ready := sound.consistent.ready t
  cases effect with
  | insert | flush | retry => exact .inl rfl
  | full here =>
      rw [here] at stands
      have idle : table.storage.pc t = .idle := stands
      exact .inr ⟨.pending, .move trivial (by simp) (by simp [idle])⟩
  | again here fresh alloc advance =>
      rw [alloc] at ready
      have inner := AllocatorState.advanceAlloc_effect alloc ready
      rw [advance] at inner
      exact .inr ⟨_, inner⟩
  | exhausted here alloc advance =>
      rw [alloc] at ready
      have inner := AllocatorState.advanceAlloc_effect alloc ready
      rw [advance] at inner
      exact .inr ⟨_, inner⟩
  | taken here alloc head =>
      rw [alloc] at ready
      exact .inr ⟨_, .pop alloc head ready⟩
  | copy here =>
      rw [here] at stands
      exact .inr ⟨.overwritten, .overwrite stands.1 stands.2.2.1⟩

theorem Effect.owned_mono (effect : table.Effect type t next event) {entry : τ × Nat}
    (member : entry ∈ table.storage.owned)
    : entry ∈ next.storage.owned := by
  cases effect with
  | taken => exact List.mem_cons_of_mem _ member
  | _ => exact member

/-- A step leaves the pages that are owned by others, or flushed, as they are. -/
theorem Effect.pages_kept (effect : table.Effect type t next event)
    (sound : table.Sound layout type trace) {entry : τ × Nat}
    (owns : entry ∈ table.storage.owned) (safe : entry.1 ≠ t ∨ entry ∈ flushes trace)
    : next.pages entry.2 = table.pages entry.2 := by
  have stands := sound.stands t
  cases effect with
  | @copy tuple pmPage index here =>
      rw [here] at stands
      refine Function.update_of_ne ?_ _ _
      intro same
      have mine : entry = (t, pmPage) := sound.owner_unique owns stands.2.2.1 same
      rcases safe with other | flushed
      · exact other (congrArg Prod.fst mine)
      · rw [mine] at flushed
        exact sound.unflushed t tuple pmPage index here flushed
  | _ => rfl

theorem Effect.parts (effect : table.Effect type t next event)
    (sound : table.Sound layout type trace)
    : next.storage.Partitioned layout ∧ next.storage.Consistent layout := by
  rcases effect.storage sound with same | ⟨inner, moved⟩
  · rw [same]
    exact ⟨sound.parts, sound.consistent⟩
  · refine ⟨moved.partitioned sound.parts ?_, sound.consistent.step sound.parts moved⟩
    intro node link alloc head
    exact sound.freshPop alloc head

/-- A step of one thread is not seen in the local data of another. -/
theorem Effect.others (effect : table.Effect type t next event) {u : τ} (other : u ≠ t)
    : next.pc u = table.pc u
      ∧ next.storage.pc u = table.storage.pc u
      ∧ next.tlsPages u = table.tlsPages u := by
  cases effect <;>
    simp [goTo, setPage, copyTuple, AllocatorState.moveTo, other]

/-- Free pages are not written to. -/
theorem Effect.mem_free (effect : table.Effect type t next event)
    (sound : table.Sound layout type trace) {node : Nat}
    (free : node ∉ table.storage.owned.map Prod.snd)
    : next.storage.mem node = table.storage.mem node := by
  have stands := sound.stands t
  cases effect with
  | copy here =>
      rw [here] at stands
      refine Function.update_of_ne ?_ _ _
      rintro rfl
      exact free (List.mem_map_of_mem stands.2.2.1)
  | _ => rfl

theorem Effect.links (effect : table.Effect type t next event)
    (sound : table.Sound layout type trace) (u : τ) (node link : Nat)
    (alloc : next.storage.pc u = .alloc (.cas node link))
    (free : node ∉ next.storage.owned.map Prod.snd)
    : next.storage.mem node = link := by
  have before : node ∉ table.storage.owned.map Prod.snd := by
    intro member
    obtain ⟨entry, owned, rfl⟩ := List.mem_map.mp member
    exact free (List.mem_map_of_mem (effect.owned_mono owned))
  rw [effect.mem_free sound before]
  by_cases mover : u = t
  · subst mover
    cases effect with
    | insert | flush | retry | copy => exact sound.links u node link alloc before
    | again here fresh => exact fresh node link (by simpa [AllocatorState.moveTo] using alloc)
    | full | exhausted | taken => simp [goTo, setPage, AllocatorState.moveTo] at alloc
  · rw [(effect.others mover).2.1] at alloc
    exact sound.links u node link alloc before

omit [DecidableEq τ] in
theorem getTlsPage_congr (type : TupleType T) {other : InsertonlyTable τ T} {u : τ}
    (same : other.tlsPages u = table.tlsPages u)
    : other.getTlsPage type u = table.getTlsPage type u := by
  rw [getTlsPage, getTlsPage, same]

theorem tryInsert_le {page : PageBuffer T} (bounded : page.next ≤ type.cap) (tuple : T)
    : (page.tryInsert type tuple).1.next ≤ type.cap := by
  unfold PageBuffer.tryInsert
  split
  · assumption
  · exact bounded

theorem Effect.bounded (effect : table.Effect type t next event)
    (sound : table.Sound layout type trace) (u : τ)
    : (next.getTlsPage type u).next ≤ type.cap := by
  by_cases mover : u = t
  · subst mover
    have before := sound.bounded u
    cases effect with
    | insert | retry => simpa [getTlsPage, setPage, goTo] using tryInsert_le before _
    | flush => simp [getTlsPage, setPage, goTo, PageBuffer.resetIndex]
    | full => simpa [getTlsPage, setPage, goTo] using before
    | again | exhausted | taken | copy => exact before
  · rw [getTlsPage_congr type (effect.others mover).2.2]
    exact sound.bounded u

/-- What a thread relies on survives the steps of others. -/
theorem Effect.stands_other (effect : table.Effect type t next event)
    (sound : table.Sound layout type trace) {u : τ} (other : u ≠ t)
    : next.Stands type u (next.pc u) := by
  obtain ⟨samePc, sameStorage, samePage⟩ := effect.others other
  have stands := sound.stands u
  have page := getTlsPage_congr type samePage
  rw [samePc]
  cases here : table.pc u with
  | idle | panicked =>
      rw [here] at stands
      exact sameStorage.trans stands
  | alloc tuple =>
      rw [here] at stands
      obtain ⟨⟨point, alloc⟩, full⟩ := stands
      exact ⟨⟨point, sameStorage.trans alloc⟩, by rw [page, full]⟩
  | retry tuple =>
      rw [here] at stands
      exact ⟨sameStorage.trans stands.1, by rw [page, stands.2]⟩
  | copy tuple pmPage index =>
      rw [here] at stands
      obtain ⟨idle, full, owns, inside, copied⟩ := stands
      refine ⟨sameStorage.trans idle, by rw [page, full], effect.owned_mono owns, inside, ?_⟩
      intro slot below
      rw [effect.pages_kept sound owns (.inl other), page]
      exact copied slot below

theorem Effect.stands_self (effect : table.Effect type t next event)
    (sound : table.Sound layout type trace)
    : next.Stands type t (next.pc t) := by
  have stands := sound.stands t
  have bounded := sound.bounded t
  cases effect with
  | insert here =>
      rw [here] at stands
      simp only [setPage, here]
      exact stands
  | full here full =>
      rw [here] at stands
      simp only [goTo, Function.update_self, Stands]
      refine ⟨⟨.load, by simp [setPage, AllocatorState.moveTo]⟩, ?_⟩
      simp only [getTlsPage, setPage, Function.update_self, Option.getD_some]
      exact Nat.le_antisymm bounded (Nat.not_lt.mp full)
  | again here =>
      rw [here] at stands
      simp only [here]
      exact ⟨⟨_, by simp only [AllocatorState.moveTo, Function.update_self]; rfl⟩, stands.2⟩
  | exhausted here =>
      simp [goTo, Stands, AllocatorState.moveTo]
  | taken here alloc head =>
      rw [here] at stands
      simp only [goTo, Function.update_self, Stands]
      refine ⟨by simp [AllocatorState.moveTo], stands.2, ?_, Nat.zero_le _, fun slot below => ?_⟩
      · rw [sound.address_of_head alloc head]
        exact List.mem_cons_self ..
      · exact absurd below (Nat.not_lt_zero slot)
  | @copy tuple pmPage index here more =>
      rw [here] at stands
      obtain ⟨idle, full, owns, inside, copied⟩ := stands
      simp only [goTo, Function.update_self, Stands]
      refine ⟨idle, full, owns, more, ?_⟩
      intro slot below
      simp only [copyTuple, Function.update_self]
      by_cases last : slot = index
      · rw [last, Function.update_self]
        rfl
      · rw [Function.update_of_ne last]
        exact copied slot (by omega)
  | flush here done =>
      rw [here] at stands
      simp only [goTo, Function.update_self, Stands]
      exact ⟨stands.1, by simp [getTlsPage, setPage, PageBuffer.resetIndex]⟩
  | retry here =>
      rw [here] at stands
      simp only [goTo, Function.update_self, Stands]
      exact stands.1

omit [DecidableEq τ] in
theorem buffered_eq (type : TupleType T) (table : InsertonlyTable τ T) (t : τ)
    : table.buffered t = (table.getTlsPage type t).tuples := by
  cases here : table.tlsPages t with
  | none => simp [buffered, getTlsPage, here, PageBuffer.new, PageBuffer.tuples]
  | some page => simp [buffered, getTlsPage, here]

theorem tuples_tryInsert {page : PageBuffer T} (room : page.next < type.cap) (tuple : T)
    : (page.tryInsert type tuple).1.tuples = page.tuples ++ [tuple] := by
  have front : (List.range page.next).map (Function.update page.data page.next tuple)
      = (List.range page.next).map page.data := by
    refine List.map_congr_left (fun slot member => Function.update_of_ne ?_ _ _)
    exact Nat.ne_of_lt (List.mem_range.mp member)
  simp [PageBuffer.tryInsert, room, PageBuffer.tuples, List.range_succ, front]

/-- The tuples on the flushed pages stay. -/
theorem Effect.flushed_kept (effect : table.Effect type t next event)
    (sound : table.Sound layout type trace) (u : τ)
    : (flushedBy u trace).flatMap (next.pageTuples type)
      = (flushedBy u trace).flatMap (table.pageTuples type) := by
  refine List.flatMap_congr (fun pmPage member => ?_)
  obtain ⟨entry, flushed, rfl⟩ := List.mem_map.mp member
  have flushed := List.mem_of_mem_filter flushed
  rw [pageTuples, effect.pages_kept sound (sound.owned entry flushed) (.inr flushed), pageTuples]

/-- Steps that neither insert nor flush leave the buffers alone. -/
theorem Effect.buffered_kept (effect : table.Effect type t next event) {u : τ}
    (quiet : u ≠ t ∨ event = .pending ∨ event = .outOfMemory)
    : next.buffered u = table.buffered u := by
  by_cases mover : u = t
  · subst mover
    rw [buffered_eq type next, buffered_eq type table]
    cases effect with
    | insert | flush | retry => simp at quiet
    | full => simp [getTlsPage, setPage, goTo]
    | again | exhausted | taken | copy => rfl
  · rw [buffered, buffered, (effect.others mover).2.2]

/-- A step that neither inserts nor flushes. -/
theorem Effect.stored_quiet (effect : table.Effect type t next event)
    (sound : table.Sound layout type trace) (move : InsertMove T)
    (quiet : event = .pending ∨ event = .outOfMemory) (u : τ)
    : next.stored type u (trace ++ [((t, move), event)])
      = insertedBy u (trace ++ [((t, move), event)]) := by
  have noFlush : flushes [((t, move), event)] = [] := by
    rcases quiet with rfl | rfl <;> rfl
  have noInsert : insertedBy u [((t, move), event)] = [] := by
    rcases quiet with rfl | rfl <;> rfl
  rw [stored, flushedBy, flushes_append, noFlush, List.append_nil, insertedBy_append, noInsert,
    List.append_nil, ← sound.kept u, stored, ← effect.flushed_kept sound,
    effect.buffered_kept (.inr quiet)]
  rfl

/-- A step that puts a tuple into the buffer. -/
theorem Effect.stored_insert {tuple : T} (effect : table.Effect type t next (.inserted tuple))
    (sound : table.Sound layout type trace) (move : InsertMove T)
    (grown : next.buffered t = table.buffered t ++ [tuple]) (u : τ)
    : next.stored type u (trace ++ [((t, move), .inserted tuple)])
      = insertedBy u (trace ++ [((t, move), .inserted tuple)]) := by
  have noFlush : flushes [((t, move), InsertEvent.inserted tuple)] = [] := rfl
  rw [stored, flushedBy, flushes_append, noFlush, List.append_nil, insertedBy_append,
    ← sound.kept u, stored, ← effect.flushed_kept sound, List.append_assoc]
  by_cases mover : u = t
  · subst mover
    rw [grown]
    simp [insertedBy, flushedBy]
  · rw [effect.buffered_kept (.inl mover)]
    simp [insertedBy, flushedBy, Ne.symm mover]

/-- A step that moves a full buffer to its page. -/
theorem Effect.stored_flush {pmPage : Nat} (effect : table.Effect type t next (.flushed pmPage))
    (sound : table.Sound layout type trace) (move : InsertMove T)
    (emptied : next.buffered t = []) (copied : next.pageTuples type pmPage = table.buffered t)
    (u : τ)
    : next.stored type u (trace ++ [((t, move), .flushed pmPage)])
      = insertedBy u (trace ++ [((t, move), .flushed pmPage)]) := by
  have noInsert : insertedBy u [((t, move), InsertEvent.flushed pmPage)] = [] := rfl
  have flush : flushes [((t, move), InsertEvent.flushed pmPage)] = [(t, pmPage)] := rfl
  rw [stored, flushedBy, flushes_append, flush, insertedBy_append, noInsert, List.append_nil,
    ← sound.kept u, stored, ← effect.flushed_kept sound, List.filter_append, List.map_append,
    List.flatMap_append]
  by_cases mover : u = t
  · subst mover
    simp [flushedBy, emptied, copied]
  · rw [effect.buffered_kept (.inl mover)]
    simp [flushedBy, Ne.symm mover]

theorem Effect.stored (effect : table.Effect type t next event) (positive : 1 ≤ type.cap)
    (sound : table.Sound layout type trace) (move : InsertMove T) (u : τ)
    : next.stored type u (trace ++ [((t, move), event)])
      = insertedBy u (trace ++ [((t, move), event)]) := by
  have stands := sound.stands t
  cases id effect with
  | full | again | taken | copy => exact effect.stored_quiet sound move (.inl rfl) u
  | exhausted => exact effect.stored_quiet sound move (.inr rfl) u
  | insert here room =>
      refine effect.stored_insert sound move ?_ u
      rw [buffered_eq type table, ← tuples_tryInsert room]
      simp [buffered, setPage]
  | retry here =>
      rw [here] at stands
      refine effect.stored_insert sound move ?_ u
      have room : (table.getTlsPage type t).next < type.cap := by
        rw [stands.2]
        exact positive
      rw [buffered_eq type table, ← tuples_tryInsert room]
      simp [buffered, setPage, goTo]
  | @flush tuple pmPage index here done =>
      rw [here] at stands
      obtain ⟨_, full, _, inside, copied⟩ := stands
      refine effect.stored_flush sound move ?_ ?_ u
      · simp [buffered, setPage, goTo, PageBuffer.resetIndex, PageBuffer.tuples]
      · rw [buffered_eq type table, PageBuffer.tuples, full, pageTuples]
        refine List.map_congr_left (fun slot member => ?_)
        exact copied slot (Nat.lt_of_lt_of_le (List.mem_range.mp member) (Nat.not_lt.mp done))

/-- The pages flushed so far are owned by those who flushed them. -/
theorem Effect.flushes_owned (effect : table.Effect type t next event)
    (sound : table.Sound layout type trace) (move : InsertMove T)
    : ∀ entry ∈ flushes (trace ++ [((t, move), event)]), entry ∈ next.storage.owned := by
  have stands := sound.stands t
  intro entry member
  rw [flushes_append] at member
  rcases List.mem_append.mp member with old | new
  · exact effect.owned_mono (sound.owned entry old)
  · cases effect with
    | flush here =>
        rw [here] at stands
        obtain rfl : entry = _ := List.mem_singleton.mp new
        exact stands.2.2.1
    | _ => simp [flushes] at new

/-- A page under copy is not flushed yet. -/
theorem Effect.unflushed (effect : table.Effect type t next event)
    (sound : table.Sound layout type trace) (move : InsertMove T) (u : τ) (tuple : T)
    (pmPage index : Nat) (here : next.pc u = .copy tuple pmPage index)
    : (u, pmPage) ∉ flushes (trace ++ [((t, move), event)]) := by
  rw [flushes_append, List.mem_append, not_or]
  by_cases mover : u = t
  · subst mover
    cases effect with
    | insert before => simp [setPage, before] at here
    | full | exhausted | flush | retry => simp [goTo] at here
    | again before => simp [before] at here
    | taken before alloc head =>
        refine ⟨?_, by simp [flushes]⟩
        simp only [goTo, Function.update_self, InsertPc.copy.injEq] at here
        rw [← here.2.1, sound.address_of_head alloc head]
        intro flushed
        exact (sound.head_block alloc head).2 (List.mem_map_of_mem (sound.owned _ flushed))
    | copy before =>
        refine ⟨?_, by simp [flushes]⟩
        simp only [goTo, Function.update_self, InsertPc.copy.injEq] at here
        rw [← here.2.1]
        exact sound.unflushed u _ _ _ before
  · rw [(effect.others mover).1] at here
    refine ⟨sound.unflushed u tuple pmPage index here, ?_⟩
    cases effect <;> simp [flushes, mover]

theorem Effect.flushes_nodup (effect : table.Effect type t next event)
    (sound : table.Sound layout type trace) (move : InsertMove T)
    : (flushes (trace ++ [((t, move), event)])).Nodup := by
  rw [flushes_append]
  cases effect with
  | flush here =>
      refine List.Nodup.append sound.distinct (List.nodup_singleton _) ?_
      intro entry old new
      obtain rfl : entry = _ := List.mem_singleton.mp new
      exact sound.unflushed t _ _ _ here old
  | _ => simpa [flushes] using sound.distinct

/-- One step keeps all of it. -/
theorem Sound.step (sound : table.Sound layout type trace) (positive : 1 ≤ type.cap)
    {action : τ × InsertMove T} (taken : insertStep type table action = some (next, event))
    : next.Sound layout type (trace ++ [(action, event)]) := by
  have effect := insertStep_effect taken
  exact
    { parts := (effect.parts sound).1
      consistent := (effect.parts sound).2
      links := effect.links sound
      bounded := effect.bounded sound
      stands := fun u => by
        by_cases mover : u = action.1
        · rw [mover]
          exact effect.stands_self sound
        · exact effect.stands_other sound mover
      owned := effect.flushes_owned sound action.2
      unflushed := effect.unflushed sound action.2
      distinct := effect.flushes_nodup sound action.2
      kept := effect.stored positive sound action.2 }

theorem sound_new (layout : BlockLayout) (type : TupleType T) (mem : Memory)
    (pages : Nat → Nat → T)
    : (new layout mem pages : InsertonlyTable τ T).Sound layout type [] where
  parts := layout.fresh_partitioned mem
  consistent := layout.fresh_consistent mem
  links := fun _ _ _ alloc => by cases alloc
  bounded := fun _ => Nat.zero_le _
  stands := fun _ => rfl
  owned := fun _ member => by cases member
  unflushed := fun _ _ _ _ _ member => by cases member
  distinct := List.nodup_nil
  kept := fun _ => rfl

/-- Every state of a run, by induction on the run. -/
theorem sound_of_run {mem : Memory} {pages : Nat → Nat → T} (positive : 1 ≤ type.cap)
    (run : Run (insertStep type) (new layout mem pages) trace table)
    : table.Sound layout type trace := by
  induction run with
  | start => exact sound_new layout type mem pages
  | extend _ taken ih => exact ih.step positive taken

/-- From then on, the flushed pages stay as they are. -/
theorem Sound.pages_kept {later : InsertonlyTable τ T}
    {more : List ((τ × InsertMove T) × InsertEvent T)} (sound : table.Sound layout type trace)
    (positive : 1 ≤ type.cap) (run : Run (insertStep type) table more later)
    : later.Sound layout type (trace ++ more)
      ∧ ∀ entry ∈ flushes trace, later.pages entry.2 = table.pages entry.2 := by
  induction run with
  | start => exact ⟨by simpa using sound, fun _ _ => rfl⟩
  | @extend past before action _ _ _ taken ih =>
      obtain ⟨here, same⟩ := ih
      refine ⟨by simpa using here.step positive taken, ?_⟩
      intro entry flushed
      have still : entry ∈ flushes (trace ++ past) := by
        rw [flushes_append]
        exact List.mem_append_left _ flushed
      have effect := insertStep_effect taken
      rw [effect.pages_kept here (here.owned entry still) (.inr still), same entry flushed]

end InsertonlyTable

/-- At every moment of every run: a thread's flushed pages, in order, and its buffer hold the
tuples it has inserted, in order; no page is flushed twice; and a flushed page does not change.
-/
theorem insertonly_keeps_tuples (pmPageCnt addr : Nat) (nonnull : 0 < addr) (type : TupleType T)
    (positive : 1 ≤ type.cap) (mem : Memory) (pages : Nat → Nat → T)
    (run
      : Run (insertStep type) (InsertonlyTable.new (hugePages pmPageCnt addr nonnull) mem pages)
          trace table)
    : (∀ t, (flushedBy t trace).flatMap (table.pageTuples type) ++ table.buffered t
        = insertedBy t trace)
      ∧ ((flushes trace).map Prod.snd).Nodup
      ∧ ∀ more later, Run (insertStep type) table more later
        → ∀ entry ∈ flushes trace, later.pages entry.2 = table.pages entry.2 := by
  have sound := InsertonlyTable.sound_of_run positive run
  refine ⟨sound.kept, ?_, ?_⟩
  · refine List.Nodup.map_on ?_ sound.distinct
    intro first member second member' same
    exact sound.owner_unique (sound.owned first member) (sound.owned second member') same
  · intro more later run
    exact (sound.pages_kept positive run).2

end Accounts

/-- Tuples that fill a page. -/
def pageSized : TupleType Nat where
  size := hugepageSize
  zeroed := 0
  firstWord := fun contents => contents 0

def twoPages : BlockLayout :=
  hugePages 2 hugepageSize (by decide)

/-- Two threads insert two tuples each. While one has read the first free page and its link, the
other takes that page and overwrites the link.
-/
def twoFlushes : List (Bool × InsertMove Nat) :=
  [(false, .insert 10), (true, .insert 20), (false, .insert 11), (true, .insert 21)]
    ++ List.replicate 2 (false, .advance) ++ List.replicate 6 (true, .advance)
    ++ List.replicate 6 (false, .advance)

theorem insertonly_keeps_tuples_two_threads
    : ∃ trace table,
        Run (insertStep pageSized)
          (InsertonlyTable.new twoPages (fun _ => 0) (fun _ _ => 0) : InsertonlyTable Bool Nat)
          trace table
        ∧ (flushes trace).length = 2
        ∧ (flushedBy false trace).flatMap (table.pageTuples pageSized) ++ table.buffered false
          = [10, 11] := by
  obtain ⟨trace, table, run, passed⟩ := exec_reaches
    (fun result : InsertonlyTable Bool Nat × List ((Bool × InsertMove Nat) × InsertEvent Nat) =>
      decide ((flushes result.2).length = 2 ∧ insertedBy false result.2 = [10, 11]))
    (by decide +kernel
      : (exec (insertStep pageSized)
          (InsertonlyTable.new twoPages (fun _ => 0) (fun _ _ => 0)) twoFlushes).any _ = true)
  obtain ⟨two, inserted⟩ := of_decide_eq_true passed
  have kept := insertonly_keeps_tuples 2 hugepageSize (by decide) pageSized (by decide) _ _ run
  exact ⟨trace, table, run, two, (kept.1 false).trans inserted⟩

end Alchemy.Table
