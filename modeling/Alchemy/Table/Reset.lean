import Alchemy.Table.DbTable

/-! `DbTable::reset` gives a fresh table: whatever is done with it afterwards shows nothing that a
new table could not show.
-/

namespace Alchemy.Table

open Allocator Cache Oid ByteImage Interleaving

variable {τ : Type}

/-- What a thread sees of its steps: the calls that it makes, and what they return. -/
def observe : (τ × TableMove τ) × TableEvent → Option (τ × Option (TableMove τ) × TableEvent)
  | ((_, .advance _), .pending) | ((_, .advance _), .cache .pending) => none
  | ((t, .advance _), event) => some (t, none, event)
  | ((t, move), event) => some (t, some move, event)

variable [DecidableEq τ] {config : TableConfig} {table next other : DbTable τ} {t : τ}
  {event : TableEvent}

/-! ### The cache of a table -/

/-- What the results of this development need to know of the cache in a table. -/
structure Kept (config : TableConfig) (table : DbTable τ) : Prop where
  consistent : Consistent config.cache table.cache
  marked : Marked config.cache table.cache

theorem Kept.step {move : CacheMove τ} {cache : CacheState τ} {label : CacheEvent}
    (kept : Kept config table)
    (moved : table.cache.step config.cache t move = some (cache, label))
    (same : next.cache = cache)
    : Kept config next where
  consistent := same ▸ (kept.consistent.advance (CacheState.step_effect moved)).consistent
  marked := same ▸ kept.marked.step moved

theorem Kept.cacheCall {move : CacheMove τ} (kept : Kept config table)
    (moved : table.cacheCall config t move = some (next, event))
    : Kept config next := by
  obtain ⟨⟨cache, label⟩, stepped, same⟩ := Option.map_eq_some_iff.mp moved
  obtain ⟨rfl, _⟩ := Prod.mk.inj same
  exact kept.step stepped rfl

/-- A move that is not a step inside a call starts one, and needs a thread that is in none. -/
theorem step_start {move : TableMove τ} (starts : ∀ choice, move ≠ .advance choice)
    (taken : table.step config t move = some (next, event))
    : table.pc t = .outside ∧ table.cache.pc t = .idle
      ∧ table.start config t move = some (next, event) := by
  unfold DbTable.step at taken
  split at taken
  · exact absurd rfl (starts _)
  · split at taken
    · next outside idle => exact ⟨outside, idle, taken⟩
    · cases taken

theorem Kept.start {move : TableMove τ} (kept : Kept config table)
    (moved : table.start config t move = some (next, event))
    : Kept config next := by
  cases move with
  | insert record =>
      obtain ⟨⟨heap, label⟩, _, same⟩ := Option.map_eq_some_iff.mp moved
      obtain ⟨rfl, _⟩ := Prod.mk.inj same
      exact ⟨kept.consistent, kept.marked⟩
  | lockKey key op =>
      simp only [DbTable.start] at moved
      split at moved
      · obtain ⟨rfl, _⟩ := Prod.mk.inj (Option.some.inj moved)
        exact kept
      · exact kept.cacheCall moved
  | range low high length =>
      obtain ⟨rfl, _⟩ := Prod.mk.inj (Option.some.inj moved)
      exact kept
  | call move =>
      cases move with
      | insert | advance => cases moved
      | _ => exact kept.cacheCall moved
  | advance choice => cases moved

theorem Kept.resume {choice : Bool} (kept : Kept config table)
    (moved : table.resume config t choice = some (next, event))
    : Kept config next := by
  cases here : table.pc t with
  | outside =>
      simp only [DbTable.resume, here] at moved
      exact kept.cacheCall moved
  | append record =>
      simp only [DbTable.resume, here] at moved
      split at moved
      · cases moved
      · obtain ⟨⟨cache, label⟩, stepped, same⟩ := Option.map_eq_some_iff.mp moved
        obtain ⟨rfl, _⟩ := Prod.mk.inj same
        exact kept.step stepped rfl
      all_goals
        obtain ⟨rfl, _⟩ := Prod.mk.inj (Option.some.inj moved)
        exact ⟨kept.consistent, kept.marked⟩
  | insert key =>
      simp only [DbTable.resume, here] at moved
      split at moved
      · cases moved
      · next stepped =>
          obtain ⟨rfl, _⟩ := Prod.mk.inj (Option.some.inj moved)
          exact kept.step stepped rfl
      · next stepped =>
          obtain ⟨rfl, _⟩ := Prod.mk.inj (Option.some.inj moved)
          exact kept.step stepped rfl
  | publish key rid =>
      simp only [DbTable.resume, here] at moved
      obtain ⟨rfl, _⟩ := Prod.mk.inj (Option.some.inj moved)
      exact ⟨kept.consistent, kept.marked⟩

/-- Every step of a table is one of its cache, or leaves the cache alone. -/
theorem Kept.tableStep {action : τ × TableMove τ} (kept : Kept config table)
    (taken : tableStep config table action = some (next, event))
    : Kept config next := by
  obtain ⟨t, move⟩ := action
  cases move with
  | advance choice => exact kept.resume taken
  | insert | lockKey | range | call => exact kept.start (step_start (by simp) taken).2.2

theorem Lives.kept (lives : Lives config table) : Kept config table := by
  induction lives with
  | build storage hand hands => exact ⟨init_consistent storage hand, init_marked hands⟩
  | run _ ran kept => exact ran.invariant kept (fun kept taken => kept.tableStep taken)
  | reset _ quiet kept => exact ⟨kept.consistent.reset quiet.cache, kept.marked.reset⟩

/-! ### Beside a new table -/

/-- Slots and index are those of a new table, and the cache shows nothing more than one. -/
structure Beside (table other : DbTable τ) : Prop where
  heap : other.heap = table.heap
  index : other.index = table.index
  pc : other.pc = table.pc
  cache : Mirrors table.cache other.cache

theorem Beside.goto (beside : Beside table other) (pc : TablePc)
    : Beside (table.goto t pc) (other.goto t pc) :=
  { beside with
    pc := by
      change Function.update other.pc t pc = Function.update table.pc t pc
      rw [beside.pc] }

omit [DecidableEq τ] in
theorem Beside.setHeap (beside : Beside table other) (heap : HeapState τ)
    : Beside { table with heap } { other with heap } :=
  { beside with heap := rfl }

theorem Beside.heapStep (beside : Beside table other) (move : HeapMove)
    : other.heapStep config t move = table.heapStep config t move := by
  rw [DbTable.heapStep, DbTable.heapStep, beside.heap, beside.cache.oids]

theorem Beside.cacheCall {move : CacheMove τ} (beside : Beside table other)
    (kept : Kept config other) (starts : ∀ choice, move ≠ .advance choice)
    (moved : table.cacheCall config t move = some (next, event))
    : ∃ last, other.cacheCall config t move = some (last, event) ∧ Beside next last := by
  obtain ⟨⟨cache, label⟩, stepped, same⟩ := Option.map_eq_some_iff.mp moved
  obtain ⟨rfl, rfl⟩ := Prod.mk.inj same
  obtain ⟨last, answered, mirrors⟩ := beside.cache.call kept.consistent starts stepped
  refine ⟨{ other with cache := last }, ?_, { beside with cache := mirrors }⟩
  rw [DbTable.cacheCall, answered, Option.map_some]

/-- A call starts in both tables. -/
theorem Beside.start {move : TableMove τ} (beside : Beside table other) (kept : Kept config other)
    (moved : table.start config t move = some (next, event))
    : ∃ last, other.start config t move = some (last, event) ∧ Beside next last := by
  cases move with
  | insert record =>
      obtain ⟨⟨heap, label⟩, stepped, same⟩ := Option.map_eq_some_iff.mp moved
      obtain ⟨rfl, rfl⟩ := Prod.mk.inj same
      refine ⟨_, ?_, (beside.setHeap heap).goto (.append record)⟩
      rw [DbTable.start, beside.heapStep, stepped, Option.map_some]
  | lockKey key op =>
      simp only [DbTable.start] at moved ⊢
      rw [beside.index]
      split at moved
      · obtain ⟨rfl, rfl⟩ := Prod.mk.inj (Option.some.inj moved)
        exact ⟨other, rfl, beside⟩
      · exact beside.cacheCall kept (by simp) moved
  | range low high length =>
      obtain ⟨rfl, rfl⟩ := Prod.mk.inj (Option.some.inj moved)
      exact ⟨other, by rw [DbTable.start, beside.index], beside⟩
  | call move =>
      cases move with
      | insert | advance => cases moved
      | _ => exact beside.cacheCall kept (by simp) moved
  | advance choice => cases moved

theorem Beside.call {move : TableMove τ} (beside : Beside table other) (kept : Kept config other)
    (starts : ∀ choice, move ≠ .advance choice)
    (taken : tableStep config table (t, move) = some (next, event))
    : ∃ last, tableStep config other (t, move) = some (last, event) ∧ Beside next last := by
  obtain ⟨outside, idle, started⟩ := step_start starts taken
  obtain ⟨last, answered, after⟩ := beside.start kept started
  have there : other.pc t = .outside := (congrFun beside.pc t).trans outside
  have idleToo : other.cache.pc t = .idle := beside.cache.there idle
  refine ⟨last, ?_, after⟩
  cases move with
  | advance choice => exact absurd rfl (starts choice)
  | insert | lockKey | range | call =>
      simp only [tableStep, DbTable.step, there, idleToo]
      exact answered

/-- The steps of a thread inside its cache that return nothing show nothing, either. -/
theorem silent_run {cache : CacheState τ}
    (silent : Silent config.cache t other.cache cache)
    (inside : other.pc t = .outside ∨ ∃ key, other.pc t = .insert key)
    : ∃ trace, Run (tableStep config) other trace { other with cache }
      ∧ observed observe trace = [] := by
  induction silent with
  | refl => exact ⟨[], .start, rfl⟩
  | @step middle next choice _ moved ih =>
      obtain ⟨trace, run, shown⟩ := ih
      have stepped : middle.step config.cache t (.advance choice) = some (next, .pending) := moved
      rcases inside with outside | ⟨key, inserting⟩
      · have taken : tableStep config { other with cache := middle } (t, .advance choice)
            = some ({ other with cache := next }, .cache .pending) := by
          simp only [tableStep, DbTable.step, DbTable.resume, outside, DbTable.cacheCall, stepped,
            Option.map_some]
        refine ⟨_, run.extend taken, ?_⟩
        rw [observed_append, shown]
        rfl
      · have taken : tableStep config { other with cache := middle } (t, .advance choice)
            = some ({ other with cache := next }, .pending) := by
          simp only [tableStep, DbTable.step, DbTable.resume, inserting, stepped]
        refine ⟨_, run.extend taken, ?_⟩
        rw [observed_append, shown]
        rfl

/-- A step inside a call is made in both tables, or shows nothing. -/
theorem Beside.resume {choice : Bool} (beside : Beside table other) (kept : Kept config table)
    (keptToo : Kept config other)
    (moved : table.resume config t choice = some (next, event))
    : (∃ last, other.resume config t choice = some (last, event) ∧ Beside next last)
      ∨ observe ((t, .advance choice), event) = none
        ∧ ∃ trace last, Run (tableStep config) other trace last ∧ Beside next last
          ∧ observed observe trace = [] := by
  have there : other.pc t = table.pc t := congrFun beside.pc t
  cases here : table.pc t with
  | outside =>
      rw [here] at there
      simp only [DbTable.resume, here] at moved
      obtain ⟨⟨cache, label⟩, stepped, same⟩ := Option.map_eq_some_iff.mp moved
      obtain ⟨rfl, rfl⟩ := Prod.mk.inj same
      rcases beside.cache.resume keptToo.consistent kept.marked keptToo.marked stepped with
        ⟨last, answered, mirrors⟩ | ⟨rfl, last, silent, mirrors⟩
      · refine .inl ⟨{ other with cache := last }, ?_, { beside with cache := mirrors }⟩
        have answered : other.cache.step config.cache t (.advance choice) = some (last, label) :=
          answered
        simp only [DbTable.resume, there, DbTable.cacheCall, answered, Option.map_some]
      · obtain ⟨trace, run, shown⟩ := silent_run silent (.inl there)
        exact .inr ⟨rfl, trace, _, run, { beside with cache := mirrors }, shown⟩
  | append record =>
      rw [here] at there
      left
      simp only [DbTable.resume, here] at moved
      simp only [DbTable.resume, there, beside.heapStep]
      split at moved
      · cases moved
      · next heap index stepped =>
          obtain ⟨⟨cache, label⟩, started, same⟩ := Option.map_eq_some_iff.mp moved
          obtain ⟨rfl, rfl⟩ := Prod.mk.inj same
          obtain ⟨last, answered, mirrors⟩ :=
            beside.cache.call keptToo.consistent (by simp) started
          refine ⟨_, by rw [answered, Option.map_some], ?_⟩
          have placed : Beside { table with heap, cache } { other with heap, cache := last } :=
            { beside with heap := rfl, cache := mirrors }
          exact placed.goto _
      · obtain ⟨rfl, rfl⟩ := Prod.mk.inj (Option.some.inj moved)
        exact ⟨_, rfl, (beside.setHeap _).goto _⟩
      · obtain ⟨rfl, rfl⟩ := Prod.mk.inj (Option.some.inj moved)
        exact ⟨_, rfl, beside.setHeap _⟩
  | insert key =>
      rw [here] at there
      cases stepped : table.cache.step config.cache t (.advance choice) with
      | none => simp [DbTable.resume, here, stepped] at moved
      | some result =>
          obtain ⟨cache, label⟩ := result
          simp only [DbTable.resume, here, stepped] at moved
          rcases beside.cache.resume keptToo.consistent kept.marked keptToo.marked stepped with
            ⟨last, answered, mirrors⟩ | ⟨rfl, last, silent, mirrors⟩
          · have answered : other.cache.step config.cache t (.advance choice)
                = some (last, label) :=
              answered
            have stayed : Beside { table with cache } { other with cache := last } :=
              { beside with cache := mirrors }
            simp only [DbTable.resume, there, answered]
            cases label with
            | inserted rid val =>
                obtain ⟨rfl, rfl⟩ := Prod.mk.inj (Option.some.inj moved)
                exact .inl ⟨_, rfl, stayed.goto _⟩
            | _ =>
                obtain ⟨rfl, rfl⟩ := Prod.mk.inj (Option.some.inj moved)
                exact .inl ⟨_, rfl, stayed⟩
          · obtain ⟨trace, run, shown⟩ := silent_run silent (.inr ⟨key, there⟩)
            obtain ⟨rfl, rfl⟩ := Prod.mk.inj (Option.some.inj moved)
            exact .inr ⟨rfl, trace, _, run, { beside with cache := mirrors }, shown⟩
  | publish key rid =>
      rw [here] at there
      simp only [DbTable.resume, here] at moved
      obtain ⟨rfl, rfl⟩ := Prod.mk.inj (Option.some.inj moved)
      refine .inl ⟨_, by simp only [DbTable.resume, there]; rfl, ?_⟩
      have published : Beside { table with index := Function.update table.index key (some rid) }
          { other with index := Function.update other.index key (some rid) } :=
        { beside with index := by rw [beside.index] }
      exact published.goto _

/-- A table that started new shows whatever the other one does. -/
theorem beside_simulation
    : Simulation (tableStep config) (tableStep config) observe observe
        (fun table other : DbTable τ => Beside table other ∧ Kept config table ∧ Kept config other)
    := by
  intro table other action next event related taken
  obtain ⟨beside, kept, keptToo⟩ := related
  obtain ⟨t, move⟩ := action
  have keeps {trace last} (run : Run (tableStep config) other trace last) : Kept config last :=
    run.invariant keptToo (fun kept taken => kept.tableStep taken)
  cases move with
  | advance choice =>
      rcases beside.resume kept keptToo taken with
        ⟨last, answered, after⟩ | ⟨hidden, trace, last, run, after, shown⟩
      · have answered : tableStep config other (t, .advance choice) = some (last, event) := answered
        have run := Run.single answered
        exact ⟨_, last, run, ⟨after, kept.tableStep taken, keeps run⟩, rfl⟩
      · refine ⟨trace, last, run, ⟨after, kept.tableStep taken, keeps run⟩, ?_⟩
        rw [shown, observed, List.filterMap_cons, hidden]
        rfl
  | insert | lockKey | range | call =>
      obtain ⟨last, answered, after⟩ := beside.call keptToo (by simp) taken
      have run := Run.single answered
      exact ⟨_, last, run, ⟨after, kept.tableStep taken, keeps run⟩, rfl⟩

/-- What happens to a table after `reset` can happen to a new one, with other contents of its
storage. Every thread makes the same calls there, in the same order, and they return the same; and
the slots are in the same state before and after.
-/
theorem reset_table_as_new (storage : Rid → Image Byte) {after : DbTable τ}
    {trace : List ((τ × TableMove τ) × TableEvent)} (lives : Lives config table)
    (quiet : table.Quiet) (run : Run (tableStep config) (table.reset config) trace after)
    : ∃ hand trace' after',
        (∀ t, hand t < config.cache.capacity)
        ∧ Run (tableStep config) (DbTable.build config storage hand) trace' after'
        ∧ observed observe trace' = observed observe trace
        ∧ (table.reset config).heap = (DbTable.build config storage hand).heap
        ∧ after.heap = after'.heap := by
  have kept := lives.kept
  have slots : (resetOids config.layout : HeapState τ) = _ := resetOids_eq_fresh config.layout
  have beside : Beside (table.reset config) (DbTable.build config storage table.cache.hand) :=
    { heap := slots.symm
      index := rfl
      pc := funext (fun t => (quiet.outside t).symm)
      cache := kept.consistent.mirrors quiet.cache storage }
  have initial : Kept config (DbTable.build config storage table.cache.hand) :=
    ⟨init_consistent storage _, init_marked kept.marked.hands⟩
  have restarted : Kept config (table.reset config) :=
    ⟨kept.consistent.reset quiet.cache, kept.marked.reset⟩
  obtain ⟨trace', after', answered, ⟨follows, _⟩, shown⟩ :=
    beside_simulation.run ⟨beside, restarted, initial⟩ run
  exact ⟨table.cache.hand, trace', after', kept.marked.hands, answered, shown, slots,
    follows.heap.symm⟩

omit [DecidableEq τ] in
/-- Only the words of records that were inserted can be locked. -/
theorem Kept.quiet (kept : Kept config table) (outside : ∀ t, table.pc t = .outside)
    (idle : ∀ t, table.cache.pc t = .idle)
    (unlocked : ∀ rid ∈ table.cache.allocated, (table.cache.oids rid).guards = [])
    (unseen : table.cache.views = [])
    : table.Quiet := by
  refine ⟨outside, idle, fun rid => ?_, unseen⟩
  by_cases used : rid ∈ table.cache.allocated
  · exact unlocked rid used
  · rw [kept.consistent.untouched rid used]
    rfl

/-- A table with two slots and one cache entry, in which every record has the key 7. -/
def tinyTable : TableConfig where
  layout := oneArena
  cache := singleEntry
  key := fun _ => 7
  range := fun index low _ _ => (index low).toList

/-- The test of `Kept.quiet` for a table with one thread. -/
def DbTable.quiet (table : DbTable Unit) : Bool :=
  (match table.pc (), table.cache.pc () with
    | .outside, .idle => true
    | _, _ => false)
  && table.cache.allocated.all (fun rid => (table.cache.oids rid).guards.isEmpty)
  && table.cache.views.isEmpty

theorem Kept.quiet_of_test {table : DbTable Unit} (kept : Kept config table)
    (passed : table.quiet = true)
    : table.Quiet := by
  simp only [DbTable.quiet, Bool.and_eq_true, List.all_eq_true, List.isEmpty_iff] at passed
  obtain ⟨⟨still, unlocked⟩, unseen⟩ := passed
  split at still
  · next outside idle => exact kept.quiet (fun _ => outside) (fun _ => idle) unlocked unseen
  · cases still

/-- `insert` without interference. -/
def insertAlone (record : Image Byte) : List (Unit × TableMove Unit) :=
  ((), .insert record) :: List.replicate 26 ((), .advance false)

/-- A record is inserted under the key 7, its guard dropped and the table reset. The key is not
found any more, and the next record gets the same rid.
-/
theorem reset_table_as_new_used
    : ∃ (table after : DbTable Unit) (trace : List ((Unit × TableMove Unit) × TableEvent)),
        Lives tinyTable table
        ∧ table.Quiet
        ∧ table.index 7 = some 1#32
        ∧ Run (tableStep tinyTable) (table.reset tinyTable) trace after
        ∧ ((), some (.lockKey 7 .tryRead), .indexNotFound 7) ∈ observed observe trace
        ∧ after.index 7 = some 1#32
        ∧ ∃ hand trace' after',
          Run (tableStep tinyTable) (DbTable.build tinyTable (fun _ _ => 0) hand) trace' after'
          ∧ observed observe trace' = observed observe trace := by
  obtain ⟨past, table, before, passed⟩ := exec_reaches
    (fun result : DbTable Unit × List ((Unit × TableMove Unit) × TableEvent) =>
      result.1.quiet && decide (result.1.index 7 = some 1#32)
      && (exec (tableStep tinyTable) (result.1.reset tinyTable) (insertAlone (fun _ => 9))).any
        (fun later : DbTable Unit × _ => decide (later.1.index 7 = some 1#32)))
    (by decide +kernel
      : (exec (tableStep tinyTable) (DbTable.build tinyTable (fun _ _ => 0) (fun _ => 0))
          (insertAlone (fun _ => 5) ++ [((), .call (.drop 1#32 .write))])).any _ = true)
  simp only [Bool.and_eq_true, decide_eq_true_eq] at passed
  obtain ⟨⟨still, known⟩, again⟩ := passed
  have lives : Lives tinyTable table :=
    .run (.build (fun _ _ => 0) (fun _ => 0) (fun _ => by decide)) before
  have quiet := lives.kept.quiet_of_test still
  have missing : tableStep tinyTable (table.reset tinyTable) ((), .lockKey 7 .tryRead)
      = some (table.reset tinyTable, .indexNotFound 7) := by
    have outside : (table.reset tinyTable).pc () = .outside := quiet.outside ()
    have idle : (table.reset tinyTable).cache.pc () = .idle := quiet.cache.idle ()
    simp only [tableStep, DbTable.step, outside, idle]
    rfl
  obtain ⟨trace, after, inserts, found⟩ := exec_reaches _ again
  have run := (Run.single missing).trans inserts
  obtain ⟨hand, trace', after', _, answered, shown, _⟩ :=
    reset_table_as_new (fun _ _ => 0) lives quiet run
  exact ⟨table, after, _, lives, quiet, known, run, List.mem_cons_self ..,
    of_decide_eq_true found, hand, trace', after', answered, shown⟩

end Alchemy.Table
