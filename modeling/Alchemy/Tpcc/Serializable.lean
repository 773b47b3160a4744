import Mathlib.Data.List.Induction
import Alchemy.Library.Reordering
import Alchemy.Tpcc.BadCredit
import Alchemy.Tpcc.Exchange
import Alchemy.Tpcc.OrderNumbers

/-! `new_order` and `payment` are serializable. Their runs can be rearranged step by step until
every transaction runs from beginning to end with nobody in between, and records and indexes end up
the same. A transaction that takes a lock has dropped none, so all it did can be put off until then.
Everything else it does could have been done with what it did before.
-/

namespace Alchemy.Tpcc

open Cache Oid Interaction Interleaving ByteImage Reordering

variable {A τ : Type} [Money A]

/-- What a transaction has done. It has returned if there is an outcome. -/
structure Block (A τ : Type) [Money A] where
  task : τ
  txn : Transaction A
  log : List (Step A)
  outcome : Option (Except Stop Unit)

namespace Block

/-- Its events, with nobody in between. -/
def history (block : Block A τ) : History A τ :=
  (block.task, .began block.txn) :: block.log.reverse.map (fun step => (block.task, .did step))
    ++ block.outcome.toList.map (fun outcome => (block.task, .returned block.txn block.log outcome))

/-- After one more event. -/
def after (block : Block A τ) : DbEvent A → Block A τ
  | .did step => { block with log := step :: block.log }
  | .returned _ _ outcome => { block with outcome := some outcome }
  | _ => block

theorem after_task (block : Block A τ) (event : DbEvent A) : (block.after event).task = block.task := by
  cases event <;> rfl

theorem history_owner {block : Block A τ} {label : τ × DbEvent A} (member : label ∈ block.history)
    : label.1 = block.task := by
  rcases List.mem_append.mp member with early | late
  · rcases List.mem_cons.mp early with rfl | did
    · rfl
    · obtain ⟨_, _, rfl⟩ := List.mem_map.mp did
      rfl
  · obtain ⟨_, _, rfl⟩ := List.mem_map.mp late
    rfl

end Block

def completion? : τ × DbEvent A → Option (Block A τ)
  | (task, .returned txn log outcome) => some { task, txn, log, outcome := some outcome }
  | _ => none

/-- The transactions that have returned, in this order. -/
def completions (past : History A τ) : List (Block A τ) :=
  past.filterMap completion?

variable [DecidableEq τ]

/-! ### Entries -/

/-- The index and the key of an entry. -/
def Cell.slot : Cell → Option (Option Table × UInt64)
  | .entry table key => some (some table, key)
  | .newOrder key => some (none, key)
  | .row _ _ | .lastName _ => none

omit [Money A] in
/-- An entry of a two-phase transaction is one about an order. -/
theorem filing_of_written {step : Step A} {cell : Cell}
    (mixes : step.op.gathers = true ∨ step.op.settles = true)
    (writes : written step = some cell) (entry : ∀ table rid, cell ≠ .row table rid)
    : Transaction.filing step = true ∧ Transaction.slot step = cell.slot := by
  obtain ⟨op, answer⟩ := step
  cases op with
  | insert | getValueMut =>
      cases writes
      exact absurd rfl (entry _ _)
  | indexInsert table key rid =>
      cases writes
      refine ⟨?_, rfl⟩
      simp only [Op.gathers, Op.settles, Op.accesses, Bool.false_eq_true, false_or,
        decide_eq_true_eq] at mixes
      rcases mixes with rfl | rfl <;> rfl
  | newOrderInsert =>
      cases writes
      exact ⟨rfl, rfl⟩
  | lastNameInsert | newOrderRemove =>
      simp [Op.gathers, Op.settles, Op.accesses] at mixes
  | _ => cases writes

namespace Ledger

variable {config : DbConfig} {ledger : Ledger A τ} {past : History A τ} {t u : τ}
  {event other : DbEvent A}

/-- Two-phase transactions of different tasks make no entry under the same key. -/
theorem Run.entries_apart (run : Run config past ledger) (once : LoadsOnce past)
    (small : SmallIds past) (first : (t, event) ∈ past) (second : (u, other) ∈ past)
    (mixing : event.Mixing) (mixing' : other.Mixing) (different : t ≠ u)
    : event.EntriesApart other := by
  intro cell writes writes'
  by_contra entry
  have entry : ∀ table rid, cell ≠ .row table rid :=
    fun table rid same => entry ⟨table, rid, same⟩
  cases event with
  | did step =>
      cases other with
      | did step' =>
          obtain ⟨files, slot⟩ := filing_of_written mixing writes entry
          obtain ⟨files', slot'⟩ := filing_of_written mixing' writes' entry
          obtain ⟨txn, log, ran, member⟩ := run.ran_own first
          obtain ⟨txn', log', ran', member'⟩ := run.ran_own second
          have mine := (run.ran_obeyed ran).files member files
          have theirs := (run.ran_obeyed ran').files member' files'
          exact different (run.filed_own once small ran ran' mine theirs (slot.trans slot'.symm)).1
      | _ => cases writes'
  | _ => cases writes

end Ledger


/-! ### Reordering a run -/

namespace Ledger

variable {config : DbConfig} {ledger next : Ledger A τ} {t : τ} {event : DbEvent A}
  {past before after labels others : History A τ} {label first second : τ × DbEvent A}

/-- The second event can come first. -/
structure Passes (first second : τ × DbEvent A) : Prop where
  different : first.1 ≠ second.1
  apart : first.2.Apart second.2

theorem Run.last_step (run : Run config (past ++ [label]) next)
    : ∃ ledger, Run config past ledger ∧ ledger.Moves config label.1 next label.2 := by
  generalize same : past ++ [label] = all at run
  cases run with
  | start => simp at same
  | extend earlier moves =>
      obtain ⟨rfl, one⟩ := List.append_inj' same rfl
      obtain rfl := List.singleton_inj.mp one
      exact ⟨_, earlier, moves⟩

/-- Neighbours are exchanged, and what follows is done from there, by induction on it. -/
theorem Run.exchange (run : Run config (before ++ first :: second :: after) ledger)
    (mixing : ∀ label ∈ first :: second :: after, label.2.Mixing) (passes : Passes first second)
    : ∃ next, Run config (before ++ second :: first :: after) next ∧ ledger.Same next := by
  induction after using List.reverseRecOn generalizing ledger with
  | nil =>
      rw [List.append_cons] at run
      obtain ⟨middle, run, follows⟩ := run.last_step
      obtain ⟨start, run, moves⟩ := run.last_step
      obtain ⟨middle', next, sooner, later, same⟩ := moves.exchange follows passes.different.symm
        run.exclusive run.guarded (mixing first (by simp)) (mixing second (by simp)) passes.apart
      exact ⟨next, by simpa using (run.extend sooner).extend later, same⟩
  | append_singleton rest label ih =>
      rw [← List.cons_append, ← List.cons_append, ← List.append_assoc] at run
      obtain ⟨middle, run, moves⟩ := run.last_step
      obtain ⟨middle', run, same⟩ := ih run (fun other member =>
        mixing other (List.mem_append_left [label] member))
      obtain ⟨next, moves, same⟩ := moves.matched same (mixing label (by simp))
      exact ⟨next, by simpa using run.extend moves, same⟩

/-- A run can be taken in any order that swaps lead to. -/
theorem Run.swaps (run : Run config (past ++ labels) ledger)
    (mixing : ∀ label ∈ labels, label.2.Mixing) (swaps : Swaps Passes labels others)
    : ∃ next, Run config (past ++ others) next ∧ ledger.Same next := by
  induction swaps with
  | refl => exact ⟨ledger, run, rfl, Shared.Agree.refl _⟩
  | swap earlier passes ih =>
      obtain ⟨middle, run, same⟩ := ih
      rw [← List.append_assoc] at run
      obtain ⟨next, run, same'⟩ := run.exchange (fun label member =>
        mixing label (earlier.perm.mem_iff.mp (List.mem_append_right _ member))) passes
      exact ⟨next, by simpa using run, same.active.trans same'.active,
        fun cell => (same.shared cell).trans (same'.shared cell)⟩

end Ledger

/-! ### Arrangements -/

namespace Ledger

variable {config : DbConfig} {ledger next : Ledger A τ} {t : τ} {event : DbEvent A}
  {past : History A τ} {before after blocks : List (Block A τ)} {block new : Block A τ}

/-- A run arranged transaction by transaction. Nothing of a task comes after its transaction that is
still running.
-/
structure Arranged (ledger : Ledger A τ) (past : History A τ) (blocks : List (Block A τ))
    : Prop where
  swaps : Swaps Passes past (blocks.flatMap Block.history)
  live : ∀ t txn log, ⟨t, txn, log, none⟩ ∈ blocks
    ↔ ∃ rest, ledger.active t = some { txn, log, rest }
  ordered : blocks.Pairwise (fun first second => first.outcome = none → first.task ≠ second.task)

omit [DecidableEq τ] in
/-- Around a transaction that is still running. -/
theorem Arranged.around (arranged : ledger.Arranged past (before ++ block :: after))
    (runs : block.outcome = none)
    : (∀ other ∈ before, other.outcome = none → other.task ≠ block.task)
      ∧ ∀ other ∈ after, block.task ≠ other.task := by
  obtain ⟨_, second, across⟩ := List.pairwise_append.mp arranged.ordered
  exact ⟨fun other member => across other member block List.mem_cons_self,
    fun other member => (List.pairwise_cons.mp second).1 other member runs⟩

omit [DecidableEq τ] in
/-- A transaction can be put off until after all others if they pass it. -/
theorem Arranged.delayed (arranged : ledger.Arranged past (before ++ block :: after))
    (runs : block.outcome = none)
    (passes : ∀ mine ∈ block.history, ∀ theirs ∈ after.flatMap Block.history, Passes mine theirs)
    : ledger.Arranged past (before ++ after ++ [block]) := by
  have same : (before ++ block :: after).Perm (before ++ after ++ [block]) :=
    List.perm_middle.trans (List.perm_append_singleton _ _).symm
  obtain ⟨early, late⟩ := arranged.around runs
  obtain ⟨first, second, across⟩ := List.pairwise_append.mp arranged.ordered
  refine ⟨arranged.swaps.trans ?_, fun t txn log => ?_, ?_⟩
  · simpa using (Swaps.behind passes).append_left (before.flatMap Block.history)
  · rw [← same.mem_iff]
    exact arranged.live t txn log
  · refine List.pairwise_append.mpr ⟨List.pairwise_append.mpr
      ⟨first, (List.pairwise_cons.mp second).2, ?_⟩, List.pairwise_singleton _ _, ?_⟩
    · exact fun left inBefore right inAfter =>
        across left inBefore right (List.mem_cons_of_mem _ inAfter)
    · intro left inside right isBlock
      rw [List.mem_singleton.mp isBlock]
      rcases List.mem_append.mp inside with inBefore | inAfter
      · exact early left inBefore
      · exact fun _ => (late left inAfter).symm

/-- A running transaction after one more event. -/
theorem Arranged.turned (arranged : ledger.Arranged past blocks) (member : block ∈ blocks)
    (runs : block.outcome = none) (moves : ledger.Moves config block.task next event)
    (mixing : event.Mixing)
    : (block.after event).history = block.history ++ [(block.task, event)]
      ∧ ∀ txn log, ⟨block.task, txn, log, none⟩ = block.after event
        ↔ ∃ rest, next.active block.task = some { txn, log, rest } := by
  obtain ⟨t, txn, log, outcome⟩ := block
  obtain rfl : outcome = none := runs
  obtain ⟨rest, here⟩ := (arranged.live t txn log).mp member
  cases moves with
  | rest => exact mixing.elim
  | begin idle => cases here.symm.trans idle
  | did there | release there =>
      obtain rfl := Option.some.inj (here.symm.trans there)
      refine ⟨by simp [Block.history, Block.after], fun txn' log' => ?_⟩
      rw [record_active]
      simp [Block.after, eq_comm]
  | finish there =>
      obtain rfl := Option.some.inj (here.symm.trans there)
      refine ⟨by simp [Block.history, Block.after], fun txn' log' => ?_⟩
      rw [setActive_active]
      simp [Block.after]

/-- An event that passes everything after its transaction could have come with it. -/
theorem Arranged.pushed (arranged : ledger.Arranged past (before ++ block :: after))
    (runs : block.outcome = none) (moves : ledger.Moves config block.task next event)
    (mixing : event.Mixing)
    (passes : ∀ label ∈ after.flatMap Block.history, Passes label (block.task, event))
    : next.Arranged (past ++ [(block.task, event)]) (before ++ block.after event :: after) := by
  obtain ⟨early, late⟩ := arranged.around runs
  obtain ⟨first, second, across⟩ := List.pairwise_append.mp arranged.ordered
  obtain ⟨history, live⟩ := arranged.turned (by simp) runs moves mixing
  have own := block.after_task event
  refine ⟨?_, ?_, ?_⟩
  · refine (arranged.swaps.append_right [(block.task, event)]).trans ?_
    simpa [history] using (Swaps.ahead passes).append_left
      (before.flatMap Block.history ++ block.history)
  · intro t txn log
    by_cases mine : t = block.task
    · subst mine
      rw [← live txn log]
      simp only [List.mem_append, List.mem_cons]
      constructor
      · rintro (inBefore | same | inAfter)
        · exact absurd rfl (early ⟨block.task, txn, log, none⟩ inBefore rfl)
        · exact same
        · exact absurd rfl (late ⟨block.task, txn, log, none⟩ inAfter)
      · exact fun same => .inr (.inl same)
    · have other (block' : Block A τ) (own : block'.task = block.task)
          : ⟨t, txn, log, none⟩ ≠ block' := by
        rintro rfl
        exact mine own
      rw [moves.active_other mine, ← arranged.live t txn log]
      simp [other _ own, other block rfl]
  · refine List.pairwise_append.mpr
      ⟨first, List.pairwise_cons.mpr ⟨?_, (List.pairwise_cons.mp second).2⟩, ?_⟩
    · intro other inAfter _
      rw [own]
      exact late other inAfter
    · intro left inBefore right inside
      rcases List.mem_cons.mp inside with rfl | inAfter
      · rw [own]
        exact early left inBefore
      · exact across left inBefore right (List.mem_cons_of_mem _ inAfter)

/-- A new transaction comes last. -/
theorem Arranged.opened {txn : Transaction A} (arranged : ledger.Arranged past blocks)
    (moves : ledger.Moves config t next (.began txn))
    : next.Arranged (past ++ [(t, .began txn)]) (blocks ++ [⟨t, txn, [], none⟩]) := by
  cases moves with
  | begin idle =>
      have absent {block : Block A τ} (member : block ∈ blocks) (runs : block.outcome = none)
          : block.task ≠ t := by
        rintro rfl
        obtain ⟨_, txn, log, _⟩ := block
        obtain rfl := runs
        obtain ⟨rest, here⟩ := (arranged.live _ txn log).mp member
        cases idle.symm.trans here
      refine ⟨?_, ?_, ?_⟩
      · simpa [Block.history] using arranged.swaps.append_right [(t, .began txn)]
      · intro u txn' log
        by_cases mine : u = t
        · subst mine
          have old : ⟨u, txn', log, none⟩ ∉ blocks := fun member => absent member rfl rfl
          rw [setActive_active]
          simp [old, eq_comm]
        · rw [setActive_other mine, ← arranged.live u txn' log]
          simp [mine]
      · refine List.pairwise_append.mpr ⟨arranged.ordered, List.pairwise_singleton _ _, ?_⟩
        intro block member new isNew runs
        rw [List.mem_singleton.mp isNew]
        exact absent member runs

section Steps

variable {whole : History A τ} (arranged : ledger.Arranged past blocks) (run : Run config whole ledger)
  (twoPhase : ∀ t txn, (t, .began txn) ∈ past → txn.twoPhase = true)

include arranged run twoPhase

/-- Two-phase transactions call what they may, when they may. -/
theorem Arranged.mixes {activity : Activity A} {op : Op A} {rest : op.Answer → Remainder A}
    (here : ledger.active t = some activity) (calls : activity.rest = .call op rest)
    : Mixes activity.log op := by
  have began : (t, .began activity.txn) ∈ past := arranged.swaps.perm.mem_iff.mp
    (List.mem_flatMap.mpr ⟨_, (arranged.live t _ _).mpr ⟨_, here⟩, List.mem_cons_self⟩)
  have meets := run.meets Transaction.mixes (fun _ _ _ _ _ _ done => done) here
  rw [calls] at meets
  exact meets.1 (twoPhase t activity.txn began)

theorem Arranged.mixing (moves : ledger.Moves config t next event) (happens : event ≠ .pending)
    (begins : ∀ txn, event = .began txn → txn.twoPhase = true)
    : event.Mixing := by
  cases moves with
  | rest => exact happens rfl
  | begin => exact begins _ rfl
  | did here calls => exact (arranged.mixes run twoPhase here calls).own
  | release => exact .inr rfl
  | finish => trivial

/-- One more event. If it takes a lock, its transaction has dropped nothing and is put off until
now; if not, it passes everything of others that came after its transaction.
-/
theorem Arranged.extend (moves : ledger.Moves config t next event) (mixing : event.Mixing)
    (entries : ∀ mine ∈ past ++ [(t, event)], ∀ theirs ∈ past ++ [(t, event)],
      mine.1 ≠ theirs.1 → mine.2.EntriesApart theirs.2)
    : ∃ blocks', next.Arranged (past ++ [(t, event)]) blocks' := by
  by_cases opens : ∃ txn, event = .began txn
  · obtain ⟨txn, rfl⟩ := opens
    exact ⟨_, arranged.opened moves⟩
  obtain ⟨activity, here⟩ : ∃ activity, ledger.active t = some activity := by
    cases moves with
    | rest => exact mixing.elim
    | begin => exact absurd ⟨_, rfl⟩ opens
    | did here | release here | finish here => exact ⟨_, here⟩
  obtain ⟨before, after, rfl⟩ :=
    List.append_of_mem ((arranged.live t activity.txn activity.log).mpr ⟨_, here⟩)
  obtain ⟨_, late⟩ := arranged.around rfl
  have foreign {label : τ × DbEvent A} (member : label ∈ after.flatMap Block.history)
      : t ≠ label.1 ∧ label ∈ past := by
    obtain ⟨other, inAfter, inside⟩ := List.mem_flatMap.mp member
    refine ⟨Block.history_owner inside ▸ late other inAfter, arranged.swaps.perm.mem_iff.mp ?_⟩
    exact List.mem_flatMap.mpr ⟨other, by simp [inAfter], inside⟩
  by_cases locks : event.locks = true
  · have undropped : Undropped activity.log := by
      cases moves with
      | @did _ op _ answer there calls answers =>
          obtain rfl := Option.some.inj (here.symm.trans there)
          refine (arranged.mixes run twoPhase here calls).locks_first ?_
          cases op with
          | lock => rfl
          | _ => cases locks
      | _ => cases locks
    have delayed := arranged.delayed rfl (by
      intro mine inBlock theirs inAfter
      obtain ⟨different, known⟩ := foreign inAfter
      have own : mine.1 = t := Block.history_owner inBlock
      have here : mine ∈ past := arranged.swaps.perm.mem_iff.mp
        (List.mem_flatMap.mpr ⟨_, List.mem_append_right _ List.mem_cons_self, inBlock⟩)
      refine ⟨own ▸ different, entries mine (List.mem_append_left _ here) theirs
        (List.mem_append_left _ known) (own ▸ different), fun drops => ?_⟩
      obtain ⟨u, event⟩ := mine
      cases event with
      | did step =>
          have kept : step ∈ activity.log := by
            have member : step ∈ activity.log ∧ t = u := by
              simpa [Block.history] using inBlock
            exact member.1
          cases (undropped step kept).symm.trans drops
      | _ => cases drops)
    exact ⟨_, delayed.pushed rfl moves mixing (by simp)⟩
  · refine ⟨_, arranged.pushed rfl moves mixing (fun label member => ?_)⟩
    obtain ⟨different, known⟩ := foreign member
    exact ⟨different.symm, entries label (List.mem_append_left _ known) _ (by simp) different.symm,
      fun _ => Bool.eq_false_iff.mpr locks⟩

end Steps

omit [DecidableEq τ] in
/-- When nobody runs, all transactions have returned. -/
theorem Arranged.completed (arranged : ledger.Arranged past blocks)
    (idle : ∀ t, ledger.active t = none)
    : completions (blocks.flatMap Block.history) = blocks := by
  have one : ∀ block ∈ blocks, block.history.filterMap completion? = [block] := by
    rintro ⟨t, txn, log, outcome⟩ member
    cases outcome with
    | none =>
        obtain ⟨rest, here⟩ := (arranged.live t txn log).mp member
        cases (idle t).symm.trans here
    | some outcome =>
        have quiet : log.reverse.filterMap (fun step => completion? (t, .did step)) = [] :=
          List.filterMap_eq_nil_iff.mpr (fun _ _ => rfl)
        rw [Block.history, List.filterMap_append, List.filterMap_cons_none rfl, List.filterMap_map]
        exact congrArg (· ++ _) quiet
  rw [completions, List.filterMap_flatMap, List.flatMap_congr one]
  simp

end Ledger

/-! ### The database -/

section Runs

variable {config : DbConfig} {db last : Db A τ} {storage : Table → Rid → Image Byte}
  {hand : Table → τ → Nat} {trace more : List ((τ × DbMove A) × DbEvent A)}

/-- Steps other than those inside a call of a cache. -/
def DbEvent.happens : DbEvent A → Bool
  | .pending => false
  | _ => true

def happened (past : History A τ) : History A τ :=
  past.filter (fun entry => entry.2.happens)

omit [DecidableEq τ] in
theorem completions_happened (past : History A τ) : completions (happened past) = completions past := by
  rw [completions, happened, List.filterMap_filter]
  refine List.filterMap_congr (fun entry _ => ?_)
  obtain ⟨t, event⟩ := entry
  cases event <;> rfl

/-- The transactions of a task are those among its events. -/
theorem completions_filter (past : History A τ) (t : τ)
    : (completions past).filter (fun done => done.task = t)
      = completions (past.filter (fun entry => entry.1 = t)) := by
  rw [completions, completions, List.filter_filterMap, List.filterMap_filter]
  refine List.filterMap_congr (fun entry _ => ?_)
  obtain ⟨u, event⟩ := entry
  by_cases same : u = t <;> cases event <;> simp [completion?, same]

/-- Every run of two-phase transactions can be arranged, by induction on its steps. -/
theorem arranged_of_run {past : History A τ} (sound : db.Sound config)
    (run : Ledger.Run config past db.ledger) (idle : ∀ t, db.ledger.active t = none)
    (later : Interleaving.Run (dbStep config) db more last)
    (twoPhase : ∀ t txn, (t, .began txn) ∈ history more → txn.twoPhase = true)
    (entries : ∀ mine ∈ history more, ∀ theirs ∈ history more, mine.2.Mixing → theirs.2.Mixing
      → mine.1 ≠ theirs.1 → mine.2.EntriesApart theirs.2)
    : last.Sound config ∧ Ledger.Run config (past ++ happened (history more)) last.ledger
      ∧ (∀ entry ∈ happened (history more), entry.2.Mixing)
      ∧ ∃ blocks, last.ledger.Arranged (happened (history more)) blocks := by
  induction later with
  | start =>
      refine ⟨sound, by simpa [history, happened] using run, by simp [history, happened], [], .refl, ?_,
        .nil⟩
      exact fun t txn log => by simp [idle t]
  | @extend more state action next event earlier taken ih =>
      have snoc : history (more ++ [(action, event)]) = history more ++ [(action.1, event)] :=
        List.map_append
      rw [snoc] at twoPhase entries ⊢
      obtain ⟨here, run, mixing, blocks, arranged⟩ := ih
        (fun t txn began => twoPhase t txn (List.mem_append_left _ began))
        (fun mine inMore theirs alsoInMore => entries mine (List.mem_append_left _ inMore) theirs
          (List.mem_append_left _ alsoInMore))
      obtain ⟨moves, there⟩ := here.step taken
      refine ⟨there, ?_⟩
      by_cases pending : event = .pending
      · subst pending
        have same : next.ledger = state.ledger := by
          generalize next.ledger = after at moves
          cases moves
          rfl
        have skipped : happened (history more ++ [(action.1, .pending)]) = happened (history more) := by
          simp [happened, DbEvent.happens]
        rw [same, skipped]
        exact ⟨run, mixing, blocks, arranged⟩
      · have added : happened (history more ++ [(action.1, event)])
            = happened (history more) ++ [(action.1, event)] := by
          cases event <;> first | exact absurd rfl pending | simp [happened, DbEvent.happens]
        have within {entry : τ × DbEvent A}
            (member : entry ∈ happened (history more ++ [(action.1, event)]))
            : entry ∈ history more ++ [(action.1, event)] :=
          List.mem_of_mem_filter member
        rw [added] at within ⊢
        have began (t : τ) (txn : Transaction A) (member : (t, .began txn) ∈ happened (history more))
            : txn.twoPhase = true :=
          twoPhase t txn (within (List.mem_append_left _ member))
        have mixes := arranged.mixing run began moves pending
          (fun txn begins => twoPhase action.1 txn (by simp [begins]))
        have all : ∀ entry ∈ happened (history more) ++ [(action.1, event)], entry.2.Mixing :=
          List.forall_mem_append.mpr ⟨mixing, by simpa using mixes⟩
        refine ⟨?_, all, arranged.extend run began moves mixes ?_⟩
        · rw [← List.append_assoc]
          exact run.extend moves
        · exact fun mine first theirs second => entries mine (within first) theirs (within second)
            (all mine first) (all theirs second)

/-- While only `new_order` and `payment` run, no row is loaded twice and order ids fit into 16 bits,
the database is serializable: between two moments at which no transaction is running, records and
indexes change as in a run of the ledger that has the transactions one after the other, each task's
in its own order, and each with the same answers and the same outcome. Where a lock was busy, it is
refused again.
-/
theorem new_order_payment_serializable
    (reached : Interleaving.Run (dbStep config) (Db.empty storage hand) trace db)
    (later : Interleaving.Run (dbStep config) db more last)
    (idle : ∀ t, db.tasks t = none) (idle' : ∀ t, last.tasks t = none)
    (twoPhase : ∀ t txn, (t, .began txn) ∈ history more → txn.twoPhase = true)
    (once : LoadsOnce (history (trace ++ more))) (small : SmallIds (history (trace ++ more)))
    : ∃ (order : List (Block A τ)) (serial : Ledger A τ),
        Ledger.Run config (history trace ++ order.flatMap Block.history) serial
        ∧ order.Perm (completions (history more))
        ∧ (∀ t, order.filter (fun done => done.task = t)
          = (completions (history more)).filter (fun done => done.task = t))
        ∧ last.shared.Same serial.shared := by
  obtain ⟨sound, run⟩ := ledger_run reached
  obtain ⟨_, whole⟩ := ledger_run (reached.trans later)
  have within {entry : τ × DbEvent A} (member : entry ∈ history more)
      : entry ∈ history (trace ++ more) := by
    rw [history, List.map_append]
    exact List.mem_append_right _ member
  obtain ⟨_, run, mixing, order, arranged⟩ := arranged_of_run sound run (Db.resting idle) later twoPhase
    (fun mine first theirs second => whole.entries_apart once small (within first) (within second))
  obtain ⟨serial, run, same⟩ := run.swaps mixing arranged.swaps
  have ended := arranged.completed (Db.resting idle')
  have all := completions_happened (history more)
  refine ⟨order, serial, run, ?_, ?_, same.shared⟩
  · have perm := arranged.swaps.perm.filterMap completion?
    rwa [← completions, ← completions, ended, all] at perm
  · intro t
    have filtered := congrArg completions
      (arranged.swaps.filter_owner (fun _ _ passes => passes.different) t)
    rwa [← completions_filter, ← completions_filter, ended, all] at filtered

end Runs

/-- Two payments to the same customer. The second one begins while the first one releases its guards,
and takes each lock as soon as it is free.
-/
def handedOver : Script UInt64 Bool :=
  begins false (.payment (firstPayment 5)) 75 ++ begins true (.payment (firstPayment 7)) 19
    ++ goesOn false 1 ++ goesOn true 19 ++ goesOn false 2 ++ goesOn true 1000

/-- A payment begins or returns without an error. -/
def DbEvent.pays : DbEvent A → Bool
  | .began (.payment _) => true
  | .returned (.payment _) _ outcome => outcome.isOk
  | _ => false

/-- Only two-phase transactions begin. -/
def DbEvent.mixed : DbEvent A → Bool
  | .began txn => txn.twoPhase
  | _ => true

/-- Two payments that overlap, and both succeed. -/
theorem new_order_payment_serializable_handed_over
    : ∃ (trace more : List ((Bool × DbMove UInt64) × DbEvent UInt64)) (db last : Db UInt64 Bool),
        Interleaving.Run (dbStep (.wholeTuples false))
          (Db.empty (fun _ _ _ => 0) (fun _ _ => 0)) trace db
        ∧ Interleaving.Run (dbStep (.wholeTuples false)) db more last
        ∧ ((history more).filter (fun entry => entry.2.pays)).map Prod.fst
          = [false, true, false, true]
        ∧ ∃ (order : List (Block UInt64 Bool)) (serial : Ledger UInt64 Bool),
          Ledger.Run (.wholeTuples false) (history trace ++ order.flatMap Block.history) serial
          ∧ order.Perm (completions (history more)) ∧ last.shared.Same serial.shared := by
  obtain ⟨trace, db, run, passed⟩ := play_reaches (runs false (loadRows []))
    (fun result => (result.1.tasks true).isNone && (result.1.tasks false).isNone
      && (result.1.play handedOver).any (fun result' =>
        (result'.1.tasks true).isNone && (result'.1.tasks false).isNone
        && (history result'.2).all (fun entry => entry.2.mixed)
        && decide (LoadsOnce (history (result.2 ++ result'.2)))
        && smallIds (history (result.2 ++ result'.2))
        && ((history result'.2).filter (fun entry => entry.2.pays)).map Prod.fst
          == [false, true, false, true]))
    (by decide +kernel)
  simp only [Bool.and_eq_true, Option.isNone_iff_eq_none] at passed
  obtain ⟨⟨first, second⟩, passed⟩ := passed
  obtain ⟨more, last, later, passed⟩ := Db.play_reaches _ passed
  simp only [Bool.and_eq_true, Option.isNone_iff_eq_none, decide_eq_true_eq, beq_iff_eq] at passed
  obtain ⟨⟨⟨⟨⟨first', second'⟩, mixed⟩, once⟩, few⟩, pays⟩ := passed
  have idle : ∀ t, db.tasks t = none := Bool.forall_bool.mpr ⟨second, first⟩
  have idle' : ∀ t, last.tasks t = none := Bool.forall_bool.mpr ⟨second', first'⟩
  obtain ⟨order, serial, runs, perm, _, same⟩ := new_order_payment_serializable run later idle idle'
    (fun _ _ began => List.all_eq_true.mp mixed _ began) once (smallIds_sound few)
  exact ⟨trace, more, db, last, run, later, pays, order, serial, runs, perm, same⟩

end Alchemy.Tpcc
