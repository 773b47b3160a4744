import Mathlib.Algebra.BigOperators.Group.Finset.Basic
import Mathlib.Algebra.Order.BigOperators.Group.Finset
import Mathlib.Algebra.Order.BigOperators.Group.List
import Mathlib.Algebra.Order.Group.Multiset
import Mathlib.Tactic.Abel
import Alchemy.Tpcc.Rows

/-! Who did what. Every operation of a run is in the log of one transaction, which has returned
or is still running. So what the operations amount to is what the logs amount to.
-/

namespace Alchemy.Tpcc

open Cache Oid Interaction

variable {A τ : Type} [Money A] [DecidableEq τ]

/-! ### Logs -/

/-- The log of a transaction that did what it is allowed to; at its end it releases guards. -/
inductive Transaction.Obeyed (txn : Transaction A) : List (Step A) → Prop
  | nil : Obeyed txn []
  | perform {log op answer} (earlier : Obeyed txn log) (allows : txn.Allows log op)
    (relied : Rely log op answer)
    : Obeyed txn (⟨op, answer⟩ :: log)
  | release {log table rid kind} (earlier : Obeyed txn log)
    : Obeyed txn (⟨.drop table rid kind, ()⟩ :: log)

/-- What is known of a transaction that has returned. -/
structure Closed (past : History A τ) (t : τ) (txn : Transaction A) (log : List (Step A))
    (outcome : Except Stop Unit)
    : Prop where
  obeyed : txn.Obeyed log
  ends : txn.Ends log outcome
  free : ∀ table, guards table log = []
  logged : ∀ step ∈ log, (t, .did step) ∈ past
  began : (t, .began txn) ∈ past

namespace Ledger

variable {config : DbConfig} {ledger next : Ledger A τ} {past : History A τ} {t : τ}
  {activity : Activity A}

theorem Run.obeyed (run : Run config past ledger) (here : ledger.active t = some activity)
    : activity.txn.Obeyed activity.log := by
  induction run generalizing t activity with
  | start => cases here
  | @extend past ledger mover next event earlier moves ih =>
      cases moves.comes here with
      | stays here => exact ih here
      | begins => exact .nil
      | did active calls answers =>
          exact (ih active).perform (earlier.allows active calls)
            (earlier.lastRead.rely active answers)
      | release active => exact (ih active).release

/-- A running transaction was begun. -/
theorem Run.began (run : Run config past ledger) (here : ledger.active t = some activity)
    : (t, .began activity.txn) ∈ past := by
  induction run generalizing t activity with
  | start => cases here
  | @extend past ledger mover next event earlier moves ih =>
      cases moves.comes here with
      | stays here => exact List.mem_append_left _ (ih here)
      | begins => simp
      | did active | release active =>
          have begun := ih active
          exact List.mem_append_left _ begun

theorem Run.closed {txn : Transaction A} {log : List (Step A)} {outcome : Except Stop Unit}
    (run : Run config past ledger) (returned : (t, .returned txn log outcome) ∈ past)
    : Closed past t txn log outcome := by
  induction run with
  | start => cases returned
  | @extend past ledger mover next event earlier moves ih =>
      rcases List.mem_append.mp returned with before | new
      · have closed := ih before
        exact { closed with
          logged := fun step member => List.mem_append_left _ (closed.logged step member)
          began := List.mem_append_left _ closed.began }
      · cases List.mem_singleton.mp new
        cases moves with
        | finish here ended free =>
            exact
              { obeyed := earlier.obeyed here
                ends := earlier.ends here ended
                free
                logged := fun step member =>
                  List.mem_append_left _ (earlier.logged here member)
                began := List.mem_append_left _ (earlier.began here) }

end Ledger

/-! ### Sums -/

section Sums

variable {M : Type} [AddCommMonoid M] (opening : Transaction A → M) (worth : Step A → M)

/-- What a log amounts to. -/
def logWorth (log : List (Step A)) : M :=
  (log.map worth).sum

/-- What an event adds. -/
def DbEvent.adds : DbEvent A → M
  | .began txn => opening txn
  | .did step => worth step
  | _ => 0

/-- What a transaction has added by the time it returns. -/
def DbEvent.settles : DbEvent A → M
  | .returned txn log _ => opening txn + logWorth worth log
  | _ => 0

/-- What the transaction of a task has added so far. -/
def Ledger.holds (ledger : Ledger A τ) (t : τ) : M :=
  match ledger.active t with
  | none => 0
  | some activity => opening activity.txn + logWorth worth activity.log

namespace Ledger

variable {config : DbConfig} {ledger next : Ledger A τ} {past : History A τ} {t : τ}
  {event : DbEvent A} {tasks : Finset τ}

/-- A step adds to what its task holds, or settles it. -/
theorem Moves.holds (moves : ledger.Moves config t next event)
    : ledger.holds opening worth t + event.adds opening worth
      = event.settles opening worth + next.holds opening worth t := by
  cases moves with
  | rest => simp [DbEvent.adds, DbEvent.settles]
  | begin idle =>
      simp [Ledger.holds, idle, setActive_active, DbEvent.adds, DbEvent.settles, logWorth]
  | did here | release here =>
      simp only [Ledger.holds, here, record_active, DbEvent.adds, DbEvent.settles, logWorth,
        List.map_cons, List.sum_cons, zero_add]
      rw [add_assoc, add_comm (List.sum _)]
  | finish here =>
      simp [Ledger.holds, here, setActive_active, DbEvent.adds, DbEvent.settles]

theorem Moves.holds_other {other : τ} (moves : ledger.Moves config t next event)
    (different : other ≠ t)
    : next.holds opening worth other = ledger.holds opening worth other := by
  rw [Ledger.holds, Ledger.holds, moves.active_other different]

/-- What was added was settled by a transaction that has returned, or is held by one that is
running.
-/
theorem Run.balance (run : Run config past ledger) (covers : ∀ entry ∈ past, entry.1 ∈ tasks)
    : (past.map (fun entry => entry.2.adds opening worth)).sum
      = (past.map (fun entry => entry.2.settles opening worth)).sum
        + ∑ t ∈ tasks, ledger.holds opening worth t := by
  induction run with
  | start => simp [Ledger.holds, Ledger.empty]
  | @extend past ledger mover next event earlier moves ih =>
      have here : mover ∈ tasks := covers _ (List.mem_append_right _ List.mem_cons_self)
      have others : ∑ t ∈ tasks.erase mover, next.holds opening worth t
          = ∑ t ∈ tasks.erase mover, ledger.holds opening worth t :=
        Finset.sum_congr rfl (fun t member =>
          moves.holds_other opening worth (Finset.ne_of_mem_erase member))
      have before := ih (fun entry member => covers entry (List.mem_append_left _ member))
      simp only [List.map_append, List.sum_append, List.map_cons, List.map_nil, List.sum_cons,
        List.sum_nil, add_zero]
      rw [before, ← Finset.add_sum_erase tasks _ here, ← Finset.add_sum_erase tasks _ here, others]
      have moved := moves.holds opening worth
      calc _ = (past.map (fun entry => entry.2.settles opening worth)).sum
            + (ledger.holds opening worth mover + event.adds opening worth)
            + ∑ t ∈ tasks.erase mover, ledger.holds opening worth t := by abel
        _ = _ := by rw [moved]; abel

end Ledger

omit [DecidableEq τ] in
theorem sum_adds_steps (past : History A τ)
    : (past.map (fun entry => entry.2.adds (fun _ => 0) worth)).sum
      = logWorth worth (steps past) := by
  induction past with
  | nil => rfl
  | cons entry rest ih =>
      obtain ⟨t, event⟩ := entry
      rw [List.map_cons, List.sum_cons, ih]
      cases event <;> simp [steps, DbEvent.step?, DbEvent.adds, logWorth]

/-- The same for operations alone. -/
theorem Ledger.Run.steps_balance {config : DbConfig} {ledger : Ledger A τ} {past : History A τ}
    {tasks : Finset τ} (run : Run config past ledger)
    (covers : ∀ entry ∈ past, entry.1 ∈ tasks)
    : logWorth worth (steps past)
      = (past.map (fun entry => entry.2.settles (fun _ => 0) worth)).sum
        + ∑ t ∈ tasks, ledger.holds (fun _ => 0) worth t := by
  rw [← run.balance (fun _ => 0) worth covers, sum_adds_steps]

omit [Money A] in
theorem logWorth_cons (step : Step A) (log : List (Step A))
    : logWorth worth (step :: log) = worth step + logWorth worth log :=
  rfl

omit [Money A] in
theorem logWorth_append (log more : List (Step A))
    : logWorth worth (log ++ more) = logWorth worth log + logWorth worth more := by
  rw [logWorth, List.map_append, List.sum_append, logWorth, logWorth]

omit [Money A] in
/-- Only changes count. -/
theorem logWorth_changes (log : List (Step A))
    (quiet : ∀ step, step.op.changes = false → worth step = 0)
    : logWorth worth (changes log) = logWorth worth log := by
  induction log with
  | nil => rfl
  | cons step rest ih =>
      rw [changes_cons, logWorth_cons, ← ih]
      cases changing : step.op.changes with
      | true =>
          rw [if_pos rfl, logWorth_append, add_comm]
          simp [logWorth]
      | false => simp [quiet step changing]

end Sums

/-- What holds of each log holds of all operations. -/
theorem Ledger.Run.logWorth_le {config : DbConfig} {ledger : Ledger A τ} {past : History A τ}
    (opening : Transaction A → Nat) (worth bound : Step A → Nat) (run : Run config past ledger)
    (each
      : ∀ (txn : Transaction A) log, txn.Obeyed log
        → logWorth worth log ≤ opening txn + logWorth bound log)
    : logWorth worth (steps past)
      ≤ (past.map (fun entry => entry.2.adds opening bound)).sum := by
  let tasks : Finset τ := (past.map Prod.fst).toFinset
  have covers : ∀ entry ∈ past, entry.1 ∈ tasks :=
    fun entry member => List.mem_toFinset.mpr (List.mem_map_of_mem member)
  rw [run.steps_balance worth covers, run.balance opening bound covers]
  refine Nat.add_le_add (List.sum_le_sum ?_) (Finset.sum_le_sum ?_)
  · rintro ⟨t, event⟩ member
    cases event with
    | returned txn log outcome =>
        simp only [DbEvent.settles, Nat.zero_add]
        exact each txn log (run.closed member).obeyed
    | pending | began | did => exact Nat.le_refl _
  · intro t _
    cases here : ledger.active t with
    | none => simp [Ledger.holds, here]
    | some activity =>
        simp only [Ledger.holds, here, Nat.zero_add]
        exact each _ _ (run.obeyed here)

/-! ### The transactions of a run -/

/-- A transaction of a run with its log so far: it has returned, or it is still running. -/
def Ledger.Ran (ledger : Ledger A τ) (past : History A τ) (t : τ) (txn : Transaction A)
    (log : List (Step A))
    : Prop :=
  (∃ outcome, (t, .returned txn log outcome) ∈ past)
  ∨ ∃ activity, ledger.active t = some activity ∧ activity.txn = txn ∧ activity.log = log

namespace Ledger

variable {config : DbConfig} {ledger : Ledger A τ} {past : History A τ} {t other : τ}
  {txn theirs : Transaction A} {log elsewhere : List (Step A)}

theorem Run.ran_obeyed (run : Run config past ledger) (ran : ledger.Ran past t txn log)
    : txn.Obeyed log := by
  rcases ran with ⟨outcome, returned⟩ | ⟨activity, here, rfl, rfl⟩
  · exact (run.closed returned).obeyed
  · exact run.obeyed here

theorem Run.ran_logged (run : Run config past ledger) (ran : ledger.Ran past t txn log)
    : ∀ step ∈ log, step ∈ steps past := by
  intro step member
  rcases ran with ⟨outcome, returned⟩ | ⟨activity, here, rfl, rfl⟩
  · exact List.mem_filterMap.mpr ⟨_, (run.closed returned).logged step member, rfl⟩
  · exact run.logged_steps here member

/-- A rule for the logs of a run: what holds of the empty log and is kept by every operation, at
the time it is performed, holds of the logs of all transactions.
-/
theorem Run.ran_induction {motive : Transaction A → List (Step A) → Prop}
    (run : Run config past ledger) (nil : ∀ txn, motive txn [])
    (did
      : ∀ {before : History A τ} {present : Ledger A τ} {t : τ} {activity : Activity A}
          {op : Op A} {next : op.Answer → Remainder A} {answer : op.Answer},
          Run config before present → before <+: past → present.active t = some activity
          → activity.rest = .call op next → present.Answers config t op answer
          → motive activity.txn activity.log
          → motive activity.txn (⟨op, answer⟩ :: activity.log))
    (release
      : ∀ {txn log table rid kind}, motive txn log
        → motive txn (⟨.drop table rid kind, ()⟩ :: log))
    (ran : ledger.Ran past t txn log)
    : motive txn log := by
  induction run generalizing t txn log with
  | start =>
      rcases ran with ⟨outcome, returned⟩ | ⟨activity, here, _⟩
      · cases returned
      · cases here
  | @extend past ledger mover next event earlier moves ih =>
      have ih {t : τ} {txn : Transaction A} {log : List (Step A)}
          (ran : ledger.Ran past t txn log) : motive txn log :=
        ih (fun run sooner => did run (sooner.trans ⟨_, rfl⟩)) ran
      rcases ran with ⟨outcome, returned⟩ | ⟨activity, here, rfl, rfl⟩
      · rcases List.mem_append.mp returned with before | now
        · exact ih (.inl ⟨outcome, before⟩)
        · cases List.mem_singleton.mp now
          cases moves with
          | finish active => exact ih (.inr ⟨_, active, rfl, rfl⟩)
      · cases moves.comes here with
        | stays here => exact ih (.inr ⟨activity, here, rfl, rfl⟩)
        | begins => exact nil _
        | did active calls answers =>
            exact did earlier ⟨_, rfl⟩ active calls answers (ih (.inr ⟨_, active, rfl, rfl⟩))
        | release active => exact release (ih (.inr ⟨_, active, rfl, rfl⟩))

/-- Every operation of a task is one of its transactions. -/
theorem Run.ran_own {step : Step A} (run : Run config past ledger) (did : (t, .did step) ∈ past)
    : ∃ txn log, ledger.Ran past t txn log ∧ step ∈ log := by
  induction run with
  | start => cases did
  | @extend past ledger mover next event earlier moves ih =>
      rcases List.mem_append.mp did with old | new
      · obtain ⟨txn, log, ran, member⟩ := ih old
        rcases ran with ⟨outcome, returned⟩ | ⟨activity, here, rfl, rfl⟩
        · exact ⟨txn, log, .inl ⟨outcome, List.mem_append_left _ returned⟩, member⟩
        by_cases same : t = mover
        · subst same
          cases moves with
          | rest => exact ⟨_, _, .inr ⟨activity, here, rfl, rfl⟩, member⟩
          | begin idle =>
              rw [here] at idle
              cases idle
          | did active | release active =>
              obtain rfl := Option.some.inj (here.symm.trans active)
              exact ⟨_, _, .inr ⟨_, record_active .., rfl, rfl⟩, List.mem_cons_of_mem _ member⟩
          | @finish _ outcome active =>
              obtain rfl := Option.some.inj (here.symm.trans active)
              exact ⟨_, _, .inl ⟨outcome, List.mem_append_right _ List.mem_cons_self⟩, member⟩
        · exact ⟨_, _, .inr ⟨activity, (moves.active_other same).trans here, rfl, rfl⟩, member⟩
      · obtain ⟨rfl, rfl⟩ := Prod.mk.inj (List.mem_singleton.mp new)
        cases moves with
        | did active | release active =>
            exact ⟨_, _, .inr ⟨_, record_active .., rfl, rfl⟩, List.mem_cons_self⟩

theorem Run.ran {step : Step A} (run : Run config past ledger) (did : step ∈ steps past)
    : ∃ t txn log, ledger.Ran past t txn log ∧ step ∈ log := by
  obtain ⟨⟨t, event⟩, member, same⟩ := List.mem_filterMap.mp did
  cases event with
  | did step' =>
      cases same
      exact ⟨t, run.ran_own member⟩
  | pending | began | returned => cases same

omit [DecidableEq τ] in
/-- Two entries that settle something settle at least two. -/
theorem two_le_settled (settled : τ × DbEvent A → Nat) {first second : τ × DbEvent A}
    (left : first ∈ past) (right : second ∈ past) (different : first ≠ second)
    (one : 1 ≤ settled first) (one' : 1 ≤ settled second)
    : 2 ≤ (past.map settled).sum := by
  have within {entry : τ × DbEvent A} {rest : History A τ} (member : entry ∈ rest)
      : settled entry ≤ (rest.map settled).sum :=
    List.single_le_sum (fun _ _ => Nat.zero_le _) _ (List.mem_map_of_mem member)
  induction past with
  | nil => cases left
  | cons entry rest ih =>
      rw [List.map_cons, List.sum_cons]
      rcases List.mem_cons.mp left with rfl | inRest
      · have := within ((List.mem_cons.mp right).resolve_left (Ne.symm different))
        omega
      · rcases List.mem_cons.mp right with rfl | inRest'
        · have := within inRest
          omega
        · exact Nat.le_trans (ih inRest inRest') (Nat.le_add_left _ _)

/-- If all transactions together amount to one, then at most one of them amounts to anything. -/
theorem Run.sole {opening : Transaction A → Nat} {worth : Step A → Nat}
    (run : Run config past ledger)
    (total : (past.map (fun entry => entry.2.adds opening worth)).sum ≤ 1)
    (first : ledger.Ran past t txn log) (second : ledger.Ran past other theirs elsewhere)
    (mine : 1 ≤ opening txn + logWorth worth log)
    (also : 1 ≤ opening theirs + logWorth worth elsewhere)
    : t = other ∧ txn = theirs ∧ log = elsewhere := by
  let tasks : Finset τ := (past.map Prod.fst).toFinset
  have covers : ∀ entry ∈ past, entry.1 ∈ tasks :=
    fun entry member => List.mem_toFinset.mpr (List.mem_map_of_mem member)
  rw [run.balance opening worth covers] at total
  have settled {t : τ} {txn : Transaction A} {log : List (Step A)} {outcome : Except Stop Unit}
      (returned : (t, .returned txn log outcome) ∈ past)
      : opening txn + logWorth worth log
        ≤ (past.map (fun entry => entry.2.settles opening worth)).sum :=
    List.single_le_sum (fun _ _ => Nat.zero_le _) _
      (List.mem_map_of_mem (f := fun entry => entry.2.settles opening worth) returned)
  have held {t : τ} {activity : Activity A} (here : ledger.active t = some activity)
      : ledger.holds opening worth t = opening activity.txn + logWorth worth activity.log := by
    rw [Ledger.holds, here]
  have running {t : τ} {activity : Activity A} (here : ledger.active t = some activity)
      : opening activity.txn + logWorth worth activity.log
        ≤ ∑ t ∈ tasks, ledger.holds opening worth t := by
    rw [← held here]
    exact Finset.single_le_sum (fun _ _ => Nat.zero_le _) (covers _ (run.began here))
  rcases first with ⟨outcome, returned⟩ | ⟨activity, here, rfl, rfl⟩ <;>
    rcases second with ⟨outcome', returned'⟩ | ⟨activity', here', rfl, rfl⟩
  · by_contra different
    have two := two_le_settled (fun entry => entry.2.settles opening worth)
      returned returned' (by rintro ⟨⟩; exact different ⟨rfl, rfl, rfl⟩) mine also
    omega
  · have := settled returned
    have := running here'
    omega
  · have := settled returned'
    have := running here
    omega
  · by_cases same : t = other
    · subst same
      obtain rfl := Option.some.inj (here.symm.trans here')
      exact ⟨rfl, rfl, rfl⟩
    · have two : ∑ t ∈ {t, other}, ledger.holds opening worth t
          ≤ ∑ t ∈ tasks, ledger.holds opening worth t := by
        refine Finset.sum_le_sum_of_subset (fun task member => ?_)
        rcases Finset.mem_insert.mp member with rfl | member
        · exact covers _ (run.began here)
        · rw [Finset.mem_singleton.mp member]
          exact covers _ (run.began here')
      rw [Finset.sum_pair same, held here, held here'] at two
      omega

end Ledger

/-! ### Operations picked out of the logs -/

section Picks

variable {β : Type} (pick : Step A → Option β)

/-- How many operations are picked. -/
def hits (step : Step A) : Nat :=
  (pick step).elim 0 (fun _ => 1)

/-- What is picked. -/
def picks (step : Step A) : Multiset β :=
  (pick step).elim 0 (fun found => {found})

omit [Money A] in
theorem logWorth_hits (log : List (Step A))
    : logWorth (hits pick) log = (log.filterMap pick).length := by
  induction log with
  | nil => rfl
  | cons step rest ih =>
      rw [logWorth] at ih ⊢
      rw [List.map_cons, List.sum_cons, ih, hits]
      cases picked : pick step with
      | none => rw [List.filterMap_cons_none picked]; simp
      | some found => rw [List.filterMap_cons_some picked]; simp [Nat.add_comm]

omit [Money A] in
theorem logWorth_picks (log : List (Step A))
    : logWorth (picks pick) log = (log.filterMap pick : Multiset β) := by
  induction log with
  | nil => rfl
  | cons step rest ih =>
      rw [logWorth] at ih ⊢
      rw [List.map_cons, List.sum_cons, ih, picks]
      cases picked : pick step with
      | none => rw [List.filterMap_cons_none picked]; simp
      | some found => rw [List.filterMap_cons_some picked]; simp

omit [Money A] in
/-- What is picked from a log is picked from its changes. -/
theorem filterMap_changes (log : List (Step A))
    (changing : ∀ step found, pick step = some found → step.op.changes = true)
    : (changes log).filterMap pick = (log.filterMap pick).reverse := by
  rw [changes, List.filterMap_reverse, List.filterMap_filter]
  refine congrArg List.reverse (List.filterMap_congr (fun step _ => ?_))
  cases picked : pick step with
  | none => simp
  | some found => rw [if_pos (changing step found picked)]

end Picks

end Alchemy.Tpcc
