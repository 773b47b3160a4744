import Alchemy.Tpcc.Contracts

/-! The operations of a run in the order in which they returned. Records and indexes are what
replaying them gives. So facts about records, once inserted, and about what was found in an
index hold by induction on the operations, whoever performed them.
-/

namespace Alchemy.Tpcc

open Cache Oid Interaction

variable {A τ : Type} [Money A]

/-! ### Replay -/

def DbEvent.step? : DbEvent A → Option (Step A)
  | .did step => some step
  | _ => none

/-- The operations that have returned, oldest first. -/
def steps (past : History A τ) : List (Step A) :=
  past.filterMap (fun entry => entry.2.step?)

/-- Records and indexes after operations that have returned. -/
def replay (done : List (Step A)) : Shared A :=
  done.foldl Shared.after .empty

namespace Shared

/-- What records and indexes say about an answer. -/
def Answers (config : DbConfig) (shared : Shared A) : (op : Op A) → op.Answer → Prop
  | .get table key, answer => answer = (shared.index table)[key]?
  | .getValue table rid query name, answer | .getValueMut table rid query name _, answer =>
      ∃ record, shared.rows table rid = some record ∧ Table.Reads record query name answer
  | .insert table _, rid => shared.rows table rid = none
  | .indexInsert table key _, answer => answer = (shared.index table)[key]?
  | .range table low high length, answer =>
      answer = (config.scan.range (shared.index table) low high length).map Prod.snd
  | .newOrderInsert key _, answer => answer = shared.newOrder[key]?
  | .newOrderRange low high length, answer =>
      answer = config.scan.range shared.newOrder low high length
  | .newOrderRemove key, answer => answer = shared.newOrder[key]?
  | .lock _ _ _, _ | .read _ _ _, _ | .readAndPromote _ _ _, _ | .drop _ _ _, _
  | .lastNameInsert _ _, _ | .lastNameRange _ _ _, _ => True

end Shared

/-- Operations, oldest first, each of them performed by some transaction as it is allowed to,
and answered from what those before it have left.
-/
inductive Chronicle (config : DbConfig) : List (Step A) → Prop
  | start : Chronicle config []
  | perform {done txn log op answer} (earlier : Chronicle config done)
    (logged : ∀ step ∈ log, step ∈ done) (allows : Transaction.Allows txn log op)
    (relied : Rely log op answer) (answers : (replay done).Answers config op answer)
    : Chronicle config (done ++ [⟨op, answer⟩])
  | release {done table rid kind} (earlier : Chronicle config done)
    : Chronicle config (done ++ [⟨.drop table rid kind, ()⟩])

omit [Money A] in
theorem replay_append (done : List (Step A)) (step : Step A)
    : replay (done ++ [step]) = (replay done).after step := by
  simp [replay]

theorem steps_append (past : History A τ) (t : τ) (event : DbEvent A)
    : steps (past ++ [(t, event)]) = steps past ++ event.step?.toList := by
  cases step : event.step? <;> simp [steps, step]

namespace Ledger

variable [DecidableEq τ] {config : DbConfig} {ledger : Ledger A τ} {past : History A τ} {t : τ}
  {activity : Activity A} {step : Step A}

omit [DecidableEq τ] in
theorem Answers.shared {op : Op A} {answer : op.Answer}
    (answers : ledger.Answers config t op answer)
    : ledger.shared.Answers config op answer := by
  cases op with
  | getValue | getValueMut | insert => exact answers.2
  | lock | read | readAndPromote | drop | lastNameInsert | lastNameRange => trivial
  | _ => exact answers

/-- What a running transaction has logged, its task did. -/
theorem Run.logged (run : Run config past ledger) (here : ledger.active t = some activity)
    (member : step ∈ activity.log)
    : (t, .did step) ∈ past := by
  induction run generalizing t activity with
  | start => cases here
  | @extend past ledger mover next event earlier moves ih =>
      cases moves.comes here with
      | stays here => exact List.mem_append_left _ (ih here member)
      | begins => cases member
      | did active | release active =>
          rcases List.mem_cons.mp member with rfl | old
          · simp
          · exact List.mem_append_left _ (ih active old)

theorem Run.logged_steps (run : Run config past ledger)
    (here : ledger.active t = some activity) (member : step ∈ activity.log)
    : step ∈ steps past :=
  List.mem_filterMap.mpr ⟨_, run.logged here member, rfl⟩

/-- What holds for the operations of a task since it was idle holds in its logs. -/
structure Logs (ledger : Ledger A τ) (t : τ) (holds : Step A → Prop) (past : History A τ)
    : Prop where
  running : ∀ activity, ledger.active t = some activity → ∀ step ∈ activity.log, holds step
  returned : ∀ txn log outcome, (t, .returned txn log outcome) ∈ past → ∀ step ∈ log, holds step

omit [DecidableEq τ] in
theorem Logs.start {holds : Step A → Prop} (idle : ledger.active t = none)
    : ledger.Logs t holds [] where
  running activity here := by
    rw [idle] at here
    cases here
  returned _ _ _ member := by cases member

theorem Logs.extend {holds : Step A → Prop} {mover : τ} {next : Ledger A τ} {event : DbEvent A}
    (logs : ledger.Logs t holds past) (moves : ledger.Moves config mover next event)
    (new : ∀ step, event = .did step → holds step)
    : next.Logs t holds (past ++ [(mover, event)]) where
  running activity here step member := by
    cases moves.comes here with
    | stays here => exact logs.running _ here step member
    | begins => cases member
    | did active | release active =>
        rcases List.mem_cons.mp member with rfl | before
        · exact new _ rfl
        · exact logs.running _ active step before
  returned txn log outcome member := by
    rcases List.mem_append.mp member with before | now
    · exact logs.returned txn log outcome before
    · cases List.mem_singleton.mp now
      cases moves with
      | finish here => exact logs.running _ here

/-- A run replays its operations. -/
theorem Run.chronicle (run : Run config past ledger)
    : Chronicle config (steps past) ∧ ledger.shared = replay (steps past) := by
  induction run with
  | start => exact ⟨.start, rfl⟩
  | @extend past ledger mover next event earlier moves ih =>
      obtain ⟨chronicle, same⟩ := ih
      rw [steps_append]
      cases moves with
      | rest | begin | finish => simpa [DbEvent.step?] using ⟨chronicle, same⟩
      | @did activity op onward answer here calls answers =>
          have answered := answers.shared
          rw [same] at answered
          refine ⟨chronicle.perform (fun step => earlier.logged_steps here)
            (earlier.allows here calls) (earlier.lastRead.rely here answers) answered, ?_⟩
          simp only [DbEvent.step?, Option.toList_some, replay_append, ← same]
          rfl
      | @release activity outcome table rid kind here =>
          refine ⟨chronicle.release, ?_⟩
          simp only [DbEvent.step?, Option.toList_some, replay_append, ← same]
          rfl

end Ledger

end Alchemy.Tpcc
