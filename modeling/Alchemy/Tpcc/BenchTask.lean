import Alchemy.Tpcc.LogEntries

/-! `bench_task`: it draws one input after the other, runs the transaction of each until it
returns `Ok` or has failed five times, logs the input and counts a commit. What the executions
of one input returned is given with the input.
-/

namespace Alchemy.Tpcc

open Oid Cache

variable {A : Type} [Money A]

/-! ### The task -/

inductive Workload
  | payment
  | newOrder
  | orderStatus
  | delivery
  | stockLevel
deriving DecidableEq, Repr

inductive BenchInput (A : Type)
  | payment (input : PaymentInput A)
  | newOrder (input : NewOrderInput)
  | orderStatus (input : OrderStatusInput)
  | delivery (input : DeliveryInput)
  | stockLevel (input : StockLevelInput)

def BenchInput.workload : BenchInput A → Workload
  | .payment _ => .payment
  | .newOrder _ => .newOrder
  | .orderStatus _ => .orderStatus
  | .delivery _ => .delivery
  | .stockLevel _ => .stockLevel

/-- Order status is read only, no logging needed. -/
def Workload.logged : Workload → Bool
  | .orderStatus => false
  | .payment | .newOrder | .delivery | .stockLevel => true

structure TransactionResult where
  commit : Nat
  abort : Nat
deriving DecidableEq, Repr

/-- The counters of a task, and the inputs it has logged with their entries, oldest first. -/
structure BenchState (A : Type) where
  txnResult : Workload → TransactionResult
  log : List (BenchInput A × List Byte)

def BenchState.default : BenchState A where
  txnResult _ := ⟨0, 0⟩
  log := []

/-- An input with what the executions of its transaction returned, in order. -/
structure BenchRound (A : Type) where
  input : BenchInput A
  results : List (Except TransactionError Unit)

/-- `txn_err_to_counter` panics on an index that was not found; without metrics it is not
called.
-/
def counterPanics (metrics : Bool) (error : TransactionError) : Bool :=
  metrics && error = .indexNotFound

/-- The loop `while let Err(e) = ..` from `retry_cnt` on. Its value is the number of failures;
`none` says that the task panicked or that these are not the results of a whole loop.
-/
def retryLoop (metrics : Bool) (retryCnt : Nat) : List (Except TransactionError Unit) → Option Nat
  | [] => none
  | .ok () :: rest => if rest.isEmpty then some retryCnt else none
  | .error e :: rest =>
      if counterPanics metrics e then none
      else if 5 ≤ retryCnt + 1 then
        -- deadlock prevention on async txn
        if rest.isEmpty then some (retryCnt + 1) else none
      else retryLoop metrics (retryCnt + 1) rest

section Encoder

variable [Bincode]

def BenchInput.logTxn : BenchInput A → Option (List Byte)
  | .payment input => Tpcc.logTxn input
  | .newOrder input => Tpcc.logTxn input
  | .orderStatus _ => none
  | .delivery input => Tpcc.logTxn input
  | .stockLevel input => Tpcc.logTxn input

/-- `log_txn` for the kinds that are logged. -/
def BenchState.writeLog (state : BenchState A) (input : BenchInput A)
    : Option (List (BenchInput A × List Byte)) :=
  if input.workload.logged then input.logTxn.map (fun entry => state.log ++ [(input, entry)])
  else some state.log

/-- What follows the loop, whichever way it was left: log the input, `inc_commit`. -/
def BenchState.finish (state : BenchState A) (input : BenchInput A) (aborts : Nat)
    : Option (BenchState A) :=
  let before := state.txnResult input.workload
  (state.writeLog input).map (fun log =>
    { txnResult :=
        Function.update state.txnResult input.workload ⟨before.commit + 1, before.abort + aborts⟩
      log })

/-- One iteration of the loop of `bench_task`. -/
def BenchState.round (metrics : Bool) (state : BenchState A) (round : BenchRound A)
    : Option (BenchState A) :=
  (retryLoop metrics 0 round.results).bind (state.finish round.input)

/-- `bench_task`, for the rounds until the benchmark stops; `none` is a panic. -/
def benchTask (metrics : Bool) (rounds : List (BenchRound A)) : Option (BenchState A) :=
  rounds.foldlM (BenchState.round metrics) .default

/-! ### What it counts -/

/-- The transaction of the round returned `Ok`. -/
def BenchRound.committed (round : BenchRound A) : Bool :=
  round.results.any (fun result => result.isOk)

/-- The round's kind is one that is logged. -/
def BenchRound.logged (round : BenchRound A) : Bool :=
  round.input.workload.logged

/-- The counters and the log of `rounds` where those in `counts` count. -/
structure BenchState.Books (counts : BenchRound A → Bool) (rounds : List (BenchRound A))
    (state : BenchState A) : Prop where
  commits : ∀ kind, (state.txnResult kind).commit
    = rounds.countP (fun round => round.input.workload = kind && counts round)
  logs : state.log.map Prod.fst
    = (rounds.filter (fun round => round.logged && counts round)).map BenchRound.input

variable {metrics : Bool} {state next : BenchState A} {rounds : List (BenchRound A)}

/-- A round that gets past the loop is counted and logged. -/
theorem BenchState.Books.round {last : BenchRound A} (books : state.Books (fun _ => true) rounds)
    (played : state.round metrics last = some next)
    : next.Books (fun _ => true) (rounds ++ [last]) := by
  obtain ⟨aborts, _, finished⟩ := Option.bind_eq_some_iff.mp played
  obtain ⟨log, logged, rfl⟩ := Option.map_eq_some_iff.mp finished
  constructor
  · intro kind
    have before := books.commits kind
    by_cases this : last.input.workload = kind
    · subst this
      simp [List.countP_append, before]
    · simp [List.countP_append, before, this, Function.update_of_ne (Ne.symm this)]
  · have before := books.logs
    unfold BenchState.writeLog at logged
    split at logged
    next yes =>
      obtain ⟨entry, _, rfl⟩ := Option.map_eq_some_iff.mp logged
      simp [List.filter_append, before, BenchRound.logged, yes]
    next no =>
      cases logged
      simp [List.filter_append, before, BenchRound.logged, no]

/-- Every round of a task that returns is counted and logged, by induction on the rounds. -/
theorem benchTask_books (returns : benchTask metrics rounds = some state)
    : state.Books (fun _ => true) rounds := by
  induction rounds using List.reverseRecOn generalizing state with
  | nil =>
      cases returns
      exact ⟨fun _ => rfl, rfl⟩
  | append_singleton rounds last ih =>
      rw [benchTask, List.foldlM_append, Option.bind_eq_bind, Option.bind_eq_some_iff] at returns
      obtain ⟨before, earlier, played⟩ := returns
      rw [List.foldlM_cons, Option.bind_eq_bind, Option.bind_eq_some_iff] at played
      obtain ⟨after, played, same⟩ := played
      cases same
      exact (ih earlier).round played

/-- In a task that returns, the commit counter of each kind is the number of its inputs whose
transaction returned `Ok`, and the log holds exactly those inputs of the logged kinds, if and
only if the transaction of every input did: giving up after five failures is counted and logged
as a commit.
-/
theorem benchTask_counts_commits_iff (returns : benchTask metrics rounds = some state)
    : state.Books BenchRound.committed rounds ↔ ∀ round ∈ rounds, round.committed = true := by
  have books := benchTask_books returns
  constructor
  · intro right round member
    have all : (rounds.filter (fun other => other.input.workload = round.input.workload)).length
        = (rounds.filter (fun other => other.input.workload = round.input.workload)).countP
            BenchRound.committed := by
      rw [List.countP_filter, ← List.countP_eq_length_filter]
      simpa [Bool.and_comm] using
        (books.commits round.input.workload).symm.trans (right.commits round.input.workload)
    exact List.countP_eq_length.mp all.symm round
      (List.mem_filter.mpr ⟨member, decide_eq_true rfl⟩)
  · intro committed
    constructor
    · intro kind
      rw [books.commits kind]
      exact List.countP_congr (fun round member => by simp [committed round member])
    · rw [books.logs]
      congr 1
      exact List.filter_congr (fun round member => by simp [committed round member])

end Encoder

/-- A delivery that returns `Ok` at its third attempt. -/
def retriedDelivery : BenchRound UInt64 where
  input := .delivery ⟨0, 1⟩
  results := [.error .writeLockBusy, .error .lockBusy, .ok ()]

theorem benchTask_counts_retried_delivery
    : ∃ state, benchTask false [retriedDelivery] = some state
      ∧ state.Books BenchRound.committed [retriedDelivery] := by
  have returns : (benchTask false [retriedDelivery]).isSome := by decide +kernel
  obtain ⟨state, returns⟩ := Option.isSome_iff_exists.mp returns
  exact ⟨state, returns, (benchTask_counts_commits_iff returns).mpr (by decide)⟩

/-- A delivery that fails five times. -/
def failedDelivery : BenchRound UInt64 where
  input := .delivery ⟨0, 1⟩
  results := List.replicate 5 (.error .writeLockBusy)

/-- It is counted as a commit and logged. -/
theorem benchTask_counts_failed_delivery
    : ∃ state, benchTask false [failedDelivery] = some state
      ∧ failedDelivery.committed = false
      ∧ (state.txnResult .delivery).commit = 1
      ∧ state.log.map Prod.fst = [failedDelivery.input] := by
  have returns : (benchTask false [failedDelivery]).isSome := by decide +kernel
  obtain ⟨state, returns⟩ := Option.isSome_iff_exists.mp returns
  have books := benchTask_books returns
  exact ⟨state, returns, by decide, books.commits .delivery, books.logs⟩

end Alchemy.Tpcc
