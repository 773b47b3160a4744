import Alchemy.Tpcc.Deliveries
import Alchemy.Tpcc.NewOrderEntries

/-! The account of a customer. A payment moves its amount from the balance to the payments, so
together they hold what complete deliveries have credited. An order that a delivery loses is never
credited, although some of its lines may be stamped.
-/

namespace Alchemy.Tpcc

open ByteImage Cache Oid Interaction Interleaving

variable {A τ : Type} [Money A]

/-- What an operation adds to balance and payments of a customer. -/
def accountAdded (rid : Rid) (step : Step A) : A :=
  MoneyField.cBalance.added rid step + MoneyField.cYtdPayment.added rid step

/-- What a complete round credits to a customer: the amounts of the lines it has stamped. -/
def Round.credit (rid : Rid) (round : Round A) : A :=
  if round.cRid = rid then (round.stamps.map (fun stamp => stamp.olAmount)).sum else 0

section Logs

variable {rid : Rid} {step : Step A} {log : List (Step A)} {outcome : Except Stop Unit}

theorem accountAdded_of_quiet (quiet : step.op.changes = false) : accountAdded rid step = 0 := by
  rw [accountAdded, MoneyField.added_of_quiet quiet, MoneyField.added_of_quiet quiet, add_zero]

/-- Operations on other tables add nothing. -/
theorem accountAdded_of_untouched (apart : ∀ other, touched step ≠ some (.customer, other))
    : accountAdded rid step = 0 := by
  have balance : MoneyField.cBalance.added rid step = 0 :=
    MoneyField.added_of_untouched (apart rid)
  have payments : MoneyField.cYtdPayment.added rid step = 0 :=
    MoneyField.added_of_untouched (apart rid)
  rw [accountAdded, balance, payments, add_zero]

theorem logWorth_accountAdded (log : List (Step A))
    : logWorth (accountAdded rid) log
      = logWorth (MoneyField.cBalance.added rid) log
        + logWorth (MoneyField.cYtdPayment.added rid) log :=
  List.sum_map_add

/-- What is taken from the balance goes to the payments. -/
theorem PaymentInput.account_customerSteps (input : PaymentInput A) (writes : CustomerWrites A)
    : logWorth (accountAdded rid) (input.customerSteps writes) = 0 := by
  simp only [customerSteps, logWorth, accountAdded, MoneyField.added, MoneyField.store,
    List.map_cons, List.map_nil, List.sum_cons, List.sum_nil]
  split
  · abel
  · simp

theorem PaymentInput.Ends.account {input : PaymentInput A} (ends : input.Ends log outcome)
    : logWorth (accountAdded rid) log = 0 := by
  have taken (taken : Taken A) : logWorth (accountAdded rid) (input.takenSteps taken) = 0 :=
    logWorth_eq_zero (by simp [takenSteps, wYtdStep, dYtdStep, accountAdded, MoneyField.added,
      MoneyField.store])
  rw [← logWorth_changes _ _ (fun _ => accountAdded_of_quiet)]
  cases ends with
  | noWarehouse refused changed =>
      rw [changed]
      rfl
  | noDistrict wRid wYtd refused changed =>
      rw [changed]
      exact logWorth_eq_zero (by simp [wYtdStep, accountAdded, MoneyField.added, MoneyField.store])
  | noCustomer writes refused changed => rw [changed, taken]
  | asserted refused changed =>
      rw [changed, logWorth_append, taken, account_customerSteps, add_zero]
  | paid refused changed credit data =>
      rw [changed, logWorth_append, logWorth_append, taken, account_customerSteps, zero_add, zero_add]
      refine logWorth_eq_zero ?_
      cases data <;> simp [cDataStep, accountAdded, MoneyField.added, MoneyField.store]

/-- Rounds add what they credit. -/
theorem DeliveryInput.account_roundSteps (input : DeliveryInput) (deliveryTime : UInt64)
    (rounds : List (Round A))
    : logWorth (accountAdded rid) (rounds.flatMap (input.roundSteps deliveryTime))
      = (rounds.map (fun round => round.credit rid)).sum := by
  have one (round : Round A)
      : logWorth (accountAdded rid) (input.roundSteps deliveryTime round) = round.credit rid := by
    rw [roundSteps, logWorth_append, logWorth_eq_zero (by simp [accountAdded, MoneyField.added,
      MoneyField.store, removeStep, carrierStep, Stamp.step]), zero_add]
    simp only [customerSteps, logWorth, accountAdded, MoneyField.added, MoneyField.store,
      List.map_cons, List.map_nil, List.sum_cons, List.sum_nil, Round.credit, add_zero]
    split
    · abel
    · rfl
  induction rounds with
  | nil => rfl
  | cons round rest ih =>
      rw [List.flatMap_cons, logWorth_append, one, ih, List.map_cons, List.sum_cons]

/-- What is left of a failed delivery adds nothing. -/
theorem DeliveryInput.Serves.account {input : DeliveryInput} {deliveryTime : UInt64}
    {rounds : List (Round A)} {left : List (Step A)}
    (serves : input.Serves deliveryTime log outcome rounds left)
    : logWorth (accountAdded rid) log = (rounds.map (fun round => round.credit rid)).sum := by
  have nothing : logWorth (accountAdded rid) left = 0 := by
    refine logWorth_eq_zero (fun step member => accountAdded_of_untouched ?_)
    cases serves.leaves with
    | nothing => cases member
    | order scanned inner =>
        rcases List.mem_cons.mp member with rfl | member
        · simp [removeStep, touched]
        · obtain ⟨target, order | line⟩ := inner step member
          · simp [order]
          · simp [line]
  rw [← logWorth_changes _ _ (fun _ => accountAdded_of_quiet), serves.changed, logWorth_append,
    nothing, add_zero, account_roundSteps]

end Logs

/-- These are the complete rounds of a delivery that has returned. -/
def DbEvent.Delivers (rounds : List (Round A)) : DbEvent A → Prop
  | .returned (.delivery input deliveryTime) log outcome =>
      ∃ left, input.Serves deliveryTime log outcome rounds left
  | _ => rounds = []

section Runs

variable [DecidableEq τ] {config : DbConfig} {ledger : Ledger A τ} {past : History A τ} {t : τ}
  {event : DbEvent A} {rid : Rid}

theorem Ledger.Run.exists_rounds (run : Run config past ledger) (member : (t, event) ∈ past)
    : ∃ rounds, event.Delivers rounds := by
  cases event with
  | pending | began | did => exact ⟨[], rfl⟩
  | returned txn log outcome =>
      cases txn with
      | delivery input deliveryTime =>
          obtain ⟨rounds, left, serves⟩ := run.served member
          exact ⟨rounds, left, serves⟩
      | _ => exact ⟨[], rfl⟩

/-- A transaction that has returned has added what its rounds credit. -/
theorem Ledger.Run.account_settled {rounds : List (Round A)} (run : Run config past ledger)
    (member : (t, event) ∈ past) (delivers : event.Delivers rounds)
    : event.settles (fun _ => 0) (accountAdded rid)
      = (rounds.map (fun round => round.credit rid)).sum := by
  cases event with
  | pending | began | did =>
      rw [show rounds = [] from delivers]
      rfl
  | returned txn log outcome =>
      have closed := run.closed member
      rw [DbEvent.settles, zero_add]
      cases txn with
      | delivery input deliveryTime =>
          obtain ⟨left, serves⟩ := delivers
          exact serves.account
      | payment input =>
          have ends : input.Ends log outcome := closed.ends
          rw [show rounds = [] from delivers]
          exact ends.account
      | _ =>
          rw [show rounds = [] from delivers]
          refine logWorth_eq_zero (fun step inLog => ?_)
          simp [accountAdded, MoneyField.added_of_obeyed closed.obeyed inLog]

/-- The lines of a complete round still have the amounts that were credited. -/
theorem Ledger.Run.stamped_line {rounds : List (Round A)} {round : Round A} {stamp : Stamp A}
    (run : Run config past ledger) (member : (t, event) ∈ past) (delivers : event.Delivers rounds)
    (chosen : round ∈ rounds) (listed : stamp ∈ round.stamps)
    : ∃ line, ledger.shared.rows .orderLine stamp.olRid = some line
      ∧ line .olAmount = stamp.olAmount := by
  unfold DbEvent.Delivers at delivers
  split at delivers
  · obtain ⟨left, serves⟩ := delivers
    have read := (serves.complete round chosen).amounts stamp listed
    obtain ⟨chronicle, same⟩ := run.chronicle
    have kept : Table.orderLine.Kept .olAmount := trivial
    obtain ⟨original, inserted, amount⟩ := chronicle.seen (by simp [deliveryLineQuery]) kept
      (by simp [Table.Written])
      (List.mem_filterMap.mpr ⟨_, (run.closed member).logged _ read, rfl⟩)
    obtain ⟨line, row, agree⟩ := chronicle.inserted_row inserted
    rw [same]
    exact ⟨line, row, (agree .olAmount (by simp [Table.Written])).trans amount⟩
  · rw [delivers] at chosen
    cases chosen

variable {storage : Table → Rid → Image Byte} {hand : Table → τ → Nat}
  {trace : List ((τ × DbMove A) × DbEvent A)} {db : Db A τ}

/-- When no transaction runs, balance and payments of a customer together are what the complete
rounds of all deliveries have credited: the amounts of the lines that these rounds have found and
stamped, as they still stand in the lines.
-/
theorem customer_balance {customer : Table.customer.Record A}
    (run : Interleaving.Run (dbStep config) (Db.empty storage hand) trace db)
    (idle : ∀ t, db.tasks t = none) (shows : db.Shows config .customer rid customer)
    : ∃ rounds : τ × DbEvent A → List (Round A),
        (∀ entry ∈ history trace, entry.2.Delivers (rounds entry))
        ∧ (∀ entry ∈ history trace, ∀ round ∈ rounds entry, ∀ stamp ∈ round.stamps,
          ∃ line, db.Shows config .orderLine stamp.olRid line ∧ line .olAmount = stamp.olAmount)
        ∧ (customer .cBalance + customer .cYtdPayment : A)
          = ((history trace).map (fun entry =>
              ((rounds entry).map (fun round => round.credit rid)).sum)).sum := by
  obtain ⟨sound, ledgerRun⟩ := ledger_run run
  have resting := Db.resting idle
  have every (entry : τ × DbEvent A)
      : ∃ rounds, entry ∈ history trace → entry.2.Delivers rounds := by
    by_cases member : entry ∈ history trace
    · exact (ledgerRun.exists_rounds member).imp (fun _ delivers _ => delivers)
    · exact ⟨[], fun listed => absurd listed member⟩
  choose rounds delivers using every
  refine ⟨rounds, delivers, ?_, ?_⟩
  · intro entry member round chosen stamp listed
    obtain ⟨line, row, amount⟩ :=
      ledgerRun.stamped_line member (delivers entry member) chosen listed
    exact ⟨line, sound.shows_row row, amount⟩
  · obtain ⟨row, here, same⟩ := sound.shows shows
    have balance : (customer .cBalance : A) = -(10 • Money.one)
        + logWorth (MoneyField.cBalance.added rid) (steps (history trace)) :=
      (same .cBalance (by simp [Table.Kept])).trans (ledgerRun.money resting .cBalance here)
    have payments : (customer .cYtdPayment : A) = 10 • Money.one
        + logWorth (MoneyField.cYtdPayment.added rid) (steps (history trace)) :=
      (same .cYtdPayment (by simp [Table.Kept])).trans (ledgerRun.money resting .cYtdPayment here)
    have settled := ledgerRun.settled_of_idle resting (accountAdded rid)
    rw [List.map_congr_left (fun entry member =>
      ledgerRun.account_settled member (delivers entry member))] at settled
    rw [balance, payments, ← settled, logWorth_accountAdded]
    abel

end Runs

/-- Five pieces of five items are ordered and delivered, for three units a piece. -/
theorem customer_balance_priced
    : ∃ (trace : List ((Unit × DbMove UInt64) × DbEvent UInt64)) (db : Db UInt64 Unit)
        (customer : Table.customer.Record UInt64) (rounds : Unit × DbEvent UInt64 → List (Round UInt64)),
        Interleaving.Run (dbStep (.wholeTuples false))
          (Db.empty (fun _ _ _ => 0) (fun _ _ => 0)) trace db
        ∧ db.Shows (.wholeTuples false) .customer 0 customer
        ∧ (∀ entry ∈ history trace, entry.2.Delivers (rounds entry))
        ∧ ((history trace).map (fun entry =>
            ((rounds entry).map (fun round => round.credit 0)).sum)).sum = 75 := by
  obtain ⟨trace, db, run, passed⟩ := play_reaches
    (runs () (placeFirst ++ [.delivery firstDelivery 100]))
    (fun result => (result.1.tasks ()).isNone
      && (result.1.shared.rows .customer 0).any (fun record =>
        (record .cBalance + record .cYtdPayment : UInt64) == 75))
    (by decide +kernel)
  simp only [Bool.and_eq_true, Option.isNone_iff_eq_none, Option.any_eq_true, beq_iff_eq] at passed
  obtain ⟨done, customer, row, credited⟩ := passed
  have shows := (ledger_run run).1.shows_row row
  have idle : ∀ t, db.tasks t = none := fun _ => done
  obtain ⟨rounds, delivers, _, balance⟩ := customer_balance run idle shows
  exact ⟨trace, db, customer, rounds, run, shows, delivers, balance.symm.trans credited⟩

end Alchemy.Tpcc
