import Mathlib.Algebra.BigOperators.Group.Finset.Piecewise
import Alchemy.Tpcc.MoneyAccounts
import Alchemy.Tpcc.OwnSteps

/-! How much of a payment is done. It adds to the warehouse before it has the district, and to the
district before it has the customer. So a payment is whole unless it is refused in between, and
what the year-to-date amounts of a warehouse and its districts drift apart by is the sum of the
payments that were refused at the district.
-/

namespace Alchemy.Tpcc

open ByteImage Cache Oid Interaction Interleaving

variable {A τ : Type} [Money A]

/-! ### One payment -/

namespace PaymentInput

variable {input : PaymentInput A} {log own : List (Step A)} {outcome : Except Stop Unit}

/-- All of a payment: the rows of its warehouse, its district and its customer were found, and the
five fields updated by the amount. Apart from that `c_data` may be stored to.
-/
structure Whole (input : PaymentInput A) (own : List (Step A)) (taken : Taken A)
    (writes : CustomerWrites A) (cData : List (Step A))
    : Prop where
  warehouse : ⟨.get .warehouse input.wId.toUInt64, some taken.wRid⟩ ∈ own
  district : ⟨.get .district input.districtKey, some taken.dRid⟩ ∈ own
  customer : input.cQuery.Found input.cWId input.cDId own writes.cRid
  changed : own.filter (fun step => step.op.changes)
    = input.takenSteps taken ++ (input.customerSteps writes ++ cData)
  data : ∀ step ∈ cData, ∃ rid query value answer,
    step = ⟨.getValueMut .customer rid query .cData value, answer⟩

/-- A payment adds to the warehouse that it has found. -/
theorem wYtd_found {rid : Rid} {query : List Table.warehouse.Name} {value : A} {answer : Option A}
    (obeyed : (Transaction.payment input).Obeyed log)
    (member : ⟨.getValueMut .warehouse rid query .wYtd value, answer⟩ ∈ log)
    : ⟨.get .warehouse input.wId.toUInt64, some rid⟩ ∈ log := by
  obtain ⟨earlier, inside, allows⟩ := obeyed.allowed member rfl
  refine inside.subset (List.mem_cons_of_mem _ ?_)
  cases allows with
  | reads reads => cases reads
  | wYtd found => exact List.mem_cons_of_mem _ found

theorem dYtd_found {rid : Rid} {query : List Table.district.Name} {value : A} {answer : Option A}
    (obeyed : (Transaction.payment input).Obeyed log)
    (member : ⟨.getValueMut .district rid query .dYtd value, answer⟩ ∈ log)
    : ⟨.get .district input.districtKey, some rid⟩ ∈ log := by
  obtain ⟨earlier, inside, allows⟩ := obeyed.allowed member rfl
  refine inside.subset (List.mem_cons_of_mem _ ?_)
  cases allows with
  | reads reads => cases reads
  | dYtd found => exact List.mem_cons_of_mem _ found

end PaymentInput

/-- What an operation adds to the warehouse and not to one of the districts. -/
def gapAdded (wRid : Rid) (districts : Finset Rid) (step : Step A) : A :=
  MoneyField.wYtd.added wRid step - ∑ rid ∈ districts, MoneyField.dYtd.added rid step

section Gap

variable {wRid : Rid} {districts : Finset Rid} {log : List (Step A)}

theorem gapAdded_wYtdStep (input : PaymentInput A) (rid : Rid) (wYtd : A)
    : gapAdded wRid districts (input.wYtdStep rid wYtd)
      = if rid = wRid then input.hAmount else 0 := by
  simp [gapAdded, MoneyField.added, MoneyField.store, PaymentInput.wYtdStep]

theorem gapAdded_dYtdStep (input : PaymentInput A) (rid : Rid) (dYtd : A)
    : gapAdded wRid districts (input.dYtdStep rid dYtd)
      = -if rid ∈ districts then input.hAmount else 0 := by
  simp [gapAdded, MoneyField.added, MoneyField.store, PaymentInput.dYtdStep]

/-- What a payment that has returned has added: its updates of warehouse and district cancel out, so
it counts if it was refused at the district.
-/
theorem PaymentInput.Ends.gap {input : PaymentInput A} {outcome : Except Stop Unit} {wId : UInt64}
    (ends : input.Ends log outcome) (obeyed : (Transaction.payment input).Obeyed log)
    (warehouse
      : ∀ rid, ⟨.get .warehouse input.wId.toUInt64, some rid⟩ ∈ log
        → (rid = wRid ↔ input.wId.toUInt64 = wId))
    (district
      : ∀ found rid, ⟨.get .warehouse input.wId.toUInt64, some found⟩ ∈ log
        → ⟨.get .district input.districtKey, some rid⟩ ∈ log
        → (rid ∈ districts ↔ input.wId.toUInt64 = wId))
    : logWorth (gapAdded wRid districts) log
      = if input.wId.toUInt64 = wId ∧ refusals log = [.district] then input.hAmount else 0 := by
  have matching {taken : Taken A} (members : ∀ step ∈ input.takenSteps taken, step ∈ changes log)
      : logWorth (gapAdded wRid districts) (input.takenSteps taken) = 0 := by
    have inLog {step : Step A} (member : step ∈ input.takenSteps taken) : step ∈ log :=
      (mem_changes.mp (members step member)).1
    have wFound := wYtd_found obeyed (inLog List.mem_cons_self)
    have dFound := dYtd_found obeyed (inLog (List.mem_cons_of_mem _ List.mem_cons_self))
    simp only [takenSteps, logWorth_cons, gapAdded_wYtdStep, gapAdded_dYtdStep,
      warehouse _ wFound, district _ _ wFound dFound]
    split <;> simp [logWorth]
  have customers (writes : CustomerWrites A)
      : logWorth (gapAdded wRid districts) (input.customerSteps writes) = 0 :=
    logWorth_eq_zero (by simp [customerSteps, gapAdded, MoneyField.added, MoneyField.store])
  rw [← logWorth_changes _ _ (fun _ quiet => by simp [gapAdded, MoneyField.added_of_quiet quiet])]
  cases ends with
  | noWarehouse refused changed =>
      rw [changed, refused]
      simp [logWorth]
  | noDistrict target wYtd refused changed =>
      have member : input.wYtdStep target wYtd ∈ log := (mem_changes.mp (by simp [changed])).1
      rw [changed, refused, logWorth_cons, gapAdded_wYtdStep,
        if_congr (warehouse target (wYtd_found obeyed member)) rfl rfl]
      simp [logWorth]
  | noCustomer taken refused changed =>
      rw [refused, changed, matching (by simp [changed])]
      simp
  | asserted refused changed =>
      rw [refused, changed, logWorth_append, matching (by simp +contextual [changed]), customers]
      simp
  | paid refused changed credit data =>
      rw [refused, changed, logWorth_append, matching (by simp +contextual [changed]),
        logWorth_append, customers, logWorth_eq_zero]
      · simp
      · cases data <;> simp [cDataStep, gapAdded, MoneyField.added, MoneyField.store]

end Gap

section Runs

variable [DecidableEq τ] {config : DbConfig} {ledger : Ledger A τ} {past : History A τ}
  {wRid : Rid} {districts : Finset Rid} {warehouse : Table.warehouse.Record A}

end Runs

/-! ### All or nothing -/

end Alchemy.Tpcc
