import Mathlib.Algebra.BigOperators.Group.List.Basic
import Mathlib.Tactic.Abel
import Alchemy.Tpcc.Loads

/-! The money fields of warehouses, districts and customers. They are loaded with a constant, and
payments and deliveries add to them. So a field holds what was loaded and what all operations have
added.
-/

namespace Alchemy.Tpcc

open Cache Oid Interaction

variable {A τ : Type} [Money A]

/-- The money fields that transactions add to. -/
inductive MoneyField
  | wYtd
  | dYtd
  | cBalance
  | cYtdPayment
deriving DecidableEq, Repr

namespace MoneyField

@[reducible]
def table : MoneyField → Table
  | .wYtd => .warehouse
  | .dYtd => .district
  | .cBalance | .cYtdPayment => .customer

@[reducible]
def field : (account : MoneyField) → account.table.Name
  | .wYtd => WarehouseField.wYtd
  | .dYtd => DistrictField.dYtd
  | .cBalance => CustomerField.cBalance
  | .cYtdPayment => CustomerField.cYtdPayment

/-- Each of them is an amount. -/
def amount : (account : MoneyField) → (account.table.type account.field).Value A → A
  | .wYtd, value | .dYtd, value | .cBalance, value | .cYtdPayment, value => value

def read (account : MoneyField) (record : account.table.Record A) : A :=
  account.amount (record account.field)

/-- What `load` puts there. -/
def loaded : MoneyField → A
  | .wYtd => 300000 • Money.one
  | .dYtd => 30000 • Money.one
  | .cBalance => -(10 • Money.one)
  | .cYtdPayment => 10 • Money.one

/-- A store to the field: the row, the new value and the old one. -/
def store : MoneyField → Step A → Option (Rid × A × A)
  | .wYtd, ⟨.getValueMut .warehouse rid _ .wYtd new, some old⟩ => some (rid, new, old)
  | .dYtd, ⟨.getValueMut .district rid _ .dYtd new, some old⟩ => some (rid, new, old)
  | .cBalance, ⟨.getValueMut .customer rid _ .cBalance new, some old⟩ => some (rid, new, old)
  | .cYtdPayment, ⟨.getValueMut .customer rid _ .cYtdPayment new, some old⟩ =>
      some (rid, new, old)
  | _, _ => none

/-- What an operation adds to the field of a row. -/
def added (account : MoneyField) (rid : Rid) (step : Step A) : A :=
  match account.store step with
  | none => 0
  | some (target, new, old) => if target = rid then new - old else 0

variable {account : MoneyField} {step : Step A} {rid : Rid} {new old : A}

theorem added_of_store (stored : account.store step = some (rid, new, old))
    : account.added rid step = new - old := by
  rw [added, stored]
  exact if_pos rfl

theorem added_eq_zero (untouched : ∀ new old, account.store step ≠ some (rid, new, old))
    : account.added rid step = 0 := by
  rw [added]
  split
  · rfl
  · next target new old stored =>
      refine if_neg (fun same => ?_)
      subst same
      exact untouched new old stored

omit [Money A] in
theorem exists_of_store (stored : account.store step = some (rid, new, old))
    : ∃ query value answer,
        step = ⟨.getValueMut account.table rid query account.field value, answer⟩ := by
  unfold store at stored
  split at stored
  all_goals cases stored
  all_goals exact ⟨_, _, _, rfl⟩

omit [Money A] in
theorem touched_of_store (stored : account.store step = some (rid, new, old))
    : touched step = some (account.table, rid) := by
  obtain ⟨query, value, answer, rfl⟩ := exists_of_store stored
  rfl

theorem added_of_untouched (apart : touched step ≠ some (account.table, rid))
    : account.added rid step = 0 :=
  added_eq_zero (fun _ _ stored => apart (touched_of_store stored))

theorem added_of_quiet (quiet : step.op.changes = false) : account.added rid step = 0 := by
  refine added_eq_zero (fun new old stored => ?_)
  obtain ⟨query, value, answer, rfl⟩ := exists_of_store stored
  cases quiet

omit [Money A] in
theorem store_field {query : List account.table.Name}
    (value current : (account.table.type account.field).Value A)
    : account.store ⟨.getValueMut account.table rid query account.field value, some current⟩
      = some (rid, account.amount value, account.amount current) := by
  cases account <;> rfl

omit [Money A] in
/-- Stores to other fields leave the account alone. -/
theorem store_of_ne {query : List account.table.Name} {name : account.table.Name}
    {value : (account.table.type name).Value A}
    {answer : Option ((account.table.type name).Value A)} (different : name ≠ account.field)
    : account.store ⟨.getValueMut account.table rid query name value, answer⟩ = none := by
  cases account <;> cases name <;> first | rfl | exact absurd rfl different

omit [Money A] in
theorem read_of_ne {name : account.table.Name} {value : (account.table.type name).Value A}
    (record : account.table.Record A) (different : name ≠ account.field)
    : account.read (Function.update record name value) = account.read record := by
  rw [read, Function.update_of_ne (Ne.symm different), read]

omit [Money A] in
/-- Every schema of these tables writes the field back. -/
theorem kept (account : MoneyField) : account.table.Kept account.field := by
  cases account <;> trivial

/-- A row is loaded with the constant. -/
theorem read_loaded {txn : Transaction A} {log : List (Step A)}
    {record : account.table.Record A} (inserts : txn.Inserts log account.table record)
    : account.read record = account.loaded := by
  cases account with
  | wYtd =>
      cases inserts with
      | warehouse row => exact row.wYtd
  | dYtd =>
      cases inserts with
      | district row => exact row.dYtd
  | cBalance =>
      cases inserts with
      | customer row => exact row.cBalance
  | cYtdPayment =>
      cases inserts with
      | customer row => exact row.cYtdPayment

end MoneyField

/-- The field of a row is what was loaded and what all operations have added. Nothing is added to
a row that is not there.
-/
theorem Chronicle.money {config : DbConfig} {done : List (Step A)} {rid : Rid}
    (chronicle : Chronicle config done) (account : MoneyField)
    (asked
      : ∀ rid query new answer,
          ⟨.getValueMut account.table rid query account.field new, answer⟩ ∈ done
          → account.field ∈ query)
    : ((replay done).rows account.table rid = none → logWorth (account.added rid) done = 0)
      ∧ ∀ record, (replay done).rows account.table rid = some record
        → account.read record = account.loaded + logWorth (account.added rid) done := by
  have append (done : List (Step A)) (step : Step A)
      : logWorth (account.added rid) (done ++ [step])
        = logWorth (account.added rid) done + account.added rid step := by
    rw [logWorth_append, logWorth_cons]
    exact congrArg _ (add_zero _)
  induction chronicle with
  | start => exact ⟨fun _ => rfl, fun record row => by cases row⟩
  | release earlier ih =>
      rw [replay_append, append, MoneyField.added_of_quiet rfl, add_zero]
      exact ih (fun rid query new answer did => asked rid query new answer (List.mem_append_left _ did))
  | @perform done txn log op answer earlier logged allows relied answers ih =>
      have ih := ih (fun rid query new answer did =>
        asked rid query new answer (List.mem_append_left _ did))
      rw [replay_append, append]
      by_cases touches : touched ⟨op, answer⟩ = some (account.table, rid)
      · cases op with
        | insert target record =>
            simp only [touched, Option.some.injEq, Prod.mk.injEq] at touches
            obtain ⟨rfl, rfl⟩ := touches
            have nothing : account.added answer (⟨.insert account.table record, answer⟩ : Step A)
                = 0 := by
              refine MoneyField.added_eq_zero (fun new old stored => ?_)
              obtain ⟨query, value, other, same⟩ := MoneyField.exists_of_store stored
              cases same
            rw [Shared.after, Shared.setRow_rows, nothing, ih.1 answers, add_zero]
            refine ⟨(fun absent => by cases absent), fun other same => ?_⟩
            cases same
            rw [add_zero]
            exact MoneyField.read_loaded allows.inserts
        | getValueMut target written query name value =>
            simp only [touched, Option.some.injEq, Prod.mk.injEq] at touches
            obtain ⟨rfl, rfl⟩ := touches
            obtain ⟨record, row, reads⟩ := answers
            rw [Shared.after_store row]
            refine ⟨(fun absent => by cases absent), fun other stored => ?_⟩
            obtain rfl := Option.some.inj stored
            have current := ih.2 record row
            by_cases same : name = account.field
            · subst same
              obtain ⟨old, rfl, sure⟩ := reads.1 (asked _ query value answer (by simp))
              rw [MoneyField.added_of_store (MoneyField.store_field ..), sure account.kept,
                MoneyField.read, Function.update_self,
                show account.amount (record account.field) = account.read record from rfl, current]
              abel
            · rw [MoneyField.read_of_ne record same, current, MoneyField.added_eq_zero, add_zero]
              rw [MoneyField.store_of_ne same]
              simp
        | _ => cases touches
      · rw [Shared.after_rows touches, MoneyField.added_of_untouched touches, add_zero]
        exact ih

/-! ### What a transaction that has returned has added -/

omit [Money A] in
theorem logWorth_eq_zero {M : Type} [AddCommMonoid M] {worth : Step A → M} {log : List (Step A)}
    (zero : ∀ step ∈ log, worth step = 0)
    : logWorth worth log = 0 := by
  refine List.sum_eq_zero (fun added listed => ?_)
  obtain ⟨step, member, rfl⟩ := List.mem_map.mp listed
  exact zero step member

/-- Every change in a log was allowed when it was made. -/
theorem Transaction.Obeyed.allowed {txn : Transaction A} {log : List (Step A)} {step : Step A}
    (obeyed : txn.Obeyed log) (member : step ∈ log) (changing : step.op.changes = true)
    : ∃ earlier, step :: earlier <:+ log ∧ txn.Allows earlier step.op := by
  induction obeyed with
  | nil => cases member
  | @perform log op answer earlier allows relied ih =>
      rcases List.mem_cons.mp member with rfl | before
      · exact ⟨log, List.suffix_refl _, allows⟩
      · obtain ⟨first, inside, allowed⟩ := ih before
        exact ⟨first, inside.trans (List.suffix_cons _ _), allowed⟩
  | release earlier ih =>
      rcases List.mem_cons.mp member with rfl | before
      · cases changing
      · obtain ⟨first, inside, allowed⟩ := ih before
        exact ⟨first, inside.trans (List.suffix_cons _ _), allowed⟩

namespace MoneyField

variable {account : MoneyField} {txn : Transaction A} {log : List (Step A)} {rid : Rid}

/-- Only payments store to money fields, and deliveries to the balance. -/
theorem payment_or_delivery {query : List account.table.Name}
    {value : (account.table.type account.field).Value A}
    (allows : txn.Allows log (.getValueMut account.table rid query account.field value))
    : (∃ input, txn = .payment input)
      ∨ account = .cBalance ∧ ∃ input deliveryTime, txn = .delivery input deliveryTime := by
  rcases allows.stores with ⟨input, _, allows⟩ | ⟨input, same, _⟩ | ⟨input, deliveryTime, same, allows⟩
  · cases account <;> cases allows <;> contradiction
  · exact .inl ⟨input, same⟩
  · refine .inr ⟨?_, input, deliveryTime, same⟩
    cases account <;> cases allows <;> first | rfl | contradiction

/-- Other transactions add nothing. -/
theorem added_of_obeyed {step : Step A} (obeyed : txn.Obeyed log) (member : step ∈ log)
    (noPayment : ∀ input, txn ≠ .payment input)
    (noDelivery : account = .cBalance → ∀ input deliveryTime, txn ≠ .delivery input deliveryTime)
    : account.added rid step = 0 := by
  refine added_eq_zero (fun new old stored => ?_)
  obtain ⟨query, value, answer, rfl⟩ := exists_of_store stored
  obtain ⟨earlier, _, allows⟩ := obeyed.allowed member rfl
  rcases payment_or_delivery allows with ⟨input, same⟩ | ⟨balance, input, deliveryTime, same⟩
  · exact noPayment input same
  · exact noDelivery balance input deliveryTime same

end MoneyField

section Closed

variable {account : MoneyField} {log : List (Step A)} {outcome : Except Stop Unit}

/-- What a store overwrites is a value of its query. -/
def Asked : Step A → Prop
  | ⟨.getValueMut _ _ query name _, _⟩ => name ∈ query
  | _ => True

theorem PaymentInput.Ends.asked {input : PaymentInput A} (ends : input.Ends log outcome)
    : ∀ step ∈ changes log, Asked step := by
  have taken (taken : Taken A) : ∀ step ∈ input.takenSteps taken, Asked step := by
    simp [takenSteps, wYtdStep, dYtdStep, Asked, paymentWarehouseQuery, paymentDistrictQuery]
  have customer (writes : CustomerWrites A) : ∀ step ∈ input.customerSteps writes, Asked step := by
    simp [customerSteps, Asked, paymentCustomerQuery]
  cases ends with
  | noWarehouse refused changed => simp [changed]
  | noDistrict wRid wYtd refused changed => simp [changed, wYtdStep, Asked, paymentWarehouseQuery]
  | noCustomer writes refused changed =>
      rw [changed]
      exact taken _
  | asserted refused changed =>
      rw [changed]
      exact List.forall_mem_append.mpr ⟨taken _, customer _⟩
  | paid refused changed credit data =>
      rw [changed]
      refine List.forall_mem_append.mpr ⟨taken _, List.forall_mem_append.mpr ⟨customer _, ?_⟩⟩
      cases data <;> simp [cDataStep, Asked]

theorem DeliveryInput.Ends.asked {input : DeliveryInput} {deliveryTime : UInt64}
    (ends : input.Ends deliveryTime log outcome)
    : ∀ step ∈ changes log, Asked step ∨ Inner step := by
  have complete (rounds : List (Round A))
      : ∀ step ∈ rounds.flatMap (input.roundSteps deliveryTime), Asked step ∨ Inner step := by
    intro step member
    obtain ⟨round, _, member⟩ := List.mem_flatMap.mp member
    refine .inl ?_
    simp only [roundSteps, List.mem_append, List.mem_cons, List.not_mem_nil, or_false,
      List.mem_map, customerSteps] at member
    rcases member with ((rfl | rfl) | ⟨stamp, _, rfl⟩) | rfl | rfl
    all_goals simp [removeStep, carrierStep, Stamp.step, Asked, deliveryOrderQuery,
      deliveryLineQuery, deliveryCustomerQuery]
  cases ends with
  | delivered rounds refused changed =>
      rw [changed]
      exact complete rounds
  | broken rounds key removed more changed inner =>
      rw [changed]
      exact List.forall_mem_append.mpr ⟨complete rounds,
        List.forall_mem_cons.mpr ⟨.inl trivial, fun step member => .inr (inner step member)⟩⟩

/-- A transaction that has returned overwrote only values that it had asked for. -/
theorem Closed.asked {past : History A τ} {t : τ} {txn : Transaction A} {rid : Rid}
    {query : List account.table.Name} {new : (account.table.type account.field).Value A}
    {answer : Option ((account.table.type account.field).Value A)}
    (closed : Closed past t txn log outcome)
    (member : ⟨.getValueMut account.table rid query account.field new, answer⟩ ∈ log)
    : account.field ∈ query := by
  have changed := mem_changes.mpr ⟨member, rfl⟩
  obtain ⟨earlier, _, allows⟩ := closed.obeyed.allowed member rfl
  rcases MoneyField.payment_or_delivery allows with ⟨input, rfl⟩ | ⟨_, input, deliveryTime, rfl⟩
  · have ends : input.Ends log outcome := closed.ends
    exact ends.asked _ changed
  · have ends : input.Ends deliveryTime log outcome := closed.ends
    rcases ends.asked _ changed with asked | ⟨other, inner⟩
    · exact asked
    · cases account <;> simp [touched] at inner

end Closed

namespace Ledger

variable [DecidableEq τ] {config : DbConfig} {ledger : Ledger A τ} {past : History A τ} {rid : Rid}

/-- What all operations amount to is what the returned transactions have settled. -/
theorem Run.settled_of_idle {M : Type} [AddCommMonoid M] (run : Run config past ledger)
    (idle : ∀ t, ledger.active t = none) (worth : Step A → M)
    : logWorth worth (steps past)
      = (past.map (fun entry => entry.2.settles (fun _ => 0) worth)).sum := by
  have covers : ∀ entry ∈ past, entry.1 ∈ (past.map Prod.fst).toFinset :=
    fun entry member => List.mem_toFinset.mpr (List.mem_map_of_mem member)
  rw [run.steps_balance worth covers, Finset.sum_eq_zero, add_zero]
  intro t _
  rw [Ledger.holds, idle t]

/-- If nothing runs, then a money field holds what was loaded and what all operations have
added.
-/
theorem Run.money (run : Run config past ledger) (idle : ∀ t, ledger.active t = none)
    (account : MoneyField) {record : account.table.Record A}
    (row : ledger.shared.rows account.table rid = some record)
    : account.read record = account.loaded + logWorth (account.added rid) (steps past) := by
  obtain ⟨chronicle, same⟩ := run.chronicle
  rw [same] at row
  refine (chronicle.money account (fun _ _ _ _ did => ?_)).2 record row
  obtain ⟨t, txn, log, ⟨outcome, returned⟩ | ⟨activity, here, _⟩, member⟩ := run.ran did
  · exact (run.closed returned).asked member
  · cases (idle t).symm.trans here

end Ledger

end Alchemy.Tpcc
