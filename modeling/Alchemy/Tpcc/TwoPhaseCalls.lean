import Alchemy.Tpcc.CallRules

/-! `new_order` and `payment` take no lock after they have dropped one. `new_order` takes its locks
in phase 1 and drops some in phase 2, `payment` keeps all of its own to the end.
-/

namespace Alchemy.Tpcc

open Cache Oid Interaction Txn

variable {A : Type}

/-- Those of a transaction that still takes locks. -/
def Op.gathers : Op A → Bool
  | .get table _ => table ≠ .order ∧ table ≠ .orderLine
  | .lock _ _ _ | .lastNameRange _ _ _ => true
  | op => op.accesses

/-- Those of a transaction that takes no more. -/
def Op.settles : Op A → Bool
  | .indexInsert table _ _ => table = .order ∨ table = .orderLine
  | .insert _ _ | .drop _ _ _ | .newOrderInsert _ _ => true
  | op => op.accesses

/-- A transaction of which locks come first. -/
def Transaction.twoPhase [Money A] : Transaction A → Bool
  | .newOrder _ | .payment _ => true
  | _ => false

def Op.locks : Op A → Bool
  | .lock _ _ _ => true
  | _ => false

def Op.drops : Op A → Bool
  | .drop _ _ _ => true
  | _ => false

/-- Nothing has been dropped. -/
def Undropped (log : List (Step A)) : Prop :=
  ∀ step ∈ log, step.op.drops = false

/-- What a two-phase transaction calls: its own operations, and locks before any drop. -/
structure Mixes (log : List (Step A)) (op : Op A) : Prop where
  own : op.gathers = true ∨ op.settles = true
  locks_first : op.locks = true → Undropped log

/-! ### Their programs -/

section Programs

theorem Op.gathers_of_accesses (op : Op A) (accesses : op.accesses = true)
    : op.gathers = true := by
  cases op <;> first | exact accesses | cases accesses

theorem Op.settles_of_accesses (op : Op A) (accesses : op.accesses = true)
    : op.settles = true := by
  cases op <;> first | exact accesses | cases accesses

theorem calls_acquireItems (items : List OrderItem)
    : Prog.Calls (fun op => op.gathers = true) (acquireItems items : Txn A _) := by
  induction items with
  | nil => exact calls_ok
  | cons item rest ih =>
      refine calls_then (calls_notFoundAborts (calls_lockKey rfl (fun _ => rfl))) (fun _ => ?_)
      refine calls_then (calls_lockKey rfl (fun _ => rfl)) (fun _ => ?_)
      exact calls_then ih (fun _ => calls_ok)

theorem calls_newOrderLocks (input : NewOrderInput)
    : Prog.Calls (fun op => op.gathers = true) (newOrderLocks input : Txn A _) := by
  refine calls_then (calls_lockKey rfl (fun _ => rfl)) (fun _ => ?_)
  refine calls_then (calls_readAndPromote Op.gathers_of_accesses) (fun _ => ?_)
  refine calls_then (calls_lockKey rfl (fun _ => rfl)) (fun _ => ?_)
  refine calls_then (calls_readAndPromote Op.gathers_of_accesses) (fun _ => ?_)
  refine calls_then (calls_lockKey rfl (fun _ => rfl)) (fun _ => ?_)
  refine calls_then (calls_readAndPromote Op.gathers_of_accesses) (fun _ => ?_)
  exact calls_then (calls_acquireItems _) (fun _ => calls_ok)

theorem calls_findCustomer (wId dId : UInt32) (cQuery : CustomerQuery)
    : Prog.Calls (fun op => op.gathers = true) (findCustomer wId dId cQuery : Txn A _) := by
  cases cQuery with
  | id cId => exact calls_then (calls_lockKey rfl (fun _ => rfl)) (fun _ => calls_ok)
  | lastName seed =>
      refine calls_then (calls_perform rfl) ?_
      intro rids
      cases rids[rids.length / 2]? with
      | none => exact calls_ok
      | some rid =>
          exact calls_then (calls_notFoundAborts (calls_lockRid rfl)) (fun _ => calls_ok)

variable [Money A]

theorem calls_insertLine (input : NewOrderInput) (oId : UInt64) (number : Nat)
    (item : OrderItem) (iLock sLock : Rid)
    : Prog.Calls (fun op => op.settles = true)
        (insertLine input oId number item iLock sLock : Txn A _) := by
  have value := @Op.settles_of_accesses A
  refine calls_then (calls_read value) (fun _ => calls_then (calls_touch value) (fun _ => ?_))
  refine calls_then (calls_readAndPromote value) (fun _ => calls_then ?_ (fun _ => ?_))
  · refine calls_then (calls_update value) (fun _ => calls_then (calls_update value) (fun _ => ?_))
    exact calls_then (calls_update value) (fun _ => calls_ite (calls_update value) calls_ok)
  · refine calls_then (calls_getValue value) (fun _ => calls_then (calls_getValue value) ?_)
    intro _
    refine calls_then (calls_insertAndDrop rfl (fun _ => rfl) (fun _ => rfl)) (fun _ => ?_)
    exact calls_then (calls_perform rfl) (fun _ => calls_perform rfl)

theorem calls_insertLines (input : NewOrderInput) (oId : UInt64) (number : Nat)
    (lines : List (OrderItem × Rid × Rid))
    : Prog.Calls (fun op => op.settles = true)
        (insertLines input oId number lines : Txn A _) := by
  induction lines generalizing number with
  | nil => exact calls_ok
  | cons line rest ih =>
      exact calls_then (calls_insertLine input oId number _ _ _) (fun _ => ih (number + 1))

theorem calls_newOrderWrites (input : NewOrderInput) (locked : NewOrderLocks)
    : Prog.Calls (fun op => op.settles = true) (newOrderWrites input locked : Txn A _) := by
  have value := @Op.settles_of_accesses A
  refine calls_then (calls_touch value) (fun _ => calls_then (calls_touch value) (fun _ => ?_))
  refine calls_then (calls_touch value) (fun _ => calls_then (calls_getValue value) (fun _ => ?_))
  refine calls_then (calls_setValue value) (fun _ => calls_then (calls_perform rfl) (fun _ => ?_))
  refine calls_then (calls_insertAndDrop rfl (fun _ => rfl) (fun _ => rfl)) (fun _ => ?_)
  exact calls_insertLines ..

theorem calls_payCustomer (input : PaymentInput A) (wResult : QueryValue .warehouse)
    (dResult : QueryValue .district) (cLock : Rid)
    : Prog.Calls (fun op => op.gathers = true) (payCustomer input wResult dResult cLock) := by
  have value := @Op.gathers_of_accesses A
  refine calls_then (calls_readAndPromote value) (fun _ => calls_then (calls_touch value) ?_)
  intro _
  refine calls_then (calls_update value) (fun _ => calls_then (calls_update value) (fun _ => ?_))
  refine calls_then (calls_update value) (fun _ => calls_then (calls_getValue value) (fun _ => ?_))
  refine calls_ite calls_throw (calls_then (calls_getValue value) (fun _ => ?_))
  refine calls_ite calls_throw (calls_then (calls_getValue value) (fun _ => ?_))
  refine calls_then (calls_getValue value) (fun _ => calls_then (calls_getValue value) (fun _ => ?_))
  refine calls_ite (calls_then (calls_readAndPromote value) (fun _ => ?_)) calls_ok
  exact calls_update value

theorem calls_payment (input : PaymentInput A)
    : Prog.Calls (fun op => op.gathers = true) (payment input) := by
  have value := @Op.gathers_of_accesses A
  refine calls_then (calls_lockKey rfl (fun _ => rfl)) (fun _ => ?_)
  refine calls_then (calls_readAndPromote value) (fun _ => calls_then (calls_touch value) ?_)
  intro _
  refine calls_then (calls_update value) (fun _ => ?_)
  refine calls_then (calls_lockKey rfl (fun _ => rfl)) (fun _ => ?_)
  refine calls_then (calls_readAndPromote value) (fun _ => calls_then (calls_update value) ?_)
  intro _
  refine calls_then (calls_touch value) (fun _ => calls_then (calls_findCustomer _ _ _) ?_)
  intro found
  cases found with
  | none => exact calls_ok
  | some cLock => exact calls_payCustomer ..

end Programs

/-! ### The contract -/

section Contract

variable {α : Type} {program : Prog (Op.Answer (A := A)) α} {log : List (Step A)}

/-- Before the first drop. -/
theorem meets_gathers (calls : program.Calls (fun op => op.gathers = true)) (undropped : Undropped log)
    : program.Meets Rely Mixes (fun later _ => Undropped later) log := by
  refine calls.meets undropped (fun _ _ before gathers => ⟨.inl gathers, fun _ => before⟩) ?_
  intro log op answer before gathers step member
  rcases List.mem_cons.mp member with rfl | old
  · cases op <;> first | rfl | cases gathers
  · exact before step old

/-- After the last lock. -/
theorem meets_settles (calls : program.Calls (fun op => op.settles = true))
    : program.Meets Rely Mixes (fun _ _ => True) log := by
  refine calls.meets trivial (fun _ op _ settles => ⟨.inr settles, fun locks => ?_⟩)
    (fun _ _ _ _ _ => trivial)
  cases op with
  | lock => cases settles
  | _ => cases locks

variable [Money A]

theorem Transaction.mixes (txn : Transaction A)
    : Prog.Meets Rely (fun log op => txn.twoPhase = true → Mixes log op) (fun _ _ => True)
        txn.program [] := by
  have start : Undropped ([] : List (Step A)) := by simp [Undropped]
  cases txn with
  | newOrder input =>
      refine Prog.Meets.mono ?_ (fun _ _ mixes _ => mixes) (fun _ _ done => done)
      refine (meets_then _ _).mpr ((meets_gathers (calls_newOrderLocks input) start).mono
        (fun _ _ mixes => mixes) ?_)
      intro later result _
      cases result with
      | ok locked => exact meets_settles (calls_newOrderWrites input locked)
      | error stop => exact trivial
  | payment input =>
      exact (meets_gathers (calls_payment input) start).mono (fun _ _ mixes _ => mixes)
        (fun _ _ _ => trivial)
  | _ =>
      exact (Prog.calls_any _).meets trivial (fun _ _ _ _ twoPhase => by cases twoPhase)
        (fun _ _ _ _ _ => trivial)

end Contract

end Alchemy.Tpcc
