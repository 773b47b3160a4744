import Alchemy.Tpcc.Rules

/-! What `payment` does, whatever the machine answers. It updates the warehouse before it has
the district, and the district before it has the customer, so where it is refused decides how
much of the payment is done.
-/

namespace Alchemy.Tpcc

open Cache Oid Interaction Txn

variable {A : Type} [Money A]

/-- What was found in the customer row of a payment. -/
structure CustomerWrites (A : Type) where
  cRid : Rid
  cBalance : A
  cYtdPayment : A
  cPaymentCnt : UInt32

/-- The customer was found by id, or is in the middle of those with the last name. -/
def CustomerQuery.Found (wId dId : UInt32) (log : List (Step A)) (rid : Rid)
    : CustomerQuery → Prop
  | .id cId =>
      ⟨.get .customer (CustomerTuple.makeKey wId.toUInt64 dId.toUInt64 cId.toUInt64), some rid⟩ ∈ log
  | .lastName seed =>
      ∃ rids : List Rid,
        ⟨.lastNameRange
            (CustomerTuple.idxKeyLastname wId.toUInt16 dId.toUInt16 seed.toUInt16 0)
            (CustomerTuple.idxKeyLastname wId.toUInt16 dId.toUInt16 seed.toUInt16
              customerScale.toUInt16) 8, rids⟩ ∈ log
        ∧ rids[rids.length / 2]? = some rid

omit [Money A] in
theorem CustomerQuery.Found.mono {wId dId : UInt32} {log later : List (Step A)} {rid : Rid}
    {cQuery : CustomerQuery} (found : cQuery.Found wId dId log rid)
    (kept : ∀ step ∈ log, step ∈ later)
    : cQuery.Found wId dId later rid := by
  cases cQuery with
  | id cId => exact kept _ found
  | lastName seed =>
      obtain ⟨rids, scanned, middle⟩ := found
      exact ⟨rids, kept _ scanned, middle⟩

namespace PaymentInput

variable (input : PaymentInput A)

def districtKey : UInt64 :=
  DistrictTuple.makeKey input.wId.toUInt64 input.dId.toUInt64

def wYtdStep (rid : Rid) (wYtd : A) : Step A :=
  ⟨.getValueMut .warehouse rid paymentWarehouseQuery .wYtd (wYtd + input.hAmount : A),
    some wYtd⟩

def dYtdStep (rid : Rid) (dYtd : A) : Step A :=
  ⟨.getValueMut .district rid paymentDistrictQuery .dYtd (dYtd + input.hAmount : A), some dYtd⟩

def customerSteps (writes : CustomerWrites A) : List (Step A) :=
  [⟨.getValueMut .customer writes.cRid paymentCustomerQuery .cBalance
      (writes.cBalance - input.hAmount : A), some writes.cBalance⟩,
    ⟨.getValueMut .customer writes.cRid paymentCustomerQuery .cYtdPayment
      (writes.cYtdPayment + input.hAmount : A), some writes.cYtdPayment⟩,
    ⟨.getValueMut .customer writes.cRid paymentCustomerQuery .cPaymentCnt
      (writes.cPaymentCnt + 1 : UInt32), some writes.cPaymentCnt⟩]

/-- The store to `c_data`. -/
def cDataStep (rid : Rid) (wName dName : FixedString 10) (cData : FixedString cDataSize) : Step A :=
  ⟨.getValueMut .customer rid [.cData] .cData (input.shiftData wName dName cData), some cData⟩

/-- The credit of the customer was read. -/
def Credit (log : List (Step A)) (rid : Rid) (cCredit : FixedString 2) : Prop :=
  ⟨.getValue .customer rid paymentCustomerQuery .cCredit, some cCredit⟩ ∈ log

/-- It was found bad. -/
def BadCredit (log : List (Step A)) (rid : Rid) : Prop :=
  ∃ cCredit : FixedString 2, Credit log rid cCredit ∧ cCredit.data = textBC

/-- The names of the payment's own warehouse and district were read. -/
def Named (log : List (Step A)) (wName dName : FixedString 10) : Prop :=
  (∃ rid, ⟨.get .warehouse input.wId.toUInt64, some rid⟩ ∈ log
    ∧ ⟨.getValue .warehouse rid paymentWarehouseQuery .wName, some wName⟩ ∈ log)
  ∧ ∃ rid, ⟨.get .district input.districtKey, some rid⟩ ∈ log
    ∧ ⟨.getValue .district rid paymentDistrictQuery .dName, some dName⟩ ∈ log

/-- What `payment` may do after the operations of its log. -/
inductive Allows : List (Step A) → Op A → Prop
  | reads {log op} (reads : op.free = true) : Allows log op
  | wYtd {earlier rid} {wYtd : A}
    (found : ⟨.get .warehouse input.wId.toUInt64, some rid⟩ ∈ earlier)
    : Allows (⟨.getValue .warehouse rid paymentWarehouseQuery .wYtd, some wYtd⟩ :: earlier)
        (.getValueMut .warehouse rid paymentWarehouseQuery .wYtd (wYtd + input.hAmount : A))
  | dYtd {earlier rid} {dYtd : A}
    (found : ⟨.get .district input.districtKey, some rid⟩ ∈ earlier)
    : Allows (⟨.getValue .district rid paymentDistrictQuery .dYtd, some dYtd⟩ :: earlier)
        (.getValueMut .district rid paymentDistrictQuery .dYtd (dYtd + input.hAmount : A))
  | cBalance {log rid query value} : Allows log (.getValueMut .customer rid query .cBalance value)
  | cYtdPayment {log rid query value}
    : Allows log (.getValueMut .customer rid query .cYtdPayment value)
  | cPaymentCnt {log rid query value}
    : Allows log (.getValueMut .customer rid query .cPaymentCnt value)
  | cData {earlier rid wName dName} {cData : FixedString cDataSize}
    (bad : BadCredit earlier rid) (named : input.Named earlier wName dName)
    : Allows (⟨.getValue .customer rid [.cData] .cData, some cData⟩ :: earlier)
        (.getValueMut .customer rid [.cData] .cData (input.shiftData wName dName cData))

/-- The assertions on the customer row. -/
def Passes (cMiddle : FixedString 2) (cDiscount : A) : Prop :=
  cMiddle.data = textOE ∧ Money.discounted cDiscount = true

/-- The values the assertions are made on; the second one is made if the first one holds. -/
structure Checks (log : List (Step A)) (rid : Rid) (cMiddle : FixedString 2) (cDiscount : A)
    : Prop where
  middle : ⟨.getValue .customer rid paymentCustomerQuery .cMiddle, some cMiddle⟩ ∈ log
  discount : cMiddle.data = textOE
    → ⟨.getValue .customer rid paymentCustomerQuery .cDiscount, some cDiscount⟩ ∈ log

/-- `c_data` is stored to once if the credit is bad, and not at all if it is good. -/
inductive DataSteps (rid : Rid) (cCredit : FixedString 2) : List (Step A) → Prop
  | good (good : cCredit.data ≠ textBC) : DataSteps rid cCredit []
  | bad (bad : cCredit.data = textBC) (wName dName : FixedString 10)
    (cData : FixedString cDataSize)
    : DataSteps rid cCredit [input.cDataStep rid wName dName cData]

/-- The updates of warehouse and district. -/
structure Taken (A : Type) where
  wRid : Rid
  wYtd : A
  dRid : Rid
  dYtd : A

def takenSteps (taken : Taken A) : List (Step A) :=
  [input.wYtdStep taken.wRid taken.wYtd, input.dYtdStep taken.dRid taken.dYtd]

/-- How `payment` ends: by the table where it was refused, by a failed assertion, or well. -/
inductive Ends (log : List (Step A)) : Except Stop Unit → Prop
  | noWarehouse {error} (refused : refusals log = [.warehouse]) (changed : changes log = [])
    : Ends log (.error (.err error))
  | noDistrict {error} (wRid : Rid) (wYtd : A) (refused : refusals log = [.district])
    (changed : changes log = [input.wYtdStep wRid wYtd])
    : Ends log (.error (.err error))
  | noCustomer {outcome} (taken : Taken A) (refused : refusals log = [.customer])
    (changed : changes log = input.takenSteps taken)
    : Ends log outcome
  | asserted {taken writes cMiddle cDiscount} (refused : refusals log = [])
    (changed : changes log = input.takenSteps taken ++ input.customerSteps writes)
    (checks : Checks log writes.cRid cMiddle cDiscount) (fails : ¬Passes cMiddle cDiscount)
    : Ends log (.error .panic)
  | paid {taken writes cMiddle cDiscount cCredit cData} (refused : refusals log = [])
    (changed : changes log = input.takenSteps taken ++ (input.customerSteps writes ++ cData))
    (credit : Credit log writes.cRid cCredit) (data : input.DataSteps writes.cRid cCredit cData)
    (checks : Checks log writes.cRid cMiddle cDiscount) (passes : Passes cMiddle cDiscount)
    (customer : input.cQuery.Found input.cWId input.cDId log writes.cRid)
    : Ends log (.ok ())

theorem permits : Permits (input.Allows (A := A)) :=
  fun _ _ reads => .reads reads

variable {input} {log later : List (Step A)}

omit [Money A] in
theorem Checks.mono {rid : Rid} {cMiddle : FixedString 2} {cDiscount : A}
    (checks : Checks log rid cMiddle cDiscount) (kept : ∀ step ∈ log, step ∈ later)
    : Checks later rid cMiddle cDiscount :=
  ⟨kept _ checks.middle, fun passes => kept _ (checks.discount passes)⟩

theorem Ends.mono {outcome : Except Stop Unit} (ends : input.Ends log outcome)
    (grown : Grown log [] later)
    : input.Ends later outcome := by
  cases ends with
  | noWarehouse refused changed =>
      exact .noWarehouse (grown.refusals.trans refused) (grown.same.trans changed)
  | noDistrict wRid wYtd refused changed =>
      exact .noDistrict wRid wYtd (grown.refusals.trans refused) (grown.same.trans changed)
  | noCustomer taken refused changed =>
      exact .noCustomer taken (grown.refusals.trans refused) (grown.same.trans changed)
  | asserted refused changed checks fails =>
      exact .asserted (grown.refusals.trans refused) (grown.same.trans changed)
        (checks.mono grown.kept) fails
  | paid refused changed credit data checks passes customer =>
      exact .paid (grown.refusals.trans refused) (grown.same.trans changed)
        (grown.kept _ credit) data (checks.mono grown.kept) passes (customer.mono grown.kept)

end PaymentInput

section FindCustomer

variable {log : List (Step A)}

omit [Money A] in
/-- The customer of a payment or an order status is locked, or refused, or nobody has the
name.
-/
theorem meets_findCustomer {obliged : List (Step A) → Op A → Prop} (permits : Permits obliged)
    {post : List (Step A) → Except Stop (Option Rid) → Prop} {wId dId : UInt32}
    {cQuery : CustomerQuery}
    (found
      : ∀ rid later, Reading log later → cQuery.Found wId dId later rid
        → post later (.ok (some rid)))
    (unknown
      : ∀ later, changes later = changes log → refusals later = .customer :: refusals log
        → post later (.ok none))
    (fails
      : ∀ error later, changes later = changes log
        → refusals later = .customer :: refusals log → post later (.error (.err error)))
    : Prog.Meets Rely obliged post (findCustomer wId dId cQuery) log := by
  cases cQuery with
  | id cId =>
      refine (meets_then _ _).mpr (meets_lockKey (permits _ _ rfl) permits ?_ ?_)
      · intro rid later locked there
        exact found rid later locked.reading there
      · intro error later refused
        exact fails error later refused.changes refused.refusals
  | lastName seed =>
      refine (meets_then _ _).mpr (meets_lastNameRange (permits _ _ rfl) ?_ unknown)
      intro first rest later scanned there
      obtain ⟨middleRid, here⟩ : ∃ middleRid,
          (first :: rest)[(first :: rest).length / 2]? = some middleRid :=
        ⟨_, List.getElem?_eq_getElem (Nat.div_lt_self (by simp) (by decide))⟩
      simp only [upon_ok, here]
      refine (meets_then _ _).mpr (meets_notFoundAborts (meets_lockRid permits ?_ ?_))
      · intro last locked
        exact found middleRid last (scanned.trans locked.reading)
          ⟨first :: rest, locked.reading.mem there, here⟩
      · intro error last refused
        have refused := refused.trans scanned
        cases error <;> exact fails _ last refused.changes refused.refusals

end FindCustomer

namespace PaymentInput

variable {input : PaymentInput A} {log : List (Step A)}

omit [Money A] in
theorem Named.mono {later : List (Step A)} {wName dName : FixedString 10}
    (named : input.Named log wName dName) (kept : ∀ step ∈ log, step ∈ later)
    : input.Named later wName dName :=
  ⟨named.1.imp (fun _ => And.imp (kept _) (kept _)), named.2.imp (fun _ => And.imp (kept _) (kept _))⟩

/-- The customer's part: three updates, two assertions, and `c_data` for bad credit. -/
theorem meets_payCustomer {post : List (Step A) → Except Stop Unit → Prop}
    {wResult : QueryValue .warehouse} {dResult : QueryValue .district} {cLock : Rid}
    (wQuery : wResult.query = paymentWarehouseQuery)
    (dQuery : dResult.query = paymentDistrictQuery)
    (wFound : ⟨.get .warehouse input.wId.toUInt64, some wResult.rid⟩ ∈ log)
    (dFound : ⟨.get .district input.districtKey, some dResult.rid⟩ ∈ log)
    (asserted
      : ∀ writes cMiddle cDiscount later, Grown log (input.customerSteps writes) later
        → Checks later writes.cRid cMiddle cDiscount → ¬Passes cMiddle cDiscount
        → post later (.error .panic))
    (paid
      : ∀ writes cMiddle cDiscount cCredit cData later,
          writes.cRid = cLock → Grown log (input.customerSteps writes ++ cData) later
        → Credit later writes.cRid cCredit → input.DataSteps writes.cRid cCredit cData
        → Checks later writes.cRid cMiddle cDiscount → Passes cMiddle cDiscount
        → post later (.ok ()))
    : Prog.Meets Rely input.Allows post (payCustomer input wResult dResult cLock) log := by
  refine (meets_then _ _).mpr (meets_readAndPromote input.permits ?_)
  intro _ cRead
  refine (meets_then _ _).mpr (meets_touch input.permits (by simp) ?_)
  intro _ cTouched
  have before := (cRead.trans cTouched).grown
  refine (meets_then _ _).mpr (meets_update input.permits (by simp [paymentCustomerQuery])
    (by simp [Table.Kept]) (fun _ => .cBalance) ?_)
  intro cBalance _ balanced
  refine (meets_then _ _).mpr (meets_update input.permits (by simp [paymentCustomerQuery])
    (by simp [Table.Kept]) (fun _ => .cYtdPayment) ?_)
  intro cYtdPayment _ added
  refine (meets_then _ _).mpr (meets_update input.permits (by simp [paymentCustomerQuery])
    (by simp [Table.Kept]) (fun _ => .cPaymentCnt) ?_)
  intro cPaymentCnt stored counted
  let writes : CustomerWrites A := ⟨cLock, cBalance, cYtdPayment, cPaymentCnt⟩
  have soFar : Grown log (input.customerSteps writes) stored := by
    simpa [customerSteps] using ((before.trans balanced).trans added).trans counted
  refine (meets_then _ _).mpr (meets_load input.permits (by simp [paymentCustomerQuery]) ?_)
  intro cMiddle asked readMiddle seenMiddle
  have upToMiddle : Grown log (input.customerSteps writes) asked := by
    simpa using soFar.trans readMiddle.grown
  refine meets_ite ?_ ?_
  · intro wrong
    refine asserted writes cMiddle 0 asked upToMiddle
      ⟨seenMiddle, fun right => absurd right wrong⟩ ?_
    exact fun passes => wrong passes.1
  intro middle
  refine (meets_then _ _).mpr (meets_load input.permits (by simp [paymentCustomerQuery]) ?_)
  intro cDiscount checked readDiscount seenDiscount
  have checks : Checks checked writes.cRid cMiddle cDiscount :=
    ⟨readDiscount.mem seenMiddle, fun _ => seenDiscount⟩
  have upToDiscount : Grown log (input.customerSteps writes) checked := by
    simpa using upToMiddle.trans readDiscount.grown
  refine meets_ite ?_ ?_
  · intro wrong
    refine asserted writes cMiddle cDiscount checked upToDiscount checks ?_
    exact fun passes => by simp [passes.2] at wrong
  intro discount
  have passes : Passes cMiddle cDiscount := ⟨Classical.not_not.mp middle, by simpa using discount⟩
  refine (meets_then _ _).mpr
    (meets_load input.permits (by simp [wQuery, paymentWarehouseQuery]) ?_)
  intro wName _ readW seenW
  refine (meets_then _ _).mpr
    (meets_load input.permits (by simp [dQuery, paymentDistrictQuery]) ?_)
  intro dName _ readD seenD
  refine (meets_then _ _).mpr (meets_load input.permits (by simp [paymentCustomerQuery]) ?_)
  intro cCredit credited readCredit credit
  have reading := (readW.trans readD).trans readCredit
  rw [wQuery] at seenW
  rw [dQuery] at seenD
  have named : input.Named credited wName dName :=
    ⟨⟨_, reading.mem (upToDiscount.kept _ wFound), readCredit.mem (readD.mem seenW)⟩,
      ⟨_, reading.mem (upToDiscount.kept _ dFound), readCredit.mem seenD⟩⟩
  refine meets_ite ?_ ?_
  · intro bad
    refine (meets_then _ _).mpr (meets_readAndPromote input.permits ?_)
    intro _ readData
    refine meets_update input.permits (by simp) (by simp [Table.Kept])
      (fun _ => .cData ⟨cCredit, readData.mem credit, bad⟩ (named.mono (fun _ => readData.mem))) ?_
    intro cData later shifted
    have rest := (reading.trans readData).grown.trans shifted
    exact paid writes cMiddle cDiscount cCredit _ later rfl (upToDiscount.trans rest)
      (shifted.kept _ (readData.mem credit)) (.bad bad wName dName cData)
      (checks.mono rest.kept) passes
  · intro good
    exact paid writes cMiddle cDiscount cCredit [] credited rfl
      (upToDiscount.trans reading.grown) credit (.good good) (checks.mono (fun _ => reading.mem)) passes

/-- `payment` does what is promised. -/
theorem meets_payment (input : PaymentInput A)
    : Prog.Meets Rely input.Allows input.Ends (payment input) [] := by
  refine (meets_then _ _).mpr (meets_lockKey (input.permits _ _ rfl) input.permits ?_ ?_)
  · intro wRid _ warehouse wFound
    refine (meets_then _ _).mpr (meets_readAndPromote input.permits ?_)
    intro _ wRead
    refine (meets_then _ _).mpr (meets_touch input.permits (by simp) ?_)
    intro _ wTouched
    have reading := wRead.trans wTouched
    have before := warehouse.reading.trans reading
    refine (meets_then _ _).mpr (meets_update input.permits (by simp [paymentWarehouseQuery])
      (by simp [Table.Kept]) (fun _ => .wYtd (reading.mem wFound)) ?_)
    intro wYtd first paidW
    have wKept := paidW.kept _ (reading.mem wFound)
    have paidW : Grown [] [input.wYtdStep wRid wYtd] first := before.grown.trans paidW
    refine (meets_then _ _).mpr (meets_lockKey (input.permits _ _ rfl) input.permits ?_ ?_)
    · intro dRid _ district dFound
      refine (meets_then _ _).mpr (meets_readAndPromote input.permits ?_)
      intro _ dRead
      have before := district.reading.trans dRead
      refine (meets_then _ _).mpr (meets_update input.permits (by simp [paymentDistrictQuery])
        (by simp [Table.Kept]) (fun _ => .dYtd (dRead.mem dFound)) ?_)
      intro dYtd _ paidD
      refine (meets_then _ _).mpr (meets_touch input.permits (by simp) ?_)
      intro second dTouched
      let taken : Taken A := ⟨wRid, wYtd, dRid, dYtd⟩
      have soFar : Grown [] (input.takenSteps taken) second :=
        paidW.trans ((before.grown.trans paidD).trans dTouched.grown)
      refine (meets_then _ _).mpr (meets_findCustomer input.permits ?_ ?_ ?_)
      · intro cRid third found there
        have soFar : Grown [] (input.takenSteps taken) third := by
          simpa using soFar.trans found.grown
        have kept := fun step (member : step ∈ _) =>
          found.mem (dTouched.mem (paidD.kept step member))
        refine meets_payCustomer rfl rfl (kept _ (before.mem wKept)) (kept _ (dRead.mem dFound))
          ?_ ?_
        · intro writes cMiddle cDiscount later customer checks fails
          have all := soFar.trans customer
          exact .asserted all.refusals all.changed checks fails
        · intro writes cMiddle cDiscount cCredit cData later sameRid customer credit data checks
            passes
          have all := soFar.trans customer
          exact .paid all.refusals all.changed credit data checks passes
            (sameRid ▸ there.mono customer.kept)
      · intro later same refused
        refine .noCustomer taken ?_ ?_
        · rw [refused, soFar.refusals]; rfl
        · rw [same, soFar.changed]; rfl
      · intro error later same refused
        refine .noCustomer taken ?_ ?_
        · rw [refused, soFar.refusals]; rfl
        · rw [same, soFar.changed]; rfl
    · intro error later refused
      refine .noDistrict wRid wYtd ?_ ?_
      · rw [refused.refusals, paidW.refusals]; rfl
      · rw [refused.changes, paidW.changed]; rfl
  · intro error later refused
    exact .noWarehouse refused.refusals refused.changes

end PaymentInput

end Alchemy.Tpcc
