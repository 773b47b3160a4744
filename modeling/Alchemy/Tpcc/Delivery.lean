import Alchemy.Tpcc.Rules

/-! What `delivery` does, whatever the machine answers. In each district it takes the entry of
the oldest order out of the index first; everything after that can be refused.
-/

namespace Alchemy.Tpcc

open Cache Oid Interaction Txn

variable {A : Type}

/-- One order line of a round: what was there before the stamp, and the amount. -/
structure Stamp (A : Type) where
  olRid : Rid
  olDeliveryD : Option UInt64
  olAmount : A

/-- One round of the loop over the districts, with what was found on the way. -/
structure Round (A : Type) where
  dId : UInt64
  key : UInt64
  removed : Option UInt64
  oRid : Rid
  oCarrierId : Option UInt64
  stamps : List (Stamp A)
  cRid : Rid
  cBalance : A
  cDeliveryCnt : UInt32

def deliveryOrderQuery : List Table.order.Name :=
  [.oCId, .oCarrierId]

def deliveryLineQuery : List Table.orderLine.Name :=
  [.olDeliveryD, .olAmount]

def deliveryCustomerQuery : List Table.customer.Name :=
  [.cBalance, .cDeliveryCnt]

def Stamp.step (deliveryTime : UInt64) (stamp : Stamp A) : Step A :=
  ⟨.getValueMut .orderLine stamp.olRid deliveryLineQuery .olDeliveryD deliveryTime,
    stamp.olDeliveryD⟩

namespace DeliveryInput

variable (input : DeliveryInput)

/-- The key of the order that an entry of the new-order index stands for. -/
def orderKey (dId key : UInt64) : UInt64 :=
  OrderTuple.makeKey input.wId.toUInt64 dId (NewOrderTuple.oCIdFromKey key).2
    (NewOrderTuple.oCIdFromKey key).1

def customerKey (dId key : UInt64) : UInt64 :=
  CustomerTuple.makeKey input.wId.toUInt64 dId (NewOrderTuple.oCIdFromKey key).2

/-- The scan for the oldest entry of a district. -/
def scan (dId : UInt64) : Op A :=
  .newOrderRange (NewOrderTuple.makeKey input.wId.toUInt64 dId 0 0)
    (NewOrderTuple.makeKey input.wId.toUInt64 dId 0xffff 0xffff) 1

/-- The scan for the lines of an order. -/
def lineScan (dId key : UInt64) : Op A :=
  .range .orderLine
    (OrderLineTuple.makeKey input.wId.toUInt64 dId (NewOrderTuple.oCIdFromKey key).1 0)
    (OrderLineTuple.makeKey input.wId.toUInt64 dId (NewOrderTuple.oCIdFromKey key).1
      itemScale.toUInt64) 20

/-- An entry of a district was found. -/
def Scanned (log : List (Step A)) (dId key : UInt64) : Prop :=
  ∃ value rest, ⟨input.scan dId, (key, value) :: rest⟩ ∈ log

/-- What `delivery` may do after the operations of its log. -/
inductive Allows : List (Step A) → Op A → Prop
  | reads {log op} (reads : op.free = true) : Allows log op
  | remove {log dId key} (scanned : input.Scanned log dId key) : Allows log (.newOrderRemove key)
  | order {log dId key} (district : dId.toNat < districtScale)
    (scanned : input.Scanned log dId key)
    : Allows log (.get .order (input.orderKey dId key))
  | oCarrierId {log rid query value}
    : Allows log (.getValueMut .order rid query .oCarrierId value)
  | olDeliveryD {log rid query value}
    : Allows log (.getValueMut .orderLine rid query .olDeliveryD value)
  | cBalance {log rid query value} : Allows log (.getValueMut .customer rid query .cBalance value)
  | cDeliveryCnt {log rid query value}
    : Allows log (.getValueMut .customer rid query .cDeliveryCnt value)
  | drop {log table rid kind}
    (inner : table = .order ∨ table = .orderLine ∨ table = .customer)
    : Allows log (.drop table rid kind)

def removeStep (key : UInt64) (removed : Option UInt64) : Step A :=
  ⟨.newOrderRemove key, removed⟩

def carrierStep (rid : Rid) (old : Option UInt64) : Step A :=
  ⟨.getValueMut .order rid deliveryOrderQuery .oCarrierId input.oCarrierId.toUInt64, old⟩

/-- What was found in the rows of a complete round. -/
structure Delivers (log : List (Step A)) (round : Round A) : Prop where
  district : round.dId.toNat < districtScale
  scanned : input.Scanned log round.dId round.key
  order : ⟨.get .order (input.orderKey round.dId round.key), some round.oRid⟩ ∈ log
  oCId
    : ⟨.getValue .order round.oRid deliveryOrderQuery .oCId,
        some (NewOrderTuple.oCIdFromKey round.key).2⟩ ∈ log
  lines
    : ⟨input.lineScan round.dId round.key, round.stamps.map (fun stamp => stamp.olRid)⟩ ∈ log
  amounts
    : ∀ stamp ∈ round.stamps,
        ⟨.getValue .orderLine stamp.olRid deliveryLineQuery .olAmount, some stamp.olAmount⟩ ∈ log
  customer : ⟨.get .customer (input.customerKey round.dId round.key), some round.cRid⟩ ∈ log

/-- The order that was found belongs to another customer. -/
def Mismatch (log : List (Step A)) : Prop :=
  ∃ dId key rid oCId, dId.toNat < districtScale ∧ input.Scanned log dId key
    ∧ ⟨.get .order (input.orderKey dId key), some rid⟩ ∈ log
    ∧ ⟨.getValue .order rid deliveryOrderQuery .oCId, some oCId⟩ ∈ log
    ∧ oCId ≠ (NewOrderTuple.oCIdFromKey key).2

/-- Why a round is broken off: the order or the customer of an entry that was found before is not
there, a lock is busy, or the order is the wrong one.
-/
inductive Breaks (log : List (Step A)) : Stop → Prop
  | order {dId key earlier} (district : dId.toNat < districtScale)
    (scanned : input.Scanned earlier dId key)
    (missing : ⟨.get .order (input.orderKey dId key), none⟩ :: earlier <:+ log)
    : Breaks log (.err .indexNotFound)
  | customer {dId key earlier} (district : dId.toNat < districtScale)
    (scanned : input.Scanned earlier dId key)
    (missing : ⟨.get .customer (input.customerKey dId key), none⟩ :: earlier <:+ log)
    : Breaks log (.err .indexNotFound)
  | busy {error} (refused : refusals log ≠ []) (busy : Busy error) : Breaks log (.err error)
  | mismatch (mismatch : input.Mismatch log) : Breaks log .panic

variable {input} {log later : List (Step A)}

theorem Scanned.mono {dId key : UInt64} (scanned : input.Scanned log dId key)
    (kept : ∀ step ∈ log, step ∈ later)
    : input.Scanned later dId key := by
  obtain ⟨value, rest, found⟩ := scanned
  exact ⟨value, rest, kept _ found⟩

theorem Delivers.mono {round : Round A} (delivers : input.Delivers log round)
    (kept : ∀ step ∈ log, step ∈ later)
    : input.Delivers later round where
  district := delivers.district
  scanned := delivers.scanned.mono kept
  order := kept _ delivers.order
  oCId := kept _ delivers.oCId
  lines := kept _ delivers.lines
  amounts := fun stamp member => kept _ (delivers.amounts stamp member)
  customer := kept _ delivers.customer

theorem permits (input : DeliveryInput) : Permits (input.Allows (A := A)) :=
  fun _ _ reads => .reads reads

end DeliveryInput

/-! ### One round -/

/-- The changes of a round between the removal of the entry and the customer. -/
def Inner (step : Step A) : Prop :=
  ∃ rid, touched step = some (.order, rid) ∨ touched step = some (.orderLine, rid)

variable [Money A]

namespace DeliveryInput

variable (input : DeliveryInput)

def customerSteps (round : Round A) : List (Step A) :=
  [⟨.getValueMut .customer round.cRid deliveryCustomerQuery .cBalance
      (round.cBalance + (round.stamps.map (fun stamp => stamp.olAmount)).sum : A),
      some round.cBalance⟩,
    ⟨.getValueMut .customer round.cRid deliveryCustomerQuery .cDeliveryCnt
      (round.cDeliveryCnt + 1 : UInt32), some round.cDeliveryCnt⟩]

/-- The changes of a complete round. -/
def roundSteps (deliveryTime : UInt64) (round : Round A) : List (Step A) :=
  [removeStep round.key round.removed, input.carrierStep round.oRid round.oCarrierId]
  ++ round.stamps.map (fun stamp => stamp.step deliveryTime)
  ++ customerSteps round

/-- How `delivery` ends: after complete rounds, or with an entry removed and its order not
delivered.
-/
inductive Ends (deliveryTime : UInt64) (log : List (Step A)) : Except Stop Unit → Prop
  | delivered (rounds : List (Round A)) (refused : refusals log = [])
    (changed : changes log = rounds.flatMap (input.roundSteps deliveryTime))
    (complete : ∀ round ∈ rounds, input.Delivers log round)
    : Ends deliveryTime log (.ok ())
  | broken {stop} (rounds : List (Round A)) (key : UInt64) (removed : Option UInt64)
    (more : List (Step A))
    (changed
      : changes log
          = rounds.flatMap (input.roundSteps deliveryTime) ++ removeStep key removed :: more)
    (inner : ∀ step ∈ more, Inner step) (breaks : input.Breaks log stop)
    : Ends deliveryTime log (.error stop)

variable {input} {deliveryTime : UInt64} {log later : List (Step A)}

omit [Money A] in
theorem Breaks.mono {stop : Stop} (breaks : input.Breaks log stop) (grown : Grown log [] later)
    (longer : log <:+ later)
    : input.Breaks later stop := by
  cases breaks with
  | order district scanned missing => exact .order district scanned (missing.trans longer)
  | customer district scanned missing => exact .customer district scanned (missing.trans longer)
  | busy refused busy => exact .busy (grown.refusals ▸ refused) busy
  | mismatch mismatch =>
      obtain ⟨dId, key, rid, oCId, small, scanned, found, seen, differs⟩ := mismatch
      exact .mismatch ⟨dId, key, rid, oCId, small, scanned.mono grown.kept, grown.kept _ found,
        grown.kept _ seen, differs⟩

theorem Ends.mono {outcome : Except Stop Unit} (ends : input.Ends deliveryTime log outcome)
    (grown : Grown log [] later) (longer : log <:+ later)
    : input.Ends deliveryTime later outcome := by
  cases ends with
  | delivered rounds refused changed complete =>
      exact .delivered rounds (grown.refusals.trans refused) (grown.same.trans changed)
        (fun round member => (complete round member).mono grown.kept)
  | broken rounds key removed more changed inner breaks =>
      exact .broken rounds key removed more (grown.same.trans changed) inner
        (breaks.mono grown longer)

/-- The stamps, by induction on the lines that are left. -/
theorem meets_stampLines {post : List (Step A) → Except Stop A → Prop} {rids : List Rid}
    {olAmountSum : A}
    (done
      : ∀ (stamps : List (Stamp A)) later,
          Grown log (stamps.map (fun stamp => stamp.step deliveryTime)) later
        → stamps.map (fun stamp => stamp.olRid) = rids
        → (∀ stamp ∈ stamps,
            ⟨.getValue .orderLine stamp.olRid deliveryLineQuery .olAmount, some stamp.olAmount⟩
              ∈ later)
        → post later (.ok (olAmountSum + (stamps.map (fun stamp => stamp.olAmount)).sum)))
    (fails
      : ∀ error more later, changes later = changes log ++ more → (∀ step ∈ more, Inner step)
        → refusals later ≠ [] → Busy error → post later (.error (.err error)))
    : Prog.Meets Rely input.Allows post (stampLines deliveryTime rids olAmountSum) log := by
  induction rids generalizing log olAmountSum with
  | nil =>
      have last := done [] log Reading.refl.grown rfl (by simp)
      rw [List.map_nil, List.sum_nil, add_zero] at last
      exact last
  | cons rid rest ih =>
      refine (meets_then _ _).mpr (meets_tryLockRid input.permits ?_ ?_)
      · intro _ locked
        refine (meets_then _ _).mpr (meets_readAndPromote input.permits ?_)
        intro _ olRead
        refine (meets_then _ _).mpr (meets_setValue .olDeliveryD ?_)
        intro old _ _ stored
        refine (meets_then _ _).mpr (meets_load input.permits (by simp) ?_)
        intro olAmount _ loaded amount
        refine (meets_then _ _).mpr (meets_drop (.drop (by simp)) ?_)
        intro middle dropped
        let stamp : Stamp A := ⟨rid, old, olAmount⟩
        have stamped : Grown log [stamp.step deliveryTime] middle :=
          (locked.reading.trans olRead).grown.trans
            (stored.trans (loaded.grown.trans dropped))
        refine ih ?_ ?_
        · intro stamps later grown sameRids amounts
          have last := done (stamp :: stamps) later (stamped.trans grown)
            (congrArg (rid :: ·) sameRids) ?_
          · rw [List.map_cons, List.sum_cons, ← add_assoc] at last
            exact last
          · intro other member
            rcases List.mem_cons.mp member with rfl | member
            · exact grown.kept _ (dropped.kept _ amount)
            · exact amounts other member
        · intro error more later changed inner refused busy
          refine fails error (stamp.step deliveryTime :: more) later ?_ ?_ refused busy
          · rw [changed, stamped.changed, List.append_assoc]
            rfl
          · intro step member
            rcases List.mem_cons.mp member with rfl | member
            · exact ⟨rid, .inr rfl⟩
            · exact inner step member
      · intro error busy
        refine fails error [] _ ?_ (by simp) (List.cons_ne_nil _ _) busy
        rw [changes_cons_of_quiet rfl, List.append_nil]

/-- The rest of a round, once the entry is removed. -/
theorem meets_deliverOrder {post : List (Step A) → Except Stop Unit → Prop} {dId key : UInt64}
    (removed : Option UInt64) (district : dId.toNat < districtScale) (scanned : input.Scanned log dId key)
    (done
      : ∀ (round : Round A) later, round.dId = dId → round.key = key → round.removed = removed
        → Grown log
            ([input.carrierStep round.oRid round.oCarrierId]
              ++ round.stamps.map (fun stamp => stamp.step deliveryTime)
              ++ customerSteps round) later
        → input.Delivers later round → post later (.ok ()))
    (breaks
      : ∀ stop more later, changes later = changes log ++ more → (∀ step ∈ more, Inner step)
        → input.Breaks later stop → post later (.error stop))
    : Prog.Meets Rely input.Allows post (deliverOrder input deliveryTime dId key) log := by
  refine (meets_then _ _).mpr (meets_lookup (.order district scanned) input.permits ?_ ?_ ?_)
  · intro oRid _ order oFound
    refine (meets_then _ _).mpr (meets_read input.permits ?_)
    intro _ oRead
    refine (meets_then _ _).mpr (meets_setValue .oCarrierId ?_)
    intro carrier _ _ stored
    refine (meets_then _ _).mpr (meets_load input.permits (by simp) ?_)
    intro oCId first loaded seen
    have carried : Grown log [input.carrierStep oRid carrier] first :=
      ((order.reading.trans oRead).grown.trans stored).trans loaded.grown
    have oFound := loaded.mem (stored.kept _ (oRead.mem oFound))
    have carriedInner : ∀ step ∈ [input.carrierStep (A := A) oRid carrier], Inner step := by
      intro step member
      obtain rfl := List.mem_singleton.mp member
      exact ⟨oRid, .inl rfl⟩
    refine meets_ite ?_ ?_
    · intro different
      exact breaks .panic _ first carried.changed carriedInner
        (.mismatch ⟨dId, key, oRid, oCId, district, scanned.mono carried.kept, oFound, seen,
          different⟩)
    intro same
    obtain rfl := Classical.not_not.mp same
    refine (meets_then _ _).mpr (meets_performs (input.permits _ _ rfl) ?_)
    intro rids _
    have ranged : Reading first (⟨input.lineScan dId key, rids⟩ :: first) :=
      .step .refl rfl rfl
    refine (meets_then _ _).mpr (meets_stampLines ?_ ?_)
    · intro stamps second stamped sameRids amounts
      rw [zero_add]
      have soFar : Grown log ([input.carrierStep oRid carrier]
          ++ stamps.map (fun stamp => stamp.step deliveryTime)) second :=
        carried.trans (ranged.grown.trans stamped)
      have soFarInner : ∀ step ∈ [input.carrierStep (A := A) oRid carrier]
          ++ stamps.map (fun stamp => stamp.step deliveryTime), Inner step := by
        intro step member
        rcases List.mem_append.mp member with carrier | line
        · exact carriedInner step carrier
        · obtain ⟨stamp, _, rfl⟩ := List.mem_map.mp line
          exact ⟨stamp.olRid, .inr rfl⟩
      refine (meets_then _ _).mpr (meets_lookup (input.permits _ _ rfl) input.permits ?_ ?_ ?_)
      · intro cRid _ customer cFound
        refine (meets_then _ _).mpr (meets_readAndPromote input.permits ?_)
        intro _ cRead
        refine (meets_then _ _).mpr (meets_update input.permits (by simp) (by simp [Table.Kept])
          (fun _ => .cBalance) ?_)
        intro cBalance _ balanced
        refine (meets_then _ _).mpr (meets_update input.permits (by simp) (by simp [Table.Kept])
          (fun _ => .cDeliveryCnt) ?_)
        intro cDeliveryCnt _ counted
        refine (meets_then _ _).mpr (meets_drop (.drop (by simp)) ?_)
        intro _ cDropped
        refine meets_drop (.drop (by simp)) ?_
        intro later oDropped
        let round : Round A :=
          ⟨dId, key, removed, oRid, carrier, stamps, cRid, cBalance, cDeliveryCnt⟩
        have updated := (balanced.trans counted).trans (cDropped.trans oDropped)
        have rest : Grown second (customerSteps round) later :=
          (customer.reading.trans cRead).grown.trans updated
        have kept := ((ranged.grown.trans stamped).trans rest).kept
        have all := soFar.trans rest
        refine done round later rfl rfl rfl all
          { district
            scanned := scanned.mono all.kept
            order := kept _ oFound
            oCId := kept _ seen
            lines := (stamped.trans rest).kept _ (sameRids ▸ List.mem_cons_self)
            amounts := fun stamp member => rest.kept _ (amounts stamp member)
            customer := updated.kept _ (cRead.mem cFound) }
      · exact breaks _ _ _ ((changes_cons_of_quiet rfl).trans soFar.changed) soFarInner
          (.customer district (scanned.mono soFar.kept) (List.suffix_refl _))
      · intro cRid error later reading busy
        exact breaks _ _ _
          ((changes_cons_of_quiet rfl).trans (reading.changes.trans soFar.changed)) soFarInner
          (.busy (List.cons_ne_nil _ _) busy)
    · intro error more later changed inner refused busy
      refine breaks _ ([input.carrierStep oRid carrier] ++ more) later ?_ ?_ (.busy refused busy)
      · rw [changed, ← List.append_assoc, ← carried.changed]
        exact congrArg (· ++ more) ranged.changes
      · intro step member
        rcases List.mem_append.mp member with carrier | stamp
        · exact carriedInner step carrier
        · exact inner step stamp
  · refine breaks _ [] _ ?_ (by simp) (.order district scanned (List.suffix_refl _))
    rw [changes_cons_of_quiet rfl, List.append_nil]
  · intro oRid error later reading busy
    refine breaks _ [] _ ?_ (by simp) (.busy (List.cons_ne_nil _ _) busy)
    rw [changes_cons_of_quiet rfl, reading.changes, List.append_nil]

/-- One district: nothing to deliver, a complete round, or a broken one. -/
theorem meets_deliverDistrict {post : List (Step A) → Except Stop Bool → Prop} {dId : UInt64}
    (district : dId.toNat < districtScale)
    (empty : ∀ later, Reading log later → post later (.ok false))
    (done
      : ∀ round later, Grown log (input.roundSteps deliveryTime round) later
        → input.Delivers later round → post later (.ok true))
    (breaks
      : ∀ stop key removed more later, changes later = changes log ++ removeStep key removed :: more
        → (∀ step ∈ more, Inner step) → input.Breaks later stop → post later (.error stop))
    : Prog.Meets Rely input.Allows post (deliverDistrict input deliveryTime dId) log := by
  refine (meets_then _ _).mpr (meets_performs (input.permits _ _ rfl) ?_)
  intro scanned _
  cases scanned with
  | nil => exact empty _ (.step .refl rfl rfl)
  | cons entry others =>
      obtain ⟨key, value⟩ := entry
      have reading : Reading log (⟨input.scan dId, (key, value) :: others⟩ :: log) :=
        .step .refl rfl rfl
      have found : input.Scanned (⟨input.scan dId, (key, value) :: others⟩ :: log) dId key :=
        ⟨value, others, List.mem_cons_self⟩
      refine (meets_then _ _).mpr (meets_change rfl (.remove found) ?_)
      intro removed middle taken
      have kept := taken.kept
      have taken : Grown log [removeStep key removed] middle := reading.grown.trans taken
      refine (meets_then _ _).mpr (meets_deliverOrder removed district (found.mono kept) ?_ ?_)
      · intro round later sameDistrict sameKey sameRemoved grown delivers
        refine done round later ?_ delivers
        have all := taken.trans grown
        rw [← sameKey, ← sameRemoved] at all
        simpa [roundSteps] using all
      · intro stop more later changed inner breaks'
        refine breaks stop key removed more later ?_ inner breaks'
        rw [changed, taken.changed, List.append_assoc]
        rfl

/-- The districts one after the other, by induction on those that are left. -/
theorem meets_deliverDistricts {post : List (Step A) → Except Stop Unit → Prop}
    {districts : List Nat} (small : ∀ dId ∈ districts, dId < districtScale)
    (done
      : ∀ (rounds : List (Round A)) later,
          Grown log (rounds.flatMap (input.roundSteps deliveryTime)) later
        → (∀ round ∈ rounds, input.Delivers later round) → post later (.ok ()))
    (breaks
      : ∀ stop (rounds : List (Round A)) key removed more later,
          changes later
            = changes log ++ rounds.flatMap (input.roundSteps deliveryTime)
              ++ removeStep key removed :: more
        → (∀ step ∈ more, Inner step) → input.Breaks later stop → post later (.error stop))
    : Prog.Meets Rely input.Allows post (deliverDistricts input deliveryTime districts) log := by
  induction districts generalizing log with
  | nil => exact done [] log Reading.refl.grown (by simp)
  | cons dId rest ih =>
      have district : dId.toUInt64.toNat < districtScale := by
        have inside := small dId List.mem_cons_self
        rw [Nat.toUInt64, UInt64.toNat_ofNat_of_lt' (Nat.lt_trans inside (by decide))]
        exact inside
      refine (meets_then _ _).mpr (meets_deliverDistrict district ?_ ?_ ?_)
      · intro later reading
        exact done [] later reading.grown (by simp)
      · intro round middle worked delivers
        refine ih (fun other member => small other (List.mem_cons_of_mem _ member)) ?_ ?_
        · intro rounds later grown complete
          refine done (round :: rounds) later (worked.trans grown) ?_
          intro other member
          rcases List.mem_cons.mp member with rfl | member
          · exact delivers.mono grown.kept
          · exact complete other member
        · intro stop rounds key removed more later changed inner breaks'
          refine breaks stop (round :: rounds) key removed more later ?_ inner breaks'
          rw [changed, worked.changed, List.flatMap_cons, List.append_assoc (changes log)]
      · intro stop key removed more later changed inner breaks'
        exact breaks stop [] key removed more later (by simpa using changed) inner breaks'

/-- `delivery` does what is promised. -/
theorem meets_delivery (input : DeliveryInput) (deliveryTime : UInt64)
    : Prog.Meets Rely (input.Allows (A := A)) (input.Ends deliveryTime)
        (delivery input deliveryTime) [] := by
  refine meets_deliverDistricts (fun dId member => List.mem_range.mp member) ?_ ?_
  · intro rounds later grown complete
    exact .delivered rounds grown.refusals grown.changed complete
  · intro stop rounds key removed more later changed inner breaks
    exact .broken rounds key removed more changed inner breaks

end DeliveryInput

end Alchemy.Tpcc
