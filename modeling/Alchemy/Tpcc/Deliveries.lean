import Alchemy.Tpcc.CallRules
import Alchemy.Tpcc.MoneyAccounts

/-! What a delivery does: it serves its districts one after the other, and if it fails, the order of
one entry is lost. The operations of a run have removed what its deliveries have delivered or lost.
-/

namespace Alchemy.Tpcc

open Cache Oid Interaction Txn

variable {A τ : Type} [Money A]

/-! ### One delivery -/

def Op.removes : Op A → Bool
  | .newOrderRemove _ => true
  | _ => false

omit [Money A] in
theorem Op.keeps_of_accesses (op : Op A) (accesses : op.accesses = true) : op.removes = false := by
  cases op <;> first | rfl | cases accesses

theorem toUInt64_lt_districtScale {dId : Nat} (below : dId < districtScale)
    : dId.toUInt64.toNat < districtScale := by
  rwa [Nat.toUInt64, UInt64.toNat_ofNat_of_lt' (Nat.lt_trans below (by decide))]

namespace DeliveryInput

/-- What a delivery leaves behind in the district where it ends: nothing, or an order whose entry it
has removed.
-/
inductive Leaves (input : DeliveryInput) (log : List (Step A)) (dId : Nat)
    : Except Stop Unit → List (Step A) → Prop
  | nothing : Leaves input log dId (.ok ()) []
  | order {stop key removed more} (scanned : input.Scanned log dId.toUInt64 key)
    (inner : ∀ step ∈ more, Inner step)
    : Leaves input log dId (.error stop) (removeStep key removed :: more)

/-- The first districts are served, one after the other, and the last one is left. -/
structure Serves (input : DeliveryInput) (deliveryTime : UInt64) (log : List (Step A))
    (outcome : Except Stop Unit) (rounds : List (Round A)) (left : List (Step A))
    : Prop where
  districts : rounds.map (fun round => round.dId) = (List.range rounds.length).map Nat.toUInt64
  complete : ∀ round ∈ rounds, input.Delivers log round
  changed : changes log = rounds.flatMap (input.roundSteps deliveryTime) ++ left
  leaves : input.Leaves log rounds.length outcome left

/-- How `delivery` ends. -/
def Served (input : DeliveryInput) (deliveryTime : UInt64) (log : List (Step A))
    (outcome : Except Stop Unit)
    : Prop :=
  ∃ rounds left, input.Serves deliveryTime log outcome rounds left

variable {input : DeliveryInput} {deliveryTime : UInt64} {log later : List (Step A)}
  {outcome : Except Stop Unit} {rounds : List (Round A)} {left : List (Step A)}

omit [Money A] in
theorem Leaves.mono {dId : Nat} (leaves : input.Leaves log dId outcome left)
    (kept : ∀ step ∈ log, step ∈ later)
    : input.Leaves later dId outcome left := by
  cases leaves with
  | nothing => exact .nothing
  | order scanned inner => exact .order (scanned.mono kept) inner

theorem Serves.mono (serves : input.Serves deliveryTime log outcome rounds left)
    (grown : Grown log [] later)
    : input.Serves deliveryTime later outcome rounds left where
  districts := serves.districts
  complete round member := (serves.complete round member).mono grown.kept
  changed := grown.same.trans serves.changed
  leaves := serves.leaves.mono grown.kept

/-- One more district is served. -/
theorem Serves.extend {round : Round A}
    (serves : input.Serves deliveryTime log (.ok ()) rounds [])
    (grown : Grown log (input.roundSteps deliveryTime round) later)
    (delivers : input.Delivers later round) (district : round.dId = rounds.length.toUInt64)
    : input.Serves deliveryTime later (.ok ()) (rounds ++ [round]) [] where
  districts := by
    rw [List.map_append, serves.districts, List.length_append, List.length_singleton,
      List.range_succ, List.map_append]
    simp [district]
  complete other member := by
    rcases List.mem_append.mp member with before | now
    · exact (serves.complete other before).mono grown.kept
    · rw [List.mem_singleton.mp now]
      exact delivers
  changed := by
    rw [grown.changed, serves.changed]
    simp
  leaves := .nothing

/-- One more district is not. -/
theorem Serves.breaks {stop : Stop} {key : UInt64} {removed : Option UInt64}
    {more : List (Step A)} (serves : input.Serves deliveryTime log (.ok ()) rounds [])
    (changed : changes later = changes log ++ removeStep key removed :: more)
    (kept : ∀ step ∈ log, step ∈ later)
    (scanned : input.Scanned later rounds.length.toUInt64 key)
    (inner : ∀ step ∈ more, Inner step)
    : input.Serves deliveryTime later (.error stop) rounds (removeStep key removed :: more) where
  districts := serves.districts
  complete round member := (serves.complete round member).mono kept
  changed := by
    rw [changed, serves.changed, List.append_nil]
  leaves := .order scanned inner

/-- The districts one after the other, by induction on how many are left. -/
theorem meets_serves {first count : Nat} (inside : first + count ≤ districtScale)
    (serves : input.Serves deliveryTime log (.ok ()) rounds []) (soFar : rounds.length = first)
    : Prog.Meets Rely input.Allows (input.Served deliveryTime)
        (deliverDistricts input deliveryTime (List.range' first count)) log := by
  induction count generalizing log first rounds with
  | zero => exact ⟨rounds, [], serves⟩
  | succ count ih =>
      have district : first.toUInt64.toNat < districtScale := toUInt64_lt_districtScale (by omega)
      refine (meets_then _ _).mpr ((meets_then _ _).mpr (meets_performs (input.permits _ _ rfl) ?_))
      intro scanned _
      cases scanned with
      | nil => exact ⟨rounds, [], serves.mono (.of_quiet rfl rfl)⟩
      | cons entry others =>
          obtain ⟨key, value⟩ := entry
          have reading
              : Grown log [] (⟨input.scan first.toUInt64, (key, value) :: others⟩ :: log) :=
            .of_quiet rfl rfl
          have found : input.Scanned (⟨input.scan first.toUInt64, (key, value) :: others⟩ :: log)
              first.toUInt64 key :=
            ⟨value, others, List.mem_cons_self⟩
          refine (meets_then _ _).mpr (meets_change rfl (.remove found) ?_)
          intro removed middle taken
          have found := found.mono taken.kept
          have taken : Grown log [removeStep key removed] middle := reading.trans taken
          refine (meets_then _ _).mpr
            (Prog.meets_of_grown (meets_deliverOrder removed district found ?_ ?_))
          · intro round later sameDistrict sameKey sameRemoved grown delivers _
            have all := taken.trans grown
            rw [← sameKey, ← sameRemoved] at all
            rw [← soFar] at sameDistrict
            refine ih (by omega)
              (serves.extend (by simpa [roundSteps] using all) delivers sameDistrict) ?_
            rw [List.length_append, List.length_singleton, soFar]
          · rintro stop more later changed inner _ ⟨own, rfl⟩
            refine ⟨rounds, removeStep key removed :: more, serves.breaks ?_ ?_ ?_ inner⟩
            · rw [changed, taken.changed, List.append_assoc]
              rfl
            · exact fun step member => List.mem_append_right _ (taken.kept step member)
            · rw [soFar]
              exact found.mono (fun step member => List.mem_append_right _ member)

theorem meets_served (input : DeliveryInput) (deliveryTime : UInt64)
    : Prog.Meets Rely (input.Allows (A := A)) (input.Served deliveryTime)
        (delivery input deliveryTime) [] := by
  have range : List.range districtScale = List.range' 0 districtScale := List.range_eq_range'
  have none : input.Serves deliveryTime ([] : List (Step A)) (.ok ()) [] [] :=
    ⟨rfl, (fun round member => by cases member), rfl, .nothing⟩
  rw [delivery, range]
  exact meets_serves (by simp) none rfl

/-- An entry is removed right after the scan of its district has found it. -/
def Fetches (input : DeliveryInput) (log : List (Step A)) : Op A → Prop
  | .newOrderRemove key =>
      ∃ dId value rest earlier, dId.toNat < districtScale
        ∧ log = ⟨input.scan dId, (key, value) :: rest⟩ :: earlier
  | _ => True

theorem calls_stampLines (deliveryTime : UInt64) (rids : List Rid) (olAmountSum : A)
    : Prog.Calls (fun op => op.removes = false) (stampLines deliveryTime rids olAmountSum) := by
  have value := @Op.keeps_of_accesses A
  induction rids generalizing olAmountSum with
  | nil => exact calls_ok
  | cons rid rest ih =>
      refine calls_then (calls_lockRid rfl) (fun _ => calls_then (calls_readAndPromote value) ?_)
      intro _
      refine calls_then (calls_setValue value) (fun _ => calls_then (calls_getValue value) ?_)
      exact fun _ => calls_then (calls_perform rfl) (fun _ => ih _)

/-- Once the entry is removed, a round removes no other. -/
theorem calls_deliverOrder (input : DeliveryInput) (deliveryTime dId key : UInt64)
    : Prog.Calls (fun op => op.removes = false)
        (deliverOrder input deliveryTime dId key : Txn A Unit) := by
  have value := @Op.keeps_of_accesses A
  refine calls_then (calls_lockKey rfl (fun _ => rfl)) (fun _ => calls_then (calls_read value) ?_)
  intro _
  refine calls_then (calls_setValue value) (fun _ => calls_then (calls_getValue value) (fun _ => ?_))
  refine calls_ite calls_throw (calls_then (calls_perform rfl) (fun _ => ?_))
  refine calls_then (calls_stampLines _ _ _) (fun _ => ?_)
  refine calls_then (calls_lockKey rfl (fun _ => rfl)) (fun _ => ?_)
  refine calls_then (calls_readAndPromote value) (fun _ => calls_then (calls_update value) ?_)
  intro _
  refine calls_then (calls_update value) (fun _ => calls_then (calls_perform rfl) ?_)
  exact fun _ => calls_perform rfl

theorem meets_fetches (input : DeliveryInput) (deliveryTime : UInt64)
    : Prog.Meets Rely (input.Fetches (A := A)) (fun _ _ => True)
        (delivery input deliveryTime) [] := by
  have round (dId key : UInt64) (log : List (Step A))
      : Prog.Meets Rely input.Fetches (fun _ _ => True)
          (deliverOrder input deliveryTime dId key) log := by
    refine (input.calls_deliverOrder deliveryTime dId key).meets trivial ?_ (fun _ _ _ _ _ => trivial)
    intro log op _ keeps
    cases op <;> trivial
  have districts {log : List (Step A)} {districts : List Nat}
      (small : ∀ dId ∈ districts, dId < districtScale)
      : Prog.Meets Rely (input.Fetches (A := A)) (fun _ _ => True)
          (deliverDistricts input deliveryTime districts) log := by
    induction districts generalizing log with
    | nil => trivial
    | cons dId rest ih =>
        have district := toUInt64_lt_districtScale (small dId List.mem_cons_self)
        refine (meets_then _ _).mpr ((meets_then _ _).mpr (meets_performs trivial ?_))
        intro scanned _
        cases scanned with
        | nil => trivial
        | cons entry others =>
            refine (meets_then _ _).mpr (meets_performs ?_ (fun _ _ => ?_))
            · exact ⟨dId.toUInt64, entry.2, others, log, district, rfl⟩
            refine (meets_then _ _).mpr
              ((round _ _ _).mono (fun _ _ allowed => allowed) (fun _ result _ => ?_))
            cases result with
            | error => trivial
            | ok => exact ih (fun other member => small other (List.mem_cons_of_mem _ member))
  exact districts (fun dId member => List.mem_range.mp member)

end DeliveryInput

/-! ### Deliveries of a run -/

namespace Transaction

/-- How a delivery ends. -/
def Served : Transaction A → List (Step A) → Except Stop Unit → Prop
  | .delivery input deliveryTime, log, outcome => input.Served deliveryTime log outcome
  | _, _, _ => True

/-- Deliveries remove entries that they have just found. -/
def Fetches : Transaction A → List (Step A) → Op A → Prop
  | .delivery input _, log, op => input.Fetches log op
  | _, _, _ => True

theorem meets_served (txn : Transaction A)
    : Prog.Meets Rely txn.Allows txn.Served txn.program [] := by
  cases txn with
  | delivery input deliveryTime => exact input.meets_served deliveryTime
  | _ =>
      exact (meets_program _).mono (fun _ _ allowed => allowed) (fun _ _ _ => trivial)

theorem served_stable (txn : Transaction A) : Ledger.Stable txn.Served := by
  intro log outcome table rid kind served
  cases txn with
  | delivery input deliveryTime =>
      obtain ⟨rounds, left, serves⟩ := served
      exact ⟨rounds, left, serves.mono (.of_quiet rfl rfl)⟩
  | _ => trivial

/-- Only deliveries remove entries. -/
theorem Allows.delivery {txn : Transaction A} {log : List (Step A)} {key : UInt64}
    (allows : txn.Allows log (.newOrderRemove key))
    : ∃ input deliveryTime, txn = .delivery input deliveryTime := by
  cases txn with
  | delivery input deliveryTime => exact ⟨input, deliveryTime, rfl⟩
  | _ => cases allows <;> rename_i allowed <;> cases allowed

theorem meets_fetches (txn : Transaction A)
    : Prog.Meets Rely txn.Fetches (fun _ _ => True) txn.program [] := by
  cases txn with
  | delivery input deliveryTime => exact input.meets_fetches deliveryTime
  | _ =>
      exact (meets_program _).mono (fun _ _ _ => trivial) (fun _ _ _ => trivial)

end Transaction

namespace Ledger

variable [DecidableEq τ] {config : DbConfig} {ledger next : Ledger A τ} {past : History A τ}
  {t : τ} {event : DbEvent A}

/-- What a transaction that has returned has met. -/
theorem Run.returned_meets {obliged : Transaction A → List (Step A) → Op A → Prop}
    {post : Transaction A → List (Step A) → Except Stop Unit → Prop} {txn : Transaction A}
    {log : List (Step A)} {outcome : Except Stop Unit}
    (programs : ∀ txn, Prog.Meets Rely (obliged txn) (post txn) txn.program [])
    (stable : ∀ txn, Stable (post txn)) (run : Run config past ledger)
    (returned : (t, .returned txn log outcome) ∈ past)
    : post txn log outcome := by
  induction run with
  | start => cases returned
  | @extend past ledger mover next event earlier moves ih =>
      rcases List.mem_append.mp returned with before | new
      · exact ih before
      · cases List.mem_singleton.mp new
        cases moves with
        | finish here ended =>
            have meets := earlier.meets programs stable here
            rw [ended] at meets
            exact meets

theorem Run.served {input : DeliveryInput} {deliveryTime : UInt64} {log : List (Step A)}
    {outcome : Except Stop Unit} (run : Run config past ledger)
    (returned : (t, .returned (.delivery input deliveryTime) log outcome) ∈ past)
    : input.Served deliveryTime log outcome :=
  run.returned_meets Transaction.meets_served Transaction.served_stable returned

theorem Run.fetches {activity : Activity A} {op : Op A} {onward : op.Answer → Remainder A}
    (run : Run config past ledger) (here : ledger.active t = some activity)
    (calls : activity.rest = .call op onward)
    : activity.txn.Fetches activity.log op := by
  have meets := run.meets Transaction.meets_fetches (fun _ _ _ _ _ _ _ => trivial) here
  rw [calls] at meets
  exact meets.1

end Ledger

/-! ### Delivered and lost -/

/-- The key of the entry that an operation removes. -/
def removedKey : Step A → Option UInt64
  | ⟨.newOrderRemove key, _⟩ => some key
  | _ => none

omit [Money A] in
theorem removedKey_eq_some {step : Step A} {key : UInt64}
    : removedKey step = some key ↔ ∃ found, step = ⟨.newOrderRemove key, found⟩ := by
  constructor
  · intro removes
    unfold removedKey at removes
    split at removes
    · cases removes
      exact ⟨_, rfl⟩
    · cases removes
  · rintro ⟨found, rfl⟩
    rfl

namespace DbEvent

/-- What a delivery has removed by the time it returns, oldest first. -/
def removed : DbEvent A → List UInt64
  | .returned (.delivery _ _) log _ => (changes log).filterMap removedKey
  | _ => []

/-- The entries of the orders that a delivery has delivered: all it has removed, but for the last one
if it has failed.
-/
def delivered : DbEvent A → List UInt64
  | .returned txn log (.ok ()) => (DbEvent.returned txn log (.ok ())).removed
  | .returned txn log (.error stop) => (DbEvent.returned txn log (.error stop)).removed.dropLast
  | _ => []

/-- The entry of the order that a failed delivery has lost. -/
def lost : DbEvent A → List UInt64
  | .returned txn log (.error stop) =>
      (DbEvent.returned txn log (.error stop)).removed.getLast?.toList
  | _ => []

end DbEvent

namespace DeliveryInput

variable {input : DeliveryInput} {deliveryTime : UInt64} {log left : List (Step A)}
  {outcome : Except Stop Unit} {rounds : List (Round A)}

/-- A complete round removes the one entry. -/
theorem removed_roundSteps (input : DeliveryInput) (deliveryTime : UInt64) (rounds : List (Round A))
    : (rounds.flatMap (input.roundSteps deliveryTime)).filterMap removedKey
      = rounds.map (fun round => round.key) := by
  have one (round : Round A)
      : (input.roundSteps deliveryTime round).filterMap removedKey = [round.key] := by
    have stamps : (round.stamps.map (fun stamp => stamp.step deliveryTime)).filterMap removedKey
        = [] :=
      List.filterMap_eq_nil_iff.mpr (fun step member => by
        obtain ⟨stamp, _, rfl⟩ := List.mem_map.mp member
        rfl)
    rw [roundSteps, List.filterMap_append, List.filterMap_append, stamps]
    rfl
  induction rounds with
  | nil => rfl
  | cons round rest ih =>
      rw [List.flatMap_cons, List.filterMap_append, one, ih]
      rfl

omit [Money A] in
theorem removed_inner {more : List (Step A)} (inner : ∀ step ∈ more, Inner step)
    : more.filterMap removedKey = [] := by
  refine List.filterMap_eq_nil_iff.mpr (fun step member => ?_)
  cases removes : removedKey step with
  | none => rfl
  | some key =>
      obtain ⟨found, rfl⟩ := removedKey_eq_some.mp removes
      obtain ⟨rid, order | line⟩ := inner _ member
      · cases order
      · cases line

/-- The orders of the complete rounds are delivered, and what is left is lost. -/
theorem Serves.keys (serves : input.Serves deliveryTime log outcome rounds left)
    : (DbEvent.returned (.delivery input deliveryTime) log outcome).delivered
        = rounds.map (fun round => round.key)
      ∧ (DbEvent.returned (.delivery input deliveryTime) log outcome).lost
        = left.filterMap removedKey
      ∧ (left.filterMap removedKey = [] ↔ outcome = .ok ()) := by
  have removed : (DbEvent.returned (.delivery input deliveryTime) log outcome).removed
      = rounds.map (fun round => round.key) ++ left.filterMap removedKey := by
    rw [DbEvent.removed, serves.changed, List.filterMap_append, removed_roundSteps]
  cases serves.leaves with
  | nothing =>
      rw [DbEvent.delivered, removed]
      exact ⟨List.append_nil _, rfl, iff_of_true rfl rfl⟩
  | @order stop key found more scanned inner =>
      have last : (removeStep key found :: more).filterMap removedKey = [key] := by
        rw [List.filterMap_cons_some (show removedKey (removeStep key found) = some key from rfl),
          removed_inner inner]
      rw [DbEvent.delivered, DbEvent.lost, removed, last, List.dropLast_concat,
        List.getLast?_concat]
      exact ⟨rfl, rfl, iff_of_false (by simp) (by simp)⟩

end DeliveryInput

section Runs

variable [DecidableEq τ] {config : DbConfig} {ledger : Ledger A τ} {past : History A τ} {t : τ}

end Runs

end Alchemy.Tpcc
