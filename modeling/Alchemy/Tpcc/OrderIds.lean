import Mathlib.Algebra.BigOperators.Group.Finset.Piecewise
import Mathlib.Algebra.Order.BigOperators.Group.Finset
import Mathlib.Algebra.Order.BigOperators.Group.List
import Mathlib.Order.Interval.Multiset
import Mathlib.Order.Interval.Finset.Nat
import Alchemy.Tpcc.Accounts
import Alchemy.Tpcc.Refinement

/-! The order ids of a district. Its counter is read and written under one write lock, so the
ids taken from it are consecutive. A `new_order` that has taken one holds the lock on the
district until its order is inserted.
-/

namespace Alchemy.Tpcc

open ByteImage Cache Oid Interaction

variable {A τ : Type} [Money A] [DecidableEq τ]

/-! ### The counter -/

/-- The order id that an operation takes from the counter of a district row. -/
def takenId (dRid : Rid) : Step A → Option UInt64
  | ⟨.getValueMut .district rid _ .dNextOId _, old⟩ => if rid = dRid then old else none
  | _ => none

/-- The first id of a district. -/
def firstId : Nat := 3001

/-- The ids of `count` orders of a district. -/
def consecutiveIds (count : Nat) : List UInt64 :=
  (List.range count).map (fun k => UInt64.ofNat (firstId + k))

section Counter

variable {config : DbConfig} {done log : List (Step A)} {step : Step A} {rid : Rid} {oId : UInt64}

omit [Money A] in
theorem takenId_eq_some
    : takenId rid step = some oId
      ↔ ∃ query value, step = ⟨.getValueMut .district rid query .dNextOId value, some oId⟩ := by
  constructor
  · intro taken
    unfold takenId at taken
    split at taken
    · next other query value old =>
        split at taken
        · next same =>
            subst same
            subst taken
            exact ⟨query, value, rfl⟩
        · cases taken
    · cases taken
  · rintro ⟨query, value, rfl⟩
    simp [takenId]

omit [Money A] in
theorem touched_of_takenId (taken : takenId rid step = some oId)
    : touched step = some (.district, rid) := by
  obtain ⟨query, value, rfl⟩ := takenId_eq_some.mp taken
  rfl

omit [Money A] in
theorem consecutiveIds_succ (count : Nat)
    : consecutiveIds (count + 1) = consecutiveIds count ++ [UInt64.ofNat (firstId + count)] := by
  simp [consecutiveIds, List.range_succ]

/-- The ids taken from a district are consecutive, and the next one is in the row. Nothing is
taken from a row that is not there.
-/
theorem Chronicle.counter (chronicle : Chronicle config done)
    : ((replay done).rows .district rid = none → done.filterMap (takenId rid) = [])
      ∧ ∀ record, (replay done).rows .district rid = some record
        → ∃ count, done.filterMap (takenId rid) = consecutiveIds count
          ∧ record .dNextOId = UInt64.ofNat (firstId + count) := by
  induction chronicle with
  | start => exact ⟨fun _ => rfl, fun record row => by cases row⟩
  | release earlier ih =>
      rw [replay_append, List.filterMap_append, List.filterMap_cons_none rfl, List.filterMap_nil,
        List.append_nil]
      exact ih
  | @perform done txn log op answer earlier logged allows relied answers ih =>
      rw [replay_append, List.filterMap_append]
      by_cases touches : touched ⟨op, answer⟩ = some (.district, rid)
      · cases op with
        | insert target record =>
            simp only [touched, Option.some.injEq, Prod.mk.injEq] at touches
            obtain ⟨rfl, rfl⟩ := touches
            rw [Shared.after, Shared.setRow_rows, ih.1 answers]
            refine ⟨(fun absent => by cases absent), fun other same => ⟨0, rfl, ?_⟩⟩
            cases same
            cases allows.inserts with
            | district row => exact row.dNextOId
        | getValueMut target written query name value =>
            simp only [touched, Option.some.injEq, Prod.mk.injEq] at touches
            obtain ⟨rfl, rfl⟩ := touches
            obtain ⟨record, row, reads⟩ := answers
            rw [Shared.after_store row]
            refine ⟨(fun absent => by cases absent), fun other stored => ?_⟩
            obtain rfl := Option.some.inj stored
            obtain ⟨count, ids, nextId⟩ := ih.2 record row
            rcases allows.stores with ⟨input, _, allows⟩ | ⟨input, _, allows⟩ | ⟨input, _, _, allows⟩
            · cases allows with
              | reads reads => cases reads
              | @count _ earlier oId first located found =>
                  have answer := relied (by simp [districtQuery]) trivial oId earlier rfl
                  obtain ⟨value, rfl, same⟩ := reads.1 (by simp [districtQuery])
                  obtain rfl := Option.some.inj answer
                  have current : value = UInt64.ofNat (firstId + count) :=
                    (same trivial).trans nextId
                  have taken : takenId written ⟨.getValueMut (A := A) .district written districtQuery
                      .dNextOId (value + 1 : UInt64), some value⟩ = some value := by
                    simp [takenId]
                  refine ⟨count + 1, ?_, ?_⟩
                  · rw [List.filterMap_cons_some taken, List.filterMap_nil, ids,
                      consecutiveIds_succ, current]
                  · rw [Function.update_self, current, ← Nat.add_assoc]
                    exact (UInt64.ofNat_add (firstId + count) 1).symm
            · cases allows with
              | reads reads => cases reads
              | dYtd =>
                  refine ⟨count, ?_, ?_⟩
                  · rw [List.filterMap_cons_none rfl, List.filterMap_nil, List.append_nil, ids]
                  · rw [Function.update_of_ne (by simp)]
                    exact nextId
            · cases allows with
              | reads reads => cases reads
        | _ => cases touches
      · have none : takenId rid ⟨op, answer⟩ = none := by
          refine Option.eq_none_iff_forall_ne_some.mpr (fun oId taken => ?_)
          exact touches (touched_of_takenId taken)
        rw [List.filterMap_cons_none none, List.filterMap_nil, List.append_nil,
          Shared.after_rows touches]
        exact ih

omit [Money A] in
theorem takenId_changes (taken : takenId rid step = some oId) : step.op.changes = true := by
  obtain ⟨query, value, rfl⟩ := takenId_eq_some.mp taken
  rfl

omit [Money A] in
/-- Lines take no id. -/
theorem takenId_linesSteps (input : NewOrderInput) (number : Nat)
    (lines : List (OrderItem × LineWrites A))
    : (input.linesSteps oId number lines).filterMap (takenId rid) = [] := by
  induction lines generalizing number with
  | nil => rfl
  | cons line rest ih =>
      obtain ⟨item, writes⟩ := line
      rw [NewOrderInput.linesSteps, List.filterMap_append, ih, List.append_nil,
        NewOrderInput.lineSteps, NewOrderInput.stockSteps]
      split <;> simp [takenId, insertSteps]

omit [Money A] in
/-- An order takes one id, from its district. -/
theorem NewOrderInput.Placed.takenIds {input : NewOrderInput} {dRid oRid : Rid}
    {lines : List (LineWrites A)} (placed : input.Placed log dRid oRid oId lines)
    : log.filterMap (takenId rid) = if dRid = rid then [oId] else [] := by
  obtain ⟨entry, replaced, changed⟩ := placed.changed
  have reversed := filterMap_changes (takenId rid) log (fun _ _ => takenId_changes)
  have rest : (input.entryStep oId entry :: input.orderSteps oId oRid replaced).filterMap
      (takenId (A := A) rid) = [] :=
    rfl
  rw [changed, List.filterMap_append, takenId_linesSteps, List.append_nil, List.cons_append,
    List.filterMap_cons, List.singleton_append, rest] at reversed
  rw [← List.reverse_reverse (log.filterMap (takenId rid)), ← reversed]
  by_cases same : dRid = rid <;> simp [takenId, countStep, same]

omit [Money A] in
theorem NewOrderInput.Placed.inserts {input : NewOrderInput} {dRid oRid : Rid}
    {lines : List (LineWrites A)} (placed : input.Placed log dRid oRid oId lines)
    : oRid ∈ log.filterMap (insertRid .order) := by
  obtain ⟨entry, replaced, changed⟩ := placed.changed
  refine List.mem_filterMap.mpr ⟨⟨.insert .order (input.order oId), oRid⟩, ?_, rfl⟩
  refine (mem_changes.mp (changed ▸ ?_)).1
  simp [orderSteps, insertSteps]

/-- Only `new_order` takes ids, and it does so as its first change. -/
theorem Transaction.Obeyed.takenIds {txn : Transaction A} (obeyed : txn.Obeyed log)
    : (log.filterMap (takenId rid)).length ≤ 1
      ∧ (log.filterMap (takenId rid) ≠ [] → ∃ input, txn = .newOrder input) := by
  induction obeyed with
  | nil => exact ⟨Nat.zero_le 1, fun some => absurd rfl some⟩
  | release earlier ih =>
      rw [List.filterMap_cons_none rfl]
      exact ih
  | @perform log op answer earlier allows relied ih =>
      cases taken : takenId rid ⟨op, answer⟩ with
      | none =>
          rw [List.filterMap_cons_none taken]
          exact ih
      | some oId =>
          obtain ⟨query, value, same⟩ := takenId_eq_some.mp taken
          cases same
          rcases allows.stores with ⟨input, same, allows⟩ | ⟨input, _, allows⟩ | ⟨input, _, _, allows⟩
          · cases allows with
            | reads reads => cases reads
            | @count _ before id first =>
                have nothing := filterMap_changes (takenId rid)
                  (⟨.getValue .district rid districtQuery .dNextOId, some id⟩ :: before)
                  (fun _ _ => takenId_changes)
                rw [changes_cons_of_quiet rfl, first] at nothing
                rw [List.filterMap_cons_some taken, List.reverse_eq_nil_iff.mp nothing.symm]
                exact ⟨Nat.le_refl 1, fun _ => ⟨input, same⟩⟩
          · cases allows with
            | reads reads => cases reads
          · cases allows with
            | reads reads => cases reads

end Counter

/-! ### The lock on the district -/

omit [Money A] in
/-- Only a drop takes a guard away. -/
theorem mem_guardsAfter_of_mem {table : Table} {held : List (Rid × GuardKind)}
    {pair : Rid × GuardKind} {step : Step A} (member : pair ∈ held)
    (keeps : ∀ rid kind, step.op ≠ .drop table rid kind)
    : pair ∈ guardsAfter table held step := by
  obtain ⟨op, answer⟩ := step
  cases op with
  | lock target other taken =>
      cases answer with
      | error error => exact member
      | ok =>
          simp only [guardsAfter]
          split
          · exact List.mem_cons_of_mem _ member
          · exact member
  | insert target record =>
      simp only [guardsAfter]
      split
      · exact List.mem_cons_of_mem _ member
      · exact member
  | drop target other taken =>
      simp only [guardsAfter]
      split
      · next same =>
          subst same
          exact absurd rfl (keeps other taken)
      · exact member
  | _ => exact member

omit [Money A] in
/-- The guard on the district is not dropped before the end. -/
theorem NewOrderInput.keeps_district (input : NewOrderInput) {log : List (Step A)} (rid : Rid)
    (kind : GuardKind)
    : ¬input.Allows log (.drop .district rid kind) := by
  intro allows
  cases allows with
  | reads reads => cases reads
  | drop inner => simp at inner

section Lock

variable {config : DbConfig} {ledger : Ledger A τ} {past : History A τ} {t : τ}
  {activity : Activity A} {rid : Rid} {oId : UInt64}

/-- Until its order is inserted, a `new_order` that has taken an id keeps the district. -/
theorem Ledger.Run.district_held (run : Run config past ledger)
    (here : ledger.active t = some activity) (taken : activity.log.filterMap (takenId rid) ≠ [])
    (unplaced : activity.log.filterMap (insertRid .order) = [])
    : (rid, .write) ∈ guards .district activity.log := by
  induction run generalizing t activity with
  | start => cases here
  | @extend past ledger mover next event earlier moves ih =>
      cases moves.comes here with
      | stays here => exact ih here taken unplaced
      | begins => exact absurd rfl taken
      | @did before op onward answer active calls answers =>
          cases takes : takenId rid ⟨op, answer⟩ with
          | some oId =>
              obtain ⟨query, value, same⟩ := takenId_eq_some.mp takes
              cases same
              have holds := answers.1
              rw [held_of_active active] at holds
              exact holds
          | none =>
              rw [List.filterMap_cons_none takes] at taken
              have unplaced : before.log.filterMap (insertRid .order) = [] := by
                cases inserts : insertRid .order ⟨op, answer⟩ with
                | none => rwa [List.filterMap_cons_none inserts] at unplaced
                | some oRid =>
                    rw [List.filterMap_cons_some inserts] at unplaced
                    cases unplaced
              refine mem_guardsAfter_of_mem (ih active taken unplaced) ?_
              intro other kind drops
              obtain ⟨input, isNewOrder⟩ := (earlier.obeyed active).takenIds.2 taken
              have allows := earlier.allows active calls
              rw [isNewOrder, show op = .drop .district other kind from drops] at allows
              exact input.keeps_district other kind allows
      | @release before outcome table other kind active ended member =>
          rw [List.filterMap_cons_none rfl] at taken unplaced
          obtain ⟨input, isNewOrder⟩ := (earlier.obeyed active).takenIds.2 taken
          have ends := earlier.ends active ended
          rw [isNewOrder] at ends
          cases outcome with
          | ok =>
              obtain ⟨_, dRid, oRid, oId, lines, placed⟩ := ends
              have inserted := placed.inserts
              rw [unplaced] at inserted
              cases inserted
          | error stop =>
              cases stop with
              | panic => exact ends.elim
              | err error =>
                  have nothing := filterMap_changes (takenId rid) before.log
                    (fun _ _ => takenId_changes)
                  rw [ends.1] at nothing
                  exact absurd (List.reverse_eq_nil_iff.mp nothing.symm) taken

omit [DecidableEq τ] in
/-- A `new_order` that has returned has taken an id only for an order it has inserted. -/
theorem Closed.taken_le {txn : Transaction A} {log : List (Step A)} {outcome : Except Stop Unit}
    (closed : Closed past t txn log outcome) (rid : Rid)
    : (log.filterMap (takenId rid)).length ≤ (log.filterMap (insertRid .order)).length := by
  by_cases taken : log.filterMap (takenId rid) = []
  · rw [taken]
    exact Nat.zero_le _
  · obtain ⟨input, rfl⟩ := closed.obeyed.takenIds.2 taken
    refine Nat.le_trans closed.obeyed.takenIds.1 ?_
    cases outcome with
    | ok =>
        obtain ⟨_, dRid, oRid, oId, lines, placed⟩ := closed.ends
        exact List.length_pos_of_mem placed.inserts
    | error stop =>
        cases stop with
        | panic => exact closed.ends.elim
        | err error =>
            have nothing := filterMap_changes (takenId rid) log (fun _ _ => takenId_changes)
            rw [closed.ends.1] at nothing
            exact absurd (List.reverse_eq_nil_iff.mp nothing.symm) taken

/-- A task between the counter and the order. -/
def Between (ledger : Ledger A τ) (rid : Rid) (t : τ) : Prop :=
  ∃ activity, ledger.active t = some activity
    ∧ activity.log.filterMap (takenId rid) ≠ []
    ∧ activity.log.filterMap (insertRid .order) = []

/-- At most one task is between the counter of a district and its order. -/
theorem Ledger.Run.between_unique {other : τ} (run : Run config past ledger)
    (first : Between ledger rid t) (second : Between ledger rid other)
    : t = other := by
  obtain ⟨activity, here, taken, unplaced⟩ := first
  obtain ⟨activity', here', taken', unplaced'⟩ := second
  have holds := run.district_held here taken unplaced
  have holds' := run.district_held here' taken' unplaced'
  rw [← held_of_active here] at holds
  rw [← held_of_active here'] at holds'
  exact (run.exclusive other t .district rid .write holds' holds).1

open Classical in
/-- At most one id is taken and not used up by an inserted order. -/
theorem Ledger.Run.taken_le (run : Run config past ledger) (rid : Rid)
    : ((steps past).filterMap (takenId rid)).length
      ≤ ((steps past).filterMap (insertRid .order)).length + 1 := by
  let tasks : Finset τ := (past.map Prod.fst).toFinset
  have covers : ∀ entry ∈ past, entry.1 ∈ tasks :=
    fun entry member => List.mem_toFinset.mpr (List.mem_map_of_mem member)
  rw [← logWorth_hits, ← logWorth_hits, run.steps_balance _ covers, run.steps_balance _ covers,
    Nat.add_assoc]
  refine Nat.add_le_add (List.sum_le_sum ?_) ?_
  · rintro ⟨t, event⟩ member
    cases event with
    | returned txn log outcome =>
        simp only [DbEvent.settles, Nat.zero_add, logWorth_hits]
        exact (run.closed member).taken_le rid
    | pending | began | did => exact Nat.le_refl _
  · have each : ∀ t ∈ tasks, ledger.holds (fun _ => 0) (hits (takenId rid)) t
        ≤ ledger.holds (fun _ => 0) (hits (insertRid .order)) t
          + if Between ledger rid t then 1 else 0 := by
      intro t _
      cases here : ledger.active t with
      | none => simp [Ledger.holds, here]
      | some activity =>
          simp only [Ledger.holds, here, Nat.zero_add, logWorth_hits]
          have once : (activity.log.filterMap (takenId rid)).length ≤ 1 :=
            (run.obeyed here).takenIds.1
          by_cases taken : activity.log.filterMap (takenId rid) = []
          · simp [taken]
          · cases inserts : activity.log.filterMap (insertRid .order) with
            | nil =>
                rw [if_pos ⟨activity, here, taken, inserts⟩]
                exact once
            | cons oRid rest => exact Nat.le_trans once (by simp; omega)
    calc ∑ t ∈ tasks, ledger.holds (fun _ => 0) (hits (takenId rid)) t
        ≤ ∑ t ∈ tasks, (ledger.holds (fun _ => 0) (hits (insertRid .order)) t
            + if Between ledger rid t then 1 else 0) := Finset.sum_le_sum each
      _ = ∑ t ∈ tasks, ledger.holds (fun _ => 0) (hits (insertRid .order)) t
            + (tasks.filter (fun t => Between ledger rid t)).card := by
          rw [Finset.sum_add_distrib, Finset.card_filter]
      _ ≤ _ := Nat.add_le_add_left (Finset.card_le_one.mpr (fun first member second member' =>
          run.between_unique (Finset.mem_filter.mp member).2 (Finset.mem_filter.mp member').2)) _

/-- A table has room for `2 ^ 32` rows. -/
theorem Chronicle.inserts_le {done : List (Step A)} (chronicle : Chronicle config done)
    (table : Table)
    : (done.filterMap (insertRid table)).length ≤ 2 ^ 32 := by
  have nodup := (chronicle.insert_nodup table).map (f := BitVec.toNat)
    (fun _ _ => BitVec.eq_of_toNat_eq)
  have inside : (done.filterMap (insertRid table)).map BitVec.toNat ⊆ List.range (2 ^ 32) := by
    intro number member
    obtain ⟨rid, _, rfl⟩ := List.mem_map.mp member
    exact List.mem_range.mpr rid.isLt
  have bound := nodup.length_le_of_subset inside
  rwa [List.length_map, List.length_range] at bound

/-- The ids taken from a district are consecutive, and few enough for the counter not to wrap
around.
-/
theorem Ledger.Run.ids {record : Table.district.Record A} (run : Run config past ledger)
    (row : ledger.shared.rows .district rid = some record)
    : ∃ count, count ≤ 2 ^ 32 + 1
      ∧ (steps past).filterMap (takenId rid) = consecutiveIds count
      ∧ (record .dNextOId : UInt64).toNat = firstId + count := by
  obtain ⟨chronicle, same⟩ := run.chronicle
  rw [same] at row
  obtain ⟨count, ids, nextId⟩ := chronicle.counter.2 record row
  have bound : count ≤ 2 ^ 32 + 1 := by
    have taken := run.taken_le rid
    have inserted := chronicle.inserts_le .order
    rw [ids, consecutiveIds, List.length_map, List.length_range] at taken
    omega
  refine ⟨count, bound, ids, ?_⟩
  have fits : firstId + count < 2 ^ 64 := by
    rw [firstId]
    omega
  rw [nextId, UInt64.toNat_ofNat_of_lt' fits]

end Lock

/-! ### Committed orders -/

/-- The ids that a `new_order` which has returned `Ok` has taken from a district row. -/
def DbEvent.givenIds (dRid : Rid) : DbEvent A → Multiset Nat
  | .returned (.newOrder _) log (.ok _) => (log.filterMap (takenId dRid)).map UInt64.toNat
  | _ => 0

theorem consecutiveIds_toNat {count : Nat} (fits : count ≤ 2 ^ 32 + 1)
    : (((consecutiveIds count).map UInt64.toNat : List Nat) : Multiset Nat)
      = Multiset.Ico firstId (firstId + count) := by
  have numbers : (consecutiveIds count).map UInt64.toNat = List.range' firstId count := by
    rw [consecutiveIds, List.map_map, List.range'_eq_map_range]
    refine List.map_congr_left (fun k member => ?_)
    have small := List.mem_range.mp member
    refine UInt64.toNat_ofNat_of_lt' (Nat.lt_trans (?_ : firstId + k < 2 ^ 33) (by decide))
    rw [firstId]
    omega
  rw [numbers]
  change _ = ((List.range' firstId (firstId + count - firstId) : List Nat) : Multiset Nat)
  rw [Nat.add_sub_cancel_left]

section Committed

variable {config : DbConfig} {ledger : Ledger A τ} {past : History A τ} {rid : Rid}

omit [DecidableEq τ] in
/-- A transaction that has returned has taken ids only as a committed `new_order`. -/
theorem Closed.givenIds {t : τ} {txn : Transaction A} {log : List (Step A)}
    {outcome : Except Stop Unit} (closed : Closed past t txn log outcome) (rid : Rid)
    : DbEvent.givenIds rid (.returned txn log outcome)
      = ((log.filterMap (takenId rid)).map UInt64.toNat : List Nat) := by
  by_cases taken : log.filterMap (takenId rid) = []
  · unfold DbEvent.givenIds
    split <;> simp_all
  · obtain ⟨input, rfl⟩ := closed.obeyed.takenIds.2 taken
    cases outcome with
    | ok => rfl
    | error stop =>
        have nothing : changes log = [] := by
          cases stop with
          | panic => exact closed.ends.elim
          | err error => exact closed.ends.1
        have none := filterMap_changes (takenId rid) log (fun _ _ => takenId_changes)
        rw [nothing] at none
        exact absurd (List.reverse_eq_nil_iff.mp none.symm) taken

/-- The ids taken from a district were given to committed orders, or to orders of transactions
that are still running.
-/
theorem Ledger.Run.given (run : Run config past ledger) (rid : Rid)
    : ∃ pending : Multiset Nat,
        (past.map (fun entry => entry.2.givenIds rid)).sum + pending
          = (((steps past).filterMap (takenId rid)).map UInt64.toNat : List Nat)
        ∧ ∀ oId ∈ pending, ∃ t activity, ledger.active t = some activity
            ∧ oId ∈ (activity.log.filterMap (takenId rid)).map UInt64.toNat := by
  let tasks : Finset τ := (past.map Prod.fst).toFinset
  let pick : Step A → Option Nat := fun step => (takenId rid step).map UInt64.toNat
  have picked (log : List (Step A))
      : log.filterMap pick = (log.filterMap (takenId rid)).map UInt64.toNat := by
    rw [List.map_filterMap]
  have covers : ∀ entry ∈ past, entry.1 ∈ tasks :=
    fun entry member => List.mem_toFinset.mpr (List.mem_map_of_mem member)
  have balance := run.steps_balance (picks pick) covers
  rw [logWorth_picks, picked] at balance
  refine ⟨∑ t ∈ tasks, ledger.holds (fun _ => 0) (picks pick) t, ?_, ?_⟩
  · rw [balance]
    congr 2
    refine List.map_congr_left ?_
    rintro ⟨t, event⟩ member
    cases event with
    | returned txn log outcome =>
        rw [(run.closed member).givenIds rid, DbEvent.settles, zero_add, logWorth_picks, picked]
    | pending | began | did => rfl
  · intro oId member
    obtain ⟨t, _, held⟩ := Multiset.mem_sum.mp member
    cases here : ledger.active t with
    | none =>
        rw [Ledger.holds, here] at held
        exact absurd held (Multiset.notMem_zero _)
    | some activity =>
        rw [Ledger.holds, here] at held
        simp only [zero_add, logWorth_picks, picked, Multiset.mem_coe] at held
        exact ⟨t, activity, here, held⟩

/-- A committed `new_order` took its id from the row of its own district. -/
theorem Ledger.Run.placed_district {input : NewOrderInput} {log : List (Step A)} {t : τ}
    {dRid oRid : Rid} {oId : UInt64} {lines : List (LineWrites A)}
    (run : Run config past ledger) (logged : ∀ step ∈ log, (t, .did step) ∈ past)
    (placed : input.Placed log dRid oRid oId lines)
    : ∃ record, ledger.shared.rows .district dRid = some record
      ∧ record .dWId = input.wId.toUInt64 ∧ record .dId = input.dId.toUInt64 := by
  obtain ⟨chronicle, same⟩ := run.chronicle
  have inSteps : ∀ step ∈ log, step ∈ steps past :=
    fun step member => List.mem_filterMap.mpr ⟨_, logged step member, rfl⟩
  obtain ⟨original, inserted, key⟩ := chronicle.found (inSteps _ placed.district)
  obtain ⟨record, row, agree⟩ := chronicle.inserted_row inserted
  obtain ⟨wide, _⟩ :=
    placed.located.sized chronicle inSteps (fun _ _ _ inserted => chronicle.sized inserted)
  have fields := NewOrderInput.Located.district_row wide (chronicle.sized inserted) key
  rw [same]
  refine ⟨record, row, ?_, ?_⟩
  · rw [agree .dWId (by simp [Table.Written]), fields.1]
  · rw [agree .dId (by simp [Table.Written]), fields.2]

/-- In every district the ids of committed orders, with those of orders that are still being
entered, are the numbers from the loaded value up to the counter, each once. Every committed
`new_order` has one of them, for the order it has inserted; one that has failed has none.
-/
theorem order_ids_dense {storage : Table → Rid → Image Byte} {hand : Table → τ → Nat}
    {trace : List ((τ × DbMove A) × DbEvent A)} {db : Db A τ}
    {record : Table.district.Record A}
    (run : Interleaving.Run (dbStep config) (Db.empty storage hand) trace db)
    (shows : db.Shows config .district rid record)
    : (∃ pending : Multiset Nat,
        ((history trace).map (fun entry => entry.2.givenIds rid)).sum + pending
          = Multiset.Ico firstId (record .dNextOId : UInt64).toNat
        ∧ ∀ oId ∈ pending, ∃ t task input, db.tasks t = some task ∧ task.txn = .newOrder input
            ∧ oId ∈ (task.log.filterMap (takenId rid)).map UInt64.toNat)
      ∧ (∀ t input log, (t, .returned (.newOrder input) log (.ok ())) ∈ history trace
        → ∃ dRid oRid oId lines row, input.Placed log dRid oRid oId lines
          ∧ log.filterMap (takenId dRid) = [oId]
          ∧ db.Shows config .district dRid row
          ∧ row .dWId = input.wId.toUInt64 ∧ row .dId = input.dId.toUInt64)
      ∧ ∀ t input log stop, (t, .returned (.newOrder input) log (.error stop)) ∈ history trace
        → log.filterMap (takenId rid) = [] := by
  obtain ⟨sound, ledgerRun⟩ := ledger_run run
  refine ⟨?_, ?_, ?_⟩
  · obtain ⟨row, here, same⟩ := sound.shows shows
    obtain ⟨count, fits, ids, nextId⟩ := ledgerRun.ids here
    obtain ⟨pending, total, owners⟩ := ledgerRun.given rid
    refine ⟨pending, ?_, ?_⟩
    · rw [total, ids, consecutiveIds_toNat fits, same .dNextOId trivial, nextId]
    · intro oId member
      obtain ⟨t, activity, active, taken⟩ := owners oId member
      obtain ⟨task, running, rfl⟩ := Option.map_eq_some_iff.mp active
      have some : task.log.filterMap (takenId rid) ≠ [] := by
        intro none
        rw [none] at taken
        cases taken
      obtain ⟨input, isNewOrder⟩ := (ledgerRun.obeyed active).takenIds.2 some
      exact ⟨t, task, input, running, isNewOrder, taken⟩
  · intro t input log returned
    have closed := ledgerRun.closed returned
    obtain ⟨_, dRid, oRid, oId, lines, placed⟩ := closed.ends
    obtain ⟨row, here, fields⟩ := ledgerRun.placed_district closed.logged placed
    refine ⟨dRid, oRid, oId, lines, row, placed, ?_, sound.shows_row here, fields⟩
    rw [placed.takenIds, if_pos rfl]
  · intro t input log stop returned
    have given := (ledgerRun.closed returned).givenIds rid
    exact List.map_eq_nil_iff.mp ((Multiset.coe_eq_zero _).mp given.symm)

end Committed

/-- One order is placed in a new database, and takes the first id. -/
theorem order_ids_dense_first_order
    : ∃ (trace : List ((Unit × DbMove UInt64) × DbEvent UInt64)) (db : Db UInt64 Unit)
        (record : Table.district.Record UInt64),
        Interleaving.Run (dbStep (.wholeTuples false)) (Db.empty (fun _ _ _ => 0) (fun _ _ => 0))
          trace db
        ∧ db.Shows (.wholeTuples false) .district 0 record
        ∧ record .dNextOId = (3002 : UInt64)
        ∧ ((history trace).map (fun entry => entry.2.givenIds 0)).sum = {3001} := by
  obtain ⟨trace, db, run, passed⟩ := play_reaches (runs () placeFirst)
    (fun result => (result.1.tasks ()).isNone
      && (result.1.shared.rows .district 0).any (fun record =>
        (record .dNextOId : UInt64) == 3002))
    (by decide +kernel)
  simp only [Bool.and_eq_true, Option.isNone_iff_eq_none, Option.any_eq_true, beq_iff_eq] at passed
  obtain ⟨done, record, row, counter⟩ := passed
  have shows := (ledger_run run).1.shows_row row
  obtain ⟨⟨pending, total, owners⟩, _⟩ := order_ids_dense run shows
  have nobody : pending = 0 := by
    refine Multiset.eq_zero_of_forall_notMem (fun oId member => ?_)
    obtain ⟨_, task, _, running, _⟩ := owners oId member
    rw [done] at running
    cases running
  rw [nobody, add_zero, counter] at total
  exact ⟨trace, db, record, run, shows, counter, total⟩

end Alchemy.Tpcc
