import Alchemy.Tpcc.Deliveries
import Alchemy.Tpcc.DeliverySpec
import Alchemy.Tpcc.NewOrderEntries

/-! Undelivered orders are delivered once or lost. While no orders come in and no two deliveries of
a warehouse run at the same time, entries are taken out of the new-order index one by one, and each
that has gone was delivered once, with all lines of its order, or lost once.
-/

namespace Alchemy.Tpcc

open ByteImage Cache Oid Interaction Interleaving

variable {A τ : Type} [Money A]

/-! ### While nothing is inserted -/

namespace Ledger

/-- No two tasks deliver for the same warehouse. -/
def DeliversApart (ledger : Ledger A τ) : Prop :=
  ∀ t other mine theirs input input' time time', t ≠ other
    → ledger.active t = some mine → ledger.active other = some theirs
    → mine.txn = .delivery input time → theirs.txn = .delivery input' time'
    → input.wId ≠ input'.wId

/-- The entry that a delivery has just found is there. -/
def Fetched (ledger : Ledger A τ) : Prop :=
  ∀ t activity input deliveryTime dId key value rest earlier,
    ledger.active t = some activity → activity.txn = .delivery input deliveryTime
    → dId.toNat < districtScale
    → activity.log = ⟨input.scan dId, (key, value) :: rest⟩ :: earlier
    → ∃ value, ledger.shared.newOrder[key]? = some value

end Ledger

/-- Deliveries for warehouses that fit the keys, and transactions that insert nothing. -/
def Transaction.Delivering : Transaction A → Prop
  | .delivery input _ => input.wId.toNat < 2 ^ 16
  | .payment _ | .orderStatus _ | .stockLevel _ => True
  | _ => False

/-- They spare the ids of the rows, and change the new-order index by taking out entries. -/
theorem Transaction.Delivering.spares {txn : Transaction A} {log : List (Step A)} {op : Op A}
    (delivering : txn.Delivering) (allows : txn.Allows log op) (shared : Shared A)
    (answer : op.Answer)
    : shared.SameIds (shared.after ⟨op, answer⟩)
      ∧ ∀ key, (shared.after ⟨op, answer⟩).newOrder[key]?
        = if removedKey ⟨op, answer⟩ = some key then none else shared.newOrder[key]? := by
  cases op with
  | getValueMut table rid query name value =>
      have written := allows.written
      have spared (record : table.Record A)
          : table.ids (Function.update record name value) = table.ids record :=
        Table.Agree.ids (fun other unwritten =>
          Function.update_of_ne (by rintro rfl; exact unwritten written) ..)
      refine ⟨⟨rfl, fun other rid' => ?_⟩, fun key => rfl⟩
      by_cases here : (table, rid) = (other, rid')
      · cases here
        rw [Shared.after, Shared.setRow_rows, Option.map_map]
        congr 1
        funext record
        exact spared record
      · rw [Shared.after, Shared.setRow_other here]
  | newOrderRemove removed =>
      refine ⟨⟨rfl, fun _ _ => rfl⟩, fun key => ?_⟩
      simp [Shared.after, removedKey, Std.TreeMap.getElem?_erase]
  | insert =>
      have inserts := allows.inserts
      cases inserts <;> exact delivering.elim
  | indexInsert | lastNameInsert | newOrderInsert =>
      cases txn with
      | payment | delivery | orderStatus | stockLevel =>
          cases allows with
          | reads reads => cases reads
      | _ => exact delivering.elim
  | _ => exact ⟨⟨rfl, fun _ _ => rfl⟩, fun key => rfl⟩

/-- A lookup or a scan finds what it would have found in this state, or less. -/
def Shared.Foresees (config : DbConfig) (shared : Shared A) : Step A → Prop
  | ⟨.get table key, answer⟩ => answer = (shared.index table)[key]?
  | ⟨.range table low high length, answer⟩ =>
      answer = (config.scan.range (shared.index table) low high length).map Prod.snd
  | ⟨.newOrderRange low high _, answer⟩ =>
      ∀ entry ∈ answer, entry ∈ shared.newOrder.between low high
  | _ => True

/-- What holds while transactions insert nothing, from this state on: entries are taken out one by
one, and all else that lookups and scans find stays as it was.
-/
structure Ledger.Emptying (config : DbConfig) (start : Shared A) (past : History A τ)
    (ledger : Ledger A τ)
    : Prop where
  delivering : ∀ t activity, ledger.active t = some activity → activity.txn.Delivering
  returned : ∀ t txn log outcome, (t, .returned txn log outcome) ∈ past → txn.Delivering
  same : start.SameIds ledger.shared
  entries : ∀ key, ledger.shared.newOrder[key]?
    = if key ∈ (steps past).filterMap removedKey then none else start.newOrder[key]?
  once : ((steps past).filterMap removedKey).Nodup
  there : ∀ key ∈ (steps past).filterMap removedKey, ∃ value, start.newOrder[key]? = some value
  fetched : ledger.Fetched
  logs : ∀ t, ledger.Logs t (start.Foresees config) past

section Emptying

variable [DecidableEq τ] {config : DbConfig} {ledger next : Ledger A τ} {past whole : History A τ}
  {t : τ} {event : DbEvent A} {start : Shared A} {input : DeliveryInput} {dId key value : UInt64}
  {rest : List (UInt64 × UInt64)}

omit [Money A] [DecidableEq τ] in
/-- What a delivery finds in a district is the entry of one of its orders. -/
theorem Shared.Foresees.entry (ready : start.Deliverable) (warehouse : input.wId.toNat < 2 ^ 16)
    (district : dId.toNat < districtScale)
    (foreseen : start.Foresees config ⟨input.scan dId, (key, value) :: rest⟩)
    : ∃ o c, key = NewOrderTuple.makeKey input.wId.toUInt64 dId o c
      ∧ NewOrderTuple.oCIdFromKey key = (o, c)
      ∧ Within [16, 16, 16, 16] [input.wId.toUInt64, dId, o, c]
      ∧ (∃ rid order, start.rows .order rid = some order
        ∧ Table.order.ids order = [input.wId.toUInt64, dId, c, o])
      ∧ ∃ rid customer, start.rows .customer rid = some customer
        ∧ Table.customer.ids customer = [input.wId.toUInt64, dId, c] := by
  have asked : Within [16, 16] [input.wId.toUInt64, dId] :=
    ⟨by rwa [UInt32.toNat_toUInt64], Nat.lt_trans district (by decide), trivial⟩
  have member := foreseen _ List.mem_cons_self
  rw [newOrdersOf_between ready asked] at member
  obtain ⟨o, c, keyed, decoded, within, _, order, customer⟩ := mem_newOrdersOf ready asked member
  exact ⟨o, c, keyed, decoded, within, order, customer⟩

omit [Money A] [DecidableEq τ] in
/-- Deliveries that find the same entry are for the same warehouse. -/
theorem Shared.Foresees.warehouse {input' : DeliveryInput} {dId' value' : UInt64}
    {rest' : List (UInt64 × UInt64)} (ready : start.Deliverable) (fits : input.wId.toNat < 2 ^ 16)
    (district : dId.toNat < districtScale) (fits' : input'.wId.toNat < 2 ^ 16)
    (district' : dId'.toNat < districtScale)
    (mine : start.Foresees config ⟨input.scan dId, (key, value) :: rest⟩)
    (theirs : start.Foresees config ⟨input'.scan dId', (key, value') :: rest'⟩)
    : input.wId = input'.wId := by
  obtain ⟨o, c, keyed, _, within, _⟩ := mine.entry ready fits district
  obtain ⟨o', c', keyed', _, within', _⟩ := theirs.entry ready fits' district'
  have parts := (NewOrderTuple.sameOrder within within').same.mp (keyed.symm.trans keyed')
  simp only [List.cons.injEq] at parts
  exact UInt32.toUInt64_inj.mp parts.1

namespace Ledger

theorem Emptying.foresees (emptying : ledger.Emptying config start past)
    (moves : ledger.Moves config t next (.did step))
    : start.Foresees config step := by
  obtain ⟨op, answer⟩ := step
  cases moves with
  | release => trivial
  | did here calls answers =>
      have answers := answers.shared
      cases op with
      | get => exact answers.trans (by rw [emptying.same.index])
      | range => exact answers.trans (by rw [emptying.same.index])
      | newOrderRange =>
          intro entry member
          rw [show answer = _ from answers] at member
          obtain ⟨found, met⟩ := Index.mem_of_mem_range member
          rw [emptying.entries] at found
          split at found
          · cases found
          · exact Index.mem_between.mpr ⟨found, met⟩
      | _ => trivial

/-- An entry that is removed was there. -/
theorem Emptying.found (emptying : ledger.Emptying config start past) (run : Run config whole ledger)
    (moves : ledger.Moves config t next (.did step)) (removes : removedKey step = some key)
    : ∃ value, ledger.shared.newOrder[key]? = some value := by
  obtain ⟨found, rfl⟩ := removedKey_eq_some.mp removes
  cases moves with
  | did here calls answers =>
      obtain ⟨input, deliveryTime, isDelivery⟩ := (run.allows here calls).delivery
      have fetches := run.fetches here calls
      rw [isDelivery] at fetches
      obtain ⟨dId, value, rest, earlier, district, logged⟩ := fetches
      exact emptying.fetched _ _ input deliveryTime dId key value rest earlier here isDelivery
        district logged

/-- A step spares the ids of the rows, and takes out the entry that it removes. -/
theorem Emptying.spares (emptying : ledger.Emptying config start past)
    (run : Run config whole ledger) (moves : ledger.Moves config t next event)
    : ledger.shared.SameIds next.shared
      ∧ ∀ key, next.shared.newOrder[key]?
        = if event.step?.bind removedKey = some key then none
          else ledger.shared.newOrder[key]? := by
  have same : ledger.shared.SameIds ledger.shared := ⟨rfl, fun _ _ => rfl⟩
  cases moves with
  | rest | begin | finish | release => exact ⟨same, fun key => rfl⟩
  | did here calls answers =>
      exact (emptying.delivering t _ here).spares (run.allows here calls) ledger.shared _

theorem Emptying.fetched_step (emptying : ledger.Emptying config start past)
    (ready : start.Deliverable) (run : Run config whole ledger) (apart : ledger.DeliversApart)
    (moves : ledger.Moves config t next event)
    : next.Fetched := by
  intro finder activity input deliveryTime dId key value rest earlier running isDelivery district
    logged
  cases moves.comes running with
  | begins | release => cases logged
  | did here calls answers =>
      cases logged
      -- it has just scanned, and a scan removes nothing
      have entry : ledger.shared.newOrder[key]? = some value :=
        Moves.scanned moves List.mem_cons_self
      rw [(emptying.spares run moves).2 key]
      exact ⟨value, entry⟩
  | stays before resting =>
      obtain ⟨found, there⟩ := emptying.fetched finder activity input deliveryTime dId key value
        rest earlier before isDelivery district logged
      rw [(emptying.spares run moves).2 key, if_neg, there]
      · exact ⟨found, rfl⟩
      intro removes
      cases event with
      | pending | began | returned => cases removes
      | did step =>
          obtain ⟨answer, rfl⟩ := removedKey_eq_some.mp removes
          have different : finder ≠ t := by
            rintro rfl
            cases resting rfl
          cases moves with
          | @did mover _ _ _ here calls =>
              -- the other delivery has found the same key in its own warehouse
              obtain ⟨other, time, isOther⟩ := (run.allows here calls).delivery
              have fetches := run.fetches here calls
              have fits := emptying.delivering finder activity before
              have fits' := emptying.delivering t mover here
              rw [isDelivery] at fits
              rw [isOther] at fetches fits'
              obtain ⟨dId', value', rest', earlier', district', logged'⟩ := fetches
              have mine := (emptying.logs finder).running _ before _ (logged ▸ List.mem_cons_self)
              have theirs := (emptying.logs t).running _ here _ (logged' ▸ List.mem_cons_self)
              exact apart finder t activity mover input other deliveryTime time different before here
                isDelivery isOther (mine.warehouse ready fits district fits' district' theirs)

theorem Emptying.step (emptying : ledger.Emptying config start past) (ready : start.Deliverable)
    (run : Run config whole ledger) (apart : ledger.DeliversApart)
    (moves : ledger.Moves config t next event)
    (begins : ∀ txn, event = .began txn → txn.Delivering)
    : next.Emptying config start (past ++ [(t, event)]) := by
  obtain ⟨same, taken⟩ := emptying.spares run moves
  have removed : (steps (past ++ [(t, event)])).filterMap removedKey
      = (steps past).filterMap removedKey ++ (event.step?.bind removedKey).toList := by
    rw [steps_append, List.filterMap_append]
    cases event.step? with
    | none => rfl
    | some step => cases removes : removedKey step <;> simp [removes]
  have fresh : ∀ key, event.step?.bind removedKey = some key
      → ∃ value, ledger.shared.newOrder[key]? = some value := by
    intro key removes
    cases event with
    | pending | began | returned => cases removes
    | did step => exact emptying.found run moves removes
  refine ⟨?_, ?_, emptying.same.trans same, ?_, ?_, ?_, emptying.fetched_step ready run apart moves, ?_⟩
  · intro other activity running
    cases moves.comes running with
    | stays here => exact emptying.delivering other activity here
    | begins => exact begins _ rfl
    | @did before _ _ _ here => exact emptying.delivering t before here
    | @release before _ _ _ _ here => exact emptying.delivering t before here
  · intro other txn log outcome member
    rcases List.mem_append.mp member with old | now
    · exact emptying.returned other txn log outcome old
    · cases List.mem_singleton.mp now
      cases moves with
      | finish here => exact emptying.delivering t _ here
  · intro key
    simp only [taken, emptying.entries, removed, List.mem_append, Option.mem_toList]
    split <;> split <;> simp_all
  · rw [removed]
    refine List.nodup_append.mpr ⟨emptying.once, by cases event.step?.bind removedKey <;> simp, ?_⟩
    intro key old other now same
    -- an entry that had gone before cannot go again: it was not there
    obtain ⟨value, there⟩ := fresh key (same ▸ Option.mem_toList.mp now)
    rw [emptying.entries, if_pos old] at there
    cases there
  · intro key member
    rw [removed] at member
    rcases List.mem_append.mp member with old | now
    · exact emptying.there key old
    · obtain ⟨value, there⟩ := fresh key (Option.mem_toList.mp now)
      rw [emptying.entries] at there
      split at there
      · cases there
      · exact ⟨value, there⟩
  · intro other
    refine (emptying.logs other).extend moves ?_
    rintro step rfl
    exact emptying.foresees moves

end Ledger

end Emptying

/-! ### Rounds and their orders -/

section Runs

variable [DecidableEq τ] {config : DbConfig} {storage : Table → Rid → Image Byte}
  {hand : Table → τ → Nat} {before trace : List ((τ × DbMove A) × DbEvent A)} {start db : Db A τ}
  (loads : Run (dbStep config) (Db.empty storage hand) before start)
  (idle : ∀ t, start.tasks t = none) (ready : start.shared.Deliverable)
  (run : Run (dbStep config) start trace db)
  (began : ∀ t txn, (t, .began txn) ∈ history trace → txn.Delivering)
  (apart : Throughout (dbStep config) start trace (fun state => state.ledger.DeliversApart))
include loads idle ready run began apart

variable (ended : ∀ t, db.tasks t = none)
include ended

end Runs

/-- Only deliveries begin, and none of them fails. -/
def DbEvent.delivers : DbEvent UInt64 → Bool
  | .began (.delivery input _) => decide (input.wId.toNat < 2 ^ 16)
  | .began _ => false
  | .returned (.delivery _ _) _ outcome => outcome.isOk
  | _ => true

end Alchemy.Tpcc
