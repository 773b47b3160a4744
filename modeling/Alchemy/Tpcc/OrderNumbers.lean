import Alchemy.Tpcc.Loads
import Alchemy.Tpcc.OrderIds

/-! The numbers of the orders. A loaded order has the number it is loaded with, a placed one the
id it has taken from its district. So no two orders of a district have the same number, and what
is filed under the number of an order is filed by its own transaction.
-/

namespace Alchemy.Tpcc

open ByteImage Cache Oid Interaction

variable {A τ : Type} [Money A]

namespace Transaction

/-- The order of a transaction has this warehouse, district and number. -/
inductive Numbers (log : List (Step A)) : Transaction A → UInt64 → UInt64 → UInt64 → Prop
  | placed {input : NewOrderInput} {dRid oId} (located : input.Located log)
    (found : ⟨.get .district input.districtKey, some dRid⟩ ∈ log)
    (counted : countStep dRid oId ∈ log)
    : Numbers log (.newOrder input) input.wId.toUInt64 input.dId.toUInt64 oId
  | loaded (row : OrderRow A) : Numbers log (.loadOrder row) row.wId row.dId row.oId

/-- The customer of its order. -/
def cId : Transaction A → UInt64
  | .newOrder input => input.cId.toUInt64
  | .loadOrder row => row.oCId
  | _ => 0

variable {txn : Transaction A} {log later : List (Step A)} {w d o : UInt64}

theorem Numbers.mono (numbers : Numbers log txn w d o) (kept : ∀ step ∈ log, step ∈ later)
    : Numbers later txn w d o := by
  cases numbers with
  | placed located found counted =>
      exact .placed (located.mono kept) (kept _ found) (kept _ counted)
  | loaded row => exact .loaded row

theorem Numbers.inv (numbers : Numbers log txn w d o)
    : (∃ input dRid, txn = .newOrder input ∧ w = input.wId.toUInt64 ∧ d = input.dId.toUInt64
        ∧ ⟨.get .district input.districtKey, some dRid⟩ ∈ log ∧ countStep dRid o ∈ log)
      ∨ ∃ row, txn = .loadOrder row ∧ w = row.wId ∧ d = row.dId ∧ o = row.oId := by
  cases numbers with
  | placed located found counted => exact .inl ⟨_, _, rfl, rfl, rfl, found, counted⟩
  | loaded row => exact .inr ⟨row, rfl, rfl, rfl, rfl⟩

/-- The district was found for an id that is taken from it. -/
theorem Obeyed.taken {dRid : Rid} {step : Step A} (obeyed : txn.Obeyed log) (member : step ∈ log)
    (taken : takenId dRid step = some o)
    : ∃ input, txn = .newOrder input
      ∧ ⟨.get .district input.districtKey, some dRid⟩ ∈ log := by
  induction obeyed with
  | nil => cases member
  | release earlier ih =>
      rcases List.mem_cons.mp member with rfl | before
      · cases taken
      · obtain ⟨input, same, found⟩ := ih before
        exact ⟨input, same, List.mem_cons_of_mem _ found⟩
  | @perform log op answer earlier allows relied ih =>
      rcases List.mem_cons.mp member with rfl | before
      · obtain ⟨query, value, same⟩ := takenId_eq_some.mp taken
        cases same
        rcases allows.stores with ⟨input, same, allows⟩ | ⟨input, _, allows⟩ | ⟨input, _, _, allows⟩
        · cases allows with
          | reads reads => cases reads
          | count first located found =>
              exact ⟨input, same, List.mem_cons_of_mem _ (List.mem_cons_of_mem _ found)⟩
        · cases allows with
          | reads reads => cases reads
        · cases allows with
          | reads reads => cases reads
      · obtain ⟨input, same, found⟩ := ih before
        exact ⟨input, same, List.mem_cons_of_mem _ found⟩

omit [Money A] in
theorem takenId_countStep (dRid : Rid) (oId : UInt64)
    : takenId dRid (countStep (A := A) dRid oId) = some oId := by
  simp [takenId, countStep]

/-- The order of a transaction has a line for this item. -/
inductive Lists : Transaction A → UInt64 → Prop
  | placed {input : NewOrderInput} {item : OrderItem} (member : item ∈ input.items)
    : Lists (.newOrder input) item.olIId.toUInt64
  | loaded {row : OrderRow A} {ol : Nat} (small : ol < row.oOlCnt.toNat)
    : Lists (.loadOrder row) (row.iStart + ol.toUInt64)

/-- What an operation files an order under: an entry, the order or one of its lines. -/
inductive Files (txn : Transaction A) (log : List (Step A)) : Step A → Prop
  | entry {w d o value replaced} (numbers : Numbers log txn w d o)
    : Files txn log ⟨.newOrderInsert (NewOrderTuple.makeKey w d o txn.cId) value, replaced⟩
  | order {w d o rid replaced} (numbers : Numbers log txn w d o)
    : Files txn log ⟨.indexInsert .order (OrderTuple.makeKey w d txn.cId o) rid, replaced⟩
  | line {w d o i rid replaced} (numbers : Numbers log txn w d o) (lists : txn.Lists i)
    : Files txn log ⟨.indexInsert .orderLine (OrderLineTuple.makeKey w d o i) rid, replaced⟩

theorem Files.mono {step : Step A} (files : txn.Files log step)
    (kept : ∀ step ∈ log, step ∈ later)
    : txn.Files later step := by
  cases files with
  | entry numbers => exact .entry (numbers.mono kept)
  | order numbers => exact .order (numbers.mono kept)
  | line numbers lists => exact .line (numbers.mono kept) lists

/-- The index and the key an operation files something under. -/
def slot : Step A → Option (Option Table × UInt64)
  | ⟨.newOrderInsert key _, _⟩ => some (none, key)
  | ⟨.indexInsert table key _, _⟩ => some (some table, key)
  | _ => none

/-- An operation that files something about an order. -/
def filing : Step A → Bool
  | ⟨.newOrderInsert _ _, _⟩ => true
  | ⟨.indexInsert .order _ _, _⟩ => true
  | ⟨.indexInsert .orderLine _ _, _⟩ => true
  | _ => false

omit [Money A] in
theorem not_filing_of_free {op : Op A} {answer : op.Answer} (reads : op.free = true)
    : ¬filing ⟨op, answer⟩ = true := by
  intro files
  cases op with
  | newOrderInsert | indexInsert => cases reads
  | _ => cases files

/-- A `new_order` that has counted its order has a number. -/
theorem Obeyed.numbers {input : NewOrderInput} {dRid : Rid}
    (obeyed : (Transaction.newOrder input).Obeyed log) (located : input.Located log)
    (counted : countStep dRid o ∈ log)
    : Numbers log (.newOrder input) input.wId.toUInt64 input.dId.toUInt64 o := by
  obtain ⟨_, same, found⟩ := obeyed.taken counted (takenId_countStep dRid o)
  cases same
  exact .placed located found counted

/-- What a transaction files, it files under the number of its order. -/
theorem Obeyed.files_now {op : Op A} {answer : op.Answer} (obeyed : txn.Obeyed log)
    (allows : txn.Allows log op) (files : filing ⟨op, answer⟩ = true)
    : txn.Files log ⟨op, answer⟩ := by
  cases txn with
  | newOrder input =>
      cases allows with
      | reads reads => exact absurd files (not_filing_of_free reads)
      | @enter _ dRid oId counted located =>
          have counted : countStep dRid oId ∈ changes log := counted ▸ List.mem_cons_self
          exact .entry (obeyed.numbers located (mem_changes.mp counted).1)
      | @orderIndex before dRid oId _ _ entered located =>
          have counted : countStep dRid oId ∈ changes before := entered ▸ List.mem_cons_self
          exact .order (obeyed.numbers (located.mono (fun _ => List.mem_cons_of_mem _))
            (List.mem_cons_of_mem _ (mem_changes.mp counted).1))
      | @lineIndex before _ _ _ _ _ _ _ counted located here done =>
          exact .line (obeyed.numbers (located.mono (fun _ => List.mem_cons_of_mem _))
            (List.mem_cons_of_mem _ counted)) (.placed (List.mem_of_getElem? here))
      | _ => cases files
  | payment | delivery | orderStatus | stockLevel =>
      cases allows with
      | reads reads => exact absurd files (not_filing_of_free reads)
      | _ => cases files
  | loadWarehouse | loadDistrict | loadItem | loadStock =>
      cases allows <;> cases files
  | loadCustomer row =>
      cases allows with
      | row allowed => cases allowed <;> cases files
      | lastName => cases files
  | loadOrder row =>
      cases allows with
      | row allowed =>
          cases allowed with
          | insert => cases files
          | index => exact .order (.loaded row)
      | lineIndex small => exact .line (.loaded row) (.loaded small)
      | enter => exact .entry (.loaded row)
      | line | drop => cases files

theorem Obeyed.files {step : Step A} (obeyed : txn.Obeyed log) (member : step ∈ log)
    (files : filing step = true)
    : txn.Files log step := by
  induction obeyed with
  | nil => cases member
  | release earlier ih =>
      rcases List.mem_cons.mp member with rfl | before
      · cases files
      · exact (ih before).mono (fun _ => List.mem_cons_of_mem _)
  | perform earlier allows relied ih =>
      rcases List.mem_cons.mp member with rfl | before
      · exact (earlier.files_now allows files).mono (fun _ => List.mem_cons_of_mem _)
      · exact (ih before).mono (fun _ => List.mem_cons_of_mem _)

end Transaction

/-! ### No number is used twice -/

namespace Ledger

variable [DecidableEq τ] {config : DbConfig} {ledger : Ledger A τ} {past : History A τ}
  {t other : τ} {txn theirs : Transaction A} {log elsewhere : List (Step A)} {w d o : UInt64}

/-- The range of a warehouse, a district and a customer. -/
def InRange (w d c : UInt64) : Prop :=
  w.toNat < warehouseBound ∧ d.toNat < districtScale ∧ c.toNat < customerScale

/-- The order of a transaction is one of a warehouse, a district and a customer that exist. -/
theorem Run.numbers_inRange (run : Run config past ledger) (ran : ledger.Ran past t txn log)
    (numbers : txn.Numbers log w d o)
    : InRange w d txn.cId := by
  cases numbers with
  | placed located =>
      obtain ⟨chronicle, _⟩ := run.chronicle
      obtain ⟨wide, small, customer, _⟩ := located.sized chronicle (run.ran_logged ran)
        (fun _ _ _ inserted => chronicle.sized inserted)
      rw [InRange, Transaction.cId, UInt32.toNat_toUInt64, UInt32.toNat_toUInt64,
        UInt32.toNat_toUInt64]
      exact ⟨wide, small, customer⟩
  | loaded row => exact ⟨row.wId_lt, row.dId_lt, row.oCId_lt⟩

/-- The ids taken from a district are below its counter and not below the first one, and none is
taken twice.
-/
theorem Run.taken_ids (run : Run config past ledger) (dRid : Rid)
    : ((steps past).filterMap (takenId dRid)).Nodup
      ∧ ∀ o ∈ (steps past).filterMap (takenId dRid),
          ∃ record, ledger.shared.rows .district dRid = some record
            ∧ firstId ≤ o.toNat ∧ o.toNat < (record .dNextOId : UInt64).toNat := by
  obtain ⟨chronicle, same⟩ := run.chronicle
  cases row : ledger.shared.rows .district dRid with
  | none =>
      rw [same] at row
      rw [chronicle.counter.1 row]
      exact ⟨List.nodup_nil, by simp⟩
  | some record =>
      obtain ⟨count, bound, ids, nextId⟩ := run.ids row
      have number : ∀ k < count, (UInt64.ofNat (firstId + k)).toNat = firstId + k := by
        intro k small
        refine UInt64.toNat_ofNat_of_lt' (Nat.lt_trans (?_ : firstId + k < 2 ^ 33) (by decide))
        rw [firstId]
        omega
      rw [ids, consecutiveIds]
      constructor
      · refine List.Nodup.map_on ?_ List.nodup_range
        intro k small k' small' equal
        have equal := congrArg UInt64.toNat equal
        rw [number k (List.mem_range.mp small), number k' (List.mem_range.mp small')] at equal
        omega
      · intro o member
        obtain ⟨k, small, rfl⟩ := List.mem_map.mp member
        have small := List.mem_range.mp small
        refine ⟨record, rfl, ?_⟩
        rw [number k small, nextId]
        omega

/-- An order that was placed has a number that no loaded order has. -/
theorem Run.placed_ge {dRid : Rid} (run : Run config past ledger)
    (counted : countStep dRid o ∈ steps past)
    : firstId ≤ o.toNat := by
  obtain ⟨_, _, low, _⟩ := (run.taken_ids dRid).2 o
    (List.mem_filterMap.mpr ⟨_, counted, Transaction.takenId_countStep dRid o⟩)
  exact low

/-- The operation that takes this id from a district. -/
def takes (dRid : Rid) (o : UInt64) (step : Step A) : Option Unit :=
  if takenId dRid step = some o then some () else none

theorem Run.takes_le (run : Run config past ledger) (dRid : Rid) (o : UInt64)
    : (past.map (fun entry => entry.2.adds (fun _ => 0) (hits (takes dRid o)))).sum ≤ 1 := by
  have counted : ((steps past).filterMap (takes dRid o)).length
      = ((steps past).filterMap (takenId dRid)).count o := by
    generalize steps past = done
    induction done with
    | nil => rfl
    | cons step rest ih =>
        cases taken : takenId dRid step with
        | none => simp [takes, taken, ih]
        | some id =>
            by_cases same : id = o <;> simp [takes, taken, same, ih]
  rw [sum_adds_steps, logWorth_hits, counted]
  exact List.nodup_iff_count_le_one.mp (run.taken_ids dRid).1 o

/-- Two transactions whose orders have the same number are one transaction. -/
theorem Run.numbers_unique (run : Run config past ledger) (once : LoadsOnce past)
    (first : ledger.Ran past t txn log) (second : ledger.Ran past other theirs elsewhere)
    (mine : txn.Numbers log w d o) (also : theirs.Numbers elsewhere w d o)
    : t = other ∧ txn = theirs ∧ log = elsewhere := by
  rcases mine.inv with ⟨input, dRid, rfl, rfl, rfl, found, counted⟩ | ⟨row, rfl, rfl, rfl, rfl⟩ <;>
    rcases also.inv with ⟨input', dRid', rfl, w', d', found', counted'⟩ | ⟨row', rfl, w', d', o'⟩
  · have sameKey : input'.districtKey = input.districtKey := by
      rw [NewOrderInput.districtKey, ← w', ← d', NewOrderInput.districtKey]
    rw [sameKey] at found'
    obtain rfl := run.found_unique once (by simp [Table.Fixed]) (run.ran_logged first _ found)
      (run.ran_logged second _ found')
    have one {log : List (Step A)} (counted : countStep dRid o ∈ log)
        : 1 ≤ 0 + logWorth (hits (takes dRid o)) log := by
      have member : () ∈ log.filterMap (takes dRid o) :=
        List.mem_filterMap.mpr ⟨_, counted, if_pos (Transaction.takenId_countStep dRid o)⟩
      rw [Nat.zero_add, logWorth_hits]
      exact List.length_pos_of_mem member
    exact run.sole (run.takes_le dRid o) first second (one counted) (one counted')
  · have low := run.placed_ge (run.ran_logged first _ counted)
    have high := row'.oId_lt
    rw [o', firstId] at low
    rw [customerScale] at high
    omega
  · have low := run.placed_ge (run.ran_logged second _ counted')
    have high := row.oId_lt
    rw [firstId] at low
    rw [customerScale] at high
    omega
  · refine run.sole (sum_loads_le once (.order, NewOrderTuple.makeKey row.wId row.dId row.oId 0))
      first second ?_ ?_
    · simp [Transaction.loads]
    · simp [Transaction.loads, w', d', o']

end Ledger

/-! ### Nothing is filed twice -/

section Keys

variable {w d o c w' d' o' c' i i' : UInt64}

/-- Keys of four 16-bit parts tell the parts. -/
theorem NewOrderTuple.makeKey_inj (wide : w.toNat < 2 ^ 16) (district : d.toNat < 2 ^ 16)
    (order : o.toNat < 2 ^ 16) (customer : c.toNat < 2 ^ 16) (wide' : w'.toNat < 2 ^ 16)
    (district' : d'.toNat < 2 ^ 16) (order' : o'.toNat < 2 ^ 16) (customer' : c'.toNat < 2 ^ 16)
    (same : NewOrderTuple.makeKey w d o c = NewOrderTuple.makeKey w' d' o' c')
    : w = w' ∧ d = d' ∧ o = o' ∧ c = c' := by
  have numbers := congrArg UInt64.toNat same
  rw [NewOrderTuple.makeKey_toNat wide district order customer,
    NewOrderTuple.makeKey_toNat wide' district' order' customer'] at numbers
  simp only [← UInt64.toNat_inj]
  omega

theorem OrderLineTuple.makeKey_inj (wide : w.toNat < 2 ^ 16) (district : d.toNat < 2 ^ 8)
    (order : o.toNat < 2 ^ 20) (item : i.toNat < 2 ^ 20) (wide' : w'.toNat < 2 ^ 16)
    (district' : d'.toNat < 2 ^ 8) (order' : o'.toNat < 2 ^ 20) (item' : i'.toNat < 2 ^ 20)
    (same : OrderLineTuple.makeKey w d o i = OrderLineTuple.makeKey w' d' o' i')
    : w = w' ∧ d = d' ∧ o = o' ∧ i = i' := by
  have numbers := congrArg UInt64.toNat same
  rw [OrderLineTuple.makeKey_toNat wide district order item,
    OrderLineTuple.makeKey_toNat wide' district' order' item'] at numbers
  simp only [← UInt64.toNat_inj]
  omega

end Keys

/-- All ids taken so far fit into 16 bits. -/
def SmallIds (past : History A τ) : Prop :=
  ∀ dRid o, countStep dRid o ∈ steps past → o.toNat < 2 ^ 16

/-- The test for it, over the stores to the counters. -/
def smallIds (past : History A τ) : Bool :=
  (steps past).all (fun step => (touched step).all (fun place =>
    (takenId place.2 step).all (fun o => o.toNat < 2 ^ 16)))

theorem smallIds_sound {past : History A τ} (all : smallIds past = true) : SmallIds past := by
  intro dRid o counted
  have small : (takenId dRid (countStep (A := A) dRid o)).all (fun o => o.toNat < 2 ^ 16) = true :=
    List.all_eq_true.mp all _ counted
  rw [Transaction.takenId_countStep] at small
  exact of_decide_eq_true small

theorem SmallIds.sooner {past before : History A τ} (small : SmallIds past)
    (sooner : before <+: past)
    : SmallIds before := by
  obtain ⟨rest, rfl⟩ := sooner
  intro dRid o counted
  refine small dRid o ?_
  rw [steps, List.filterMap_append]
  exact List.mem_append_left _ counted

theorem LoadsOnce.sooner {past before : History A τ} (once : LoadsOnce past)
    (sooner : before <+: past)
    : LoadsOnce before := by
  obtain ⟨rest, rfl⟩ := sooner
  rw [LoadsOnce, List.filterMap_append] at once
  exact once.of_append_left

namespace Ledger

variable [DecidableEq τ] {config : DbConfig} {ledger : Ledger A τ} {past : History A τ}
  {t : τ} {txn : Transaction A} {log : List (Step A)} {w d o i : UInt64}

theorem Run.number_small (run : Run config past ledger) (small : SmallIds past)
    (ran : ledger.Ran past t txn log) (numbers : txn.Numbers log w d o)
    : o.toNat < 2 ^ 16 := by
  cases numbers with
  | placed located found counted => exact small _ _ (run.ran_logged ran _ counted)
  | loaded row => exact Nat.lt_trans row.oId_lt (by decide)

theorem Run.listed_small (run : Run config past ledger) (ran : ledger.Ran past t txn log)
    (numbers : txn.Numbers log w d o) (lists : txn.Lists i)
    : i.toNat < itemScale := by
  cases lists with
  | placed member =>
      cases numbers with
      | placed located =>
          obtain ⟨chronicle, _⟩ := run.chronicle
          obtain ⟨_, _, _, items⟩ := located.sized chronicle (run.ran_logged ran)
            (fun _ _ _ inserted => chronicle.sized inserted)
          rw [UInt32.toNat_toUInt64]
          exact items _ member
  | @loaded row ol small => exact row.item_lt small

/-- What is filed under the same key was filed by one transaction. -/
theorem Run.filed_own {other : τ} {theirs : Transaction A} {elsewhere : List (Step A)}
    {step step' : Step A} (run : Run config past ledger) (once : LoadsOnce past)
    (small : SmallIds past) (first : ledger.Ran past t txn log)
    (second : ledger.Ran past other theirs elsewhere) (mine : txn.Files log step)
    (also : theirs.Files elsewhere step') (same : Transaction.slot step = Transaction.slot step')
    : t = other ∧ txn = theirs ∧ log = elsewhere := by
  have range {t : τ} {txn : Transaction A} {log : List (Step A)} {w d o : UInt64}
      (ran : ledger.Ran past t txn log) (numbers : txn.Numbers log w d o)
      : w.toNat < 2 ^ 16 ∧ d.toNat < 2 ^ 8 ∧ txn.cId.toNat < 2 ^ 16 ∧ o.toNat < 2 ^ 16 := by
    obtain ⟨wide, district, customer⟩ := run.numbers_inRange ran numbers
    simp only [warehouseBound, districtScale, customerScale] at wide district customer
    exact ⟨wide, by omega, by omega, run.number_small small ran numbers⟩
  cases mine with
  | entry numbers =>
      cases also with
      | entry numbers' =>
          obtain ⟨wide, district, customer, order⟩ := range first numbers
          obtain ⟨wide', district', customer', order'⟩ := range second numbers'
          obtain ⟨rfl, rfl, rfl, _⟩ := NewOrderTuple.makeKey_inj wide (by omega) order customer
            wide' (by omega) order' customer' (Prod.mk.inj (Option.some.inj same)).2
          exact run.numbers_unique once first second numbers numbers'
      | order | line => cases same
  | order numbers =>
      cases also with
      | order numbers' =>
          obtain ⟨wide, district, customer, order⟩ := range first numbers
          obtain ⟨wide', district', customer', order'⟩ := range second numbers'
          obtain ⟨rfl, rfl, _, rfl⟩ := NewOrderTuple.makeKey_inj wide (by omega) customer order
            wide' (by omega) customer' order' (Prod.mk.inj (Option.some.inj same)).2
          exact run.numbers_unique once first second numbers numbers'
      | entry | line => cases same
  | line numbers lists =>
      cases also with
      | line numbers' lists' =>
          obtain ⟨wide, district, customer, order⟩ := range first numbers
          obtain ⟨wide', district', customer', order'⟩ := range second numbers'
          have item := run.listed_small first numbers lists
          have item' := run.listed_small second numbers' lists'
          rw [itemScale] at item item'
          obtain ⟨rfl, rfl, rfl, _⟩ := OrderLineTuple.makeKey_inj wide district (by omega)
            (by omega) wide' district' (by omega) (by omega)
            (Prod.mk.inj (Option.some.inj same)).2
          exact run.numbers_unique once first second numbers numbers'
      | entry | order => cases same

end Ledger

end Alchemy.Tpcc
