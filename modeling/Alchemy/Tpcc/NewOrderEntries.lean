import Alchemy.Tpcc.OrderNumbers
import Alchemy.Tpcc.Scans

/-! The entries of the new-order index. An entry is built from the warehouse, the district, the id
and the customer of an order, and stands for them as long as ids fit into 16 bits. The order
itself is filed after its entry, so `delivery` may come across an entry whose order is not there.
-/

namespace Alchemy.Tpcc

open ByteImage Cache Oid Interaction Interleaving

variable {A τ : Type} [Money A] [DecidableEq τ]

/-! ### What a key tells -/

/-- The key gives back the order id and the customer, and is met by the scan of its district
only.
-/
structure NewOrderTuple.Decodes (key w d o c : UInt64) : Prop where
  ids : NewOrderTuple.oCIdFromKey key = (o, c)
  district : ∀ w' d', Within [16, 16] [w', d']
    → (InScan (NewOrderTuple.makeKey w' d' 0 0) (NewOrderTuple.makeKey w' d' 0xffff 0xffff) key
      ↔ w' = w ∧ d' = d)

section Keys

variable {w d o c : UInt64}

theorem Ledger.InRange.within (range : Ledger.InRange w d c) (order : o.toNat < 2 ^ 16)
    : Within [16, 16, 16, 16] [w, d, o, c] := by
  obtain ⟨wide, district, customer⟩ := range
  simp only [warehouseBound, districtScale, customerScale] at wide district customer
  exact ⟨wide, by omega, order, by omega, trivial⟩

/-- A key is decoded iff the order id has 16 bits. -/
theorem NewOrderTuple.decodes_iff (range : Ledger.InRange w d c)
    : NewOrderTuple.Decodes (NewOrderTuple.makeKey w d o c) w d o c ↔ o.toNat < 2 ^ 16 := by
  constructor
  · intro decodes
    have id : ((NewOrderTuple.makeKey w d o c &&& 0x00000000ffff0000) >>> 16) = o :=
      congrArg Prod.fst decodes.ids
    have masked : (NewOrderTuple.makeKey w d o c &&& 0x00000000ffff0000).toNat ≤ 0xffff0000 := by
      rw [UInt64.toNat_and]
      exact Nat.and_le_right
    rw [← id, UInt64.toNat_shiftRight, Nat.shiftRight_eq_div_pow]
    have shift : (16 : UInt64).toNat % 64 = 16 := rfl
    rw [shift]
    omega
  · intro small
    have within := range.within small
    refine ⟨NewOrderTuple.oCIdFromKey_makeKey within, fun w' d' scan => ?_⟩
    rw [newOrder_scanned scan within]
    constructor
    · intro same
      cases same
      exact ⟨rfl, rfl⟩
    · rintro ⟨rfl, rfl⟩
      rfl

/-- Only 16 bits of the warehouse go into a key. -/
theorem shiftLeft_low (w : UInt64) : w <<< 48 = UInt64.ofNat (w.toNat % 2 ^ 16) <<< 48 := by
  have low : (UInt64.ofNat (w.toNat % 2 ^ 16)).toNat = w.toNat % 2 ^ 16 :=
    UInt64.toNat_ofNat_of_lt' (Nat.lt_trans (Nat.mod_lt _ (by decide)) (by decide))
  have shift : (48 : UInt64).toNat % 64 = 48 := rfl
  rw [← UInt64.toNat_inj, UInt64.toNat_shiftLeft, UInt64.toNat_shiftLeft, low, shift,
    Nat.shiftLeft_eq, Nat.shiftLeft_eq]
  omega

/-- What `delivery` looks up for an entry that its scan has met. -/
theorem DeliveryInput.keys_of_scan {input : DeliveryInput} {dId : UInt64}
    (range : Ledger.InRange w d c) (small : o.toNat < 2 ^ 16) (district : dId.toNat < districtScale)
    (met : InScan (NewOrderTuple.makeKey input.wId.toUInt64 dId 0 0)
      (NewOrderTuple.makeKey input.wId.toUInt64 dId 0xffff 0xffff)
      (NewOrderTuple.makeKey w d o c))
    : input.orderKey dId (NewOrderTuple.makeKey w d o c) = OrderTuple.makeKey w d c o
      ∧ input.customerKey dId (NewOrderTuple.makeKey w d o c) = CustomerTuple.makeKey w d c := by
  have within := range.within small
  let low := UInt64.ofNat (input.wId.toUInt64.toNat % 2 ^ 16)
  have lowSmall : low.toNat < 2 ^ 16 := by
    have := Nat.mod_lt input.wId.toUInt64.toNat (by decide : 2 ^ 16 > 0)
    rwa [UInt64.toNat_ofNat_of_lt' (Nat.lt_trans this (by decide))]
  have scan : Within [16, 16] [low, dId] := by
    rw [districtScale] at district
    exact ⟨lowSmall, by omega, trivial⟩
  have sameShift : input.wId.toUInt64 <<< 48 = low <<< 48 := shiftLeft_low _
  rw [NewOrderTuple.makeKey, NewOrderTuple.makeKey, sameShift] at met
  have chosen := (newOrder_scanned scan within).mp met
  obtain ⟨rfl, rest⟩ := List.cons.inj chosen
  obtain ⟨rfl, _⟩ := List.cons.inj rest
  rw [DeliveryInput.orderKey, DeliveryInput.customerKey, NewOrderTuple.oCIdFromKey_makeKey within]
  constructor
  · rw [OrderTuple.makeKey, sameShift, OrderTuple.makeKey]
  · rw [CustomerTuple.makeKey, sameShift, CustomerTuple.makeKey]

end Keys

/-! ### Entries and their orders -/

section Logs

variable {txn : Transaction A} {log : List (Step A)} {key : UInt64}

/-- The operation enters an order under this key. -/
def enters (key : UInt64) : Step A → Bool
  | ⟨.newOrderInsert other _, _⟩ => other = key
  | _ => false

/-- The operation puts an order into its index. -/
def filesOrder : Step A → Bool
  | ⟨.indexInsert .order _ _, _⟩ => true
  | _ => false

/-- An order is entered under this key, and not put into its index yet. -/
def unfiled (key : UInt64) (log : List (Step A)) : Bool :=
  log.any (enters key) && !log.any filesOrder

omit [Money A] in
theorem any_enters
    : log.any (enters key) = true
      ↔ ∃ value replaced, ⟨.newOrderInsert key value, replaced⟩ ∈ log := by
  rw [List.any_eq_true]
  constructor
  · rintro ⟨⟨op, answer⟩, member, enters⟩
    cases op with
    | newOrderInsert other value =>
        obtain rfl := of_decide_eq_true enters
        exact ⟨value, answer, member⟩
    | _ => cases enters
  · rintro ⟨value, replaced, member⟩
    exact ⟨_, member, decide_eq_true rfl⟩

omit [Money A] in
theorem any_filesOrder
    : log.any filesOrder = true
      ↔ ∃ orderKey rid replaced, ⟨.indexInsert .order orderKey rid, replaced⟩ ∈ log := by
  rw [List.any_eq_true]
  constructor
  · rintro ⟨⟨op, answer⟩, member, files⟩
    cases op with
    | indexInsert table orderKey rid =>
        cases table with
        | order => exact ⟨orderKey, rid, answer, member⟩
        | _ => cases files
    | _ => cases files
  · rintro ⟨orderKey, rid, replaced, member⟩
    exact ⟨_, member, rfl⟩

omit [Money A] in
theorem not_unfiled_iff
    : unfiled key log = false
      ↔ ((∃ value replaced, ⟨.newOrderInsert key value, replaced⟩ ∈ log)
        → ∃ orderKey rid replaced, ⟨.indexInsert .order orderKey rid, replaced⟩ ∈ log) := by
  rw [← any_enters, ← any_filesOrder, unfiled]
  cases log.any (enters key) <;> cases log.any filesOrder <;> simp

/-- A loaded order is put into its index before it is entered. -/
theorem Transaction.Obeyed.load_filed {row : OrderRow A}
    (obeyed : (Transaction.loadOrder row).Obeyed log)
    : unfiled key log = false := by
  rw [not_unfiled_iff]
  rintro ⟨value, replaced, member⟩
  induction obeyed with
  | nil => cases member
  | release earlier ih =>
      obtain ⟨orderKey, rid, old, filed⟩ := ih (by simpa using member)
      exact ⟨orderKey, rid, old, List.mem_cons_of_mem _ filed⟩
  | perform earlier allows relied ih =>
      rcases List.mem_cons.mp member with now | before
      · cases now
        cases allows with
        | row allowed => cases allowed
        | enter undelivered ordered =>
            obtain ⟨rid, old, both⟩ := ordered
            have filed := both _ (List.mem_cons_of_mem _ List.mem_cons_self)
            exact ⟨_, rid, old, List.mem_cons_of_mem _ filed⟩
      · obtain ⟨orderKey, rid, old, filed⟩ := ih before
        exact ⟨orderKey, rid, old, List.mem_cons_of_mem _ filed⟩

omit [DecidableEq τ] in
/-- A transaction that has returned has put what it has entered into the index. -/
theorem Closed.filed {past : History A τ} {t : τ} {outcome : Except Stop Unit}
    (closed : Closed past t txn log outcome)
    : unfiled key log = false := by
  rw [not_unfiled_iff]
  rintro ⟨value, replaced, member⟩
  have files := closed.obeyed.files member rfl
  cases files with
  | entry numbers =>
      rcases numbers.inv with ⟨input, dRid, rfl, _⟩ | ⟨row, rfl, _⟩
      · cases outcome with
        | ok =>
            obtain ⟨_, dRid, oRid, oId, lines, placed⟩ := closed.ends
            obtain ⟨entry, old, changed⟩ := placed.changed
            have filed : (⟨.indexInsert .order (Table.order.key (input.order (A := A) oId)) oRid,
                old⟩ : Step A) ∈ changes log := by
              rw [changed]
              simp [NewOrderInput.orderSteps, insertSteps]
            exact ⟨_, oRid, old, (mem_changes.mp filed).1⟩
        | error stop =>
            have changing := mem_changes.mpr ⟨member, rfl⟩
            cases stop with
            | panic => exact closed.ends.elim
            | err error =>
                rw [closed.ends.1] at changing
                cases changing
      · exact not_unfiled_iff.mp closed.obeyed.load_filed ⟨value, replaced, member⟩

end Logs

namespace Ledger

variable {config : DbConfig} {ledger : Ledger A τ} {past : History A τ} {t : τ}
  {txn : Transaction A} {log : List (Step A)} {key value w d o c w' d' o' : UInt64}

/-- A transaction of the run has entered an order under this key, which it has built from the
warehouse, the district, the id and the customer.
-/
structure EntryOf (ledger : Ledger A τ) (past : History A τ) (key w d o c : UInt64) : Prop where
  entered : ∃ t txn log value replaced, ledger.Ran past t txn log
    ∧ ⟨.newOrderInsert key value, replaced⟩ ∈ log ∧ txn.Numbers log w d o ∧ txn.cId = c
  built : key = NewOrderTuple.makeKey w d o c

/-- Every entry was entered. -/
theorem Run.entryOf (run : Run config past ledger)
    (entry : ledger.shared.newOrder[key]? = some value)
    : ∃ w d o c, ledger.EntryOf past key w d o c := by
  obtain ⟨chronicle, same⟩ := run.chronicle
  rw [same] at entry
  obtain ⟨replaced, did⟩ := chronicle.entered entry
  obtain ⟨t, txn, log, ran, member⟩ := run.ran did
  have files := (run.ran_obeyed ran).files member rfl
  cases files with
  | entry numbers =>
      exact ⟨_, _, _, _, ⟨t, txn, log, value, replaced, ran, member, numbers, rfl⟩, rfl⟩

theorem Run.entry_inRange (run : Run config past ledger) (entry : ledger.EntryOf past key w d o c)
    : InRange w d c := by
  obtain ⟨t, txn, log, _, _, ran, _, numbers, rfl⟩ := entry.entered
  exact run.numbers_inRange ran numbers

/-- An order has one number. -/
theorem Run.numbers_eq (run : Run config past ledger) (once : LoadsOnce past)
    (ran : ledger.Ran past t txn log) (numbers : txn.Numbers log w d o)
    (numbers' : txn.Numbers log w' d' o')
    : w = w' ∧ d = d' ∧ o = o' := by
  rcases numbers.inv with ⟨input, dRid, rfl, rfl, rfl, found, counted⟩ | ⟨row, rfl, rfl, rfl, rfl⟩
  · rcases numbers'.inv with ⟨_, dRid', same, rfl, rfl, found', counted'⟩ | ⟨_, same, _⟩
    · cases same
      obtain rfl := run.found_unique once (by simp [Table.Fixed]) (run.ran_logged ran _ found)
        (run.ran_logged ran _ found')
      refine ⟨rfl, rfl, ?_⟩
      have taken := List.mem_filterMap.mpr
        ⟨_, counted, Transaction.takenId_countStep (A := A) dRid o⟩
      have taken' := List.mem_filterMap.mpr
        ⟨_, counted', Transaction.takenId_countStep (A := A) dRid o'⟩
      exact eq_of_short (run.ran_obeyed ran).takenIds.1 taken taken'
    · cases same
  · rcases numbers'.inv with ⟨_, _, same, _⟩ | ⟨_, same, rfl, rfl, rfl⟩
    · cases same
    · cases same
      exact ⟨rfl, rfl, rfl⟩

/-- The ids of inserted orders fit into 16 bits. -/
theorem Run.order_small {record : Table.order.Record A} {rid : Rid} (run : Run config past ledger)
    (small : SmallIds past) (inserted : ⟨.insert .order record, rid⟩ ∈ steps past)
    : (record .oId : UInt64).toNat < 2 ^ 16 := by
  obtain ⟨t, txn, log, ran, member⟩ := run.ran inserted
  have inserts : ∃ earlier, txn.Inserts earlier .order record ∧ ∀ step ∈ earlier, step ∈ log := by
    have obeyed := run.ran_obeyed ran
    clear ran
    induction obeyed with
    | nil => cases member
    | release earlier ih =>
        obtain ⟨before, inserts, kept⟩ := ih (by simpa using member)
        exact ⟨before, inserts, fun step inside => List.mem_cons_of_mem _ (kept step inside)⟩
    | @perform log op answer earlier allows relied ih =>
        rcases List.mem_cons.mp member with now | before
        · cases now
          exact ⟨log, allows.inserts, fun step => List.mem_cons_of_mem _⟩
        · obtain ⟨sooner, inserts, kept⟩ := ih before
          exact ⟨sooner, inserts, fun step inside => List.mem_cons_of_mem _ (kept step inside)⟩
  obtain ⟨earlier, inserts, kept⟩ := inserts
  cases inserts with
  | loadedOrder row => exact Nat.lt_trans row.oId_lt (by decide)
  | order counted => exact small _ _ (run.ran_logged ran _ (kept _ counted))

/-- The index of the orders leads to the order with these ids. -/
def Resolves (ledger : Ledger A τ) (w d o c : UInt64) : Prop :=
  ∃ rid record, (ledger.shared.index .order)[OrderTuple.makeKey w d c o]? = some rid
    ∧ ledger.shared.rows .order rid = some record
    ∧ record .oWId = w ∧ record .oDId = d ∧ record .oId = o ∧ record .oCId = c

omit [DecidableEq τ] in
/-- What the index of the orders leads to has the ids of the key. -/
theorem Run.resolves_of_has [DecidableEq τ] (run : Run config past ledger) (small : SmallIds past)
    (range : InRange w d c) (order : o.toNat < 2 ^ 16)
    (has : ledger.shared.Has .order (OrderTuple.makeKey w d c o))
    : ledger.Resolves w d o c := by
  obtain ⟨chronicle, same⟩ := run.chronicle
  obtain ⟨rid, found⟩ := has
  have entry := found
  rw [same] at entry
  obtain ⟨original, inserted, key⟩ := chronicle.index_inserted entry
  obtain ⟨record, row, agree⟩ := chronicle.inserted_row inserted
  have sized := chronicle.sized inserted
  have id := run.order_small small inserted
  obtain ⟨wide, district, _, customer, _⟩ := range.within order
  simp only [Table.Sized, warehouseBound, districtScale, customerScale] at sized
  obtain ⟨sameW, sameD, sameC, sameO⟩ := NewOrderTuple.makeKey_inj (by omega) (by omega) (by omega)
    id wide district customer order key
  refine ⟨rid, record, found, same ▸ row, ?_, ?_, ?_, ?_⟩
  · rw [agree .oWId (by simp [Table.Written]), sameW]
  · rw [agree .oDId (by simp [Table.Written]), sameD]
  · rw [agree .oId (by simp [Table.Written]), sameO]
  · rw [agree .oCId (by simp [Table.Written]), sameC]

/-- An entry leads to its order iff no running transaction has still to put the order into its
index.
-/
theorem Run.resolves_iff (run : Run config past ledger) (once : LoadsOnce past)
    (small : SmallIds past) (entry : ledger.EntryOf past key w d o c)
    : ledger.Resolves w d o c
      ↔ ∀ t activity, ledger.active t = some activity → unfiled key activity.log = false := by
  obtain ⟨t, txn, log, value, replaced, ran, entered, numbers, rfl⟩ := entry.entered
  have order := run.number_small small ran numbers
  have range := run.numbers_inRange ran numbers
  obtain ⟨chronicle, same⟩ := run.chronicle
  constructor
  · rintro ⟨rid, record, found, _⟩ other activity here
    rw [not_unfiled_iff]
    rintro ⟨value', replaced', also⟩
    -- the order in the index was filed by the transaction that has entered it
    rw [same] at found
    obtain ⟨old, filed⟩ := chronicle.indexed found
    obtain ⟨filer, theirs, elsewhere, ranToo, member⟩ := run.ran filed
    have ranOther : ledger.Ran past other activity.txn activity.log :=
      .inr ⟨activity, here, rfl, rfl⟩
    have files := (run.ran_obeyed ranOther).files also rfl
    have filesToo := (run.ran_obeyed ran).files entered rfl
    obtain ⟨_, sameTxn, sameLog⟩ := run.filed_own once small ran ranOther filesToo files rfl
    have filesOrder : txn.Files log ⟨.indexInsert .order _ rid, old⟩ := .order numbers
    obtain ⟨_, _, sameLogs⟩ := run.filed_own once small ran ranToo filesOrder
      ((run.ran_obeyed ranToo).files member rfl) rfl
    rw [← sameLog, sameLogs]
    exact ⟨_, _, _, member⟩
  · intro settled
    have closed : unfiled key log = false := by
      rcases ran with ⟨outcome, returned⟩ | ⟨activity, here, rfl, rfl⟩
      · exact (run.closed returned).filed
      · exact settled t activity here
    obtain ⟨orderKey, rid, old, filed⟩ := not_unfiled_iff.mp closed ⟨value, replaced, entered⟩
    refine run.resolves_of_has small range order ?_
    have files := (run.ran_obeyed ran).files filed rfl
    cases files with
    | order numbers' =>
        obtain ⟨rfl, rfl, rfl⟩ := run.numbers_eq once ran numbers numbers'
        rw [same]
        exact replay_has (run.ran_logged ran _ filed)

end Ledger

/-! ### What delivery meets -/

section Scans

variable {config : DbConfig} {done : List (Step A)} {low high key value : UInt64} {length : Nat}
  {found : List (UInt64 × UInt64)}

omit [Money A] in
theorem Index.mem_of_mem_range {V : Type} {index : Index V} {entry : V} {scan : IndexScan}
    (member : (key, entry) ∈ scan.range index low high length)
    : index[key]? = some entry ∧ InScan low high key := by
  rw [scan.range_eq] at member
  exact Index.mem_between.mp (List.mem_of_mem_filter (List.mem_of_mem_take member))

/-- What a scan for entries has found was entered, and lies in the scan. -/
theorem Chronicle.scanned (chronicle : Chronicle config done)
    (scanned : ⟨.newOrderRange low high length, found⟩ ∈ done) (member : (key, value) ∈ found)
    : InScan low high key ∧ ∃ replaced, ⟨.newOrderInsert key value, replaced⟩ ∈ done := by
  induction chronicle with
  | start => cases scanned
  | release earlier ih =>
      obtain ⟨met, replaced, entered⟩ := ih (by simpa using scanned)
      exact ⟨met, replaced, List.mem_append_left _ entered⟩
  | perform earlier logged allows relied answers ih =>
      rcases List.mem_append.mp scanned with before | new
      · obtain ⟨met, replaced, entered⟩ := ih before
        exact ⟨met, replaced, List.mem_append_left _ entered⟩
      · cases List.mem_singleton.mp new
        rw [show found = _ from answers] at member
        obtain ⟨entry, met⟩ := Index.mem_of_mem_range member
        obtain ⟨replaced, entered⟩ := earlier.entered entry
        exact ⟨met, replaced, List.mem_append_left _ entered⟩

/-- The order and the customer of an entry are there. -/
def Shared.Leads (shared : Shared A) (key : UInt64) : Prop :=
  ∃ w d o c, key = NewOrderTuple.makeKey w d o c ∧ Ledger.InRange w d c ∧ o.toNat < 2 ^ 16
    ∧ shared.Has .order (OrderTuple.makeKey w d c o)
    ∧ shared.Has .customer (CustomerTuple.makeKey w d c)

omit [Money A] in
theorem Shared.Leads.replay (leads : (Tpcc.replay done).Leads key) (more : List (Step A))
    : (Tpcc.replay (done ++ more)).Leads key := by
  obtain ⟨w, d, o, c, built, range, small, order, customer⟩ := leads
  exact ⟨w, d, o, c, built, range, small, order.replay more, customer.replay more⟩

/-- Every entry that a scan has found leads to its order and its customer. -/
def ScansLead (past : History A τ) : Prop :=
  ∀ low high length found, ⟨.newOrderRange low high length, found⟩ ∈ steps past
    → ∀ entry ∈ found, (replay (steps past)).Leads entry.1

/-- The customer of an order is there when the order is loaded. -/
def CustomersFirst (past : History A τ) : Prop :=
  ∀ before t row after, past = before ++ (t, .began (.loadOrder row)) :: after
    → (replay (steps before)).Has .customer (CustomerTuple.makeKey row.wId row.dId row.oCId)

omit [DecidableEq τ] in
theorem CustomersFirst.sooner {past before : History A τ} (customers : CustomersFirst past)
    (sooner : before <+: past)
    : CustomersFirst before := by
  obtain ⟨rest, rfl⟩ := sooner
  rintro first t row after rfl
  exact customers first t row (after ++ rest) (by simp)

/-- A lookup of `delivery` for an entry it has found misses. -/
def DeliveryInput.Misses (input : DeliveryInput) (log : List (Step A)) : Prop :=
  ∃ dId key earlier, dId.toNat < districtScale ∧ input.Scanned earlier dId key
    ∧ (⟨.get .order (input.orderKey dId key), none⟩ :: earlier <:+ log
      ∨ ⟨.get .customer (input.customerKey dId key), none⟩ :: earlier <:+ log)

end Scans

namespace Ledger

variable {config : DbConfig} {ledger : Ledger A τ} {past : History A τ} {t : τ}
  {log : List (Step A)} {key value : UInt64} {input : DeliveryInput} {deliveryTime : UInt64}

theorem Run.ran_began {txn : Transaction A} (run : Run config past ledger)
    (ran : ledger.Ran past t txn log)
    : (t, .began txn) ∈ past := by
  rcases ran with ⟨outcome, returned⟩ | ⟨activity, here, rfl, rfl⟩
  · exact (run.closed returned).began
  · exact run.began here

/-- A scan finds entries that are there. -/
theorem Moves.scanned {after : Ledger A τ} {low high : UInt64} {length : Nat}
    {found : List (UInt64 × UInt64)}
    (moves : ledger.Moves config t after (.did ⟨.newOrderRange low high length, found⟩))
    (member : (key, value) ∈ found)
    : ledger.shared.newOrder[key]? = some value := by
  cases moves with
  | did here calls answers =>
      rw [show found = _ from answers] at member
      exact (Index.mem_of_mem_range member).1

/-- An entry whose order is put into its index leads to the order and the customer. -/
theorem Run.leads (run : Run config past ledger) (once : LoadsOnce past) (small : SmallIds past)
    (customers : CustomersFirst past) (entry : ledger.shared.newOrder[key]? = some value)
    (settled : ∀ t activity, ledger.active t = some activity → unfiled key activity.log = false)
    : ledger.shared.Leads key := by
  obtain ⟨w, d, o, c, entryOf⟩ := run.entryOf entry
  obtain ⟨rid, record, found, _⟩ := (run.resolves_iff once small entryOf).mpr settled
  obtain ⟨t, txn, log, _, _, ran, _, numbers, rfl⟩ := entryOf.entered
  obtain ⟨chronicle, same⟩ := run.chronicle
  refine ⟨w, d, o, txn.cId, entryOf.built, run.numbers_inRange ran numbers,
    run.number_small small ran numbers, ⟨rid, found⟩, ?_⟩
  rw [same]
  cases numbers with
  | placed located =>
      obtain ⟨cRid, there⟩ := located.customer
      exact chronicle.found_has (run.ran_logged ran _ there)
  | loaded row =>
      obtain ⟨before, after, rfl⟩ := List.append_of_mem (run.ran_began ran)
      have has := customers before t row after rfl
      rw [steps, List.filterMap_append]
      exact has.replay _

/-- If every entry leads to its order and its customer, no lookup for one misses. -/
theorem Run.finds_all (run : Run config past ledger)
    (lead : ∀ before : History A τ, before <+: past → ScansLead before)
    (ran : ledger.Ran past t (.delivery input deliveryTime) log)
    : ¬input.Misses log := by
  have all := run.ran_induction
    (motive := fun txn log => txn = .delivery input deliveryTime → ¬input.Misses log) ?_ ?_ ?_ ran
  · exact all rfl
  · rintro txn _ ⟨dId, key, earlier, _, _, missing | missing⟩
    · simp at missing
    · simp at missing
  · rintro before present t activity op next answer reached sooner here calls answers ih isDelivery
      ⟨dId, key, earlier, district, scanned, missing⟩
    obtain ⟨chronicle, same⟩ := reached.chronicle
    -- the entry was found before, so its order and its customer are there now
    have there (inside : earlier = activity.log)
        : present.shared.Has .order (input.orderKey dId key)
          ∧ present.shared.Has .customer (input.customerKey dId key) := by
      obtain ⟨value, rest, found⟩ := scanned
      have did := reached.logged_steps here (inside ▸ found)
      obtain ⟨w, d, o, c, rfl, range, small, order, customer⟩ :=
        lead before sooner _ _ _ _ did _ List.mem_cons_self
      have met := (chronicle.scanned did List.mem_cons_self).1
      obtain ⟨orderKey, customerKey⟩ := DeliveryInput.keys_of_scan range small district met
      rw [same, orderKey, customerKey]
      exact ⟨order, customer⟩
    rcases missing with missing | missing
    · rcases List.suffix_cons_iff.mp missing with now | sooner
      · obtain ⟨now, inside⟩ := List.cons.inj now
        cases now
        obtain ⟨rid, found⟩ := (there inside).1
        exact absurd ((Eq.symm found).trans (Eq.symm answers)) (by simp)
      · exact ih isDelivery ⟨dId, key, earlier, district, scanned, .inl sooner⟩
    · rcases List.suffix_cons_iff.mp missing with now | sooner
      · obtain ⟨now, inside⟩ := List.cons.inj now
        cases now
        obtain ⟨rid, found⟩ := (there inside).2
        exact absurd ((Eq.symm found).trans (Eq.symm answers)) (by simp)
      · exact ih isDelivery ⟨dId, key, earlier, district, scanned, .inr sooner⟩
  · rintro txn log table rid kind ih isDelivery
      ⟨dId, key, earlier, district, scanned, missing | missing⟩
    · rcases List.suffix_cons_iff.mp missing with now | sooner
      · cases (List.cons.inj now).1
      · exact ih isDelivery ⟨dId, key, earlier, district, scanned, .inl sooner⟩
    · rcases List.suffix_cons_iff.mp missing with now | sooner
      · cases (List.cons.inj now).1
      · exact ih isDelivery ⟨dId, key, earlier, district, scanned, .inr sooner⟩

/-- The order that `delivery` finds for an entry is one of the customer of the entry. -/
theorem Run.no_mismatch (run : Run config past ledger) (small : SmallIds past)
    (logged : ∀ step ∈ log, step ∈ steps past)
    : ¬input.Mismatch log := by
  rintro ⟨dId, key, rid, oCId, district, ⟨value, rest, scanned⟩, found, seen, differs⟩
  obtain ⟨chronicle, same⟩ := run.chronicle
  obtain ⟨met, replaced, entered⟩ := chronicle.scanned (logged _ scanned) List.mem_cons_self
  obtain ⟨t, txn, theirs, ran, member⟩ := run.ran entered
  have files := (run.ran_obeyed ran).files member rfl
  cases files with
  | @entry w d o _ _ numbers =>
      have order := run.number_small small ran numbers
      have range := run.numbers_inRange ran numbers
      have within := range.within order
      obtain ⟨orderKey, _⟩ := DeliveryInput.keys_of_scan range order district met
      obtain ⟨original, inserted, keyed⟩ := chronicle.found (logged _ found)
      have kept : Table.order.Kept .oCId := trivial
      obtain ⟨original', inserted', read⟩ := chronicle.seen (by simp [deliveryOrderQuery])
        kept (by simp [Table.Written]) (logged _ seen)
      obtain rfl := chronicle.insert_unique inserted inserted'
      have sized := chronicle.sized inserted
      have ordered := run.order_small small inserted
      simp only [Table.Sized, warehouseBound, districtScale, customerScale] at sized
      rw [orderKey] at keyed
      obtain ⟨wide, inDistrict, _, customer, _⟩ := id within
      obtain ⟨_, _, sameC, _⟩ := NewOrderTuple.makeKey_inj (by omega) (by omega) (by omega)
        ordered wide inDistrict customer order keyed
      rw [NewOrderTuple.oCIdFromKey_makeKey within] at differs
      exact differs (read.symm.trans sameC)

end Ledger

/-! ### In the database -/

/-- The entries that an operation has found. -/
def DbEvent.scanned : DbEvent A → List (UInt64 × UInt64)
  | .did ⟨.newOrderRange _ _ _, found⟩ => found
  | _ => []

/-- No running transaction has entered an order under this key and has still to put it into its
index.
-/
def Db.Filed (db : Db A τ) (key : UInt64) : Prop :=
  ∀ t task, db.tasks t = some task → unfiled key task.log = false

/-- The index of the orders leads to a record with these ids. -/
def Db.Resolves (config : DbConfig) (db : Db A τ) (w d o c : UInt64) : Prop :=
  ∃ rid record, (db.shared.index .order)[OrderTuple.makeKey w d c o]? = some rid
    ∧ db.Shows config .order rid record
    ∧ record .oWId = w ∧ record .oDId = d ∧ record .oId = o ∧ record .oCId = c

section Database

variable {config : DbConfig} {storage : Table → Rid → Image Byte} {hand : Table → τ → Nat}
  {trace : List ((τ × DbMove A) × DbEvent A)} {db : Db A τ} {key value w d o c : UInt64}

omit [DecidableEq τ] in
theorem Db.filed_iff
    : db.Filed key
      ↔ ∀ t activity, db.ledger.active t = some activity → unfiled key activity.log = false := by
  constructor
  · intro filed t activity here
    obtain ⟨task, running, rfl⟩ := Option.map_eq_some_iff.mp here
    exact filed t task running
  · intro filed t task running
    exact filed t task.toActivity (congrArg (Option.map Task.toActivity) running)

theorem Db.Sound.resolves_iff (sound : db.Sound config)
    : db.Resolves config w d o c ↔ db.ledger.Resolves w d o c := by
  constructor
  · rintro ⟨rid, record, found, shows, ids⟩
    obtain ⟨row, here, same⟩ := sound.shows shows
    have same (name : Table.order.Name) : record name = row name := same name trivial
    rw [same, same, same, same] at ids
    exact ⟨rid, row, found, here, ids⟩
  · rintro ⟨rid, record, found, row, ids⟩
    exact ⟨rid, record, found, sound.shows_row row, ids⟩

/-- If scans meet filed entries only, all of them lead to their orders and customers. -/
theorem scans_lead (run : Run (dbStep config) (Db.empty storage hand) trace db)
    (once : LoadsOnce (history trace)) (small : SmallIds (history trace))
    (customers : CustomersFirst (history trace))
    (filed : Along (dbStep config) (Db.empty storage hand) trace
      (fun before _ event _ => ∀ entry ∈ event.scanned, before.Filed entry.1))
    : ScansLead (history trace) := by
  induction run with
  | start =>
      intro low high length found scanned
      cases scanned
  | @extend trace db action next event earlier taken ih =>
      have sooner : history trace <+: history (trace ++ [(action, event)]) := by
        rw [history, history, List.map_append]
        exact List.prefix_append _ _
      have onceBefore := once.sooner sooner
      have smallBefore := small.sooner sooner
      have customersBefore := customers.sooner sooner
      obtain ⟨before, now⟩ := (along_extend earlier taken).mp filed
      have lead := ih onceBefore smallBefore customersBefore before
      obtain ⟨sound, run⟩ := ledger_run earlier
      obtain ⟨_, same⟩ := run.chronicle
      have appended : steps (history (trace ++ [(action, event)]))
          = steps (history trace) ++ event.step?.toList := by
        rw [history, List.map_append]
        exact steps_append ..
      intro low high length found scanned
      rw [appended] at scanned ⊢
      rcases List.mem_append.mp scanned with old | new
      · exact fun entry member => (lead low high length found old entry member).replay _
      · cases event with
        | pending | began | returned => cases new
        | did step =>
            cases List.mem_singleton.mp new
            rintro ⟨key, value⟩ member
            have entry := (sound.step taken).1.scanned member
            refine Shared.Leads.replay ?_ _
            rw [← same]
            exact run.leads onceBefore smallBefore customersBefore entry
              (Db.filed_iff.mp (now (key, value) member))

/-- Every entry of the new-order index was built from the ids of an order. It is decoded to them iff
the order id has 16 bits. As long as all ids have, it leads to its order iff no running
transaction has still to put the order into its index; and if every scan meets such entries only,
no `delivery` fails because it does not find an order or finds that of another customer.
-/
theorem new_order_entries_resolve
    (run : Run (dbStep config) (Db.empty storage hand) trace db)
    : (∀ key value, db.shared.newOrder[key]? = some value
        → (∃ w d o c, db.ledger.EntryOf (history trace) key w d o c)
          ∧ ∀ w d o c, db.ledger.EntryOf (history trace) key w d o c
            → (NewOrderTuple.Decodes key w d o c ↔ o.toNat < 2 ^ 16)
              ∧ (LoadsOnce (history trace) → SmallIds (history trace)
                → (db.Resolves config w d o c ↔ db.Filed key)))
      ∧ (LoadsOnce (history trace) → SmallIds (history trace) → CustomersFirst (history trace)
        → Along (dbStep config) (Db.empty storage hand) trace
            (fun before _ event _ => ∀ entry ∈ event.scanned, before.Filed entry.1)
        → ∀ t input deliveryTime log outcome,
          (t, .returned (.delivery input deliveryTime) log outcome) ∈ history trace
          → outcome ≠ .error (.err .indexNotFound) ∧ outcome ≠ .error .panic) := by
  obtain ⟨sound, ledgerRun⟩ := ledger_run run
  refine ⟨?_, ?_⟩
  · intro key value there
    refine ⟨ledgerRun.entryOf there, fun w d o c entry => ⟨?_, fun once small => ?_⟩⟩
    · rw [entry.built]
      exact NewOrderTuple.decodes_iff (ledgerRun.entry_inRange entry)
    · rw [sound.resolves_iff, Db.filed_iff]
      exact ledgerRun.resolves_iff once small entry
  · intro once small customers filed t input deliveryTime log outcome returned
    have lead (before : History A τ) (sooner : before <+: history trace) : ScansLead before := by
      obtain ⟨first, part, rfl⟩ := List.prefix_map_iff.mp sooner
      obtain ⟨rest, rfl⟩ := part
      obtain ⟨middle, reached, _⟩ := run.split
      exact scans_lead reached (once.sooner sooner) (small.sooner sooner) (customers.sooner sooner)
        (along_left filed)
    have closed := ledgerRun.closed returned
    have found := ledgerRun.finds_all lead (.inl ⟨outcome, returned⟩)
    have logged : ∀ step ∈ log, step ∈ steps (history trace) :=
      ledgerRun.ran_logged (.inl ⟨outcome, returned⟩)
    have ends : input.Ends deliveryTime log outcome := closed.ends
    cases ends with
    | delivered => exact ⟨by simp, by simp⟩
    | broken rounds key removed more changed inner breaks =>
        cases breaks with
        | order district scanned missing =>
            exact absurd ⟨_, _, _, district, scanned, .inl missing⟩ found
        | customer district scanned missing =>
            exact absurd ⟨_, _, _, district, scanned, .inr missing⟩ found
        | busy refused busy =>
            refine ⟨?_, by simp⟩
            rintro ⟨⟩
            exact busy
        | mismatch mismatch => exact absurd mismatch (ledgerRun.no_mismatch small logged)

end Database

/-- No order is loaded. -/
def loadsNoOrder (past : History A τ) : Bool :=
  past.all (fun entry => entry.2.loads.all (fun row => row.1 ≠ .order))

omit [DecidableEq τ] in
theorem customersFirst_of_loadsNoOrder {past : History A τ} (none : loadsNoOrder past = true)
    : CustomersFirst past := by
  rintro before t row after rfl
  have loads := List.all_eq_true.mp none (t, .began (.loadOrder row)) (by simp)
  simp [DbEvent.loads, Transaction.loads] at loads

/-- What a scan of a single task meets is filed. -/
def meetsFiled (config : DbConfig) (db : Db A Unit) (action : Unit × DbMove A) : Bool :=
  (dbStep config db action).all (fun moved => moved.2.scanned.all (fun entry =>
    (db.tasks ()).all (fun task => !unfiled entry.1 task.log)))

theorem filed_of_meetsFiled {config : DbConfig} {db next : Db A Unit} {action : Unit × DbMove A}
    {event : DbEvent A} (meets : meetsFiled config db action = true)
    (taken : dbStep config db action = some (next, event))
    : ∀ entry ∈ event.scanned, db.Filed entry.1 := by
  rintro entry member ⟨⟩ task running
  rw [meetsFiled, taken, Option.all_some] at meets
  have filed := List.all_eq_true.mp meets entry member
  rw [running, Option.all_some] at filed
  simpa using filed

def firstDelivery : DeliveryInput where
  wId := 0
  oCarrierId := 7

/-- An order is placed and delivered, and another one is placed. -/
theorem new_order_entries_resolve_two_orders
    : ∃ (trace : List ((Unit × DbMove UInt64) × DbEvent UInt64)) (db : Db UInt64 Unit)
        (w d o c : UInt64),
        Run (dbStep (.wholeTuples false)) (Db.empty (fun _ _ _ => 0) (fun _ _ => 0)) trace db
        ∧ db.ledger.EntryOf (history trace) (NewOrderTuple.makeKey 0 0 3002 0) w d o c
        ∧ NewOrderTuple.Decodes (NewOrderTuple.makeKey 0 0 3002 0) w d o c
        ∧ db.Resolves (.wholeTuples false) w d o c
        ∧ ∀ t input deliveryTime log outcome,
          (t, .returned (.delivery input deliveryTime) log outcome) ∈ history trace
          → outcome ≠ .error (.err .indexNotFound) ∧ outcome ≠ .error .panic := by
  obtain ⟨trace, db, run, passed⟩ := play_reaches
    (runs () (placeFirst ++ [.delivery firstDelivery 100, .newOrder firstNewOrder]))
    (fun result => (result.1.tasks ()).isNone && decide (LoadsOnce (history result.2))
      && smallIds (history result.2) && loadsNoOrder (history result.2)
      && passes (dbStep (.wholeTuples false)) (meetsFiled (.wholeTuples false))
        (Db.empty (fun _ _ _ => 0) (fun _ _ => 0)) (result.2.map Prod.fst)
      && result.1.shared.newOrder[NewOrderTuple.makeKey 0 0 3002 0]?.isSome)
    (by decide +kernel)
  simp only [Bool.and_eq_true, Option.isNone_iff_eq_none, decide_eq_true_eq,
    Option.isSome_iff_exists] at passed
  obtain ⟨⟨⟨⟨⟨done, once⟩, few⟩, noOrder⟩, checked⟩, value, there⟩ := passed
  have meets := exec_along run.exec checked
  have small := smallIds_sound few
  obtain ⟨entries, deliveries⟩ := new_order_entries_resolve run
  obtain ⟨⟨w, d, o, c, entry⟩, known⟩ := entries _ value there
  obtain ⟨_, _, _, _, _, ran, _, numbers, _⟩ := entry.entered
  obtain ⟨decodes, resolves⟩ := known w d o c entry
  refine ⟨trace, db, w, d, o, c, run, entry, ?_, ?_, ?_⟩
  · exact decodes.mpr ((ledger_run run).2.number_small small ran numbers)
  · refine (resolves once small).mpr ?_
    rintro ⟨⟩ task running
    rw [done] at running
    cases running
  · refine deliveries once small (customersFirst_of_loadsNoOrder noOrder) ?_
    intro before action event after state next split reached taken
    exact filed_of_meetsFiled (meets before action event after state next split reached taken) taken

/-- A delivery did not find what it looked up. -/
def DbEvent.missed : DbEvent A → Bool
  | .returned (.delivery _ _) _ (.error (.err .indexNotFound)) => true
  | _ => false

/-- While one task is between the entry and the order of a `new_order`, another one delivers: the
entry does not lead to an order, and `delivery` returns `IndexNotFound`.
-/
theorem entry_before_order
    : ∃ (trace rest : List ((Bool × DbMove UInt64) × DbEvent UInt64)) (db last : Db UInt64 Bool),
        Run (dbStep (.wholeTuples false)) (Db.empty (fun _ _ _ => 0) (fun _ _ => 0)) trace db
        ∧ Run (dbStep (.wholeTuples false)) db rest last
        ∧ LoadsOnce (history (trace ++ rest)) ∧ SmallIds (history (trace ++ rest))
        ∧ CustomersFirst (history (trace ++ rest))
        ∧ db.shared.newOrder[NewOrderTuple.makeKey 0 0 3001 0]?.isSome
        ∧ ¬db.Resolves (.wholeTuples false) 0 0 3001 0
        ∧ ∃ entry ∈ history rest, entry.2.missed = true := by
  obtain ⟨trace, db, run, passed⟩ := play_reaches
    (runs false (loadRows firstItems) ++ begins false (.newOrder firstNewOrder) 92)
    (fun result => result.1.shared.newOrder[NewOrderTuple.makeKey 0 0 3001 0]?.isSome
      && (result.1.shared.index .order)[OrderTuple.makeKey 0 0 0 3001]?.isNone
      && (result.1.play (runs true [.delivery firstDelivery 100])).any (fun later =>
        (history later.2).any (fun entry => entry.2.missed)
        && decide (LoadsOnce (history (result.2 ++ later.2)))
        && smallIds (history (result.2 ++ later.2))
        && loadsNoOrder (history (result.2 ++ later.2))))
    (by decide +kernel)
  simp only [Bool.and_eq_true, Option.isNone_iff_eq_none] at passed
  obtain ⟨⟨there, missing⟩, later⟩ := passed
  obtain ⟨rest, last, went, passed⟩ := Db.play_reaches _ later
  simp only [Bool.and_eq_true, decide_eq_true_eq, List.any_eq_true] at passed
  obtain ⟨⟨⟨missed, once⟩, few⟩, noOrder⟩ := passed
  refine ⟨trace, rest, db, last, run, went, once, smallIds_sound few,
    customersFirst_of_loadsNoOrder noOrder, there, ?_, missed⟩
  rintro ⟨rid, _, found, _⟩
  rw [missing] at found
  cases found

end Alchemy.Tpcc
