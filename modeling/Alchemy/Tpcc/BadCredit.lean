import Alchemy.Tpcc.Accounts
import Alchemy.Tpcc.Refinement

/-! The history of a customer with bad credit. Every payment puts 48 bytes in front of `c_data`
and drops the last ones, under the write lock on the row, so `c_data` is a shift register. The
bytes are the first ones of a history tuple, which begins with other fields than the record of
a payment should.
-/

namespace Alchemy.Tpcc

open ByteImage Cache Oid Interaction

variable {A τ : Type} [Money A]

/-! ### Shift registers -/

/-- What a register of this size holds: the records, newest first, before what it held first. -/
def register {β : Type} (size : Nat) (records : List (List β)) (original : List β) : List β :=
  (records.flatten ++ original).take size

section Register

variable {β ι : Type} {size width : Nat} {records : List (List β)} {original : List β}

theorem register_nil (sized : original.length = size) : register size [] original = original := by
  rw [register, List.flatten_nil, List.nil_append, ← sized, List.take_length]

/-- A new record goes in front, and the oldest bytes are lost. -/
theorem register_cons {record : List β}
    : register size (record :: records) original
      = record.take size ++ (register size records original).take (size - record.length) := by
  rw [register, register, List.flatten_cons, List.append_assoc, List.take_append, List.take_take,
    Nat.min_eq_left (Nat.sub_le ..)]

theorem take_register_singleton {record : List β} (sized : record.length = width)
    (fits : width ≤ size)
    : (register size [record] original).take width = record := by
  rw [register, List.flatten_singleton, List.take_take, Nat.min_eq_left fits,
    List.take_left' sized]

/-- Two registers agree iff their records do, as far as they are still held. -/
theorem register_eq_iff {entries : List ι} {left right : ι → List β}
    (leftWidth : ∀ entry, (left entry).length = width)
    (rightWidth : ∀ entry, (right entry).length = width)
    : register size (entries.map left) original = register size (entries.map right) original
      ↔ ∀ place entry, entries[place]? = some entry
        → (left entry).take (size - width * place) = (right entry).take (size - width * place) := by
  induction entries generalizing size with
  | nil => simp
  | cons entry rest ih =>
      have shorter (side : ι → List β) (sideWidth : (side entry).length = width)
          : register size ((entry :: rest).map side) original
            = (side entry).take size ++ register (size - width) (rest.map side) original := by
        rw [register, List.map_cons, List.flatten_cons, List.append_assoc, List.take_append,
          sideWidth, register]
      have heads : ((left entry).take size).length = ((right entry).take size).length := by
        rw [List.length_take, List.length_take, leftWidth, rightWidth]
      rw [shorter left (leftWidth entry), shorter right (rightWidth entry)]
      have later (place : Nat) : size - width - width * place = size - width * (place + 1) := by
        rw [Nat.mul_succ]
        omega
      constructor
      · intro same place other here
        obtain ⟨first, others⟩ := List.append_inj same heads
        cases place with
        | zero =>
            cases here
            exact first
        | succ place =>
            rw [← later]
            exact ih.mp others place other here
      · intro all
        have first := all 0 entry rfl
        rw [Nat.mul_zero, Nat.sub_zero] at first
        rw [first]
        refine congrArg (_ ++ ·) (ih.mpr (fun place other here => ?_))
        rw [later]
        exact all (place + 1) other here

end Register

/-! ### The bytes of a payment -/

/-- A payment that has stored to `c_data`, with the names it has read. -/
structure DataStore (A : Type) where
  input : PaymentInput A
  wName : FixedString 10
  dName : FixedString 10

/-- The record of a payment to a customer: `c_id`, `c_d_id`, `c_w_id`, `d_id`, `w_id` and
`h_amount`.
-/
def PaymentInput.specified (customer : Table.customer.Record A) (input : PaymentInput A)
    : List Byte :=
  LittleEndian.encode 8 (customer .cId : UInt64).toNat
    ++ LittleEndian.encode 8 (customer .cDId : UInt64).toNat
    ++ LittleEndian.encode 8 (customer .cWId : UInt64).toNat
    ++ LittleEndian.encode 8 input.dId.toNat
    ++ LittleEndian.encode 8 input.wId.toNat
    ++ Money.encode input.hAmount

namespace DataStore

/-- What is put in front of `c_data`: four ids and the first 16 bytes of `h_data`. -/
def record (store : DataStore A) : List Byte :=
  LittleEndian.encode 8 store.input.cQuery.historyId.toNat
    ++ LittleEndian.encode 8 store.input.dId.toNat
    ++ LittleEndian.encode 8 store.input.wId.toNat
    ++ LittleEndian.encode 8 store.input.dId.toNat
    ++ (store.wName.data ++ List.replicate 4 0 ++ store.dName.data.take 2)

/-- The names were read from the payment's own warehouse and district. -/
def Named (store : DataStore A) (done : List (Step A)) : Prop :=
  store.input.Named done store.wName store.dName

end DataStore

theorem PaymentInput.length_specified (customer : Table.customer.Record A) (input : PaymentInput A)
    : (input.specified customer).length = shiftAmount := by
  simp [specified, Money.length_encode, shiftAmount]

omit [Money A] in
theorem DataStore.length_record (store : DataStore A) : store.record.length = shiftAmount := by
  simp [record, store.wName.sized, store.dName.sized, shiftAmount]

/-- The first bytes of a history tuple. -/
theorem PaymentInput.shiftData_data (input : PaymentInput A) (wName dName : FixedString 10)
    (cData : FixedString cDataSize)
    : (input.shiftData wName dName cData).data
      = DataStore.record ⟨input, wName, dName⟩ ++ cData.data.take (cDataSize - shiftAmount) := by
  let tuple := Tpcc.historyTuple.image HistoryField.order (input.historyTuple wName dName)
  have fields (name : HistoryField)
      : ByteImage.read tuple (Tpcc.historyTuple.span name)
        = name.type.encode (input.historyTuple wName dName name) :=
    Tpcc.historyTuple.read_image _ (by decide) (by cases name <;> decide)
  have names : ByteImage.read tuple ⟨32, 16⟩
      = wName.data ++ List.replicate 4 0 ++ dName.data.take 2 := by
    have whole : ByteImage.read tuple ⟨32, 16 + 8⟩
        = wName.data ++ List.replicate 4 0 ++ dName.data ++ List.replicate 0 0 :=
      fields .hData
    rw [ByteImage.read_append, List.replicate_zero, List.append_nil] at whole
    have front := congrArg (List.take 16) whole
    rwa [List.take_left' (by simp [ByteImage.read]), List.take_append,
      List.take_of_length_le (by simp [wName.sized]), List.length_append, wName.sized] at front
  have split : ByteImage.read tuple ⟨0, shiftAmount⟩
      = ByteImage.read tuple ⟨0, 8⟩ ++ ByteImage.read tuple ⟨8, 8⟩ ++ ByteImage.read tuple ⟨16, 8⟩
        ++ ByteImage.read tuple ⟨24, 8⟩ ++ ByteImage.read tuple ⟨32, 16⟩ := by
    rw [← ByteImage.read_append, ← ByteImage.read_append, ← ByteImage.read_append,
      ← ByteImage.read_append]
    rfl
  have customer : ByteImage.read tuple ⟨0, 8⟩
      = LittleEndian.encode 8 input.cQuery.historyId.toNat :=
    fields .hCId
  have district : ByteImage.read tuple ⟨8, 8⟩ = LittleEndian.encode 8 input.dId.toUInt64.toNat :=
    fields .hCDId
  have warehouse : ByteImage.read tuple ⟨16, 8⟩ = LittleEndian.encode 8 input.wId.toUInt64.toNat :=
    fields .hCWId
  have again : ByteImage.read tuple ⟨24, 8⟩ = LittleEndian.encode 8 input.dId.toUInt64.toNat :=
    fields .hDId
  refine congrArg (· ++ _) (split.trans ?_)
  rw [customer, district, warehouse, again, names, UInt32.toNat_toUInt64, UInt32.toNat_toUInt64]
  rfl

/-! ### The payments of a run -/

/-- The event stores to `c_data` of this customer. -/
def DbEvent.storesData (rid : Rid) : DbEvent A → Bool
  | .did ⟨.getValueMut .customer target _ .cData _, _⟩ => target = rid
  | _ => false

section Payments

variable [DecidableEq τ]

/-- The transaction that the task began last; newest events first. -/
def begunBy (t : τ) : List (τ × DbEvent A) → Option (Transaction A)
  | [] => none
  | (other, .began txn) :: earlier => if other = t then some txn else begunBy t earlier
  | _ :: earlier => begunBy t earlier

/-- The payments that have stored to `c_data` of this customer; newest events first. -/
def dataPayments (rid : Rid) : List (τ × DbEvent A) → List (PaymentInput A)
  | [] => []
  | (t, event) :: earlier =>
      match event.storesData rid, begunBy t earlier with
      | true, some (.payment input) => input :: dataPayments rid earlier
      | _, _ => dataPayments rid earlier

/-- The payments that have stored to `c_data` of this customer, newest first. -/
def paymentsTo (rid : Rid) (past : History A τ) : List (PaymentInput A) :=
  dataPayments rid past.reverse

variable {config : DbConfig} {ledger : Ledger A τ} {past : History A τ} {t : τ} {rid : Rid}
  {event : DbEvent A}

theorem paymentsTo_other (other : event.storesData rid = false)
    : paymentsTo rid (past ++ [(t, event)]) = paymentsTo rid past := by
  rw [paymentsTo, List.reverse_append, List.reverse_singleton, List.singleton_append, dataPayments,
    other]
  rfl

theorem paymentsTo_store {input : PaymentInput A} (stores : event.storesData rid = true)
    (begun : begunBy t past.reverse = some (.payment input))
    : paymentsTo rid (past ++ [(t, event)]) = input :: paymentsTo rid past := by
  rw [paymentsTo, List.reverse_append, List.reverse_singleton, List.singleton_append, dataPayments,
    stores, begun]
  rfl

/-- A running transaction is the one its task began last. -/
theorem Ledger.Run.begunBy {activity : Activity A} (run : Run config past ledger)
    (here : ledger.active t = some activity)
    : begunBy t past.reverse = some activity.txn := by
  induction run generalizing t activity with
  | start => cases here
  | @extend past ledger mover next event earlier moves ih =>
      rw [List.reverse_append, List.reverse_singleton, List.singleton_append]
      cases moves.comes here with
      | stays here resting =>
          have before := ih here
          cases moves with
          | begin => exact (if_neg (fun own => by cases resting own)).trans before
          | _ => exact before
      | begins => exact if_pos rfl
      | did active | release active =>
          have begun := ih active
          exact begun

end Payments

/-! ### One store -/

/-- A store to `c_data` shifts what was loaded before. -/
structure DataStore.Shifts (store : DataStore A) (log : List (Step A)) (rid : Rid)
    (query : List Table.customer.Name) (value cData : FixedString cDataSize)
    (earlier : List (Step A))
    : Prop where
  query_eq : query = [.cData]
  loaded : log = ⟨.getValue .customer rid query .cData, some cData⟩ :: earlier
  stored : value = store.input.shiftData store.wName store.dName cData
  bad : PaymentInput.BadCredit earlier rid
  named : store.Named earlier

theorem Transaction.Allows.shifts {txn : Transaction A} {log : List (Step A)} {rid : Rid}
    {query : List Table.customer.Name} {value : FixedString cDataSize}
    (allows : txn.Allows log (.getValueMut .customer rid query .cData value))
    : ∃ (store : DataStore A) (cData : FixedString cDataSize) (earlier : List (Step A)),
        txn = .payment store.input ∧ store.Shifts log rid query value cData earlier := by
  rcases allows.stores with ⟨input, _, allows⟩ | ⟨input, same, allows⟩ | ⟨input, _, _, allows⟩
  · cases allows with
    | reads reads => cases reads
  · cases allows with
    | reads reads => cases reads
    | @cData earlier _ wName dName cData bad named =>
        exact ⟨⟨input, wName, dName⟩, cData, earlier, same, rfl, rfl, rfl, bad, named⟩
  · cases allows with
    | reads reads => cases reads

/-- The value that was loaded is the one in the row. -/
theorem DataStore.Shifts.current {config : DbConfig} {store : DataStore A} {log : List (Step A)}
    {rid : Rid} {query : List Table.customer.Name} {value cData : FixedString cDataSize}
    {earlier : List (Step A)} {shared : Shared A} {answer : Option (FixedString cDataSize)}
    {record : Table.customer.Record A}
    (shifts : store.Shifts log rid query value cData earlier)
    (relied : Rely log (.getValueMut .customer rid query .cData value) answer)
    (answers : shared.Answers config (.getValueMut .customer rid query .cData value) answer)
    (row : shared.rows .customer rid = some record)
    : cData = record .cData := by
  have asked : .cData ∈ query := by simp [shifts.query_eq]
  have kept : Table.customer.Kept .cData := by simp [Table.Kept]
  have overwritten := relied asked kept cData earlier shifts.loaded
  obtain ⟨present, here, reads⟩ := answers
  obtain ⟨found, same, current⟩ := reads.1 asked
  obtain rfl := Option.some.inj (here.symm.trans row)
  obtain rfl := Option.some.inj (overwritten.symm.trans same)
  exact current kept

/-- Stores to other fields are no stores to `c_data`. -/
theorem DbEvent.storesData_of_ne {rid target : Rid} {query : List Table.customer.Name}
    {name : Table.customer.Name} {value : (Table.customer.type name).Value A}
    {answer : Option ((Table.customer.type name).Value A)} (different : name ≠ .cData)
    : DbEvent.storesData rid (.did ⟨.getValueMut .customer target query name value, answer⟩)
      = false := by
  cases name <;> first | rfl | exact absurd rfl different

theorem DbEvent.exists_of_storesData {rid : Rid} {step : Step A}
    (stores : DbEvent.storesData rid (.did step) = true)
    : ∃ query value answer, step = ⟨.getValueMut .customer rid query .cData value, answer⟩ := by
  unfold DbEvent.storesData at stores
  split at stores
  · next same =>
      cases same
      obtain rfl := of_decide_eq_true stores
      exact ⟨_, _, _, rfl⟩
  · cases stores

omit [Money A] in
/-- Rows are not removed. -/
theorem Shared.rows_of_after {shared : Shared A} {step : Step A} {table : Table} {rid : Rid}
    (absent : (shared.after step).rows table rid = none)
    : shared.rows table rid = none := by
  by_cases touches : touched step = some (table, rid)
  · obtain ⟨op, answer⟩ := step
    cases op with
    | insert target record =>
        cases touches
        rw [Shared.after, setRow_rows] at absent
        cases absent
    | getValueMut target written query name value =>
        cases touches
        rw [Shared.after, setRow_rows] at absent
        exact Option.map_eq_none_iff.mp absent
    | _ => cases touches
  · exact (Shared.after_rows touches).symm.trans absent

/-! ### The register -/

section Runs

variable [DecidableEq τ] {config : DbConfig} {ledger : Ledger A τ} {past : History A τ} {rid : Rid}

/-- `c_data` holds the bytes of these payments, newest first, and those it was loaded with. -/
structure DataStored (past : History A τ) (rid : Rid) (original : Table.customer.Record A)
    (stores : List (DataStore A)) (cData : FixedString cDataSize)
    : Prop where
  inserted : ⟨.insert .customer original, rid⟩ ∈ steps past
  payments : stores.map DataStore.input = paymentsTo rid past
  named : ∀ store ∈ stores, store.Named (steps past)
  holds : cData.data
    = register cDataSize (stores.map DataStore.record) (original .cData : FixedString _).data

section OneStep

variable {t : τ} {event : DbEvent A} {original : Table.customer.Record A}
  {stores : List (DataStore A)} {cData : FixedString cDataSize}

omit [DecidableEq τ] in
theorem steps_kept (past : History A τ) (t : τ) (event : DbEvent A)
    : ∀ step ∈ steps past, step ∈ steps (past ++ [(t, event)]) := by
  intro step member
  rw [steps_append]
  exact List.mem_append_left _ member

theorem DataStored.other (stored : DataStored past rid original stores cData)
    (other : event.storesData rid = false)
    : DataStored (past ++ [(t, event)]) rid original stores cData where
  inserted := steps_kept past t event _ stored.inserted
  payments := stored.payments.trans (paymentsTo_other other).symm
  named := fun store member => PaymentInput.Named.mono (stored.named store member) (steps_kept past t event)
  holds := stored.holds

theorem DataStored.store {store : DataStore A} (stored : DataStored past rid original stores cData)
    (begun : begunBy t past.reverse = some (.payment store.input))
    (shifts : event.storesData rid = true) (named : store.Named (steps past))
    : DataStored (past ++ [(t, event)]) rid original (store :: stores)
        (store.input.shiftData store.wName store.dName cData) where
  inserted := steps_kept past t event _ stored.inserted
  payments := by
    rw [List.map_cons, paymentsTo_store shifts begun, stored.payments]
  named := by
    intro other member
    rcases List.mem_cons.mp member with rfl | before
    · exact PaymentInput.Named.mono named (steps_kept past t event)
    · exact PaymentInput.Named.mono (stored.named other before) (steps_kept past t event)
  holds := by
    have fits : store.record.length ≤ cDataSize := by
      rw [store.length_record]
      decide
    rw [List.map_cons, register_cons, ← stored.holds, PaymentInput.shiftData_data,
      List.take_of_length_le fits, store.length_record]

end OneStep

/-- Nobody has paid to a row that is not there. -/
theorem Ledger.Run.paymentsTo_absent (run : Run config past ledger)
    (absent : ledger.shared.rows .customer rid = none)
    : paymentsTo rid past = [] := by
  induction run with
  | start => rfl
  | @extend past ledger mover next event earlier moves ih =>
      cases moves with
      | rest | begin | finish | release => exact (paymentsTo_other rfl).trans (ih absent)
      | @did activity op onward answer here calls answers =>
          have before : ledger.shared.rows .customer rid = none := Shared.rows_of_after absent
          refine (paymentsTo_other (Bool.eq_false_iff.mpr (fun stores => ?_))).trans (ih before)
          obtain ⟨query, value, _, same⟩ := DbEvent.exists_of_storesData stores
          cases same
          obtain ⟨record, row, _⟩ := answers.2
          cases row.symm.trans before

/-- By induction on the run: a row begins with the data it is inserted with, and a store to
`c_data` shifts the data of the row.
-/
theorem Ledger.Run.dataStored {record : Table.customer.Record A} (run : Run config past ledger)
    (row : ledger.shared.rows .customer rid = some record)
    : ∃ original stores, DataStored past rid original stores (record .cData) := by
  induction run generalizing record with
  | start => cases row
  | @extend past ledger mover next event earlier moves ih =>
      cases moves with
      | rest | begin | finish | release =>
          obtain ⟨original, stores, stored⟩ := ih row
          exact ⟨original, stores, stored.other rfl⟩
      | @did activity op onward answer here calls answers =>
          rcases Shared.after_row row with ⟨apart, same⟩ | inserted | ⟨query, name, value, old,
            before, written, found, rfl⟩
          · obtain ⟨original, stores, stored⟩ := ih same
            refine ⟨original, stores, stored.other (Bool.eq_false_iff.mpr (fun stores => ?_))⟩
            obtain ⟨query, value, _, step⟩ := DbEvent.exists_of_storesData stores
            exact apart (by rw [step]; rfl)
          · cases inserted
            refine ⟨record, [], ?_, ?_, (fun store member => by cases member), ?_⟩
            · rw [steps_append]
              exact List.mem_append_right _ List.mem_cons_self
            · rw [paymentsTo_other rfl, earlier.paymentsTo_absent answers.2, List.map_nil]
            · exact (register_nil (FixedString.sized _)).symm
          · cases written
            obtain ⟨original, stores, stored⟩ := ih found
            by_cases data : name = .cData
            · subst data
              obtain ⟨store, cData, log, isPayment, shifts⟩ := (earlier.allows here calls).shifts
              have begun := earlier.begunBy here
              rw [isPayment] at begun
              have current := shifts.current (earlier.lastRead.rely here answers) answers.shared
                found
              rw [Function.update_self, shifts.stored, current]
              have shifted : DbEvent.storesData rid
                  (.did ⟨.getValueMut .customer rid query .cData value, old⟩) = true :=
                decide_eq_true rfl
              refine ⟨original, store :: stores, stored.store begun shifted ?_⟩
              refine PaymentInput.Named.mono shifts.named (fun step member => earlier.logged_steps here ?_)
              rw [shifts.loaded]
              exact List.mem_cons_of_mem _ member
            · rw [Function.update_of_ne (Ne.symm data)]
              exact ⟨original, stores, stored.other (DbEvent.storesData_of_ne data)⟩

/-- The log has a store to the balance of this customer. -/
def PaidTo (rid : Rid) (log : List (Step A)) : Prop :=
  ∃ query value old, ⟨.getValueMut .customer rid query .cBalance value, old⟩ ∈ log

/-- How often `c_data` of this customer was stored to. -/
def dataStores (rid : Rid) (log : List (Step A)) : Nat :=
  log.countP (fun step => DbEvent.storesData rid (.did step))

theorem dataStores_changes (log : List (Step A))
    : dataStores rid (changes log) = dataStores rid log := by
  rw [dataStores, dataStores, changes, List.countP_reverse, List.countP_filter]
  refine List.countP_congr (fun step _ => ?_)
  rw [Bool.and_eq_true, and_iff_left_iff_imp]
  intro stores
  obtain ⟨query, value, _, rfl⟩ := DbEvent.exists_of_storesData stores
  rfl

/-- A payment to a customer with bad credit that returned well has stored to `c_data` once. -/
theorem Ledger.Run.dataStores_eq_one {t : τ} {input : PaymentInput A} {log : List (Step A)}
    {original : Table.customer.Record A} (run : Run config past ledger)
    (returned : (t, .returned (.payment input) log (.ok ())) ∈ past) (paid : PaidTo rid log)
    (inserted : ⟨.insert .customer original, rid⟩ ∈ steps past)
    (bad : (original .cCredit : FixedString 2).data = textBC)
    : dataStores rid log = 1 := by
  have closed := run.closed returned
  obtain ⟨query, value, old, stored⟩ := paid
  have change := mem_changes.mpr ⟨stored, rfl⟩
  have ends : input.Ends log (.ok ()) := closed.ends
  rw [← dataStores_changes]
  cases ends with
  | noCustomer taken refused changed =>
      rw [changed] at change
      simp [PaymentInput.takenSteps, PaymentInput.wYtdStep, PaymentInput.dYtdStep] at change
  | @paid taken writes cMiddle cDiscount cCredit cData refused changed credit data checks passes =>
      rw [changed] at change ⊢
      have customer : writes.cRid = rid := by
        cases data <;>
          simp [PaymentInput.takenSteps, PaymentInput.wYtdStep, PaymentInput.dYtdStep,
            PaymentInput.customerSteps, PaymentInput.cDataStep] at change
        all_goals exact change.1.1.symm
      subst customer
      obtain ⟨chronicle, _⟩ := run.chronicle
      have seen : ⟨.getValue .customer writes.cRid paymentCustomerQuery .cCredit, some cCredit⟩
          ∈ steps past :=
        List.mem_filterMap.mpr ⟨_, closed.logged _ credit, rfl⟩
      obtain ⟨loaded, inserted', same⟩ := chronicle.seen (by simp [paymentCustomerQuery])
        (by simp [Table.Kept]) (by simp [Table.Written]) seen
      rw [chronicle.insert_unique inserted inserted', same] at bad
      cases data with
      | good good => exact absurd bad good
      | bad _ wName dName loadedData =>
          rw [dataStores, PaymentInput.customerSteps, PaymentInput.cDataStep]
          simp [DbEvent.storesData, PaymentInput.takenSteps, PaymentInput.wYtdStep,
            PaymentInput.dYtdStep]

/-- `c_data` of a customer holds the bytes of the payments that stored to it, newest first, before
the data it was loaded with; through the caches as well. They are the records of the payments iff
the 48 bytes of every payment, as far as they are still held, are its record. A payment to a
customer with bad credit that returned well is one of these.
-/
theorem cData_register_iff {storage : Table → Rid → Image Byte} {hand : Table → τ → Nat}
    {trace : List ((τ × DbMove A) × DbEvent A)} {db : Db A τ}
    {record original : Table.customer.Record A}
    (run : Interleaving.Run (dbStep config) (Db.empty storage hand) trace db)
    (shows : db.Shows config .customer rid record)
    (inserted : ⟨.insert .customer original, rid⟩ ∈ steps (history trace))
    : ∃ stores : List (DataStore A),
        stores.map DataStore.input = paymentsTo rid (history trace)
        ∧ (∀ store ∈ stores, store.Named (steps (history trace)))
        ∧ (record .cData : FixedString cDataSize).data
          = register cDataSize (stores.map DataStore.record)
              (original .cData : FixedString cDataSize).data
        ∧ ((record .cData : FixedString cDataSize).data
            = register cDataSize
                ((paymentsTo rid (history trace)).map (PaymentInput.specified original))
                (original .cData : FixedString cDataSize).data
          ↔ ∀ (place : Nat) (store : DataStore A), stores[place]? = some store
              → store.record.take (cDataSize - shiftAmount * place)
                = (store.input.specified original).take (cDataSize - shiftAmount * place))
        ∧ ((original .cCredit : FixedString 2).data = textBC
          → ∀ t input log, (t, .returned (.payment input) log (.ok ())) ∈ history trace
            → PaidTo rid log → dataStores rid log = 1) := by
  obtain ⟨sound, ledgerRun⟩ := ledger_run run
  obtain ⟨row, here, same⟩ := sound.shows shows
  have data : record .cData = row .cData := same .cData (by simp [Table.Kept])
  obtain ⟨loaded, stores, stored⟩ := ledgerRun.dataStored here
  obtain rfl := ledgerRun.chronicle.1.insert_unique inserted stored.inserted
  refine ⟨stores, stored.payments, stored.named, data ▸ stored.holds, ?_, ?_⟩
  · rw [data, stored.holds, ← stored.payments, List.map_map]
    exact register_eq_iff DataStore.length_record (fun store => store.input.length_specified _)
  · intro bad t input log returned paid
    exact ledgerRun.dataStores_eq_one returned paid inserted bad

end Runs

/-- A customer with bad credit. -/
def badCreditCustomer : CustomerRow UInt64 :=
  { firstCustomer with
    record := Function.update firstCustomer.record .cCredit (⟨textBC, by decide⟩ : FixedString 2)
    cId := by decide
    cDId := by decide
    cWId := by decide
    cMiddle := rfl
    cCreditLim := rfl
    cBalance := rfl
    cYtdPayment := rfl
    cPaymentCnt := rfl
    cDeliveryCnt := rfl }

/-- A warehouse whose name ends in the low bytes of the number seven. -/
def sevenWarehouse : WarehouseRow UInt64 :=
  { firstWarehouse with
    record := Function.update firstWarehouse.record .wName
      (⟨List.replicate 8 0 ++ [7, 0], by decide⟩ : FixedString 10)
    wId := by decide
    wYtd := rfl }

/-- A payment to a customer with bad credit. -/
def payBadCredit (warehouse : WarehouseRow UInt64) (hAmount : UInt64) : Script UInt64 Unit :=
  runs () [.loadWarehouse warehouse, .loadDistrict firstDistrict, .loadCustomer badCreditCustomer,
    .payment (firstPayment hAmount)]

/-- After the payment: the row of the customer, the record it should hold first, and whether it
does.
-/
def paidRow (test : List (List Byte) → List Byte → Bool)
    (result : Db UInt64 Unit × List ((Unit × DbMove UInt64) × DbEvent UInt64))
    : Bool :=
  (result.1.shared.rows .customer 0).any (fun record =>
    (record .cCredit : FixedString 2).data == textBC
    && (paymentsTo 0 (history result.2)).length == 1
    && test ((paymentsTo 0 (history result.2)).map (PaymentInput.specified record))
      ((record .cData : FixedString cDataSize).data.take shiftAmount))

/-- What is known after such a payment. -/
theorem paidRow_run {test : List (List Byte) → List Byte → Bool}
    {trace : List ((Unit × DbMove UInt64) × DbEvent UInt64)} {db : Db UInt64 Unit}
    (run : Interleaving.Run (dbStep (.wholeTuples false))
      (Db.empty (fun _ _ _ => 0) (fun _ _ => 0)) trace db)
    (passed : paidRow test (db, trace) = true)
    : ∃ record original, db.Shows (.wholeTuples false) .customer 0 record
      ∧ ⟨.insert .customer original, 0⟩ ∈ steps (history trace)
      ∧ (original .cCredit : FixedString 2).data = textBC
      ∧ ∃ input, paymentsTo 0 (history trace) = [input]
        ∧ test [input.specified original]
          ((record .cData : FixedString cDataSize).data.take shiftAmount) = true := by
  obtain ⟨sound, ledgerRun⟩ := ledger_run run
  simp only [paidRow, Option.any_eq_true, Bool.and_eq_true, beq_iff_eq] at passed
  obtain ⟨record, row, ⟨bad, one⟩, tested⟩ := passed
  obtain ⟨chronicle, replayed⟩ := ledgerRun.chronicle
  have replayed : db.shared = replay (steps (history trace)) := replayed
  obtain ⟨original, inserted, agree⟩ := chronicle.row_inserted (replayed ▸ row)
  obtain ⟨input, only⟩ := List.length_eq_one_iff.mp one
  have credit := agree .cCredit (by simp [Table.Written])
  have ids : input.specified record = input.specified original := by
    simp only [PaymentInput.specified, agree .cId (by simp [Table.Written]),
      agree .cDId (by simp [Table.Written]), agree .cWId (by simp [Table.Written])]
  rw [only, List.map_singleton, ids] at tested
  exact ⟨record, original, sound.shows_row row, inserted, credit ▸ bad, input, only, tested⟩

/-- Seven units are paid where the names happen to spell the rest of the record. -/
theorem cData_register_seven
    : ∃ (trace : List ((Unit × DbMove UInt64) × DbEvent UInt64)) (db : Db UInt64 Unit)
        (record original : Table.customer.Record UInt64) (input : PaymentInput UInt64),
        Interleaving.Run (dbStep (.wholeTuples false)) (Db.empty (fun _ _ _ => 0) (fun _ _ => 0))
          trace db
        ∧ db.Shows (.wholeTuples false) .customer 0 record
        ∧ ⟨.insert .customer original, 0⟩ ∈ steps (history trace)
        ∧ (original .cCredit : FixedString 2).data = textBC
        ∧ paymentsTo 0 (history trace) = [input]
        ∧ (record .cData : FixedString cDataSize).data
          = register cDataSize [input.specified original]
              (original .cData : FixedString cDataSize).data := by
  obtain ⟨trace, db, run, passed⟩ := play_reaches (payBadCredit sevenWarehouse 7)
    (paidRow (fun specified front => specified == [front])) (by decide +kernel)
  obtain ⟨record, original, shows, inserted, bad, input, only, front⟩ := paidRow_run run passed
  obtain ⟨stores, inputs, _, holds, same, _⟩ := cData_register_iff run shows inserted
  refine ⟨trace, db, record, original, input, run, shows, inserted, bad, only, ?_⟩
  rw [only] at same inputs
  refine same.mpr (fun place store here => ?_)
  obtain ⟨only', rfl, rfl⟩ := List.map_eq_singleton_iff.mp inputs
  cases place with
  | succ place => cases here
  | zero =>
      cases here
      have first : store.record = store.input.specified original := by
        rw [List.map_singleton] at holds
        rw [holds, take_register_singleton store.length_record (by decide)] at front
        exact (List.singleton_inj.mp (eq_of_beq front)).symm
      rw [first]

/-- An ordinary payment leaves other bytes than its record. -/
theorem cData_misses_amount
    : ∃ (trace : List ((Unit × DbMove UInt64) × DbEvent UInt64)) (db : Db UInt64 Unit)
        (record original : Table.customer.Record UInt64) (input : PaymentInput UInt64),
        Interleaving.Run (dbStep (.wholeTuples false)) (Db.empty (fun _ _ _ => 0) (fun _ _ => 0))
          trace db
        ∧ db.Shows (.wholeTuples false) .customer 0 record
        ∧ ⟨.insert .customer original, 0⟩ ∈ steps (history trace)
        ∧ (original .cCredit : FixedString 2).data = textBC
        ∧ paymentsTo 0 (history trace) = [input]
        ∧ (record .cData : FixedString cDataSize).data
          ≠ register cDataSize [input.specified original]
              (original .cData : FixedString cDataSize).data := by
  obtain ⟨trace, db, run, passed⟩ := play_reaches (payBadCredit firstWarehouse 5)
    (paidRow (fun specified front => specified != [front])) (by decide +kernel)
  obtain ⟨record, original, shows, inserted, bad, input, only, front⟩ := paidRow_run run passed
  refine ⟨trace, db, record, original, input, run, shows, inserted, bad, only, fun same => ?_⟩
  rw [same, take_register_singleton (input.length_specified _) (by decide)] at front
  exact (bne_iff_ne.mp front) rfl

end Alchemy.Tpcc
