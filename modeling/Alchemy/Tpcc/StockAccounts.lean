import Mathlib.Algebra.BigOperators.Ring.List
import Alchemy.Tpcc.Loads
import Alchemy.Tpcc.OrderIds

/-! The stock rows. Every line of an order sells from one row, under the write lock on it: the
quantity goes down or is refilled, and three counters go up. So the quantity stays in its range
and the counters add up the lines.
-/

namespace Alchemy.Tpcc

open ByteImage Cache Oid Interaction

variable {A τ : Type} [Money A]

/-! ### One sale -/

theorem toInt_toInt64 {value : UInt64} (small : value.toNat < 2 ^ 63)
    : value.toInt64.toInt = value.toNat := by
  rw [← Int64.toInt_toBitVec, UInt64.toBitVec_toInt64,
    BitVec.toInt_eq_toNat_of_lt (by rw [UInt64.toNat_toBitVec]; omega), UInt64.toNat_toBitVec]

/-- Inside its range the quantity is computed without wrapping around. -/
theorem soldQuantity_toNat {sQuantity : UInt64} {olQuantity : UInt16}
    (low : 10 ≤ sQuantity.toNat) (high : sQuantity.toNat ≤ 100) (few : olQuantity.toNat ≤ 10)
    : (soldQuantity sQuantity olQuantity).toNat
      = if 10 ≤ sQuantity.toNat - olQuantity.toNat then sQuantity.toNat - olQuantity.toNat
        else sQuantity.toNat - olQuantity.toNat + 91 := by
  have enough : olQuantity.toUInt64 ≤ sQuantity := by
    rw [UInt64.le_iff_toNat_le, UInt16.toNat_toUInt64]
    omega
  have left : (sQuantity - olQuantity.toUInt64).toNat = sQuantity.toNat - olQuantity.toNat := by
    rw [UInt64.toNat_sub_of_le _ _ enough, UInt16.toNat_toUInt64]
  have compared : 10 ≤ (sQuantity - olQuantity.toUInt64).toInt64
      ↔ 10 ≤ sQuantity.toNat - olQuantity.toNat := by
    rw [Int64.le_iff_toInt_le, toInt_toInt64 (by omega), left]
    exact Int.ofNat_le
  have refilled : ((sQuantity - olQuantity.toUInt64).toInt64 + 91).toUInt64
      = sQuantity - olQuantity.toUInt64 + 91 := by
    rw [Int64.toUInt64_add]
    rfl
  simp only [soldQuantity, compared, refilled]
  split
  · exact left
  · have small : sQuantity.toNat - olQuantity.toNat + 91 < 200 := by omega
    rw [UInt64.toNat_add, left]
    exact Nat.mod_eq_of_lt (Nat.lt_trans small (by decide))

/-- What a line makes of a field of its stock row. -/
def OrderItem.sold (item : OrderItem)
    : (name : Table.stock.Name) → (Table.stock.type name).Value A
      → (Table.stock.type name).Value A
  | .sQuantity, sQuantity => soldQuantity sQuantity item.olQuantity
  | .sYtd, sYtd => (sYtd + item.olQuantity.toUInt64 : UInt64)
  | .sOrderCnt, sOrderCnt => (sOrderCnt + 1 : UInt64)
  | .sRemoteCnt, sRemoteCnt => (sRemoteCnt + 1 : UInt64)
  | _, value => value

/-- A store to a stock row is the sale of a line, from the value that was loaded before. -/
structure NewOrderInput.Sale (input : NewOrderInput) (log : List (Step A)) (rid : Rid)
    (query : List Table.stock.Name) (name : Table.stock.Name)
    (value : (Table.stock.type name).Value A) (item : OrderItem)
    (old : (Table.stock.type name).Value A) (earlier : List (Step A))
    : Prop where
  loaded : log = ⟨.getValue .stock rid query name, some old⟩ :: earlier
  asked : name ∈ query
  kept : Table.stock.Kept name
  sells : input.Sells earlier item rid
  ordered : input.Ordered earlier
  unsold : Unsold earlier rid name
  stored : value = item.sold name old
  remote : name = .sRemoteCnt → input.Remote item

section Sales

variable {config : DbConfig} {txn : Transaction A} {log done : List (Step A)} {rid : Rid}
  {query : List Table.stock.Name} {name : Table.stock.Name}
  {value : (Table.stock.type name).Value A}

theorem Transaction.Allows.sale (allows : txn.Allows log (.getValueMut .stock rid query name value))
    : ∃ (input : NewOrderInput) (item : OrderItem) (old : (Table.stock.type name).Value A)
        (earlier : List (Step A)),
        txn = .newOrder input ∧ input.Sale log rid query name value item old earlier := by
  rcases allows.stores with ⟨input, same, allows⟩ | ⟨input, _, allows⟩ | ⟨input, _, _, allows⟩
  · cases allows with
    | reads reads => cases reads
    | sQuantity sells ordered unsold | sYtd sells ordered unsold | sOrderCnt sells ordered unsold =>
        exact ⟨input, _, _, _, same, rfl, by simp [stockQuery],
          by simp [Table.Kept, StockField.Dropped], sells, ordered, unsold, rfl, by simp⟩
    | sRemoteCnt sells ordered unsold remote =>
        exact ⟨input, _, _, _, same, rfl, by simp [stockQuery],
          by simp [Table.Kept, StockField.Dropped], sells, ordered, unsold, rfl, fun _ => remote⟩
  · cases allows with
    | reads reads => cases reads
  · cases allows with
    | reads reads => cases reads

theorem Transaction.Inserts.stockRow {record : Table.stock.Record A}
    (inserts : Inserts log txn .stock record)
    : ∃ row : StockRow A, record = row.record := by
  cases inserts with
  | stock row => exact ⟨row, rfl⟩

omit [Money A] in
/-- The value that was loaded is the one in the row. -/
theorem NewOrderInput.Sale.current {input : NewOrderInput} {item : OrderItem}
    {old : (Table.stock.type name).Value A} {earlier : List (Step A)} {shared : Shared A}
    {answer : Option ((Table.stock.type name).Value A)} {record : Table.stock.Record A}
    (sale : input.Sale log rid query name value item old earlier)
    (relied : Rely log (.getValueMut .stock rid query name value) answer)
    (answers : shared.Answers config (.getValueMut .stock rid query name value) answer)
    (row : shared.rows .stock rid = some record)
    : answer = some old ∧ old = record name := by
  have overwritten := relied sale.asked sale.kept old earlier sale.loaded
  obtain ⟨present, here, reads⟩ := answers
  obtain ⟨found, same, current⟩ := reads.1 sale.asked
  obtain rfl := Option.some.inj (here.symm.trans row)
  obtain rfl := Option.some.inj (overwritten.symm.trans same)
  exact ⟨overwritten, current sale.kept⟩

end Sales

/-! ### The quantity -/

/-- The range of `s_quantity`. -/
def InStock (sQuantity : UInt64) : Prop :=
  10 ≤ sQuantity.toNat ∧ sQuantity.toNat ≤ 100

/-- The lines of an order that begins ask for one to ten pieces. -/
def DbEvent.FewPieces : DbEvent A → Prop
  | .began (.newOrder input) =>
      ∀ item ∈ input.items, 1 ≤ item.olQuantity.toNat ∧ item.olQuantity.toNat ≤ 10
  | _ => True

instance (event : DbEvent A) : Decidable event.FewPieces := by
  unfold DbEvent.FewPieces
  split <;> infer_instance

/-- The lines of every order do. -/
def FewPieces (past : History A τ) : Prop :=
  ∀ entry ∈ past, entry.2.FewPieces

theorem InStock.sold {sQuantity : UInt64} {olQuantity : UInt16} (range : InStock sQuantity)
    (some : 1 ≤ olQuantity.toNat) (few : olQuantity.toNat ≤ 10)
    : InStock (soldQuantity sQuantity olQuantity) := by
  obtain ⟨low, high⟩ := range
  rw [InStock, soldQuantity_toNat low high few]
  split <;> omega

namespace Ledger

variable [DecidableEq τ] {config : DbConfig} {ledger : Ledger A τ} {past : History A τ} {rid : Rid}

omit [DecidableEq τ] in
theorem fewPieces_of_append {entry : τ × DbEvent A} (few : FewPieces (past ++ [entry]))
    : FewPieces past :=
  fun entry member => few entry (List.mem_append_left _ member)

/-- The quantity of every stock row is in its range, by induction on the run: `load` and every
sale leave it there.
-/
theorem Run.inStock {record : Table.stock.Record A} (run : Run config past ledger)
    (few : FewPieces past) (row : ledger.shared.rows .stock rid = some record)
    : InStock (record .sQuantity) := by
  induction run generalizing record with
  | start => cases row
  | @extend past ledger mover next event earlier moves ih =>
      have before := fewPieces_of_append few
      cases moves with
      | rest | begin | finish | release => exact ih before row
      | @did activity op onward answer here calls answers =>
          have allows := earlier.allows here calls
          rcases Shared.after_row row with ⟨_, same⟩ | inserted | ⟨query, name, value, old, present,
            stored, found, rfl⟩
          · exact ih before same
          · cases inserted
            obtain ⟨loaded, rfl⟩ := allows.inserts.stockRow
            exact ⟨loaded.sQuantity_ge, loaded.sQuantity_le⟩
          · cases stored
            obtain ⟨input, item, loaded, log, isNewOrder, sale⟩ := allows.sale
            obtain ⟨_, current⟩ :=
              sale.current (earlier.lastRead.rely here answers) answers.shared found
            have range := ih before found
            by_cases quantity : name = .sQuantity
            · subst quantity
              have begun := earlier.began here
              rw [isNewOrder] at begun
              obtain ⟨some, atMost⟩ := before _ begun item sale.sells.member
              rw [Function.update_self, sale.stored, current]
              exact range.sold some atMost
            · rw [Function.update_of_ne (Ne.symm quantity)]
              exact range

/-- Every store to a quantity is computed from one in the range, exactly. -/
theorem Run.sold_exactly {t : τ} {query : List Table.stock.Name} {new : UInt64}
    {old : Option UInt64} (run : Run config past ledger) (few : FewPieces past)
    (sold : (t, .did ⟨.getValueMut .stock rid query .sQuantity new, old⟩) ∈ past)
    : ∃ (sQuantity : UInt64) (pieces : Nat), old = some sQuantity ∧ InStock sQuantity
      ∧ 1 ≤ pieces ∧ pieces ≤ 10 ∧ pieces ≤ sQuantity.toNat
      ∧ new.toNat
        = if 10 ≤ sQuantity.toNat - pieces then sQuantity.toNat - pieces
          else sQuantity.toNat - pieces + 91 := by
  induction run with
  | start => cases sold
  | @extend past ledger mover next event earlier moves ih =>
      have before := fewPieces_of_append few
      rcases List.mem_append.mp sold with past' | now
      · exact ih before past'
      · cases List.mem_singleton.mp now
        cases moves with
        | @did activity op onward answer here calls answers =>
            obtain ⟨input, item, loaded, log, isNewOrder, sale⟩ := (earlier.allows here calls).sale
            obtain ⟨record, row, _⟩ := answers.2
            obtain ⟨overwritten, current⟩ :=
              sale.current (earlier.lastRead.rely here answers) answers.shared row
            have begun := earlier.began here
            rw [isNewOrder] at begun
            obtain ⟨some, atMost⟩ := before _ begun item sale.sells.member
            have range := earlier.inStock before row
            rw [← current] at range
            refine ⟨loaded, item.olQuantity.toNat, overwritten, range, some, atMost,
              Nat.le_trans atMost range.1, ?_⟩
            rw [sale.stored]
            exact soldQuantity_toNat range.1 range.2 atMost

end Ledger

/-! ### The counters -/

/-- The counters of a stock row. -/
inductive StockCounter
  | sYtd
  | sOrderCnt
  | sRemoteCnt
deriving DecidableEq, Repr

namespace StockCounter

def field : StockCounter → Table.stock.Name
  | .sYtd => .sYtd
  | .sOrderCnt => .sOrderCnt
  | .sRemoteCnt => .sRemoteCnt

/-- Each of them is a `u64`. -/
def word : (counter : StockCounter) → (Table.stock.type counter.field).Value A → UInt64
  | .sYtd, value | .sOrderCnt, value | .sRemoteCnt, value => value

def read (counter : StockCounter) (record : Table.stock.Record A) : UInt64 :=
  counter.word (record counter.field)

/-- What a line adds: its pieces, one, or one if it is supplied by another warehouse. -/
def adds (input : NewOrderInput) (item : OrderItem) : StockCounter → Nat
  | .sYtd => item.olQuantity.toNat
  | .sOrderCnt => 1
  | .sRemoteCnt => if input.Remote item then 1 else 0

/-- A store to the counter: the row, the new value and the old one. -/
def store : StockCounter → Step A → Option (Rid × UInt64 × UInt64)
  | .sYtd, ⟨.getValueMut .stock rid _ .sYtd value, some old⟩ => some (rid, value, old)
  | .sOrderCnt, ⟨.getValueMut .stock rid _ .sOrderCnt value, some old⟩ => some (rid, value, old)
  | .sRemoteCnt, ⟨.getValueMut .stock rid _ .sRemoteCnt value, some old⟩ =>
      some (rid, value, old)
  | _, _ => none

/-- What an operation adds to the counter of a row. -/
def increment (counter : StockCounter) (rid : Rid) (step : Step A) : Nat :=
  match counter.store step with
  | none => 0
  | some (target, value, old) => if target = rid then (value - old).toNat else 0

/-- The counter of a row was stored to. -/
def Sold (counter : StockCounter) (rid : Rid) (log : List (Step A)) : Prop :=
  ∃ step ∈ log, ∃ value old, counter.store step = some (rid, value, old)

variable {counter : StockCounter} {config : DbConfig} {log done : List (Step A)} {step : Step A}
  {rid target : Rid} {value old : UInt64}

omit [Money A] in
theorem adds_lt (input : NewOrderInput) (item : OrderItem) : counter.adds input item < 2 ^ 16 := by
  cases counter with
  | sYtd => exact item.olQuantity.toNat_lt
  | sOrderCnt => exact Nat.one_lt_two_pow (by decide)
  | sRemoteCnt =>
      rw [adds]
      split <;> decide

omit [Money A] in
theorem touched_of_store (stored : counter.store step = some (rid, value, old))
    : touched step = some (.stock, rid) := by
  unfold store at stored
  split at stored
  all_goals cases stored
  all_goals rfl

omit [Money A] in
theorem increment_of_store (stored : counter.store step = some (rid, value, old))
    : counter.increment rid step = (value - old).toNat := by
  rw [increment, stored]
  exact if_pos rfl

omit [Money A] in
theorem increment_eq_zero (untouched : ∀ value old, counter.store step ≠ some (rid, value, old))
    : counter.increment rid step = 0 := by
  rw [increment]
  split
  · rfl
  · next target value old stored =>
      refine if_neg (fun same => ?_)
      subst same
      exact untouched value old stored

omit [Money A] in
theorem changes_of_store (stored : counter.store step = some (rid, value, old))
    : step.op.changes = true := by
  unfold store at stored
  split at stored
  all_goals cases stored
  all_goals rfl

omit [Money A] in
theorem increment_of_quiet (quiet : step.op.changes = false) : counter.increment rid step = 0 :=
  increment_eq_zero (fun value old stored => by
    rw [changes_of_store stored] at quiet
    cases quiet)

omit [Money A] in
theorem logWorth_eq_zero (unsold : ¬counter.Sold rid log)
    : logWorth (counter.increment rid) log = 0 := by
  refine List.sum_eq_zero (fun added member => ?_)
  obtain ⟨step, logged, rfl⟩ := List.mem_map.mp member
  exact increment_eq_zero (fun value old stored => unsold ⟨step, logged, value, old, stored⟩)

omit [Money A] in
theorem sold_cons : counter.Sold rid (step :: log)
    ↔ (∃ value old, counter.store step = some (rid, value, old)) ∨ counter.Sold rid log := by
  simp [Sold]

omit [Money A] in
/-- Stores to other fields leave the counter alone. -/
theorem store_of_ne {query : List Table.stock.Name} {name : Table.stock.Name}
    {new : (Table.stock.type name).Value A} {answer : Option ((Table.stock.type name).Value A)}
    (different : name ≠ counter.field)
    : counter.store ⟨.getValueMut .stock rid query name new, answer⟩ = none := by
  cases counter <;> cases name <;> first | rfl | exact absurd rfl different

omit [Money A] in
theorem read_of_ne {name : Table.stock.Name} {new : (Table.stock.type name).Value A}
    (record : Table.stock.Record A) (different : name ≠ counter.field)
    : counter.read (Function.update record name new) = counter.read record := by
  rw [read, Function.update_of_ne (Ne.symm different), read]

omit [Money A] in
/-- A sale adds to the counter what its line adds. -/
theorem word_sold {input : NewOrderInput} {item : OrderItem}
    (current : (Table.stock.type counter.field).Value A)
    (remote : counter.field = .sRemoteCnt → input.Remote item)
    : counter.word (item.sold counter.field current)
      = counter.word current + UInt64.ofNat (counter.adds input item) := by
  cases counter with
  | sYtd =>
      rw [adds, UInt64.ofNat_uInt16ToNat]
      rfl
  | sOrderCnt => rfl
  | sRemoteCnt =>
      rw [adds, if_pos (remote rfl)]
      rfl

omit [Money A] in
theorem store_field {query : List Table.stock.Name}
    (new current : (Table.stock.type counter.field).Value A)
    : counter.store ⟨.getValueMut .stock rid query counter.field new, some current⟩
      = some (rid, counter.word new, counter.word current) := by
  cases counter <;> rfl

omit [Money A] in
theorem exists_of_store (stored : counter.store step = some (rid, value, old))
    : ∃ query new answer,
        step = ⟨.getValueMut .stock rid query counter.field new, answer⟩ := by
  unfold store at stored
  split at stored
  all_goals cases stored
  all_goals exact ⟨_, _, _, rfl⟩

omit [Money A] in
theorem increment_sold {input : NewOrderInput} {item : OrderItem} {query : List Table.stock.Name}
    (current : (Table.stock.type counter.field).Value A)
    (remote : counter.field = .sRemoteCnt → input.Remote item)
    : counter.increment rid ⟨.getValueMut .stock rid query counter.field
        (item.sold counter.field current), some current⟩
      = counter.adds input item := by
  have small : counter.adds input item < 2 ^ 64 := Nat.lt_trans (adds_lt input item) (by decide)
  rw [increment_of_store (store_field ..), word_sold current remote, UInt64.add_comm,
    UInt64.add_sub_cancel, UInt64.toNat_ofNat_of_lt' small]

end StockCounter

/-- The counter of a stock row is what was added to it. Nothing is added to a row that is not
there.
-/
theorem Chronicle.stockCounter {config : DbConfig} {done : List (Step A)} {rid : Rid}
    (chronicle : Chronicle config done) (counter : StockCounter)
    : ((replay done).rows .stock rid = none → logWorth (counter.increment rid) done = 0)
      ∧ ∀ record, (replay done).rows .stock rid = some record
        → counter.read record = UInt64.ofNat (logWorth (counter.increment rid) done) := by
  have append (done : List (Step A)) (step : Step A)
      : logWorth (counter.increment rid) (done ++ [step])
        = logWorth (counter.increment rid) done + counter.increment rid step :=
    logWorth_append ..
  induction chronicle with
  | start => exact ⟨fun _ => rfl, fun record row => by cases row⟩
  | release earlier ih =>
      rw [replay_append, append, StockCounter.increment_of_quiet rfl]
      exact ih
  | @perform done txn log op answer earlier logged allows relied answers ih =>
      rw [replay_append, append]
      by_cases touches : touched ⟨op, answer⟩ = some (.stock, rid)
      · cases op with
        | insert target record =>
            simp only [touched, Option.some.injEq, Prod.mk.injEq] at touches
            obtain ⟨rfl, rfl⟩ := touches
            rw [Shared.after, Shared.setRow_rows, ih.1 answers]
            refine ⟨(fun absent => by cases absent), fun other same => ?_⟩
            cases same
            obtain ⟨row, rfl⟩ := allows.inserts.stockRow
            cases counter with
            | sYtd => exact row.sYtd
            | sOrderCnt => exact row.sOrderCnt
            | sRemoteCnt => exact row.sRemoteCnt
        | getValueMut target written query name value =>
            simp only [touched, Option.some.injEq, Prod.mk.injEq] at touches
            obtain ⟨rfl, rfl⟩ := touches
            have present := answers
            obtain ⟨record, row, _⟩ := present
            obtain ⟨input, item, loaded, before, _, sale⟩ := allows.sale
            obtain ⟨rfl, rfl⟩ := sale.current relied answers row
            have current := ih.2 record row
            rw [Shared.after_store row]
            refine ⟨(fun absent => by cases absent), fun other stored => ?_⟩
            obtain rfl := Option.some.inj stored
            by_cases same : name = counter.field
            · subst same
              rw [StockCounter.read, Function.update_self, sale.stored,
                StockCounter.increment_sold _ sale.remote,
                StockCounter.word_sold _ sale.remote, UInt64.ofNat_add, ← current]
              rfl
            · rw [StockCounter.read_of_ne record same, current, StockCounter.increment_eq_zero,
                Nat.add_zero]
              rw [StockCounter.store_of_ne same]
              simp
        | _ => cases touches
      · rw [Shared.after_rows touches, StockCounter.increment_eq_zero, Nat.add_zero]
        · exact ih
        · intro value old stored
          exact touches (StockCounter.touched_of_store stored)

/-- A transaction that has sold from a row is a `new_order` that has sold one line from it. -/
theorem Transaction.Obeyed.sold {txn : Transaction A} {log : List (Step A)} {rid : Rid}
    {counter : StockCounter} (obeyed : txn.Obeyed log) (sold : counter.Sold rid log)
    : ∃ input item, txn = .newOrder input ∧ input.Sells log item rid ∧ input.Ordered log
      ∧ logWorth (counter.increment rid) log = counter.adds input item := by
  induction obeyed with
  | nil => simp [StockCounter.Sold] at sold
  | release earlier ih =>
      rcases StockCounter.sold_cons.mp sold with ⟨value, old, stored⟩ | before
      · cases StockCounter.changes_of_store stored
      · obtain ⟨input, item, same, sells, ordered, worth⟩ := ih before
        refine ⟨input, item, same, sells.mono (fun _ => List.mem_cons_of_mem _),
          ordered.mono (fun _ => List.mem_cons_of_mem _), ?_⟩
        rw [logWorth_cons, StockCounter.increment_of_quiet rfl, Nat.zero_add, worth]
  | @perform log op answer earlier allows relied ih =>
      by_cases now : ∃ value old, counter.store ⟨op, answer⟩ = some (rid, value, old)
      · obtain ⟨value, old, stored⟩ := now
        obtain ⟨query, new, _, same⟩ := StockCounter.exists_of_store stored
        cases same
        obtain ⟨input, item, current, before, isNewOrder, sale⟩ := allows.sale
        obtain rfl := relied sale.asked sale.kept current before sale.loaded
        have kept : ∀ step ∈ before, step
            ∈ (⟨.getValueMut .stock rid query counter.field new, some current⟩ : Step A) :: log := by
          intro step member
          rw [sale.loaded]
          exact List.mem_cons_of_mem _ (List.mem_cons_of_mem _ member)
        have nothing : logWorth (counter.increment rid) log = 0 := by
          refine StockCounter.logWorth_eq_zero ?_
          rintro ⟨step, member, value, old, stored⟩
          obtain ⟨query, new, answer, rfl⟩ := StockCounter.exists_of_store stored
          rw [sale.loaded] at member
          rcases List.mem_cons.mp member with same | member
          · cases same
          · exact sale.unsold query new answer member
        refine ⟨input, item, isNewOrder, sale.sells.mono kept, sale.ordered.mono kept, ?_⟩
        rw [logWorth_cons, nothing, Nat.add_zero, sale.stored,
          StockCounter.increment_sold _ sale.remote]
      · obtain ⟨input, item, same, sells, ordered, worth⟩ :=
          ih ((StockCounter.sold_cons.mp sold).resolve_left now)
        refine ⟨input, item, same, sells.mono (fun _ => List.mem_cons_of_mem _),
          ordered.mono (fun _ => List.mem_cons_of_mem _), ?_⟩
        rw [logWorth_cons, StockCounter.increment_eq_zero, Nat.zero_add, worth]
        exact fun value old stored => now ⟨value, old, stored⟩

/-! ### Committed lines -/

/-- The line is for this item from this warehouse. -/
def OrderItem.From (item : OrderItem) (wId : UInt16) (iId : UInt32) : Prop :=
  item.olSupplyWId = wId ∧ item.olIId = iId

instance (item : OrderItem) (wId : UInt16) (iId : UInt32) : Decidable (item.From wId iId) :=
  inferInstanceAs (Decidable (_ ∧ _))

def stockKey (wId : UInt16) (iId : UInt32) : UInt64 :=
  StockTuple.makeKey wId.toUInt64 iId.toUInt64

/-- The key of a stock row tells its warehouse and its item. -/
theorem OrderItem.stockKey_iff (item : OrderItem) (wId : UInt16) (iId : UInt32)
    : item.stockKey = Tpcc.stockKey wId iId ↔ item.From wId iId := by
  have toNat (wId : UInt16) (iId : UInt32)
      : (Tpcc.stockKey wId iId).toNat = wId.toNat * 2 ^ 32 + iId.toNat := by
    have wide := wId.toNat_lt
    have small := iId.toNat_lt
    rw [Tpcc.stockKey, StockTuple.makeKey_toNat (by rw [UInt16.toNat_toUInt64]; omega)
      (by rw [UInt32.toNat_toUInt64]; omega), UInt16.toNat_toUInt64, UInt32.toNat_toUInt64]
  have small := item.olIId.toNat_lt
  have small' := iId.toNat_lt
  rw [OrderItem.From, ← UInt16.toNat_inj, ← UInt32.toNat_inj,
    show item.stockKey = Tpcc.stockKey item.olSupplyWId item.olIId from rfl, ← UInt64.toNat_inj,
    toNat, toNat]
  omega

/-- What the lines of a committed order add to the counter of a stock row. -/
def DbEvent.sold (counter : StockCounter) (wId : UInt16) (iId : UInt32) : DbEvent A → Nat
  | .returned (.newOrder input) _ (.ok _) =>
      ((input.items.filter (fun item => item.From wId iId)).map (counter.adds input)).sum
  | _ => 0

section Committed

variable {log : List (Step A)} {rid : Rid} {counter : StockCounter} {input : NewOrderInput}
  {wId : UInt16} {iId : UInt32}

omit [Money A] in
/-- What one line adds. -/
theorem NewOrderInput.logWorth_lineSteps (oId : UInt64) (number : Nat) (item : OrderItem)
    (writes : LineWrites A)
    : logWorth (counter.increment rid) (input.lineSteps oId number item writes)
      = if writes.sRid = rid then counter.adds input item else 0 := by
  have plus (old more : UInt64) : old + more - old = more := by
    rw [UInt64.add_comm, UInt64.add_sub_cancel]
  by_cases remote : input.Remote item
  all_goals
    cases counter
    all_goals
      simp [lineSteps, stockSteps, insertSteps, logWorth, StockCounter.increment,
        StockCounter.store, StockCounter.adds, plus, remote]

omit [Money A] in
theorem NewOrderInput.logWorth_linesSteps (oId : UInt64) (number : Nat)
    (lines : List (OrderItem × LineWrites A))
    : logWorth (counter.increment rid) (input.linesSteps oId number lines)
      = (lines.map (fun line => if line.2.sRid = rid then counter.adds input line.1 else 0)).sum := by
  induction lines generalizing number with
  | nil => rfl
  | cons line rest ih =>
      obtain ⟨item, writes⟩ := line
      rw [NewOrderInput.linesSteps, logWorth_append, ih, logWorth_lineSteps, List.map_cons,
        List.sum_cons]

omit [Money A] in
/-- What an order that was placed has added. -/
theorem NewOrderInput.Placed.sold {dRid oRid : Rid} {oId : UInt64}
    {lines : List (LineWrites A)} (placed : input.Placed log dRid oRid oId lines)
    (supplied
      : ∀ pair ∈ input.items.zip lines, pair.2.sRid = rid ↔ pair.1.From wId iId)
    : logWorth (counter.increment rid) log
      = ((input.items.filter (fun item => item.From wId iId)).map (counter.adds input)).sum := by
  obtain ⟨entry, replaced, changed⟩ := placed.changed
  have firsts : (input.items.zip lines).map Prod.fst = input.items :=
    List.map_fst_zip (Nat.le_of_eq placed.lines_length.symm)
  rw [← logWorth_changes _ _ (fun _ => StockCounter.increment_of_quiet), changed, logWorth_append,
    NewOrderInput.logWorth_linesSteps]
  have before : logWorth (counter.increment (A := A) rid)
      ([countStep dRid oId, input.entryStep oId entry] ++ input.orderSteps oId oRid replaced)
      = 0 := by
    cases counter <;> rfl
  have each : ∀ line ∈ input.items.zip lines,
      (if line.2.sRid = rid then counter.adds input line.1 else 0)
        = if line.1.From wId iId then counter.adds input line.1 else 0 := by
    intro line member
    simp only [supplied line member]
  have whole (items : List OrderItem)
      : (items.map (fun item => if item.From wId iId then counter.adds input item else 0)).sum
        = ((items.filter (fun item => item.From wId iId)).map (counter.adds input)).sum := by
    induction items with
    | nil => rfl
    | cons item rest ih =>
        rw [List.map_cons, List.sum_cons, ih, List.filter_cons]
        by_cases here : item.From wId iId <;> simp [here]
  rw [before, Nat.zero_add, List.map_congr_left each, ← whole]
  conv_rhs => rw [← firsts, List.map_map]
  rfl

end Committed

section Runs

variable [DecidableEq τ] {config : DbConfig} {ledger : Ledger A τ} {past : History A τ} {rid : Rid}
  {record : Table.stock.Record A} {wId : UInt16} {iId : UInt32}

/-- The line that is sold from a stock row is one for its warehouse and item. -/
theorem Ledger.Run.sold_from {log : List (Step A)} {input : NewOrderInput} {item : OrderItem}
    {target : Rid} (run : Run config past ledger) (once : LoadsOnce past)
    (row : ledger.shared.rows .stock rid = some record)
    (key : Table.stock.key record = stockKey wId iId) (logged : ∀ step ∈ log, step ∈ steps past)
    (sells : input.Sells log item target)
    : target = rid ↔ item.From wId iId := by
  rw [← item.stockKey_iff, ← key]
  exact run.found_iff once (by simp [Table.Fixed]) (logged _ sells.found) row

/-- A counter does not wrap around: no row is sold from more often than orders are inserted. -/
theorem Ledger.Run.increments_lt (run : Run config past ledger) (counter : StockCounter) (rid : Rid)
    : logWorth (counter.increment rid) (steps past) < 2 ^ 64 := by
  have bound := run.logWorth_le (fun _ => 0) (counter.increment rid)
    (fun step => 2 ^ 16 * hits (insertRid .order) step)
    (fun txn log obeyed => by
      by_cases sold : counter.Sold rid log
      · obtain ⟨input, item, _, _, ⟨oId, oRid, ordered⟩, worth⟩ := obeyed.sold sold
        have inserted : oRid ∈ log.filterMap (insertRid .order) :=
          List.mem_filterMap.mpr ⟨_, ordered, rfl⟩
        have some := List.length_pos_of_mem inserted
        have small := counter.adds_lt input item
        rw [worth, logWorth, List.sum_map_mul_left, ← logWorth, logWorth_hits]
        omega
      · rw [StockCounter.logWorth_eq_zero sold]
        exact Nat.zero_le _)
  rw [sum_adds_steps, logWorth, logWorth, List.sum_map_mul_left, ← logWorth, ← logWorth,
    logWorth_hits] at bound
  have few := run.chronicle.1.inserts_le .order
  omega

/-- A transaction that has returned has added what its committed lines add. -/
theorem Ledger.Run.settled {t : τ} {event : DbEvent A} (run : Run config past ledger)
    (once : LoadsOnce past) (row : ledger.shared.rows .stock rid = some record)
    (key : Table.stock.key record = stockKey wId iId) (counter : StockCounter)
    (member : (t, event) ∈ past)
    : event.settles (fun _ => 0) (counter.increment rid) = event.sold counter wId iId := by
  cases event with
  | pending | began | did => rfl
  | returned txn log outcome =>
      have closed := run.closed member
      rw [DbEvent.settles, Nat.zero_add]
      cases txn with
      | newOrder input =>
          cases outcome with
          | ok =>
              obtain ⟨_, dRid, oRid, oId, lines, placed⟩ := closed.ends
              refine placed.sold (fun pair listed => ?_)
              exact run.sold_from once row key
                (fun step logged => List.mem_filterMap.mpr ⟨_, closed.logged step logged, rfl⟩)
                (placed.sells pair listed)
          | error stop =>
              have nothing : changes log = [] := by
                cases stop with
                | err error => exact closed.ends.1
                | panic => exact closed.ends.elim
              rw [← logWorth_changes _ _ (fun _ => StockCounter.increment_of_quiet), nothing]
              rfl
      | _ =>
          refine StockCounter.logWorth_eq_zero (fun sold => ?_)
          obtain ⟨input, item, same, _⟩ := closed.obeyed.sold sold
          cases same

open Classical in
/-- A counter is what the committed lines add, and the lines that running orders have sold. -/
theorem Ledger.Run.stock_counter (run : Run config past ledger) (once : LoadsOnce past)
    (row : ledger.shared.rows .stock rid = some record)
    (key : Table.stock.key record = stockKey wId iId) (counter : StockCounter)
    : ∃ (selling : Finset τ) (line : τ → NewOrderInput × OrderItem),
        (∀ t, t ∈ selling
          ↔ ∃ activity, ledger.active t = some activity ∧ counter.Sold rid activity.log)
        ∧ (∀ t ∈ selling, ∃ activity, ledger.active t = some activity
            ∧ activity.txn = .newOrder (line t).1 ∧ (line t).2 ∈ (line t).1.items
            ∧ (line t).2.From wId iId)
        ∧ (counter.read record).toNat
          = (past.map (fun entry => entry.2.sold counter wId iId)).sum
            + ∑ t ∈ selling, counter.adds (line t).1 (line t).2 := by
  let tasks : Finset τ := (past.map Prod.fst).toFinset
  have covers : ∀ entry ∈ past, entry.1 ∈ tasks :=
    fun entry member => List.mem_toFinset.mpr (List.mem_map_of_mem member)
  let Sells (t : τ) : Prop :=
    ∃ activity, ledger.active t = some activity ∧ counter.Sold rid activity.log
  have lines : ∀ t, Sells t → ∃ line : NewOrderInput × OrderItem,
      (∃ activity, ledger.active t = some activity ∧ activity.txn = .newOrder line.1
        ∧ line.2 ∈ line.1.items ∧ line.2.From wId iId)
      ∧ ledger.holds (fun _ => 0) (counter.increment rid) t = counter.adds line.1 line.2 := by
    rintro t ⟨activity, here, sold⟩
    obtain ⟨input, item, same, sells, _, worth⟩ := (run.obeyed here).sold sold
    refine ⟨(input, item), ⟨activity, here, same, sells.member, ?_⟩, ?_⟩
    · exact (run.sold_from once row key (fun step => run.logged_steps here) sells).mp rfl
    · rw [Ledger.holds, here]
      simp only [Nat.zero_add, worth]
  have : Nonempty (NewOrderInput × OrderItem) := ⟨firstNewOrder, 0, 0, 0⟩
  choose! line known worth using lines
  refine ⟨tasks.filter Sells, line, ?_, ?_, ?_⟩
  · intro t
    refine Finset.mem_filter.trans ⟨And.right, fun sells => ⟨?_, sells⟩⟩
    obtain ⟨activity, here, _⟩ := sells
    exact covers _ (run.began here)
  · exact fun t member => known t (Finset.mem_filter.mp member).2
  · obtain ⟨chronicle, same⟩ := run.chronicle
    have total := run.steps_balance (counter.increment rid) covers
    have others : ∀ t ∈ tasks, ledger.holds (fun _ => 0) (counter.increment rid) t
        = if Sells t then counter.adds (line t).1 (line t).2 else 0 := by
      intro t _
      by_cases sells : Sells t
      · rw [if_pos sells, worth t sells]
      · rw [if_neg sells, Ledger.holds]
        cases here : ledger.active t with
        | none => rfl
        | some activity =>
            refine (Nat.zero_add _).trans (StockCounter.logWorth_eq_zero (fun sold => ?_))
            exact sells ⟨activity, here, sold⟩
    rw [Finset.sum_congr rfl others, ← Finset.sum_filter] at total
    rw [same] at row
    rw [(chronicle.stockCounter counter).2 record row,
      UInt64.toNat_ofNat_of_lt' (run.increments_lt counter rid), total]
    rw [← same] at row
    refine congrArg (· + _) (congrArg List.sum (List.map_congr_left ?_))
    exact fun entry member => run.settled once row key counter member

/-- In every state the quantity of every stock row is in its range, and every store to it was
computed without wrapping around. Its counters add up the lines of all committed orders for this
warehouse and item, and those that a running order has already sold.
-/
theorem stock_accounted {storage : Table → Rid → Image Byte} {hand : Table → τ → Nat}
    {trace : List ((τ × DbMove A) × DbEvent A)} {db : Db A τ}
    (run : Interleaving.Run (dbStep config) (Db.empty storage hand) trace db)
    (once : LoadsOnce (history trace)) (few : FewPieces (history trace))
    (shows : db.Shows config .stock rid record)
    : InStock (record .sQuantity)
      ∧ (∀ t query new old,
          (t, .did ⟨.getValueMut .stock rid query .sQuantity new, old⟩) ∈ history trace
          → ∃ (sQuantity : UInt64) (pieces : Nat), old = some sQuantity ∧ InStock sQuantity
            ∧ 1 ≤ pieces ∧ pieces ≤ 10 ∧ pieces ≤ sQuantity.toNat
            ∧ UInt64.toNat new
              = if 10 ≤ sQuantity.toNat - pieces then sQuantity.toNat - pieces
                else sQuantity.toNat - pieces + 91)
      ∧ ∀ wId iId, (db.shared.index .stock)[stockKey wId iId]? = some rid
        → ∀ counter : StockCounter,
          ∃ (selling : Finset τ) (line : τ → NewOrderInput × OrderItem),
          (∀ t, t ∈ selling ↔ ∃ task, db.tasks t = some task ∧ counter.Sold rid task.log)
          ∧ (∀ t ∈ selling, ∃ task, db.tasks t = some task
              ∧ task.txn = .newOrder (line t).1 ∧ (line t).2 ∈ (line t).1.items
              ∧ (line t).2.From wId iId)
          ∧ (counter.read record).toNat
            = ((history trace).map (fun entry => entry.2.sold counter wId iId)).sum
              + ∑ t ∈ selling, counter.adds (line t).1 (line t).2 := by
  obtain ⟨sound, ledgerRun⟩ := ledger_run run
  obtain ⟨row, here, same⟩ := sound.shows shows
  have kept (name : Table.stock.Name) (keeps : ¬StockField.Dropped name)
      : record name = row name :=
    same name keeps
  refine ⟨?_, fun t query new old sold => ledgerRun.sold_exactly few sold, ?_⟩
  · rw [kept .sQuantity (by simp [StockField.Dropped])]
    exact ledgerRun.inStock few here
  · intro wId iId found counter
    have key : Table.stock.key row = stockKey wId iId := by
      obtain ⟨chronicle, replayed⟩ := ledgerRun.chronicle
      have replayed : db.shared = replay (steps (history trace)) := replayed
      rw [replayed] at here found
      obtain ⟨original, inserted, agree⟩ := chronicle.row_inserted here
      obtain ⟨indexed, inserted', key⟩ := chronicle.index_inserted found
      rw [agree.key, chronicle.insert_unique inserted inserted', key]
    obtain ⟨selling, line, who, what, total⟩ := ledgerRun.stock_counter once here key counter
    have read : counter.read record = counter.read row := by
      rw [StockCounter.read, kept counter.field (by cases counter <;> simp [StockField.Dropped,
        StockCounter.field]), StockCounter.read]
    rw [read]
    refine ⟨selling, line, fun t => (who t).trans ?_, fun t member => ?_, total⟩
    · simp only [Db.ledger, Option.map_eq_some_iff]
      constructor
      · rintro ⟨_, ⟨task, running, rfl⟩, sold⟩
        exact ⟨task, running, sold⟩
      · rintro ⟨task, running, sold⟩
        exact ⟨_, ⟨task, running, rfl⟩, sold⟩
    · obtain ⟨activity, active, known⟩ := what t member
      obtain ⟨task, running, rfl⟩ := Option.map_eq_some_iff.mp active
      exact ⟨task, running, known⟩

end Runs

/-- Five pieces of a stock of fifty are sold. -/
theorem stock_accounted_first_order
    : ∃ (trace : List ((Unit × DbMove UInt64) × DbEvent UInt64)) (db : Db UInt64 Unit)
        (record : Table.stock.Record UInt64),
        Interleaving.Run (dbStep (.wholeTuples false)) (Db.empty (fun _ _ _ => 0) (fun _ _ => 0))
          trace db
        ∧ db.Shows (.wholeTuples false) .stock 0 record
        ∧ InStock (record .sQuantity) ∧ record .sQuantity = (45 : UInt64)
        ∧ record .sYtd = (5 : UInt64)
        ∧ ((history trace).map (fun entry => entry.2.sold .sYtd 0 0)).sum = 5 := by
  obtain ⟨trace, db, run, passed⟩ := play_reaches (runs () placeFirst)
    (fun result => (result.1.tasks ()).isNone && decide (LoadsOnce (history result.2))
      && decide (∀ entry ∈ history result.2, entry.2.FewPieces)
      && (result.1.shared.rows .stock 0).any (fun record =>
        (record .sQuantity : UInt64) == 45 && (record .sYtd : UInt64) == 5)
      && (result.1.shared.index .stock)[stockKey 0 0]? == some 0)
    (by decide +kernel)
  simp only [Bool.and_eq_true, Option.isNone_iff_eq_none, Option.any_eq_true, beq_iff_eq,
    decide_eq_true_eq] at passed
  obtain ⟨⟨⟨⟨done, once⟩, few⟩, record, row, quantity, ytd⟩, found⟩ := passed
  have shows := (ledger_run run).1.shows_row row
  obtain ⟨inStock, _, counters⟩ := stock_accounted run once few shows
  obtain ⟨selling, line, who, _, total⟩ := counters 0 0 found .sYtd
  have nobody : selling = ∅ := by
    refine Finset.eq_empty_of_forall_notMem (fun t member => ?_)
    obtain ⟨task, running, _⟩ := (who t).mp member
    rw [done] at running
    cases running
  rw [nobody, Finset.sum_empty, Nat.add_zero, StockCounter.read] at total
  refine ⟨trace, db, record, run, shows, inStock, quantity, ytd, total.symm.trans ?_⟩
  exact congrArg UInt64.toNat ytd

end Alchemy.Tpcc
