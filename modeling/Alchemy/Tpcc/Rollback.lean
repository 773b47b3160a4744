import Alchemy.Tpcc.Accounts
import Alchemy.Tpcc.Inputs
import Alchemy.Tpcc.Refinement

/-! Which generated orders roll back. The item ids of an order are consecutive from a random
start, which may be so close to the last item that they run past it. Then `new_order` does not
find an item that nobody meant to be missing, and aborts.
-/

namespace Alchemy.Tpcc

open ByteImage Cache Oid Interaction

/-! ### The item ids of an order -/

/-- The item ids that `load_item` inserts. -/
def loadItemIds : List Nat :=
  List.range itemScale

namespace NewOrderDraws

variable {warehouseCnt taskId taskCnt : Nat} (draws : NewOrderDraws warehouseCnt taskId taskCnt)

/-- How many of the lines have consecutive ids. -/
def consecutive : Nat :=
  if draws.rbk then draws.olCnt.val - 1 else draws.olCnt.val

/-- Without a rollback all items are loaded and different, with one all but the last are
loaded.
-/
structure AsAsked : Prop where
  plain : draws.rbk = false
    → (∀ i < draws.olCnt.val, draws.olIId i ∈ loadItemIds)
      ∧ ∀ i < draws.olCnt.val, ∀ j < draws.olCnt.val, draws.olIId i = draws.olIId j → i = j
  asked : draws.rbk = true
    → ∀ i < draws.olCnt.val, draws.olIId i ∉ loadItemIds ↔ i = draws.olCnt.val - 1

/-- The ids are as asked iff the consecutive ones end before the last item. -/
theorem asAsked_iff : draws.AsAsked ↔ draws.iIdStart.val + draws.consecutive ≤ itemScale := by
  have least := draws.olCnt.property.1
  simp only [consecutive]
  cases rolls : draws.rbk with
  | false =>
      have id (i : Nat) : draws.olIId i = draws.iIdStart.val + i := by simp [olIId, rolls]
      constructor
      · intro asAsked
        have last := (asAsked.plain rolls).1 (draws.olCnt.val - 1) (by omega)
        rw [id, loadItemIds, List.mem_range] at last
        simp only [Bool.false_eq_true, if_false]
        omega
      · intro small
        simp only [Bool.false_eq_true, if_false] at small
        refine ⟨fun _ => ⟨fun i inside => ?_, fun i _ j _ same => ?_⟩, fun drawn => ?_⟩
        · rw [id, loadItemIds, List.mem_range]
          omega
        · rw [id, id] at same
          omega
        · rw [rolls] at drawn
          cases drawn
  | true =>
      have id (i : Nat) (inside : i ≠ draws.olCnt.val - 1)
          : draws.olIId i = draws.iIdStart.val + i := by
        simp [olIId, inside]
      have last : draws.olIId (draws.olCnt.val - 1) = itemScale + 1 := by simp [olIId, rolls]
      constructor
      · intro asAsked
        have before := (asAsked.asked rolls (draws.olCnt.val - 2) (by omega)).not.mpr (by omega)
        rw [id _ (by omega), Classical.not_not, loadItemIds, List.mem_range] at before
        simp only [if_true]
        omega
      · intro small
        simp only [if_true] at small
        refine ⟨fun drawn => ?_, fun _ i inside => ?_⟩
        · rw [rolls] at drawn
          cases drawn
        · by_cases here : i = draws.olCnt.val - 1
          · simp [here, last, loadItemIds]
          · have loaded : draws.iIdStart.val + i < itemScale := by omega
            simp [here, id i here, loadItemIds, loaded]

/-- Some line asks for an item that is not loaded iff a rollback was drawn or the ids run past
the last item.
-/
theorem unloaded_iff
    : (∃ i < draws.olCnt.val, draws.olIId i ∉ loadItemIds)
      ↔ draws.rbk = true ∨ itemScale < draws.iIdStart.val + draws.olCnt.val := by
  have least := draws.olCnt.property.1
  simp only [loadItemIds, List.mem_range, Nat.not_lt]
  constructor
  · rintro ⟨i, inside, unloaded⟩
    cases rolls : draws.rbk with
    | true => exact .inl rfl
    | false =>
        simp only [olIId, rolls, Bool.false_eq_true, and_false, if_false] at unloaded
        exact .inr (by omega)
  · intro asked
    refine ⟨draws.olCnt.val - 1, by omega, ?_⟩
    rw [olIId]
    split
    · omega
    · next plain =>
        have small := asked.resolve_left (fun rolls => plain ⟨rfl, rolls⟩)
        omega

theorem olIId_toNat {i : Fin 15} (inside : i.val < draws.olCnt.val)
    : (draws.item i).olIId.toNat = draws.olIId i := by
  have start := draws.iIdStart.property.2
  have most := draws.olCnt.property.2
  have small : draws.olIId i < 2 ^ 32 := by
    simp only [itemScale] at start
    rw [olIId]
    split
    · decide
    · omega
  rw [item, if_pos inside]
  exact UInt32.toNat_ofNat_of_lt' small

/-- The item ids of the order are those of its draws. -/
theorem exists_item_iff (holds : Nat → Prop)
    : (∃ item ∈ (NewOrderInput.gen draws).items, holds item.olIId.toNat)
      ↔ ∃ i < draws.olCnt.val, holds (draws.olIId i) := by
  have most := draws.olCnt.property.2
  have items : (NewOrderInput.gen draws).items = (List.ofFn draws.item).take draws.olCnt.val := by
    rw [NewOrderInput.items, NewOrderInput.gen, draws.olCnt_toNat]
  constructor
  · rintro ⟨item, member, held⟩
    rw [items, List.mem_take_iff_getElem] at member
    obtain ⟨i, small, rfl⟩ := member
    rw [List.length_ofFn] at small
    rw [List.getElem_ofFn, draws.olIId_toNat (i := ⟨i, by omega⟩) (by simpa using by omega)] at held
    exact ⟨i, by omega, held⟩
  · rintro ⟨i, inside, held⟩
    refine ⟨draws.item ⟨i, by omega⟩, ?_, ?_⟩
    · rw [items, List.mem_take_iff_getElem]
      exact ⟨i, by rw [List.length_ofFn]; omega, List.getElem_ofFn ..⟩
    · rw [draws.olIId_toNat (by exact inside)]
      exact held

end NewOrderDraws

/-! ### Lookups -/

section Lookups

variable {A τ : Type} [Money A] [DecidableEq τ] {table : Table} {key : UInt64}
  {config : DbConfig} {t : τ}

theorem Ledger.Moves.has {ledger next : Ledger A τ} {event : DbEvent A}
    (moves : ledger.Moves config t next event) (has : ledger.shared.Has table key)
    : next.shared.Has table key := by
  cases moves with
  | rest | begin | finish => exact has
  | did | release => exact has.after _

/-- From a state where a task is idle and a key is there, the task does not miss the key. -/
theorem Db.Sound.finds {start db : Db A τ} {trace : List ((τ × DbMove A) × DbEvent A)}
    (sound : start.Sound config) (run : Interleaving.Run (dbStep config) start trace db)
    (idle : start.tasks t = none) (has : start.shared.Has table key)
    : db.Sound config ∧ db.shared.Has table key
      ∧ db.ledger.Logs t (fun step => step ≠ ⟨.get table key, none⟩) (history trace) := by
  induction run with
  | start => exact ⟨sound, has, .start (congrArg (Option.map Task.toActivity) idle)⟩
  | @extend trace db action next event earlier taken ih =>
      obtain ⟨kept, has, logs⟩ := ih
      obtain ⟨moves, sound'⟩ := kept.step taken
      refine ⟨sound', moves.has has, ?_⟩
      rw [history, List.map_append]
      refine logs.extend moves (fun step did missed => ?_)
      subst did missed
      generalize next.ledger = after at moves
      cases moves with
      | did here calls answers =>
          obtain ⟨rid, found⟩ := has
          cases answers.trans found

end Lookups

/-! ### Aborts -/

namespace NewOrderInput

variable {A : Type} {input : NewOrderInput} {log : List (Step A)}

/-- If nothing else hinders it, `new_order` aborts iff it has missed an item. -/
theorem Ends.aborts_iff {outcome : Except Stop Unit} (ends : input.Ends log outcome)
    (unhindered : ∀ step ∈ log, ¬Hindered step)
    : outcome = .error (.err .userAbort)
      ↔ ∃ item ∈ input.items,
          ⟨.get .item (ItemTuple.makeKey item.olIId.toUInt64), none⟩ ∈ log := by
  cases outcome with
  | ok =>
      obtain ⟨unrefused, _⟩ := ends
      refine ⟨(fun same => by cases same), ?_⟩
      rintro ⟨item, _, missed⟩
      have refused : Table.item ∈ refusals log := List.mem_filterMap.mpr ⟨_, missed, rfl⟩
      rw [unrefused] at refused
      cases refused
  | error stop =>
      cases stop with
      | panic => exact ends.elim
      | err error =>
          cases ends.2 with
          | missing member missing => exact ⟨fun _ => ⟨_, member, missing⟩, fun _ => rfl⟩
          | hindered member hindered => exact absurd hindered (unhindered _ member)

end NewOrderInput

section Aborts

variable {A τ : Type} [Money A] [DecidableEq τ] {config : DbConfig}

/-- An item that was looked up and found is one that `load_item` inserts. -/
theorem Chronicle.item_loaded {done : List (Step A)} {rid : Rid} {iId : UInt32}
    (chronicle : Chronicle config done)
    (found : ⟨.get .item (ItemTuple.makeKey iId.toUInt64), some rid⟩ ∈ done)
    : iId.toNat ∈ loadItemIds := by
  obtain ⟨row, inserted, key⟩ := chronicle.found found
  have sized := chronicle.sized inserted
  rw [Table.Sized, show (row .iId : UInt64) = iId.toUInt64 from key, UInt32.toNat_toUInt64] at sized
  exact List.mem_range.mpr sized

/-- The load of this item has returned. -/
def ItemLoaded (past : History A τ) (iId : Nat) : Prop :=
  ∃ t row log outcome, (t, .returned (.loadItem row) log outcome) ∈ past
    ∧ (row.record .iId : UInt64).toNat = iId

theorem ItemLoaded.has {past : History A τ} {ledger : Ledger A τ} {iId : UInt32}
    (loaded : ItemLoaded past iId.toNat) (run : Ledger.Run config past ledger)
    : ledger.shared.Has .item (ItemTuple.makeKey iId.toUInt64) := by
  obtain ⟨t, row, log, outcome, returned, same⟩ := loaded
  have closed := run.closed returned
  obtain ⟨rid, replaced, both⟩ := closed.ends
  have indexed := both _ (List.mem_cons_of_mem _ List.mem_cons_self)
  have key : Table.item.key row.record = ItemTuple.makeKey iId.toUInt64 := by
    refine UInt64.toNat_inj.mp (same.trans ?_)
    rw [ItemTuple.makeKey, UInt32.toNat_toUInt64]
  rw [run.chronicle.2, ← key]
  exact replay_has (List.mem_filterMap.mpr ⟨_, closed.logged _ indexed, rfl⟩)

/-- The item ids of a generated order are as asked iff its consecutive ids end before the last
item. If the items were loaded that it looks for, and nothing else hinders it, `new_order`
aborts as asked iff a rollback was drawn or no id runs past the last item.
-/
theorem order_rolls_back_iff {warehouseCnt taskId taskCnt : Nat}
    (draws : NewOrderDraws warehouseCnt taskId taskCnt)
    : (draws.AsAsked ↔ draws.iIdStart.val + draws.consecutive ≤ itemScale)
      ∧ ∀ {storage : Table → Rid → Image Byte} {hand : Table → τ → Nat}
          {before after : List ((τ × DbMove A) × DbEvent A)} {start db : Db A τ} {t : τ}
          {log : List (Step A)} {outcome : Except Stop Unit},
          Interleaving.Run (dbStep config) (Db.empty storage hand) before start
          → (∀ i < draws.olCnt.val, draws.olIId i ∈ loadItemIds
            → ItemLoaded (history before) (draws.olIId i))
          → start.tasks t = none
          → Interleaving.Run (dbStep config) start after db
          → (t, .returned (.newOrder (.gen draws)) log outcome) ∈ history after
          → (∀ step ∈ log, ¬NewOrderInput.Hindered step)
          → ((outcome = .error (.err .userAbort) ↔ draws.rbk = true)
            ↔ draws.rbk = true ∨ draws.iIdStart.val + draws.olCnt.val ≤ itemScale) := by
  refine ⟨draws.asAsked_iff, ?_⟩
  intro storage hand before after start db t log outcome loads loaded idle run returned unhindered
  obtain ⟨sound, loadRun⟩ := ledger_run loads
  obtain ⟨_, ledgerRun⟩ := ledger_run (loads.trans run)
  have closed := ledgerRun.closed (by
    rw [history, List.map_append]
    exact List.mem_append_right _ returned)
  have ends : (NewOrderInput.gen draws).Ends log outcome := closed.ends
  have aborts : outcome = .error (.err .userAbort)
      ↔ draws.rbk = true ∨ itemScale < draws.iIdStart.val + draws.olCnt.val := by
    rw [← draws.unloaded_iff, ← draws.exists_item_iff (· ∉ loadItemIds)]
    constructor
    · intro aborted
      obtain ⟨item, member, missed⟩ := (ends.aborts_iff unhindered).mp aborted
      refine ⟨item, member, fun inside => ?_⟩
      obtain ⟨i, small, same⟩ :=
        (draws.exists_item_iff (· = item.olIId.toNat)).mp ⟨item, member, rfl⟩
      have present : ItemLoaded (history before) item.olIId.toNat :=
        same ▸ loaded i small (same.symm ▸ inside)
      exact (sound.finds run idle (present.has loadRun)).2.2.returned _ _ _ returned _ missed rfl
    · rintro ⟨item, member, unloaded⟩
      cases outcome with
      | ok =>
          obtain ⟨_, _, _, _, _, placed⟩ := ends
          obtain ⟨rid, found⟩ := placed.located.items item member
          have looked : ⟨.get .item (ItemTuple.makeKey item.olIId.toUInt64), some rid⟩
              ∈ steps (history (before ++ after)) :=
            List.mem_filterMap.mpr ⟨_, closed.logged _ found, rfl⟩
          exact absurd (ledgerRun.chronicle.1.item_loaded looked) unloaded
      | error stop =>
          cases stop with
          | panic => exact ends.elim
          | err error =>
              cases ends.2 with
              | missing => rfl
              | hindered member hindered => exact absurd hindered (unhindered _ member)
  rw [aborts]
  cases draws.rbk with
  | true => simp
  | false => simp

end Aborts

/-! ### Two orders -/

/-- An order of five lines from this item on. -/
def drawnOrder (iIdStart : Set.Icc 0 (itemScale - 1)) (rbk : Bool) : NewOrderDraws 1 0 1 where
  wId := ⟨0, by decide, by decide⟩
  dId := ⟨0, by decide⟩
  cId := ⟨0, by decide⟩
  olCnt := ⟨5, by decide⟩
  rbk
  iIdStart
  lines := fun _ => ⟨none, ⟨1, by decide⟩⟩
  oEntryD := 0

/-- A rollback is drawn, for items from the first one on. -/
def rolledBackOrder : NewOrderDraws 1 0 1 :=
  drawnOrder ⟨0, by decide⟩ true

/-- No rollback is drawn, for items from the last one on. -/
def lastItemOrder : NewOrderDraws 1 0 1 :=
  drawnOrder ⟨itemScale - 1, by decide⟩ false

def lastItemId : Fin itemScale :=
  ⟨itemScale - 1, by decide⟩

/-- The event is the return of the load of this item. -/
def loadsItem (iId : Nat) : DbEvent UInt64 → Bool
  | .returned (.loadItem row) _ _ => (row.record .iId : UInt64).toNat == iId
  | _ => false

/-- The event is the abort of this order, for an item it did not find. -/
def aborts (input : NewOrderInput) : DbEvent UInt64 → Bool
  | .returned (.newOrder other) log (.error (.err .userAbort)) =>
      other == input
      && log.all (fun step => match step with
        | ⟨.get .item _, none⟩ => true
        | step => (refusal step).isNone)
  | _ => false

/-- What happens to the order in a database where the items it looks for are loaded. -/
def orderAborts (iIds : List (Fin itemScale)) (draws : NewOrderDraws 1 0 1) : Bool :=
  ((Db.empty (fun _ _ _ => 0) (fun _ _ => 0)).play (runs () (loadRows iIds))).any (fun loaded =>
      (loaded.1.tasks ()).isNone
      && (List.range draws.olCnt.val).all (fun i =>
        itemScale ≤ draws.olIId i
        || (history loaded.2).any (fun entry => loadsItem (draws.olIId i) entry.2))
      && (loaded.1.play (runs () [.newOrder (.gen draws)])).any (fun result =>
          (history result.2).any (fun entry => aborts (.gen draws) entry.2)))

theorem exists_of_loadsItem {iId : Nat} {event : DbEvent UInt64}
    (loads : loadsItem iId event = true)
    : ∃ row log outcome, event = .returned (.loadItem row) log outcome
      ∧ (row.record .iId : UInt64).toNat = iId := by
  unfold loadsItem at loads
  split at loads
  · exact ⟨_, _, _, rfl, eq_of_beq loads⟩
  · cases loads

theorem exists_of_aborts {input : NewOrderInput} {event : DbEvent UInt64}
    (aborted : aborts input event = true)
    : ∃ log, event = .returned (.newOrder input) log (.error (.err .userAbort))
      ∧ ∀ step ∈ log, ¬NewOrderInput.Hindered step := by
  unfold aborts at aborted
  split at aborted
  · next other log =>
      simp only [Bool.and_eq_true, beq_iff_eq, List.all_eq_true] at aborted
      obtain ⟨rfl, clear⟩ := aborted
      refine ⟨log, rfl, fun step member hindered => ?_⟩
      have passed := clear step member
      split at passed
      · exact hindered.2 _ rfl
      · exact hindered.1 (Option.isNone_iff_eq_none.mp passed)
  · cases aborted

/-- The runs behind it. -/
theorem orderAborts_run {iIds : List (Fin itemScale)} {draws : NewOrderDraws 1 0 1}
    (passed : orderAborts iIds draws = true)
    : ∃ (before after : List ((Unit × DbMove UInt64) × DbEvent UInt64)) (start db : Db UInt64 Unit)
        (log : List (Step UInt64)),
        Interleaving.Run (dbStep (.wholeTuples false)) (Db.empty (fun _ _ _ => 0) (fun _ _ => 0))
          before start
        ∧ (∀ i < draws.olCnt.val, draws.olIId i ∈ loadItemIds
          → ItemLoaded (history before) (draws.olIId i))
        ∧ start.tasks () = none
        ∧ Interleaving.Run (dbStep (.wholeTuples false)) start after db
        ∧ ((), .returned (.newOrder (.gen draws)) log (.error (.err .userAbort))) ∈ history after
        ∧ ∀ step ∈ log, ¬NewOrderInput.Hindered step := by
  obtain ⟨before, start, loads, passed⟩ := play_reaches _ _ passed
  simp only [Bool.and_eq_true, Option.isNone_iff_eq_none, List.all_eq_true, List.mem_range,
    Bool.or_eq_true, decide_eq_true_eq] at passed
  obtain ⟨⟨idle, loaded⟩, passed⟩ := passed
  obtain ⟨after, db, run, returned⟩ := Db.play_reaches _ passed
  obtain ⟨⟨_, event⟩, member, aborted⟩ := List.any_eq_true.mp returned
  obtain ⟨log, rfl, unhindered⟩ := exists_of_aborts aborted
  refine ⟨before, after, start, db, log, loads, fun i small inside => ?_, idle, run, member,
    unhindered⟩
  have found := (loaded i small).resolve_left (Nat.not_le.mpr (List.mem_range.mp inside))
  obtain ⟨⟨t, event⟩, before, here⟩ := List.any_eq_true.mp found
  obtain ⟨row, log, outcome, rfl, same⟩ := exists_of_loadsItem here
  exact ⟨t, row, log, outcome, before, same⟩

/-- A rollback is drawn and happens, with four items found and the last one missing. -/
theorem order_rolls_back_as_drawn
    : ∃ (before after : List ((Unit × DbMove UInt64) × DbEvent UInt64)) (start db : Db UInt64 Unit)
        (log : List (Step UInt64)) (outcome : Except Stop Unit),
        Interleaving.Run (dbStep (.wholeTuples false)) (Db.empty (fun _ _ _ => 0) (fun _ _ => 0))
          before start
        ∧ Interleaving.Run (dbStep (.wholeTuples false)) start after db
        ∧ ((), .returned (.newOrder (.gen rolledBackOrder)) log outcome) ∈ history after
        ∧ rolledBackOrder.AsAsked
        ∧ (outcome = .error (.err .userAbort) ↔ rolledBackOrder.rbk = true) := by
  obtain ⟨before, after, start, db, log, loads, loaded, idle, run, returned, unhindered⟩ :=
    orderAborts_run (by decide +kernel : orderAborts firstItems.dropLast rolledBackOrder = true)
  have aborts := (order_rolls_back_iff rolledBackOrder).2 loads loaded idle run returned unhindered
  exact ⟨before, after, start, db, log, _, loads, run, returned,
    rolledBackOrder.asAsked_iff.mpr (by decide), aborts.mpr (.inl rfl)⟩

/-- No rollback is drawn, and the order aborts: its ids run past the last item. -/
theorem order_rolls_back_unasked
    : lastItemOrder.rbk = false
      ∧ ∃ (before after : List ((Unit × DbMove UInt64) × DbEvent UInt64))
          (start db : Db UInt64 Unit) (log : List (Step UInt64)),
          Interleaving.Run (dbStep (.wholeTuples false))
            (Db.empty (fun _ _ _ => 0) (fun _ _ => 0)) before start
          ∧ (∀ i < lastItemOrder.olCnt.val, lastItemOrder.olIId i ∈ loadItemIds
            → ItemLoaded (history before) (lastItemOrder.olIId i))
          ∧ start.tasks () = none
          ∧ Interleaving.Run (dbStep (.wholeTuples false)) start after db
          ∧ ((), .returned (.newOrder (.gen lastItemOrder)) log (.error (.err .userAbort)))
            ∈ history after
          ∧ ∀ step ∈ log, ¬NewOrderInput.Hindered step :=
  ⟨rfl, orderAborts_run (by decide +kernel : orderAborts [lastItemId] lastItemOrder = true)⟩

end Alchemy.Tpcc
