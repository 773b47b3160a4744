import Alchemy.Tpcc.OrderNumbers
import Alchemy.Tpcc.OwnSteps

/-! `new_order` is all or nothing. One that fails has not changed anything. One that commits has
entered one order with its lines, under keys that were free, and has written to one district row
and to one stock row for each line.
-/

namespace Alchemy.Tpcc

open ByteImage Cache Oid Interaction Interleaving

variable {A τ : Type} [Money A] [DecidableEq τ]

/-! ### Keys of one order -/

/-- The items of an order are different ones. -/
def NewOrderInput.DistinctItems (input : NewOrderInput) : Prop :=
  (input.items.map (fun item => item.olIId)).Nodup

instance (input : NewOrderInput) : Decidable input.DistinctItems :=
  inferInstanceAs (Decidable (List.Nodup _))

/-- What an operation puts into an index replaces nothing. -/
def Adds : Step A → Prop
  | ⟨.newOrderInsert _ _, replaced⟩ => replaced = none
  | ⟨.indexInsert _ _ _, replaced⟩ => replaced = none
  | _ => True

namespace Transaction

variable {txn : Transaction A} {log : List (Step A)} {table : Table} {key : UInt64} {rid : Rid}

theorem Obeyed.tail {step : Step A} (obeyed : txn.Obeyed (step :: log)) : txn.Obeyed log := by
  cases obeyed with
  | perform earlier | release earlier => exact earlier

/-- What a transaction has put into an index, it has inserted before. -/
theorem Obeyed.indexed {replaced : Option Rid} (obeyed : txn.Obeyed log)
    (member : ⟨.indexInsert table key rid, replaced⟩ ∈ log)
    : ∃ record, ⟨.insert table record, rid⟩ ∈ log ∧ table.key record = key := by
  induction obeyed with
  | nil => cases member
  | release earlier ih =>
      obtain ⟨record, inserted, same⟩ := ih (by simpa using member)
      exact ⟨record, List.mem_cons_of_mem _ inserted, same⟩
  | perform earlier allows relied ih =>
      rcases List.mem_cons.mp member with now | before
      · cases now
        obtain ⟨record, rest, rfl, same⟩ := allows.indexes
        exact ⟨record, by simp, same.symm⟩
      · obtain ⟨record, inserted, same⟩ := ih before
        exact ⟨record, List.mem_cons_of_mem _ inserted, same⟩

end Transaction

namespace OrderLineTuple

/-- Whatever the other components are, lines of different items have different keys. -/
theorem item_of_makeKey {w d o i w' d' o' i' : UInt64} (item : i.toNat < 2 ^ 20)
    (item' : i'.toNat < 2 ^ 20) (same : makeKey w d o i = makeKey w' d' o' i')
    : i = i' := by
  have low (w d o i : UInt64) (item : i.toNat < 2 ^ 20)
      : (makeKey w d o i).toNat % 2 ^ 20 = i.toNat := by
    have first : (w <<< 48).toNat = w.toNat * 2 ^ 48 % 2 ^ 64 := by
      rw [UInt64.toNat_shiftLeft, Nat.shiftLeft_eq]
      rfl
    have second : (d <<< 40).toNat = d.toNat * 2 ^ 40 % 2 ^ 64 := by
      rw [UInt64.toNat_shiftLeft, Nat.shiftLeft_eq]
      rfl
    have third : (o <<< 20).toNat = o.toNat * 2 ^ 20 % 2 ^ 64 := by
      rw [UInt64.toNat_shiftLeft, Nat.shiftLeft_eq]
      rfl
    rw [makeKey, UInt64.toNat_add, UInt64.toNat_add, UInt64.toNat_add, first, second, third]
    omega
  apply UInt64.toNat_inj.mp
  rw [← low w d o i item, same, low w' d' o' i' item']

end OrderLineTuple

namespace Ledger

variable {config : DbConfig} {ledger : Ledger A τ} {past : History A τ} {t : τ}
  {txn : Transaction A} {log : List (Step A)}

/-- A step that files something under a key that is taken was preceded by another one of the same
transaction.
-/
theorem Run.filed_before {activity : Activity A} {op : Op A} {answer : op.Answer}
    {step : Step A} (run : Run config past ledger) (once : LoadsOnce past) (small : SmallIds past)
    (here : ledger.active t = some activity) (allows : activity.txn.Allows activity.log op)
    (files : Transaction.filing ⟨op, answer⟩ = true) (did : step ∈ steps past)
    (filed : Transaction.filing step = true)
    (same : Transaction.slot ⟨op, answer⟩ = Transaction.slot step)
    : step ∈ activity.log := by
  have ran : ledger.Ran past t activity.txn activity.log := .inr ⟨activity, here, rfl, rfl⟩
  obtain ⟨other, theirs, elsewhere, ranToo, member⟩ := run.ran did
  have mine := (run.obeyed here).files_now allows files
  have also := (run.ran_obeyed ranToo).files member filed
  obtain ⟨_, _, rfl⟩ := run.filed_own once small ran ranToo mine also same
  exact member

/-- An order does not file anything under a key that is taken: it would have been filed by the
order itself, but it has entered nothing, not filed the order, or filed the lines before.
-/
theorem Run.adds_now {input : NewOrderInput} {rest : Remainder A} {op : Op A} {answer : op.Answer}
    (run : Run config past ledger) (once : LoadsOnce past) (small : SmallIds past)
    (here : ledger.active t = some { txn := .newOrder input, log, rest })
    (distinct : input.DistinctItems) (allows : input.Allows log op)
    (answers : ledger.Answers config t op answer)
    : Adds ⟨op, answer⟩ := by
  obtain ⟨chronicle, same⟩ := run.chronicle
  have own {step : Step A} (files : Transaction.filing ⟨op, answer⟩ = true)
      (did : step ∈ steps past) (filed : Transaction.filing step = true)
      (slots : Transaction.slot ⟨op, answer⟩ = Transaction.slot step) : step ∈ log :=
    run.filed_before once small here allows files did filed slots
  cases op with
  | newOrderInsert key value =>
      change answer = none
      refine Option.eq_none_iff_forall_ne_some.mpr (fun old taken => ?_)
      have entry : ledger.shared.newOrder[key]? = some old := (Eq.symm answers).trans taken
      rw [same] at entry
      obtain ⟨replaced, did⟩ := chronicle.entered entry
      have entered := mem_changes.mpr ⟨own rfl did rfl rfl, rfl⟩
      cases allows with
      | reads reads => cases reads
      | enter counted =>
          rw [counted] at entered
          cases List.mem_singleton.mp entered
  | indexInsert table key rid =>
      change answer = none
      refine Option.eq_none_iff_forall_ne_some.mpr (fun old taken => ?_)
      have entry : (ledger.shared.index table)[key]? = some old := (Eq.symm answers).trans taken
      rw [same] at entry
      obtain ⟨replaced, did⟩ := chronicle.indexed entry
      cases allows with
      | reads reads => cases reads
      | orderIndex entered =>
          have before := (List.mem_cons.mp (own rfl did rfl rfl)).resolve_left (by simp)
          have filed := mem_changes.mpr ⟨before, rfl⟩
          rw [entered] at filed
          simp [countStep, NewOrderInput.entryStep] at filed
      | @lineIndex earlier _ _ number item _ _ _ counted located found done =>
          have before := (List.mem_cons.mp (own rfl did rfl rfl)).resolve_left (by simp)
          obtain ⟨record, inserted, keys⟩ := (run.obeyed here).tail.indexed before
          obtain ⟨k, other, _, _, _, sooner, listed, rfl⟩ := done record old inserted
          have items := (located.sized chronicle
            (fun step member => run.logged_steps here (List.mem_cons_of_mem _ member))
            (fun _ _ _ inserted => chronicle.sized inserted)).2.2.2
          have range {item : OrderItem} (member : item ∈ input.items)
              : item.olIId.toUInt64.toNat < 2 ^ 20 := by
            have := items item member
            rw [itemScale] at this
            rw [UInt32.toNat_toUInt64]
            omega
          have sameItem := OrderLineTuple.item_of_makeKey (range (List.mem_of_getElem? listed))
            (range (List.mem_of_getElem? found)) keys
          have sameId : other.olIId = item.olIId := by
            apply UInt32.toNat_inj.mp
            rw [← UInt32.toNat_toUInt64, sameItem, UInt32.toNat_toUInt64]
          refine List.nodup_iff_getElem?_ne_getElem?.mp distinct k number sooner ?_ ?_
          · rw [List.length_map]
            exact (List.getElem?_eq_some_iff.mp found).1
          · rw [List.getElem?_map, List.getElem?_map, listed, found, Option.map_some, Option.map_some,
              sameId]
  | _ => trivial

/-- An order files nothing under a key that is taken. -/
theorem Run.adds {input : NewOrderInput} (run : Run config past ledger) (once : LoadsOnce past)
    (small : SmallIds past) (distinct : input.DistinctItems)
    (ran : ledger.Ran past t (.newOrder input) log)
    : ∀ step ∈ log, Adds step := by
  have all := run.ran_induction
    (motive := fun txn log => txn = .newOrder input → ∀ step ∈ log, Adds step) ?_ ?_ ?_ ran
  · exact all rfl
  · intro txn _ step member
    cases member
  · intro before present t activity op next answer earlier sooner here calls answers ih isOrder step
      member
    rcases List.mem_cons.mp member with rfl | member
    · have allows := earlier.allows here calls
      obtain ⟨_, log, rest⟩ := activity
      cases isOrder
      exact earlier.adds_now (once.sooner sooner) (small.sooner sooner) here distinct allows answers
    · exact ih isOrder step member
  · intro txn log table rid kind ih isOrder step member
    rcases List.mem_cons.mp member with rfl | member
    · trivial
    · exact ih isOrder step member

end Ledger

/-! ### All or nothing -/

namespace NewOrderInput

/-- What a committed order has done: it has counted and entered the order with its lines, under
keys that were free, and written to the stock rows of its lines.
-/
structure Entered (input : NewOrderInput) (own : List (Step A)) (dRid oRid : Rid) (oId : UInt64)
    (lines : List (LineWrites A))
    : Prop where
  district : ⟨.get .district input.districtKey, some dRid⟩ ∈ own
  lines_length : lines.length = input.olCnt.toNat
  stock_nodup : (lines.map (fun writes => writes.sRid)).Nodup
  stock : ∀ pair ∈ input.items.zip lines, ⟨.get .stock pair.1.stockKey, some pair.2.sRid⟩ ∈ own
  added : ∀ writes ∈ lines, writes.replaced = none
  changed : own.filter (fun step => step.op.changes)
    = [countStep dRid oId, input.entryStep oId none] ++ input.orderSteps oId oRid none
      ++ input.linesSteps oId 0 (input.items.zip lines)

variable {input : NewOrderInput} {log : List (Step A)} {dRid oRid : Rid} {oId : UInt64}
  {lines : List (LineWrites A)}

omit [Money A] in
theorem linesSteps_adds {number : Nat} {lines : List (OrderItem × LineWrites A)}
    (adds : ∀ step ∈ input.linesSteps oId number lines, Adds step)
    : ∀ line ∈ lines, line.2.replaced = none := by
  induction lines generalizing number with
  | nil => simp
  | cons line rest ih =>
      obtain ⟨item, writes⟩ := line
      intro other member
      rcases List.mem_cons.mp member with rfl | later
      · refine adds ⟨.indexInsert .orderLine
          (Table.orderLine.key (input.lineRecord oId number item writes)) writes.olRid,
          writes.replaced⟩ (List.mem_append_left _ ?_)
        exact List.mem_append_right _ (List.mem_cons_of_mem _ List.mem_cons_self)
      · exact ih (fun step member => adds step (List.mem_append_right _ member)) other later

omit [Money A] in
/-- An order that was placed under free keys. -/
theorem Placed.entered (placed : input.Placed log dRid oRid oId lines)
    (adds : ∀ step ∈ log, Adds step)
    : input.Entered log.reverse dRid oRid oId lines := by
  obtain ⟨entry, replaced, changed⟩ := placed.changed
  have made (step : Step A)
      (member : step ∈ [countStep dRid oId, input.entryStep oId entry]
        ++ input.orderSteps oId oRid replaced ++ input.linesSteps oId 0 (input.items.zip lines))
      : Adds step := by
    rw [← changed] at member
    exact adds step (mem_changes.mp member).1
  obtain rfl : entry = none := made (input.entryStep oId entry) (by simp)
  obtain rfl : replaced = none :=
    made ⟨.indexInsert .order (Table.order.key (input.order (A := A) oId)) oRid, replaced⟩
      (by simp [orderSteps, insertSteps])
  have zipped : (input.items.zip lines).map Prod.snd = lines :=
    List.map_snd_zip (Nat.le_of_eq placed.lines_length)
  refine ⟨by simpa using placed.district, placed.lines_length.trans input.items_length,
    placed.stock_nodup, fun pair member => by simpa using (placed.sells pair member).found, ?_, ?_⟩
  · intro writes member
    rw [← zipped] at member
    obtain ⟨pair, inside, rfl⟩ := List.mem_map.mp member
    exact linesSteps_adds (fun step member => made step (List.mem_append_right _ member)) pair inside
  · rw [← changed, changes, List.filter_reverse]

end NewOrderInput

/-- A `new_order` is all or nothing, among whatever other transactions do. It releases its locks.
Each of its steps changes what its operation changes. If it fails, none of its steps has changed
anything. It does not panic. If it commits, it has entered one order.
-/
theorem new_order_all_or_nothing {config : DbConfig} {t : τ} {input : NewOrderInput}
    (execution : Execution config t (.newOrder input) (A := A))
    : (∀ table rid kind, ⟨t, kind⟩ ∉ ((execution.final.caches table).oids rid).guards)
      ∧ Along (dbStep config) execution.start execution.trace
          (fun before action event after => action.1 = t → before.Does config event after)
      ∧ (∀ error, execution.outcome = .error (.err error)
        → Along (dbStep config) execution.start execution.trace
          (fun before action _ after => action.1 = t → before.Unchanged config after))
      ∧ execution.outcome ≠ .error .panic
      ∧ (execution.outcome = .ok () → LoadsOnce execution.past → SmallIds execution.past
        → input.DistinctItems
        → ∃ dRid oRid oId lines,
          input.Entered (ownSteps t (history execution.trace)) dRid oRid oId lines) := by
  have closed := execution.ledger_final.closed execution.returned_mem
  have ends : input.Ends execution.log execution.outcome := closed.ends
  refine ⟨execution.unlocked, ?_, ?_, ?_, ?_⟩
  · intro earlier action event later before after split reached taken _
    exact execution.does earlier action event later before after split reached taken
  · intro error failed
    rw [failed] at ends
    exact execution.unchanged ends.1
  · intro panics
    rw [panics] at ends
    exact ends
  · intro committed once small distinct
    rw [committed] at ends
    obtain ⟨_, dRid, oRid, oId, lines, placed⟩ := ends
    have ran : execution.final.ledger.Ran execution.past t (.newOrder input) execution.log :=
      .inl ⟨_, execution.returned_mem⟩
    refine ⟨dRid, oRid, oId, lines, ?_⟩
    rw [← execution.log_eq]
    exact placed.entered (execution.ledger_final.adds once small distinct ran)

/-- This order is committed. -/
def DbEvent.commits (input : NewOrderInput) : DbEvent A → Bool
  | .returned (.newOrder other) _ (.ok _) => input = other
  | _ => false

theorem DbEvent.commits_iff {input : NewOrderInput} {event : DbEvent A}
    : event.commits input = true ↔ ∃ log, event = .returned (.newOrder input) log (.ok ()) := by
  constructor
  · intro commits
    unfold DbEvent.commits at commits
    split at commits
    · obtain rfl := of_decide_eq_true commits
      exact ⟨_, rfl⟩
    · cases commits
  · rintro ⟨log, rfl⟩
    exact decide_eq_true rfl

/-- The first order of a new database. -/
theorem new_order_all_or_nothing_first_order
    : ∃ execution : Execution (.wholeTuples false) () (.newOrder firstNewOrder) (A := UInt64),
        execution.outcome = .ok () ∧ LoadsOnce execution.past ∧ SmallIds execution.past
        ∧ firstNewOrder.DistinctItems
        ∧ ∃ dRid oRid oId lines,
          firstNewOrder.Entered (ownSteps () (history execution.trace)) dRid oRid oId lines := by
  obtain ⟨trace, db, run, passed⟩ := play_reaches (runs () placeFirst)
    (fun result => decide (LoadsOnce (history result.2)) && smallIds (history result.2)
      && (history result.2).any (fun entry => entry.2.commits firstNewOrder))
    (by decide +kernel)
  simp only [Bool.and_eq_true, decide_eq_true_eq, List.any_eq_true] at passed
  obtain ⟨⟨once, few⟩, ⟨⟨⟩, event⟩, member, commits⟩ := passed
  obtain ⟨log, rfl⟩ := DbEvent.commits_iff.mp commits
  obtain ⟨execution, committed, _, past⟩ := exists_execution_of_mem run member
  have once := once.sooner past
  have small := (smallIds_sound few).sooner past
  have distinct : firstNewOrder.DistinctItems := by decide
  exact ⟨execution, committed, once, small, distinct,
    (new_order_all_or_nothing execution).2.2.2.2 committed once small distinct⟩

end Alchemy.Tpcc
