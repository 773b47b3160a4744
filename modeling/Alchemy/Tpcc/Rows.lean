import Alchemy.Tpcc.Chronicle

/-! Rows and the indexes over them. A row is inserted once; afterwards only a few of its fields
are written to, and never a field its key is made of. So what an index finds is the row that
was inserted under this key.
-/

namespace Alchemy.Tpcc

open Cache Oid Interaction

/-! ### Fields that are written to -/

/-- The fields that some transaction writes to. -/
def Table.Written : (table : Table) → table.Name → Prop
  | .warehouse, name => name = .wYtd
  | .district, name => name = .dYtd ∨ name = .dNextOId
  | .customer, name =>
      name = .cBalance ∨ name = .cYtdPayment ∨ name = .cPaymentCnt ∨ name = .cDeliveryCnt
      ∨ name = .cData
  | .item, _ => False
  | .stock, name =>
      name = .sQuantity ∨ name = .sYtd ∨ name = .sOrderCnt ∨ name = .sRemoteCnt
  | .order, name => name = .oCarrierId
  | .orderLine, name => name = .olDeliveryD

/-- Two records that differ in written fields only. -/
def Table.Agree {A : Type} (table : Table) (record original : table.Record A) : Prop :=
  ∀ name, ¬table.Written name → record name = original name

variable {A : Type} [Money A]

omit [Money A] in
/-- Keys are made of fields that nobody writes to. -/
theorem Table.Agree.ids {table : Table} {record original : table.Record A}
    (agree : table.Agree record original)
    : table.ids record = table.ids original := by
  cases table with
  | warehouse => simp only [Table.ids, agree .wId (by simp [Written])]
  | district =>
      simp only [Table.ids, agree .dWId (by simp [Written]), agree .dId (by simp [Written])]
  | customer =>
      simp only [Table.ids, agree .cWId (by simp [Written]), agree .cDId (by simp [Written]),
        agree .cId (by simp [Written])]
  | item => simp only [Table.ids, agree .iId (by simp [Written])]
  | stock =>
      simp only [Table.ids, agree .sWId (by simp [Written]), agree .sIId (by simp [Written])]
  | order =>
      simp only [Table.ids, agree .oWId (by simp [Written]), agree .oDId (by simp [Written]),
        agree .oCId (by simp [Written]), agree .oId (by simp [Written])]
  | orderLine =>
      simp only [Table.ids, agree .olWId (by simp [Written]), agree .olDId (by simp [Written]),
        agree .olOId (by simp [Written]), agree .olIId (by simp [Written])]

omit [Money A] in
theorem Table.Agree.key {table : Table} {record original : table.Record A}
    (agree : table.Agree record original)
    : table.key record = table.key original :=
  key_of_ids agree.ids

namespace Transaction

variable {txn : Transaction A} {log : List (Step A)} {table : Table} {rid : Rid}

/-- Three transactions write to rows. -/
theorem Allows.stores {query : List table.Name} {name : table.Name}
    {value : (table.type name).Value A}
    (allows : txn.Allows log (.getValueMut table rid query name value))
    : (∃ input : NewOrderInput, txn = .newOrder input
        ∧ input.Allows log (.getValueMut table rid query name value))
      ∨ (∃ input : PaymentInput A, txn = .payment input
        ∧ input.Allows log (.getValueMut table rid query name value))
      ∨ (∃ (input : DeliveryInput) (deliveryTime : UInt64), txn = .delivery input deliveryTime
        ∧ input.Allows log (.getValueMut table rid query name value)) := by
  cases txn with
  | newOrder input => exact .inl ⟨input, rfl, allows⟩
  | payment input => exact .inr (.inl ⟨input, rfl, allows⟩)
  | delivery input deliveryTime => exact .inr (.inr ⟨input, deliveryTime, rfl, allows⟩)
  | orderStatus | stockLevel =>
      cases allows with
      | reads reads => cases reads
  | loadWarehouse | loadDistrict | loadItem | loadStock => cases allows
  | loadCustomer | loadOrder =>
      cases allows with
      | row allowed => cases allowed

theorem Allows.written {query : List table.Name} {name : table.Name}
    {value : (table.type name).Value A}
    (allows : txn.Allows log (.getValueMut table rid query name value))
    : table.Written name := by
  rcases allows.stores with ⟨input, _, allows⟩ | ⟨input, _, allows⟩ | ⟨input, _, _, allows⟩
  · cases allows with
    | reads reads => cases reads
    | count => exact .inr rfl
    | sQuantity => exact .inl rfl
    | sYtd => exact .inr (.inl rfl)
    | sOrderCnt => exact .inr (.inr (.inl rfl))
    | sRemoteCnt => exact .inr (.inr (.inr rfl))
  · cases allows with
    | reads reads => cases reads
    | wYtd => exact rfl
    | dYtd => exact .inl rfl
    | cBalance => exact .inl rfl
    | cYtdPayment => exact .inr (.inl rfl)
    | cPaymentCnt => exact .inr (.inr (.inl rfl))
    | cData => exact .inr (.inr (.inr (.inr rfl)))
  · cases allows with
    | reads reads => cases reads
    | oCarrierId => exact rfl
    | olDeliveryD => exact rfl
    | cBalance => exact .inl rfl
    | cDeliveryCnt => exact .inr (.inr (.inr (.inl rfl)))

/-- An index entry is made right after the row is inserted, under the key of the row. -/
theorem Allows.indexes {key : UInt64} (allows : txn.Allows log (.indexInsert table key rid))
    : ∃ record earlier, log = ⟨.insert table record, rid⟩ :: earlier
      ∧ key = table.key record := by
  cases txn with
  | newOrder input =>
      cases allows with
      | reads reads => cases reads
      | orderIndex => exact ⟨_, _, rfl, rfl⟩
      | lineIndex => exact ⟨_, _, rfl, rfl⟩
  | payment | delivery | orderStatus | stockLevel =>
      cases allows with
      | reads reads => cases reads
  | loadWarehouse | loadDistrict | loadItem | loadStock =>
      cases allows with
      | index => exact ⟨_, _, rfl, rfl⟩
  | loadCustomer =>
      cases allows with
      | row allowed =>
          cases allowed with
          | index => exact ⟨_, _, rfl, rfl⟩
  | loadOrder =>
      cases allows with
      | row allowed =>
          cases allowed with
          | index => exact ⟨_, _, rfl, rfl⟩
      | lineIndex => exact ⟨_, _, rfl, rfl⟩

/-- The rows that a transaction inserts. -/
inductive Inserts (log : List (Step A)) : Transaction A → (table : Table) → table.Record A → Prop
  | warehouse (row : WarehouseRow A) : Inserts log (.loadWarehouse row) .warehouse row.record
  | district (row : DistrictRow A) : Inserts log (.loadDistrict row) .district row.record
  | customer (row : CustomerRow A) : Inserts log (.loadCustomer row) .customer row.record
  | item (row : ItemRow A) : Inserts log (.loadItem row) .item row.record
  | stock (row : StockRow A) : Inserts log (.loadStock row) .stock row.record
  | loadedOrder (row : OrderRow A) : Inserts log (.loadOrder row) .order row.order
  | loadedLine (row : OrderRow A) {ol} (small : ol < row.oOlCnt.toNat)
    : Inserts log (.loadOrder row) .orderLine (row.orderLine ol)
  | order {input : NewOrderInput} {rid oId} (counted : countStep rid oId ∈ log)
    (located : input.Located log)
    : Inserts log (.newOrder input) .order (input.order oId)
  | line {input : NewOrderInput} {rid oId number item olAmount olDistInfo}
    (counted : countStep rid oId ∈ log) (located : input.Located log)
    (here : input.items[number]? = some item)
    : Inserts log (.newOrder input) .orderLine
        (input.orderLine oId number item olAmount olDistInfo)

theorem Allows.inserts {record : table.Record A} (allows : txn.Allows log (.insert table record))
    : Inserts log txn table record := by
  cases txn with
  | newOrder input =>
      cases allows with
      | reads reads => cases reads
      | @order _ rid oId replaced entered located =>
          have counted : countStep rid oId ∈ changes log := entered ▸ List.mem_cons_self
          exact .order (mem_changes.mp counted).1 located
      | line counted located here => exact .line counted located here
  | payment | delivery | orderStatus | stockLevel =>
      cases allows with
      | reads reads => cases reads
  | loadWarehouse row =>
      cases allows with
      | insert => exact .warehouse row
  | loadDistrict row =>
      cases allows with
      | insert => exact .district row
  | loadItem row =>
      cases allows with
      | insert => exact .item row
  | loadStock row =>
      cases allows with
      | insert => exact .stock row
  | loadCustomer row =>
      cases allows with
      | row allowed =>
          cases allowed with
          | insert => exact .customer row
  | loadOrder row =>
      cases allows with
      | row allowed =>
          cases allowed with
          | insert => exact .loadedOrder row
      | line small => exact .loadedLine row small

end Transaction

/-! ### Rows -/

section Rows

variable {config : DbConfig} {done : List (Step A)} {step : Step A} {table : Table} {rid : Rid}
  {record original : table.Record A}

omit [Money A] in
theorem Shared.after_store {shared : Shared A} {query : List table.Name} {name : table.Name}
    {value : (table.type name).Value A} {old : Option ((table.type name).Value A)}
    (row : shared.rows table rid = some record)
    : (shared.after ⟨.getValueMut table rid query name value, old⟩).rows table rid
      = some (Function.update record name value) := by
  rw [Shared.after, setRow_rows, row]
  rfl

omit [Money A] in
/-- Where a record after an operation comes from. -/
theorem Shared.after_row {shared : Shared A}
    (row : (shared.after step).rows table rid = some record)
    : (touched step ≠ some (table, rid) ∧ shared.rows table rid = some record)
      ∨ step = ⟨.insert table record, rid⟩
      ∨ ∃ query name value old before, step = ⟨.getValueMut table rid query name value, old⟩
          ∧ shared.rows table rid = some before ∧ record = Function.update before name value := by
  by_cases touches : touched step = some (table, rid)
  · obtain ⟨op, answer⟩ := step
    cases op with
    | insert target new =>
        simp only [touched, Option.some.injEq, Prod.mk.injEq] at touches
        obtain ⟨rfl, rfl⟩ := touches
        rw [Shared.after, setRow_rows] at row
        obtain rfl := Option.some.inj row
        exact .inr (.inl rfl)
    | getValueMut target written query name value =>
        simp only [touched, Option.some.injEq, Prod.mk.injEq] at touches
        obtain ⟨rfl, rfl⟩ := touches
        rw [Shared.after, setRow_rows] at row
        obtain ⟨before, found, rfl⟩ := Option.map_eq_some_iff.mp row
        exact .inr (.inr ⟨query, name, value, answer, before, rfl, found, rfl⟩)
    | _ => cases touches
  · exact .inl ⟨touches, (Shared.after_rows touches).symm.trans row⟩

/-- A row is what was inserted, apart from the fields that are written to. -/
theorem Chronicle.row_inserted (chronicle : Chronicle config done)
    (row : (replay done).rows table rid = some record)
    : ∃ original, ⟨.insert table original, rid⟩ ∈ done ∧ table.Agree record original := by
  induction chronicle generalizing record with
  | start => cases row
  | release earlier ih =>
      rw [replay_append] at row
      obtain ⟨original, inserted, agree⟩ := ih row
      exact ⟨original, List.mem_append_left _ inserted, agree⟩
  | perform earlier logged allows relied answers ih =>
      rw [replay_append] at row
      rcases Shared.after_row row with ⟨_, before⟩ | same | ⟨query, name, value, old, before, same,
        found, rfl⟩
      · obtain ⟨original, inserted, agree⟩ := ih before
        exact ⟨original, List.mem_append_left _ inserted, agree⟩
      · exact ⟨record, same ▸ List.mem_append_right _ List.mem_cons_self, fun _ _ => rfl⟩
      · obtain ⟨original, inserted, agree⟩ := ih found
        refine ⟨original, List.mem_append_left _ inserted, fun other unwritten => ?_⟩
        cases same
        have different : other ≠ name := by
          rintro rfl
          exact unwritten allows.written
        rw [Function.update_of_ne different]
        exact agree other unwritten

/-- A row stays, and keeps the fields that are not written to. -/
theorem Chronicle.inserted_row (chronicle : Chronicle config done)
    (inserted : ⟨.insert table original, rid⟩ ∈ done)
    : ∃ record, (replay done).rows table rid = some record ∧ table.Agree record original := by
  induction chronicle with
  | start => cases inserted
  | release earlier ih =>
      rw [replay_append]
      exact ih (by simpa using inserted)
  | @perform done txn log op answer earlier logged allows relied answers ih =>
      rw [replay_append]
      rcases List.mem_append.mp inserted with before | new
      · obtain ⟨record, row, agree⟩ := ih before
        by_cases touches : touched ⟨op, answer⟩ = some (table, rid)
        · cases op with
          | insert target fresh =>
              simp only [touched, Option.some.injEq, Prod.mk.injEq] at touches
              obtain ⟨rfl, rfl⟩ := touches
              cases row.symm.trans answers
          | getValueMut target written query name value =>
              simp only [touched, Option.some.injEq, Prod.mk.injEq] at touches
              obtain ⟨rfl, rfl⟩ := touches
              refine ⟨Function.update record name value, ?_, fun other unwritten => ?_⟩
              · exact Shared.after_store row
              · have different : other ≠ name := by
                  rintro rfl
                  exact unwritten allows.written
                rw [Function.update_of_ne different]
                exact agree other unwritten
          | _ => cases touches
        · exact ⟨record, (Shared.after_rows touches).trans row, agree⟩
      · cases List.mem_singleton.mp new
        exact ⟨original, by rw [Shared.after, Shared.setRow_rows], fun _ _ => rfl⟩

/-- The record that an operation inserts into a table. -/
def insertRid (table : Table) : Step A → Option Rid
  | ⟨.insert target _, rid⟩ => if target = table then some rid else none
  | _ => none

omit [Money A] in
theorem insertRid_eq_some
    : insertRid table step = some rid ↔ ∃ record, step = ⟨.insert table record, rid⟩ := by
  obtain ⟨op, answer⟩ := step
  cases op with
  | insert target record =>
      by_cases same : target = table
      · subst same
        simp [insertRid]
      · simp only [insertRid, if_neg same, reduceCtorEq, false_iff]
        rintro ⟨other, equal⟩
        cases equal
        exact same rfl
  | _ => simp [insertRid]

/-- Every row has been inserted. -/
theorem Ledger.Run.inserted {τ : Type} [DecidableEq τ] {past : History A τ} {ledger : Ledger A τ}
    (run : Run config past ledger) (row : ledger.shared.rows table rid = some record)
    : rid ∈ (steps past).filterMap (insertRid table) := by
  obtain ⟨chronicle, replayed⟩ := run.chronicle
  obtain ⟨original, inserted, _⟩ := chronicle.row_inserted (replayed ▸ row)
  exact List.mem_filterMap.mpr ⟨_, inserted, insertRid_eq_some.mpr ⟨_, rfl⟩⟩

/-- No record is inserted twice. -/
theorem Chronicle.insert_nodup (chronicle : Chronicle config done) (table : Table)
    : (done.filterMap (insertRid table)).Nodup := by
  induction chronicle with
  | start => exact List.nodup_nil
  | release earlier ih =>
      rwa [List.filterMap_append, List.filterMap_cons_none rfl, List.filterMap_nil,
        List.append_nil]
  | @perform done txn log op answer earlier logged allows relied answers ih =>
      rw [List.filterMap_append]
      cases inserts : insertRid table ⟨op, answer⟩ with
      | none => simpa [inserts] using ih
      | some rid =>
          obtain ⟨record, same⟩ := insertRid_eq_some.mp inserts
          simp only [List.filterMap_cons_some inserts, List.filterMap_nil]
          refine List.nodup_append.mpr ⟨ih, List.nodup_singleton rid, ?_⟩
          rintro other old _ new rfl
          obtain rfl := List.mem_singleton.mp new
          obtain ⟨step, member, inserted⟩ := List.mem_filterMap.mp old
          obtain ⟨original, rfl⟩ := insertRid_eq_some.mp inserted
          obtain ⟨present, row, _⟩ := earlier.inserted_row member
          cases same
          cases row.symm.trans answers

/-- A record was inserted with one content. -/
theorem Chronicle.insert_unique {first second : table.Record A}
    (chronicle : Chronicle config done) (left : ⟨.insert table first, rid⟩ ∈ done)
    (right : ⟨.insert table second, rid⟩ ∈ done)
    : first = second := by
  induction chronicle with
  | start => cases left
  | release earlier ih => exact ih (by simpa using left) (by simpa using right)
  | @perform done txn log op answer earlier logged allows relied answers ih =>
      rcases List.mem_append.mp left with old | new <;>
        rcases List.mem_append.mp right with old' | new'
      · exact ih old old'
      · cases List.mem_singleton.mp new'
        obtain ⟨_, row, _⟩ := earlier.inserted_row old
        cases row.symm.trans answers
      · cases List.mem_singleton.mp new
        obtain ⟨_, row, _⟩ := earlier.inserted_row old'
        cases row.symm.trans answers
      · cases (List.mem_singleton.mp new).trans (List.mem_singleton.mp new').symm
        rfl

omit [Money A] in
theorem Index.getElem?_insert {V : Type} (index : Index V) (key other : UInt64) (value : V)
    : (index.insert key value)[other]? = if key = other then some value else index[other]? := by
  rw [Std.TreeMap.getElem?_insert]
  simp only [Std.LawfulEqCmp.compare_eq_iff_eq]

omit [Money A] in
/-- Where an index entry after an operation comes from. -/
theorem Shared.after_index {shared : Shared A} {key : UInt64}
    (entry : ((shared.after step).index table)[key]? = some rid)
    : (shared.index table)[key]? = some rid
      ∨ ∃ replaced, step = ⟨.indexInsert table key rid, replaced⟩ := by
  obtain ⟨op, answer⟩ := step
  cases op with
  | indexInsert target new written =>
      by_cases same : target = table
      · subst same
        simp only [Shared.after, setIndex, Function.update_self, Index.getElem?_insert] at entry
        split at entry
        · next equal =>
            subst equal
            cases entry
            exact .inr ⟨answer, rfl⟩
        · exact .inl entry
      · simp only [Shared.after, setIndex, Function.update_of_ne (Ne.symm same)] at entry
        exact .inl entry
  | _ => exact .inl entry

omit [Money A] in
/-- Where an entry of the new-order index comes from. -/
theorem Shared.after_newOrder {shared : Shared A} {key value : UInt64}
    (entry : (shared.after step).newOrder[key]? = some value)
    : shared.newOrder[key]? = some value
      ∨ ∃ replaced, step = ⟨.newOrderInsert key value, replaced⟩ := by
  obtain ⟨op, answer⟩ := step
  cases op with
  | newOrderInsert new written =>
      simp only [Shared.after, Index.getElem?_insert] at entry
      split at entry
      · next equal =>
          subst equal
          cases entry
          exact .inr ⟨answer, rfl⟩
      · exact .inl entry
  | newOrderRemove removed =>
      simp only [Shared.after, Std.TreeMap.getElem?_erase] at entry
      split at entry
      · cases entry
      · exact .inl entry
  | _ => exact .inl entry

/-- The index of the table has the key. -/
def Shared.Has (shared : Shared A) (table : Table) (key : UInt64) : Prop :=
  ∃ rid, (shared.index table)[key]? = some rid

omit [Money A] in
/-- No operation takes a key out of the index of a table. -/
theorem Shared.Has.after {shared : Shared A} {key : UInt64} (has : shared.Has table key)
    (step : Step A)
    : (shared.after step).Has table key := by
  obtain ⟨op, answer⟩ := step
  cases op with
  | indexInsert target new written =>
      by_cases same : target = table
      · subst same
        simp only [Shared.Has, Shared.after, setIndex, Function.update_self,
          Index.getElem?_insert]
        split
        · exact ⟨written, rfl⟩
        · exact has
      · simp only [Shared.Has, Shared.after, setIndex, Function.update_of_ne (Ne.symm same)]
        exact has
  | _ => exact has

omit [Money A] in
theorem Shared.Has.replay {key : UInt64} (has : (Tpcc.replay done).Has table key)
    (more : List (Step A))
    : (Tpcc.replay (done ++ more)).Has table key := by
  induction more using List.reverseRecOn with
  | nil => rwa [List.append_nil]
  | append_singleton rest step ih =>
      rw [← List.append_assoc, replay_append]
      exact ih.after step

omit [Money A] in
/-- A key that was inserted is there. -/
theorem replay_has {key : UInt64} {replaced : Option Rid}
    (member : ⟨.indexInsert table key rid, replaced⟩ ∈ done)
    : (replay done).Has table key := by
  obtain ⟨before, more, rfl⟩ := List.append_of_mem member
  rw [List.append_cons]
  refine Shared.Has.replay ⟨rid, ?_⟩ more
  rw [replay_append]
  simp only [Shared.after, Shared.setIndex, Function.update_self, Index.getElem?_insert, if_true]

/-- An index leads to the row it was given under the key. -/
theorem Chronicle.indexed {key : UInt64} (chronicle : Chronicle config done)
    (entry : ((replay done).index table)[key]? = some rid)
    : ∃ replaced, ⟨.indexInsert table key rid, replaced⟩ ∈ done := by
  induction chronicle with
  | start => simp [replay, Shared.empty] at entry
  | release earlier ih =>
      rw [replay_append] at entry
      exact (ih entry).imp (fun _ => List.mem_append_left _)
  | perform earlier logged allows relied answers ih =>
      rw [replay_append] at entry
      rcases Shared.after_index entry with before | ⟨replaced, new⟩
      · exact (ih before).imp (fun _ => List.mem_append_left _)
      · exact ⟨replaced, new ▸ List.mem_append_right _ List.mem_cons_self⟩

theorem Chronicle.entered {key value : UInt64} (chronicle : Chronicle config done)
    (entry : (replay done).newOrder[key]? = some value)
    : ∃ replaced, ⟨.newOrderInsert key value, replaced⟩ ∈ done := by
  induction chronicle with
  | start => simp [replay, Shared.empty] at entry
  | release earlier ih =>
      rw [replay_append] at entry
      exact (ih entry).imp (fun _ => List.mem_append_left _)
  | perform earlier logged allows relied answers ih =>
      rw [replay_append] at entry
      rcases Shared.after_newOrder entry with before | ⟨replaced, new⟩
      · exact (ih before).imp (fun _ => List.mem_append_left _)
      · exact ⟨replaced, new ▸ List.mem_append_right _ List.mem_cons_self⟩

/-- An index entry is made for a row that was inserted under the key. -/
theorem Chronicle.inserted_of_indexed {key : UInt64} {replaced : Option Rid}
    (chronicle : Chronicle config done)
    (indexed : ⟨.indexInsert table key rid, replaced⟩ ∈ done)
    : ∃ original, ⟨.insert table original, rid⟩ ∈ done ∧ table.key original = key := by
  induction chronicle with
  | start => cases indexed
  | release earlier ih =>
      obtain ⟨original, inserted, same⟩ := ih (by simpa using indexed)
      exact ⟨original, List.mem_append_left _ inserted, same⟩
  | @perform done txn log op answer earlier logged allows relied answers ih =>
      rcases List.mem_append.mp indexed with before | new
      · obtain ⟨original, inserted, same⟩ := ih before
        exact ⟨original, List.mem_append_left _ inserted, same⟩
      · cases List.mem_singleton.mp new
        obtain ⟨record, rest, rfl, same⟩ := allows.indexes
        exact ⟨record, List.mem_append_left _ (logged _ List.mem_cons_self), same.symm⟩

/-- An index leads to the row that was inserted under the key. -/
theorem Chronicle.index_inserted {key : UInt64} (chronicle : Chronicle config done)
    (entry : ((replay done).index table)[key]? = some rid)
    : ∃ original, ⟨.insert table original, rid⟩ ∈ done ∧ table.key original = key := by
  obtain ⟨replaced, indexed⟩ := chronicle.indexed entry
  exact chronicle.inserted_of_indexed indexed

/-- What a lookup has found was inserted under the key. -/
theorem Chronicle.found {key : UInt64} (chronicle : Chronicle config done)
    (found : ⟨.get table key, some rid⟩ ∈ done)
    : ∃ original, ⟨.insert table original, rid⟩ ∈ done ∧ table.key original = key := by
  induction chronicle with
  | start => cases found
  | release earlier ih =>
      obtain ⟨original, inserted, same⟩ := ih (by simpa using found)
      exact ⟨original, List.mem_append_left _ inserted, same⟩
  | @perform done txn log op answer earlier logged allows relied answers ih =>
      rcases List.mem_append.mp found with before | new
      · obtain ⟨original, inserted, same⟩ := ih before
        exact ⟨original, List.mem_append_left _ inserted, same⟩
      · cases List.mem_singleton.mp new
        obtain ⟨original, inserted, same⟩ := earlier.index_inserted (Eq.symm answers)
        exact ⟨original, List.mem_append_left _ inserted, same⟩

/-- A key that a lookup has found is there. -/
theorem Chronicle.found_has {key : UInt64} (chronicle : Chronicle config done)
    (found : ⟨.get table key, some rid⟩ ∈ done)
    : (replay done).Has table key := by
  induction chronicle with
  | start => cases found
  | release earlier ih => exact (ih (by simpa using found)).replay _
  | @perform done txn log op answer earlier logged allows relied answers ih =>
      refine Shared.Has.replay ?_ _
      rcases List.mem_append.mp found with before | new
      · exact ih before
      · cases List.mem_singleton.mp new
        exact ⟨rid, Eq.symm answers⟩

/-- What a load of a field that nobody writes to has returned is what was inserted. -/
theorem Chronicle.seen {query : List table.Name} {name : table.Name}
    {value : (table.type name).Value A} (chronicle : Chronicle config done)
    (asked : name ∈ query) (kept : table.Kept name) (unwritten : ¬table.Written name)
    (seen : ⟨.getValue table rid query name, some value⟩ ∈ done)
    : ∃ original, ⟨.insert table original, rid⟩ ∈ done ∧ original name = value := by
  induction chronicle with
  | start => cases seen
  | release earlier ih =>
      obtain ⟨original, inserted, same⟩ := ih (by simpa using seen)
      exact ⟨original, List.mem_append_left _ inserted, same⟩
  | @perform done txn log op answer earlier logged allows relied answers ih =>
      rcases List.mem_append.mp seen with before | new
      · obtain ⟨original, inserted, same⟩ := ih before
        exact ⟨original, List.mem_append_left _ inserted, same⟩
      · cases List.mem_singleton.mp new
        obtain ⟨record, row, reads⟩ := answers
        obtain ⟨found, ⟨⟩, exact'⟩ := reads.1 asked
        obtain ⟨original, inserted, agree⟩ := earlier.row_inserted row
        exact ⟨original, List.mem_append_left _ inserted,
          (agree name unwritten).symm.trans (exact' kept).symm⟩

end Rows

/-! ### Ranges of the key fields -/

/-- The ranges of the fields that a key is made of. Order ids have no bound. -/
def Table.Sized : (table : Table) → table.Record A → Prop
  | .warehouse, tuple => (tuple .wId : UInt64).toNat < warehouseBound
  | .district, tuple =>
      (tuple .dWId : UInt64).toNat < warehouseBound ∧ (tuple .dId : UInt64).toNat < districtScale
  | .customer, tuple =>
      (tuple .cWId : UInt64).toNat < warehouseBound ∧ (tuple .cDId : UInt64).toNat < districtScale
      ∧ (tuple .cId : UInt64).toNat < customerScale
  | .item, tuple => (tuple .iId : UInt64).toNat < itemScale
  | .stock, tuple =>
      (tuple .sWId : UInt64).toNat < warehouseBound ∧ (tuple .sIId : UInt64).toNat < itemScale
  | .order, tuple =>
      (tuple .oWId : UInt64).toNat < warehouseBound ∧ (tuple .oDId : UInt64).toNat < districtScale
      ∧ (tuple .oCId : UInt64).toNat < customerScale
  | .orderLine, tuple =>
      (tuple .olWId : UInt64).toNat < warehouseBound
      ∧ (tuple .olDId : UInt64).toNat < districtScale ∧ (tuple .olIId : UInt64).toNat < itemScale

section Sized

variable {config : DbConfig} {done log : List (Step A)} {table : Table} {rid : Rid}
  {record : table.Record A} {txn : Transaction A}

/-- A new order refers to rows that exist, so its ids are in range. -/
theorem NewOrderInput.Located.sized {input : NewOrderInput} (located : input.Located log)
    (chronicle : Chronicle config done) (logged : ∀ step ∈ log, step ∈ done)
    (sized : ∀ table record rid, ⟨.insert table record, rid⟩ ∈ done → table.Sized record)
    : input.wId.toNat < warehouseBound ∧ input.dId.toNat < districtScale
      ∧ input.cId.toNat < customerScale ∧ ∀ item ∈ input.items, item.olIId.toNat < itemScale := by
  obtain ⟨wRid, wFound⟩ := located.warehouse
  obtain ⟨dRid, dFound⟩ := located.district
  obtain ⟨cRid, cFound⟩ := located.customer
  obtain ⟨warehouse, wInserted, wKey⟩ := chronicle.found (logged _ wFound)
  obtain ⟨district, dInserted, dKey⟩ := chronicle.found (logged _ dFound)
  obtain ⟨customer, cInserted, cKey⟩ := chronicle.found (logged _ cFound)
  have w := sized _ _ _ wInserted
  have d := sized _ _ _ dInserted
  have c := sized _ _ _ cInserted
  have wSame : (warehouse .wId : UInt64).toNat = input.wId.toNat := by
    rw [show (warehouse .wId : UInt64) = input.wId.toUInt64 from wKey, UInt32.toNat_toUInt64]
  simp only [Table.Sized, warehouseBound, districtScale, customerScale] at w d c
  have wide : input.wId.toUInt64.toNat < 2 ^ 16 := by
    rw [UInt32.toNat_toUInt64]
    omega
  have dSmall := input.dId.toNat_lt
  have dSame : (district .dId : UInt64).toNat = input.dId.toNat := by
    have numbers := congrArg UInt64.toNat dKey
    rw [districtKey, Table.key, DistrictTuple.makeKey_toNat (by omega) (by omega),
      DistrictTuple.makeKey_toNat wide (by rw [UInt32.toNat_toUInt64]; omega),
      UInt32.toNat_toUInt64, UInt32.toNat_toUInt64] at numbers
    omega
  have cSame : (customer .cId : UInt64).toNat = input.cId.toNat := by
    have numbers := congrArg UInt64.toNat cKey
    have cSmall := input.cId.toNat_lt
    rw [customerKey, Table.key, CustomerTuple.makeKey_toNat (by omega) (by omega) (by omega),
      CustomerTuple.makeKey_toNat wide (by rw [UInt32.toNat_toUInt64]; omega)
        (by rw [UInt32.toNat_toUInt64]; omega),
      UInt32.toNat_toUInt64, UInt32.toNat_toUInt64, UInt32.toNat_toUInt64] at numbers
    omega
  refine ⟨by rw [← wSame]; exact w, by rw [← dSame]; exact d.2, by rw [← cSame]; exact c.2.2, ?_⟩
  intro item member
  obtain ⟨iRid, iFound⟩ := located.items item member
  obtain ⟨row, iInserted, iKey⟩ := chronicle.found (logged _ iFound)
  have i := sized _ _ _ iInserted
  rw [Table.Sized, show (row .iId : UInt64) = item.olIId.toUInt64 from iKey,
    UInt32.toNat_toUInt64] at i
  exact i

omit [Money A] in
/-- The row found for the district of a new order is that of its warehouse and district. -/
theorem NewOrderInput.Located.district_row {input : NewOrderInput}
    {original : Table.district.Record A} (wide : input.wId.toNat < warehouseBound)
    (sized : Table.district.Sized original) (key : Table.district.key original = input.districtKey)
    : original .dWId = input.wId.toUInt64 ∧ original .dId = input.dId.toUInt64 := by
  simp only [Table.Sized, warehouseBound, districtScale] at wide sized
  have numbers := congrArg UInt64.toNat key
  have small := input.dId.toNat_lt
  rw [districtKey, Table.key, DistrictTuple.makeKey_toNat (by omega) (by omega),
    DistrictTuple.makeKey_toNat (by rw [UInt32.toNat_toUInt64]; omega)
      (by rw [UInt32.toNat_toUInt64]; omega),
    UInt32.toNat_toUInt64, UInt32.toNat_toUInt64] at numbers
  constructor
  · apply UInt64.toNat_inj.mp
    rw [UInt32.toNat_toUInt64]
    omega
  · apply UInt64.toNat_inj.mp
    rw [UInt32.toNat_toUInt64]
    omega

/-- The key fields of every row are in range. -/
theorem Chronicle.sized (chronicle : Chronicle config done)
    (inserted : ⟨.insert table record, rid⟩ ∈ done)
    : table.Sized record := by
  induction chronicle generalizing table rid with
  | start => cases inserted
  | release earlier ih => exact ih (by simpa using inserted)
  | @perform done txn log op answer earlier logged allows relied answers ih =>
      rcases List.mem_append.mp inserted with before | new
      · exact ih before
      · cases List.mem_singleton.mp new
        cases allows.inserts with
        | warehouse row => exact row.wId
        | district row => exact ⟨row.dWId, row.dId⟩
        | customer row => exact ⟨row.cWId, row.cDId, row.cId⟩
        | item row => exact row.iId
        | stock row => exact ⟨row.sWId, row.sIId⟩
        | loadedOrder row => exact ⟨row.wId_lt, row.dId_lt, row.oCId_lt⟩
        | @loadedLine row ol small => exact ⟨row.wId_lt, row.dId_lt, row.item_lt small⟩
        | @order input rid oId counted located =>
            obtain ⟨w, d, c, _⟩ :=
              located.sized earlier logged (fun _ _ _ inserted => ih inserted)
            exact ⟨by simpa [NewOrderInput.order] using w, by simpa [NewOrderInput.order] using d,
              by simpa [NewOrderInput.order] using c⟩
        | @line input rid oId number item olAmount olDistInfo counted located here =>
            obtain ⟨w, d, _, items⟩ :=
              located.sized earlier logged (fun _ _ _ inserted => ih inserted)
            have i := items item (List.mem_of_getElem? here)
            exact ⟨by simpa [NewOrderInput.orderLine] using w,
              by simpa [NewOrderInput.orderLine] using d,
              by simpa [NewOrderInput.orderLine] using i⟩

end Sized

end Alchemy.Tpcc
