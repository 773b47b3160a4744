import Alchemy.Tpcc.Alone
import Alchemy.Tpcc.KeyOrder

/-! What a scan of an index returns, in terms of the rows of the table. A scan returns the first
entries of its range, as many as its buffer holds; the rows it should return are those with
certain ids.
-/

namespace Alchemy.Tpcc

open Cache Oid

section Index

variable {V : Type} {index : Index V} {low high key : UInt64} {value : V} {length : Nat}

theorem Index.mem_toList : (key, value) ∈ index.toList ↔ index[key]? = some value :=
  Std.TreeMap.mem_toList_iff_getElem?_eq_some

theorem Index.toList_sorted
    : index.toList.Pairwise (fun first second => first.1 < second.1) := by
  refine (Std.TreeMap.ordered_keys_toList (t := index)).imp ?_
  intro first second less
  exact compareOfLessAndEq_eq_lt.mp less

theorem Index.mem_between
    : (key, value) ∈ index.between low high ↔ index[key]? = some value ∧ InScan low high key := by
  simp only [Index.between, List.mem_filter, Index.mem_toList, decide_eq_true_eq, InScan]

/-- Sorted keys are distinct. -/
theorem nodup_of_sorted {V : Type} {entries : List (UInt64 × V)}
    (sorted : entries.Pairwise (fun first second => first.1 < second.1))
    : entries.Nodup :=
  sorted.imp (fun less same => by rw [same] at less; exact absurd less (UInt64.lt_irrefl _))

/-- Sorted lists with the same entries are the same. -/
theorem eq_of_sorted {V : Type} {entries others : List (UInt64 × V)}
    (sorted : entries.Pairwise (fun first second => first.1 < second.1))
    (sorted' : others.Pairwise (fun first second => first.1 < second.1))
    (same : ∀ entry, entry ∈ entries ↔ entry ∈ others)
    : entries = others := by
  refine List.Perm.eq_of_pairwise ?_ sorted sorted' ?_
  · intro first second _ _ less greater
    exact absurd (UInt64.lt_trans less greater) (UInt64.lt_irrefl _)
  · exact (List.perm_ext_iff_of_nodup (nodup_of_sorted sorted) (nodup_of_sorted sorted')).mpr same

theorem Index.toList_erase
    : (index.erase key).toList = index.toList.filter (fun entry => decide (entry.1 ≠ key)) := by
  refine eq_of_sorted Index.toList_sorted (Index.toList_sorted.filter _) ?_
  intro entry
  obtain ⟨other, value⟩ := entry
  rw [List.mem_filter, Index.mem_toList, Index.mem_toList, Std.TreeMap.getElem?_erase,
    decide_eq_true_eq]
  by_cases here : key = other
  · simp [here]
  · simp [here, Ne.symm here]

end Index

/-- Sorted entries, split into those with the smaller keys and the others. -/
theorem filter_split {V : Type} {entries : List (UInt64 × V)} (chosen : UInt64 × V → Bool)
    (sorted : entries.Pairwise (fun first second => first.1 < second.1))
    (ahead : ∀ first ∈ entries, ∀ second ∈ entries, chosen first = true → chosen second = false
      → first.1 < second.1)
    : entries.filter chosen ++ entries.filter (fun entry => !chosen entry) = entries := by
  induction entries with
  | nil => rfl
  | cons head rest ih =>
      obtain ⟨least, tail⟩ := List.pairwise_cons.mp sorted
      cases picked : chosen head with
      | true =>
          have split := ih tail (fun first member second member' =>
            ahead first (List.mem_cons_of_mem _ member) second (List.mem_cons_of_mem _ member'))
          simpa [picked] using split
      | false =>
          have none : ∀ entry ∈ rest, chosen entry = false := by
            intro entry member
            by_contra other
            have less := ahead entry (List.mem_cons_of_mem _ member) head (by simp)
              (Bool.not_eq_false _ ▸ other) picked
            exact absurd (UInt64.lt_trans less (least entry member)) (UInt64.lt_irrefl _)
          have dropped : rest.filter chosen = [] := by
            rw [List.filter_eq_nil_iff]
            intro entry member
            simp [none entry member]
          have kept : rest.filter (fun entry => !chosen entry) = rest := by
            rw [List.filter_eq_self]
            intro entry member
            simp [none entry member]
          simp [picked, dropped, kept]

/-- The first few of three parts, of which only the middle one is wanted. -/
theorem take_covers_iff {α : Type} {before middle behind : List α} {wanted : α → Prop}
    {count : Nat} (room : 0 < count) (nodup : middle.Nodup)
    (unwanted : ∀ item ∈ before ++ behind, ¬wanted item) (good : ∀ item ∈ middle, wanted item)
    : (∀ item, item ∈ (before ++ (middle ++ behind)).take count ↔ wanted item)
      ↔ before = [] ∧ middle.length ≤ count ∧ (middle.length = count ∨ behind = [])
        ∧ ∀ item, wanted item → item ∈ middle := by
  constructor
  · intro covers
    have first : before = [] := by
      cases before with
      | nil => rfl
      | cons item rest =>
          obtain ⟨more, rfl⟩ := Nat.exists_eq_succ_of_ne_zero (Nat.ne_of_gt room)
          exact absurd ((covers item).mp (by simp)) (unwanted item (by simp))
    subst first
    have inside : ∀ item, wanted item → item ∈ middle := by
      intro item isWanted
      rcases List.mem_append.mp (List.mem_of_mem_take ((covers item).mpr isWanted))
        with here | here
      · cases here
      rcases List.mem_append.mp here with here | late
      · exact here
      · exact absurd isWanted (unwanted item late)
    have few : middle.length ≤ count := by
      have short := (nodup.subperm
        (fun item member => (covers item).mpr (good item member))).length_le
      exact Nat.le_trans short (List.length_take_le ..)
    refine ⟨rfl, few, ?_, inside⟩
    by_contra more
    simp only [not_or] at more
    obtain ⟨item, rest, rfl⟩ := List.exists_cons_of_ne_nil more.2
    refine unwanted item (by simp) ((covers item).mp ?_)
    obtain ⟨gap, left⟩ : ∃ gap, count - middle.length = gap + 1 :=
      ⟨count - middle.length - 1, by omega⟩
    rw [List.nil_append, List.take_append, left, List.take_succ_cons]
    simp
  · rintro ⟨rfl, few, full, inside⟩ item
    have rest : behind.take (count - middle.length) = [] := by
      rcases full with full | rfl
      · rw [full, Nat.sub_self, List.take_zero]
      · exact List.take_nil
    rw [List.nil_append, List.take_append, List.take_of_length_le few, rest, List.append_nil]
    exact ⟨good item, inside item⟩

/-! ### Rows and their entries -/

variable {A : Type} {shared : Shared A} {table : Table} {low high key : UInt64} {rid : Rid}
  {record : table.Record A} {select : table.Record A → Bool}

/-- Every entry of the index leads to a row with its key. -/
structure Shared.Backed (shared : Shared A) (table : Table) : Prop where
  found : ∀ {key rid}, (shared.index table)[key]? = some rid
    → ∃ record, shared.rows table rid = some record ∧ table.key record = key

/-- Every row has its entry as well. -/
structure Shared.Indexed (shared : Shared A) (table : Table) : Prop
    extends shared.Backed table where
  listed : ∀ {rid record}, shared.rows table rid = some record
    → (shared.index table)[table.key record]? = some rid

/-- The entries of the rows that are selected, smallest key first. -/
def Shared.rowsWhere (shared : Shared A) (table : Table) (select : table.Record A → Bool)
    : List (UInt64 × Rid) :=
  (shared.index table).toList.filter (fun entry => (shared.rows table entry.2).any select)

theorem Shared.rowsWhere_sorted
    : (shared.rowsWhere table select).Pairwise (fun first second => first.1 < second.1) :=
  Index.toList_sorted.filter _

theorem Shared.rowsWhere_congr {other : table.Record A → Bool}
    (same : ∀ {rid record}, shared.rows table rid = some record → select record = other record)
    : shared.rowsWhere table select = shared.rowsWhere table other := by
  refine List.filter_congr (fun entry _ => ?_)
  cases row : shared.rows table entry.2 with
  | none => rfl
  | some record => exact same row

/-- A restriction that holds anyway. -/
theorem unrestricted {first second : Bool} (holds : first = true → second = true)
    : (first && second) = first := by
  cases first with
  | false => rfl
  | true => simp [holds rfl]

namespace Shared.Backed

theorem mem_rowsWhere (backed : shared.Backed table)
    : (key, rid) ∈ shared.rowsWhere table select
      ↔ ∃ record, shared.rows table rid = some record ∧ table.key record = key
        ∧ select record = true ∧ (shared.index table)[key]? = some rid := by
  rw [rowsWhere, List.mem_filter, Index.mem_toList, Option.any_eq_true]
  constructor
  · rintro ⟨entry, record, row, selected⟩
    obtain ⟨found, here, same⟩ := backed.found entry
    obtain rfl := Option.some.inj (row.symm.trans here)
    exact ⟨record, row, same, selected, entry⟩
  · rintro ⟨record, row, _, selected, entry⟩
    exact ⟨entry, record, row, selected⟩

/-- A row is found among them by its rid. -/
theorem mem_rids (backed : shared.Backed table)
    : rid ∈ (shared.rowsWhere table select).map Prod.snd
      ↔ ∃ record, shared.rows table rid = some record ∧ select record = true
        ∧ (shared.index table)[table.key record]? = some rid := by
  constructor
  · intro member
    obtain ⟨⟨key, _⟩, entry, rfl⟩ := List.mem_map.mp member
    obtain ⟨record, row, rfl, selected, found⟩ := backed.mem_rowsWhere.mp entry
    exact ⟨record, row, selected, found⟩
  · rintro ⟨record, row, selected, found⟩
    exact List.mem_map.mpr ⟨(table.key record, rid),
      backed.mem_rowsWhere.mpr ⟨record, row, rfl, selected, found⟩, rfl⟩

/-- A row has one entry. -/
theorem entry_unique (backed : shared.Backed table) {first second : UInt64 × Rid}
    (member : first ∈ shared.rowsWhere table select)
    (member' : second ∈ shared.rowsWhere table select) (same : first.2 = second.2)
    : first = second := by
  obtain ⟨key, rid⟩ := first
  obtain ⟨key', rid'⟩ := second
  obtain rfl : rid = rid' := same
  obtain ⟨record, row, rfl, _⟩ := backed.mem_rowsWhere.mp member
  obtain ⟨record', row', rfl, _⟩ := backed.mem_rowsWhere.mp member'
  rw [Option.some.inj (row.symm.trans row')]

/-- The whole range of a scan, if the keys in it are those of the rows selected. -/
theorem between_eq (backed : shared.Backed table)
    (scan : ∀ {rid record}, shared.rows table rid = some record
      → (InScan low high (table.key record) ↔ select record = true))
    : (shared.index table).between low high = shared.rowsWhere table select := by
  apply List.filter_congr
  rintro ⟨key, rid⟩ member
  obtain ⟨record, row, rfl⟩ := backed.found (Index.mem_toList.mp member)
  rw [row, Option.any_some, Bool.eq_iff_iff, decide_eq_true_eq]
  exact scan row

/-- What a scan returns, if the keys it meets are those of the rows selected. -/
theorem range_eq_rowsWhere {scan : IndexScan} (backed : shared.Backed table) (length : Nat)
    (met : ∀ {rid record}, shared.rows table rid = some record
      → (InScan low high (table.key record) ∧ (scan.closed = true ∨ table.key record ≠ high)
        ↔ select record = true))
    : scan.range (shared.index table) low high length
      = (shared.rowsWhere table select).take length := by
  rw [scan.range_eq, Index.between, List.filter_filter, rowsWhere]
  congr 1
  apply List.filter_congr
  rintro ⟨key, rid⟩ member
  obtain ⟨record, row, rfl⟩ := backed.found (Index.mem_toList.mp member)
  rw [row, Option.any_some, Bool.eq_iff_iff, ← met row]
  simp only [Bool.and_eq_true, Bool.or_eq_true, decide_eq_true_eq, InScan]
  tauto

/-- Rids that a scan returns are those of rows. -/
theorem scanned_row {scan : IndexScan} {length : Nat} (backed : shared.Backed table)
    (member : rid ∈ (scan.range (shared.index table) low high length).map Prod.snd)
    : ∃ record, shared.rows table rid = some record := by
  obtain ⟨⟨key, _⟩, entry, rfl⟩ := List.mem_map.mp member
  rw [scan.range_eq] at entry
  have between := List.mem_of_mem_filter (List.mem_of_mem_take entry)
  obtain ⟨record, row, _⟩ := backed.found (Index.mem_between.mp between).1
  exact ⟨record, row⟩

/-- Rids of distinct entries are distinct. -/
theorem rids_nodup (backed : shared.Backed table)
    : ((shared.rowsWhere table select).map Prod.snd).Nodup := by
  refine List.Nodup.map_on ?_ (nodup_of_sorted rowsWhere_sorted)
  intro first member second member' same
  exact backed.entry_unique member member' same

/-- Rows of two kinds, where those of the first kind have the smaller keys. -/
theorem rowsWhere_split {other : table.Record A → Bool} (backed : shared.Backed table)
    (apart : ∀ record, select record = true → other record = false)
    (ahead : ∀ {rid record rid' record'}, shared.rows table rid = some record
      → shared.rows table rid' = some record' → select record = true → other record' = true
      → table.key record < table.key record')
    : shared.rowsWhere table (fun record => select record || other record)
      = shared.rowsWhere table select ++ shared.rowsWhere table other := by
  rw [← filter_split (fun entry => (shared.rows table entry.2).any select) rowsWhere_sorted]
  · rw [rowsWhere, List.filter_filter, List.filter_filter]
    congr 1
    · refine List.filter_congr (fun entry _ => ?_)
      cases row : shared.rows table entry.2 with
      | none => rfl
      | some record => cases chosen : select record <;> simp [chosen]
    · refine List.filter_congr (fun entry _ => ?_)
      cases row : shared.rows table entry.2 with
      | none => rfl
      | some record =>
          cases chosen : select record with
          | false => simp [chosen]
          | true => simp [chosen, apart record chosen]
  · rintro ⟨_, rid⟩ member ⟨_, rid'⟩ member' chosen rejected
    obtain ⟨record, row, rfl, _⟩ := backed.mem_rowsWhere.mp member
    obtain ⟨record', row', rfl, either, _⟩ := backed.mem_rowsWhere.mp member'
    rw [row, Option.any_some] at chosen
    rw [row', Option.any_some] at rejected
    rw [rejected, Bool.false_or] at either
    exact ahead row row' chosen either

/-- The first entries of those reached are all the rows that are selected. -/
theorem scan_covers_iff {reach : table.Record A → Bool} (backed : shared.Backed table)
    (length : Nat)
    : (∀ rid,
        rid ∈ ((shared.rowsWhere table (fun record => select record && reach record)).take
            length).map Prod.snd
          ↔ ∃ record, shared.rows table rid = some record ∧ select record = true)
      ↔ (shared.rowsWhere table select).length ≤ length
        ∧ ∀ rid record, shared.rows table rid = some record → select record = true
          → (shared.index table)[table.key record]? = some rid ∧ reach record = true := by
  constructor
  · intro covers
    have reached : ∀ rid record, shared.rows table rid = some record → select record = true
        → (shared.index table)[table.key record]? = some rid ∧ reach record = true := by
      intro rid record row selected
      have member := (covers rid).mpr ⟨record, row, selected⟩
      rw [List.map_take] at member
      obtain ⟨other, row', selected', entry⟩ :=
        backed.mem_rids.mp (List.mem_of_mem_take member)
      obtain rfl := Option.some.inj (row.symm.trans row')
      exact ⟨entry, (Bool.and_eq_true_iff.mp selected').2⟩
    refine ⟨?_, reached⟩
    rw [rowsWhere_congr (fun row => unrestricted fun selected => (reached _ _ row selected).2)]
      at covers
    have all : (shared.rowsWhere table select).map Prod.snd
        ⊆ ((shared.rowsWhere table select).take length).map Prod.snd := by
      intro rid member
      obtain ⟨record, row, selected, _⟩ := backed.mem_rids.mp member
      exact (covers rid).mpr ⟨record, row, selected⟩
    have short := (backed.rids_nodup.subperm all).length_le
    rw [List.length_map, List.length_map, List.length_take] at short
    omega
  · rintro ⟨few, reached⟩ rid
    rw [rowsWhere_congr (fun row => unrestricted fun selected => (reached _ _ row selected).2),
      List.take_of_length_le few, backed.mem_rids]
    constructor
    · rintro ⟨record, row, selected, _⟩
      exact ⟨record, row, selected⟩
    · rintro ⟨record, row, selected⟩
      exact ⟨record, row, selected, (reached rid record row selected).1⟩

end Shared.Backed

theorem Shared.Indexed.mem_rowsWhere (indexed : shared.Indexed table)
    : (key, rid) ∈ shared.rowsWhere table select
      ↔ ∃ record, shared.rows table rid = some record ∧ table.key record = key
        ∧ select record = true := by
  rw [indexed.toBacked.mem_rowsWhere]
  constructor
  · rintro ⟨record, row, same, selected, _⟩
    exact ⟨record, row, same, selected⟩
  · rintro ⟨record, row, rfl, selected⟩
    exact ⟨record, row, rfl, selected, indexed.listed row⟩

/-! ### States with given rows -/

/-- A record in its place. -/
structure StoredRow (A : Type) where
  table : Table
  rid : Rid
  record : table.Record A

def StoredRow.entryKey (row : StoredRow A) : UInt64 :=
  row.table.key row.record

/-- The state after `DbTable::insert`. -/
def Shared.store (shared : Shared A) (row : StoredRow A) : Shared A :=
  (shared.after ⟨.insert row.table row.record, row.rid⟩).after
    ⟨.indexInsert row.table row.entryKey row.rid, (shared.index row.table)[row.entryKey]?⟩

def Shared.storing (rows : List (StoredRow A)) : Shared A :=
  rows.foldr (fun row shared => shared.store row) .empty

/-- Rows of one table have their own rids and keys. -/
def StoredRow.Apart (first second : StoredRow A) : Prop :=
  first.table = second.table → first.rid ≠ second.rid ∧ first.entryKey ≠ second.entryKey

instance : DecidableRel (StoredRow.Apart (A := A)) :=
  fun first second =>
    inferInstanceAs
      (Decidable (first.table = second.table
        → first.rid ≠ second.rid ∧ first.entryKey ≠ second.entryKey))

theorem Shared.rows_store (row : StoredRow A)
    : (shared.store row).rows
      = Function.update shared.rows row.table
          (Function.update (shared.rows row.table) row.rid (some row.record)) :=
  rfl

theorem Shared.index_store (row : StoredRow A)
    : (shared.store row).index
      = Function.update shared.index row.table
          ((shared.index row.table).insert row.entryKey row.rid) :=
  rfl

/-- A new row with a new key. -/
theorem Shared.Indexed.store {row : StoredRow A} (indexed : shared.Indexed table)
    (free : shared.rows row.table row.rid = none)
    (fresh : (shared.index row.table)[row.entryKey]? = none)
    : (shared.store row).Indexed table := by
  by_cases here : table = row.table
  · subst here
    have rows (rid : Rid)
        : (shared.store row).rows row.table rid
          = if rid = row.rid then some row.record else shared.rows row.table rid := by
      rw [rows_store, Function.update_self, Function.update_apply]
    have entries (key : UInt64)
        : ((shared.store row).index row.table)[key]?
          = if row.entryKey = key then some row.rid else (shared.index row.table)[key]? := by
      rw [index_store, Function.update_self, Std.TreeMap.getElem?_insert]
      simp only [Std.LawfulEqCmp.compare_eq_iff_eq]
    refine ⟨⟨?_⟩, ?_⟩
    · intro key rid entry
      rw [entries] at entry
      split at entry
      · rename_i same
        cases entry
        exact ⟨row.record, by rw [rows, if_pos rfl], same⟩
      · obtain ⟨record, there, same⟩ := indexed.found entry
        refine ⟨record, ?_, same⟩
        rw [rows, if_neg (by rintro rfl; rw [free] at there; cases there), there]
    · intro rid record there
      rw [rows] at there
      split at there
      · cases there
        rename_i same
        rw [entries, if_pos (show row.entryKey = row.table.key row.record from rfl), same]
      · have listed := indexed.listed there
        rw [entries, if_neg (by intro same; rw [same, listed] at fresh; cases fresh), listed]
  · have rows : (shared.store row).rows table = shared.rows table := by
      rw [rows_store, Function.update_of_ne here]
    have entries : (shared.store row).index table = shared.index table := by
      rw [index_store, Function.update_of_ne here]
    exact
      { found := by rw [rows, entries]; exact indexed.found
        listed := by rw [rows, entries]; exact indexed.listed }

theorem Shared.row_storing {rows : List (StoredRow A)}
    (row : (storing rows).rows table rid = some record)
    : ⟨table, rid, record⟩ ∈ rows := by
  induction rows with
  | nil => cases row
  | cons head rest ih =>
      change ((storing rest).store head).rows table rid = some record at row
      rw [rows_store] at row
      by_cases here : table = head.table
      · subst here
        rw [Function.update_self, Function.update_apply] at row
        split at row
        · rename_i same
          cases same
          cases row
          exact List.mem_cons_self ..
        · exact List.mem_cons_of_mem _ (ih row)
      · rw [Function.update_of_ne here] at row
        exact List.mem_cons_of_mem _ (ih row)

/-- Rows apart from each other are all found through the index. -/
theorem Shared.indexed_storing {rows : List (StoredRow A)}
    (apart : rows.Pairwise StoredRow.Apart) (table : Table)
    : (storing rows).Indexed table := by
  induction rows generalizing table with
  | nil => exact ⟨⟨fun entry => by simp [storing, empty] at entry⟩, fun row => by cases row⟩
  | cons head rest ih =>
      obtain ⟨first, later⟩ := List.pairwise_cons.mp apart
      refine (ih later table).store ?_ ?_
      · by_contra taken
        obtain ⟨record, row⟩ := Option.ne_none_iff_exists'.mp taken
        exact (first _ (row_storing row) rfl).1 rfl
      · by_contra taken
        obtain ⟨rid, entry⟩ := Option.ne_none_iff_exists'.mp taken
        obtain ⟨record, row, same⟩ := (ih later head.table).found entry
        exact (first _ (row_storing row) rfl).2 same.symm

/-- The rows of a table among these. -/
def recordsOf (table : Table) (rows : List (StoredRow A)) : List (table.Record A) :=
  rows.filterMap (fun row => if same : row.table = table then some (same ▸ row.record) else none)

theorem Shared.mem_recordsOf {rows : List (StoredRow A)}
    (row : (storing rows).rows table rid = some record)
    : record ∈ recordsOf table rows :=
  List.mem_filterMap.mpr ⟨_, row_storing row, dif_pos rfl⟩

/-! ### Entries in the order of their keys -/

/-- The last of the first few entries is the last one if there are no more than these. -/
theorem getLast?_take_iff {α : Type} {entries : List α} (nodup : entries.Nodup)
    (nonempty : entries ≠ []) (count : Nat)
    : (entries.take count).getLast? = entries.getLast? ↔ entries.length ≤ count := by
  constructor
  · intro same
    by_contra more
    have dropped : entries.drop count ≠ [] := by
      rw [Ne, List.drop_eq_nil_iff]
      exact more
    obtain ⟨last, here⟩ := Option.isSome_iff_exists.mp (List.getLast?_isSome.mpr nonempty)
    have early : last ∈ entries.take count := List.mem_of_getLast? (same.trans here)
    have late : last ∈ entries.drop count := by
      refine List.mem_of_getLast? ?_
      rw [← List.take_append_drop count entries, List.getLast?_append_of_ne_nil _ dropped] at here
      exact here
    exact List.disjoint_take_drop nodup (Nat.le_refl count) early late
  · intro few
    rw [List.take_of_length_le few]

/-- The newest entry of a range is the last one of a scan if the scan has room for all of them
and does not leave it out.
-/
theorem getLast?_scan_iff {V : Type} {entries : List (UInt64 × V)} {top : UInt64}
    (sorted : entries.Pairwise (fun first second => first.1 < second.1))
    (bounded : ∀ entry ∈ entries, entry.1 ≤ top) (nonempty : entries ≠ []) (closed : Bool)
    (count : Nat)
    : ((entries.filter (fun entry => closed || decide (entry.1 ≠ top))).take count).getLast?
        = entries.getLast?
      ↔ entries.length ≤ count ∧ (closed = true ∨ ∀ entry ∈ entries, entry.1 ≠ top) := by
  by_cases whole : closed = true ∨ ∀ entry ∈ entries, entry.1 ≠ top
  · have all : entries.filter (fun entry => closed || decide (entry.1 ≠ top)) = entries := by
      apply List.filter_eq_self.mpr
      intro entry member
      rcases whole with rfl | apart
      · simp
      · simp [apart entry member]
    rw [all, getLast?_take_iff (nodup_of_sorted sorted) nonempty]
    exact (and_iff_left whole).symm
  · refine iff_of_false ?_ (fun both => whole both.2)
    intro same
    simp only [not_or, Bool.not_eq_true, not_forall, not_not] at whole
    obtain ⟨rfl, entry, member, atTop⟩ := whole
    obtain ⟨last, here⟩ := Option.isSome_iff_exists.mp (List.getLast?_isSome.mpr nonempty)
    have kept := List.mem_of_mem_take (List.mem_of_getLast? (same.trans here))
    have below : last.1 ≠ top := by simpa using (List.mem_filter.mp kept).2
    obtain ⟨front, rfl⟩ := List.getLast?_eq_some_iff.mp here
    rcases List.mem_append.mp member with early | late
    · have less := (List.pairwise_append.mp sorted).2.2 entry early last (by simp)
      have bound := bounded last (by simp)
      rw [atTop] at less
      exact absurd less (UInt64.not_lt.mpr bound)
    · rw [List.mem_singleton.mp late] at atTop
      exact below atTop

/-- The last of sorted entries has the largest key. -/
theorem getLast?_eq_some_iff_largest {V : Type} {entries : List (UInt64 × V)}
    {entry : UInt64 × V} (sorted : entries.Pairwise (fun first second => first.1 < second.1))
    : entries.getLast? = some entry ↔ entry ∈ entries ∧ ∀ other ∈ entries, other.1 ≤ entry.1 := by
  constructor
  · intro last
    refine ⟨List.mem_of_getLast? last, ?_⟩
    obtain ⟨front, rfl⟩ := List.getLast?_eq_some_iff.mp last
    intro other member
    rcases List.mem_append.mp member with early | late
    · exact UInt64.le_of_lt ((List.pairwise_append.mp sorted).2.2 other early entry (by simp))
    · rw [List.mem_singleton.mp late]
      exact UInt64.le_refl _
  · rintro ⟨member, largest⟩
    obtain ⟨last, here⟩ :=
      Option.isSome_iff_exists.mp (List.getLast?_isSome.mpr (List.ne_nil_of_mem member))
    rw [here]
    obtain ⟨front, rfl⟩ := List.getLast?_eq_some_iff.mp here
    rcases List.mem_append.mp member with early | late
    · have less := (List.pairwise_append.mp sorted).2.2 entry early last (by simp)
      exact absurd less (UInt64.not_lt.mpr (largest last (by simp)))
    · rw [List.mem_singleton.mp late]

end Alchemy.Tpcc
