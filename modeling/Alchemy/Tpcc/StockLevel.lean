import Alchemy.Tpcc.OrderStatus

/-! `stock_level` run alone: which order lines it examines. It means to look at the last twenty
orders of the district, but the lower bound of its scan is always zero.
-/

namespace Alchemy.Tpcc

open Cache Oid Interaction

variable {A : Type} {config : DbConfig} {base solo : Solo A} {shared : Shared A}
  {seen : List Look}

/-! ### The transaction -/

/-- All schemas cache the quantity, which `stock_level` reads without asking for it. -/
theorem sQuantity_cached : Table.stock.Cached .sQuantity := by
  intro schema padding same
  cases schema with
  | stockTuple | stockCached => rfl
  | _ => cases same

/-- The warehouse has a stock row for the item of a line. -/
def Shared.Stocks (shared : Shared A) (wId : UInt64) (line : Table.orderLine.Record A) : Prop :=
  ∃ sRid stock, (shared.index .stock)[StockTuple.makeKey wId (line .olIId)]? = some sRid
    ∧ shared.rows .stock sRid = some stock

/-- The loop over the scanned lines reads all of them in order, if their items are in stock. -/
theorem alone_countShort {input : StockLevelInput} {rids : List Rid} {resultCnt : Nat}
    {post : Solo A → Except Stop Nat → Prop} (here : base.Leads shared seen solo)
    (stocked : ∀ rid ∈ rids, ∃ line, shared.rows .orderLine rid = some line
      ∧ shared.Stocks input.wId.toUInt64 line)
    (onward
      : ∀ more later count, rowsRead .orderLine more = rids
        → base.Leads shared (seen ++ more) later → post later (.ok count))
    : Alone config post (countShort input rids resultCnt) solo := by
  induction rids generalizing solo seen resultCnt with
  | nil => exact onward [] solo _ rfl (by simpa using here)
  | cons rid rest ih =>
      obtain ⟨line, row, sRid, stock, sFound, sRow⟩ := stocked rid (by simp)
      refine (alone_then _ _).mpr (alone_lockRid here row (fun _ here => ?_))
      refine (alone_then _ _).mpr (alone_read here (fun _ here => ?_))
      refine (alone_then _ _).mpr (alone_getValue here row (by simp) trivial (fun _ here => ?_))
      refine (alone_then _ _).mpr (alone_lockKey here sFound sRow (fun _ here => ?_))
      refine (alone_then _ _).mpr (alone_read here (fun _ here => ?_))
      refine (alone_then _ _).mpr (alone_find here sRow (.inr sQuantity_cached) ?_)
      intro sQuantity _ here
      refine (alone_then _ _).mpr (alone_drop here (fun _ here => ?_))
      refine (alone_then _ _).mpr (alone_drop here (fun _ here => ?_))
      refine ih here (fun other member => stocked other (List.mem_cons_of_mem _ member)) ?_
      intro more later count read leads
      refine onward ([.read .orderLine rid, .read .stock sRid] ++ more) later count ?_
        (by simpa using leads)
      rw [rowsRead_append, read]
      rfl

/-- What the scan for order lines returns. -/
def StockLevelInput.lineScan (config : DbConfig) (shared : Shared A) (input : StockLevelInput)
    (dNextOId : UInt64)
    : List Rid :=
  (config.scan.range (shared.index .orderLine)
    (OrderLineTuple.makeKey input.wId.toUInt64 input.dId.toUInt64 (min 0 (dNextOId - 20)) 0)
    (OrderLineTuple.makeKey input.wId.toUInt64 input.dId.toUInt64 dNextOId 0xffff) 128).map
    Prod.snd

section

variable (input : StockLevelInput) {dRid : Rid} {district : Table.district.Record A}

/-- `stock_level` reads the lines of its scan in order, and returns `Ok`. -/
theorem stockLevel_lines [Money A]
    (found
      : (shared.index .district)[DistrictTuple.makeKey input.wId.toUInt64 input.dId.toUInt64]?
        = some dRid)
    (row : shared.rows .district dRid = some district)
    (enough : (20 : UInt64) ≤ district .dNextOId) (lines : shared.Backed .orderLine)
    (stocked
      : ∀ rid ∈ input.lineScan config shared (district .dNextOId), ∀ line,
        shared.rows .orderLine rid = some line → shared.Stocks input.wId.toUInt64 line)
    : Alone config
        (fun last result =>
          result = .ok ()
          ∧ rowsRead .orderLine (looks last.log)
            = input.lineScan config shared (district .dNextOId))
        (stockLevel input) ⟨shared, []⟩ := by
  have here := Solo.Leads.refl (A := A) ⟨shared, []⟩
  refine (alone_then _ _).mpr (alone_lockKey here found row (fun _ here => ?_))
  refine (alone_then _ _).mpr (alone_read here (fun _ here => ?_))
  refine (alone_then _ _).mpr (alone_getValue here row (by simp) trivial (fun _ here => ?_))
  rw [settles, if_neg (UInt64.not_lt.mpr enough)]
  refine (alone_then _ _).mpr (alone_range here (fun rids same _ here => ?_))
  obtain rfl : rids = input.lineScan config shared (district .dNextOId) := same
  refine (alone_then _ _).mpr (alone_countShort here (fun rid member => ?_) ?_)
  · obtain ⟨line, lineRow⟩ := lines.scanned_row member
    exact ⟨line, lineRow, stocked rid member line lineRow⟩
  · intro more later count read leads
    refine ⟨rfl, ?_⟩
    rw [leads.looks, rowsRead_append, rowsRead_append, read]
    simp [looks, rowsRead]

end

/-! ### The lines of the recent orders -/

/-- Lines of the district's orders up to `n - 21`, from `n - 20` to `n - 1`, and lines of the
order `n` that the scan reaches.
-/
def olderLine (w d n : UInt64) (line : Table.orderLine.Record A) : Bool :=
  decide ((line .olWId = w ∧ line .olDId = d) ∧ (line .olOId : UInt64) < n - 20)

def recentLine (w d n : UInt64) (line : Table.orderLine.Record A) : Bool :=
  decide ((line .olWId = w ∧ line .olDId = d) ∧ n - 20 ≤ (line .olOId : UInt64)
    ∧ (line .olOId : UInt64) < n)

def newerLine (closed : Bool) (w d n : UInt64) (line : Table.orderLine.Record A) : Bool :=
  ofOrder w d n line && itemInReach closed (line .olIId)

section

variable {w d n : UInt64}

theorem olderLine_iff {line : Table.orderLine.Record A}
    : olderLine w d n line = true
      ↔ (line .olWId = w ∧ line .olDId = d) ∧ (line .olOId : UInt64) < n - 20 :=
  decide_eq_true_iff

theorem recentLine_iff {line : Table.orderLine.Record A}
    : recentLine w d n line = true
      ↔ (line .olWId = w ∧ line .olDId = d) ∧ n - 20 ≤ (line .olOId : UInt64)
        ∧ (line .olOId : UInt64) < n :=
  decide_eq_true_iff

theorem newerLine_iff {closed : Bool} {line : Table.orderLine.Record A}
    : newerLine closed w d n line = true
      ↔ (line .olWId = w ∧ line .olDId = d ∧ line .olOId = n)
        ∧ itemInReach closed (line .olIId) = true := by
  rw [newerLine, Bool.and_eq_true, ofOrder_iff]

/-- Lines that the scan meets and that are not old. -/
theorem notOlder {closed : Bool} {line : Table.orderLine.Record A} (enough : 20 ≤ n)
    (later : (recentLine w d n line || newerLine closed w d n line) = true)
    : (line .olWId = w ∧ line .olDId = d) ∧ n - 20 ≤ (line .olOId : UInt64) := by
  rcases (Bool.or_eq_true ..).mp later with recent | newer
  · obtain ⟨district, above, _⟩ := recentLine_iff.mp recent
    exact ⟨district, above⟩
  · obtain ⟨⟨isW, isD, same⟩, _⟩ := newerLine_iff.mp newer
    refine ⟨⟨isW, isD⟩, ?_⟩
    rw [same]
    exact UInt64.sub_le enough

theorem lineKey_lt_of_order {rid rid' : Rid} {line other : Table.orderLine.Record A}
    (fit : shared.LinesFit) (row : shared.rows .orderLine rid = some line)
    (row' : shared.rows .orderLine rid' = some other)
    (sameW : line .olWId = other .olWId) (sameD : line .olDId = other .olDId)
    (less : (line .olOId : UInt64) < other .olOId)
    : Table.orderLine.key line < Table.orderLine.key other := by
  refine (OrderLineTuple.sameOrder (fit rid line row) (fit rid' other row')).less.mpr ?_
  rw [sameW, sameD]
  simp only [List.cons_lt_cons_iff, UInt64.lt_irrefl, true_and, false_or]
  exact Or.inl less

/-- The scan meets the lines of all orders below `n`, and some of those of the order `n`. -/
theorem recent_range (lines : shared.Backed .orderLine) (fit : shared.LinesFit)
    (asked : Within [16, 8, 20] [w, d, n]) (enough : 20 ≤ n) (scan : IndexScan) (length : Nat)
    : scan.range (shared.index .orderLine) (OrderLineTuple.makeKey w d (min 0 (n - 20)) 0)
        (OrderLineTuple.makeKey w d n 0xffff) length
      = (shared.rowsWhere .orderLine (olderLine w d n)
          ++ (shared.rowsWhere .orderLine (recentLine w d n)
            ++ shared.rowsWhere .orderLine (newerLine scan.closed w d n))).take length := by
  obtain ⟨wide, district, order, _⟩ := asked
  have zero : min 0 (n - 20) = (0 : UInt64) := if_pos (UInt64.zero_le)
  have back : (n - 20).toNat = n.toNat - 20 := UInt64.toNat_sub_of_le n 20 enough
  have bottom : Within [16, 8, 20, 20] [w, d, 0, 0] :=
    ⟨wide, district, by decide, by decide, trivial⟩
  have top : Within [16, 8, 20, 20] [w, d, n, 0xffff] :=
    ⟨wide, district, order, by decide, trivial⟩
  rw [zero, ← lines.rowsWhere_split, ← lines.rowsWhere_split]
  · refine lines.range_eq_rowsWhere length ?_
    intro rid line row
    have within := fit rid line row
    rw [Table.key, orderLine_inScan_iff bottom top within, Ne,
      (OrderLineTuple.sameOrder within top).same]
    simp only [olderLine, recentLine, newerLine, ofOrder, itemInReach, Bool.and_eq_true,
      Bool.or_eq_true, decide_eq_true_eq, List.cons.injEq, and_true, UInt64.lt_iff_toNat_lt,
      UInt64.le_iff_toNat_le, ← UInt64.toNat_inj, back, UInt64.toNat_zero]
    cases scan.closed with
    | false =>
        simp only [Bool.false_eq_true, false_and, false_or, or_false]
        omega
    | true =>
        simp only [true_and, true_or, and_true]
        omega
  · intro line older
    obtain ⟨_, below⟩ := olderLine_iff.mp older
    rw [Bool.eq_false_iff]
    intro later
    exact absurd below (UInt64.not_lt.mpr (notOlder enough later).2)
  · intro rid line rid' other row row' older later
    obtain ⟨⟨isW, isD⟩, below⟩ := olderLine_iff.mp older
    obtain ⟨⟨isW', isD'⟩, above⟩ := notOlder enough later
    exact lineKey_lt_of_order fit row row' (isW.trans isW'.symm) (isD.trans isD'.symm)
      (UInt64.lt_of_lt_of_le below above)
  · intro line recent
    obtain ⟨_, _, below⟩ := recentLine_iff.mp recent
    rw [Bool.eq_false_iff, Ne, newerLine_iff]
    rintro ⟨⟨_, _, same⟩, _⟩
    rw [same] at below
    exact absurd below (UInt64.lt_irrefl _)
  · intro rid line rid' other row row' recent newer
    obtain ⟨⟨isW, isD⟩, _, below⟩ := recentLine_iff.mp recent
    obtain ⟨⟨isW', isD', same⟩, _⟩ := newerLine_iff.mp newer
    rw [← same] at below
    exact lineKey_lt_of_order fit row row' (isW.trans isW'.symm) (isD.trans isD'.symm) below

/-- The first lines of the scan are the recent ones. -/
theorem recent_covers_iff (lines : shared.Backed .orderLine) (closed : Bool) {length : Nat}
    (room : 0 < length)
    : (∀ rid,
        rid ∈ ((shared.rowsWhere .orderLine (olderLine w d n)
            ++ (shared.rowsWhere .orderLine (recentLine w d n)
              ++ shared.rowsWhere .orderLine (newerLine closed w d n))).take length).map Prod.snd
          ↔ ∃ line, shared.rows .orderLine rid = some line ∧ recentLine w d n line = true)
      ↔ shared.rowsWhere .orderLine (olderLine w d n) = []
        ∧ (shared.rowsWhere .orderLine (recentLine w d n)).length ≤ length
        ∧ ((shared.rowsWhere .orderLine (recentLine w d n)).length = length
          ∨ shared.rowsWhere .orderLine (newerLine closed w d n) = [])
        ∧ ∀ rid line, shared.rows .orderLine rid = some line → recentLine w d n line = true
          → (shared.index .orderLine)[Table.orderLine.key line]? = some rid := by
  rw [List.map_take, List.map_append, List.map_append, take_covers_iff room lines.rids_nodup]
  · simp only [List.map_eq_nil_iff, List.length_map, lines.mem_rids]
    refine and_congr_right (fun _ => and_congr_right (fun _ => and_congr_right (fun _ => ?_)))
    constructor
    · intro listed rid line row recent
      obtain ⟨other, row', _, entry⟩ := listed rid ⟨line, row, recent⟩
      obtain rfl := Option.some.inj (row.symm.trans row')
      exact entry
    · rintro listed rid ⟨line, row, recent⟩
      exact ⟨line, row, recent, listed rid line row recent⟩
  · rintro rid member ⟨line, row, recent⟩
    obtain ⟨_, above, below⟩ := recentLine_iff.mp recent
    rcases List.mem_append.mp member with early | late
    · obtain ⟨other, row', older, _⟩ := lines.mem_rids.mp early
      obtain rfl := Option.some.inj (row.symm.trans row')
      exact absurd (olderLine_iff.mp older).2 (UInt64.not_lt.mpr above)
    · obtain ⟨other, row', newer, _⟩ := lines.mem_rids.mp late
      obtain rfl := Option.some.inj (row.symm.trans row')
      rw [(newerLine_iff.mp newer).1.2.2] at below
      exact absurd below (UInt64.lt_irrefl _)
  · intro rid member
    obtain ⟨line, row, recent, _⟩ := lines.mem_rids.mp member
    exact ⟨line, row, recent⟩

end

/-- The district exists, its next order id is at least 20, and the items of the lines that the scan
meets are in stock. `stock_level` returns `Ok` and has read exactly the lines of the last twenty
orders if and only if no line of an earlier order is in the index, the recent lines fit the buffer,
they fill it or no line with the next order id is in reach, and all of them are in the index.
-/
theorem stock_level_recent_iff [Money A] (input : StockLevelInput) {dRid : Rid}
    {district : Table.district.Record A}
    (found
      : (shared.index .district)[DistrictTuple.makeKey input.wId.toUInt64 input.dId.toUInt64]?
        = some dRid)
    (row : shared.rows .district dRid = some district)
    (enough : (20 : UInt64) ≤ district .dNextOId)
    (asked
      : Within [16, 8, 20] [input.wId.toUInt64, input.dId.toUInt64, district .dNextOId])
    (lines : shared.Backed .orderLine) (fit : shared.LinesFit)
    (stocked
      : ∀ rid ∈ input.lineScan config shared (district .dNextOId), ∀ line,
        shared.rows .orderLine rid = some line → shared.Stocks input.wId.toUInt64 line)
    : Alone config
        (fun last result =>
          result = .ok ()
          ∧ ∀ rid, rid ∈ rowsRead .orderLine (looks last.log)
            ↔ ∃ line, shared.rows .orderLine rid = some line
              ∧ recentLine input.wId.toUInt64 input.dId.toUInt64 (district .dNextOId) line
                = true)
        (stockLevel input) ⟨shared, []⟩
      ↔ shared.rowsWhere .orderLine
          (olderLine input.wId.toUInt64 input.dId.toUInt64 (district .dNextOId)) = []
        ∧ (shared.rowsWhere .orderLine
            (recentLine input.wId.toUInt64 input.dId.toUInt64 (district .dNextOId))).length ≤ 128
        ∧ ((shared.rowsWhere .orderLine
              (recentLine input.wId.toUInt64 input.dId.toUInt64 (district .dNextOId))).length = 128
          ∨ shared.rowsWhere .orderLine
              (newerLine config.scan.closed input.wId.toUInt64 input.dId.toUInt64
                (district .dNextOId)) = [])
        ∧ ∀ rid line, shared.rows .orderLine rid = some line
          → recentLine input.wId.toUInt64 input.dId.toUInt64 (district .dNextOId) line = true
          → (shared.index .orderLine)[Table.orderLine.key line]? = some rid := by
  rw [← recent_covers_iff lines config.scan.closed (by decide : 0 < 128),
    ← recent_range lines fit asked enough]
  have examines : Alone config _ (stockLevel input) ⟨shared, []⟩ :=
    stockLevel_lines input found row enough lines stocked
  constructor
  · intro ensures
    obtain ⟨last, _, ⟨_, covers⟩, _, same⟩ := Prog.Ensures.meet ensures examines
    rw [same] at covers
    exact covers
  · intro covers
    refine Prog.Ensures.mono examines ?_
    rintro last result ⟨ends, same⟩
    rw [same]
    exact ⟨ends, covers⟩

/-- A district with an order id to come, one line of the first item for each of some orders, and
the item in stock.
-/
def districtLines (dNextOId : UInt64) (orders : List Nat) : List (StoredRow UInt64) :=
  ⟨.district, 0, Function.update Table.district.zeroed .dNextOId dNextOId⟩
    :: ⟨.stock, 0, Table.stock.zeroed⟩
    :: orders.map (fun oId =>
      ⟨.orderLine, BitVec.ofNat 32 oId,
        Function.update Table.orderLine.zeroed .olOId oId.toUInt64⟩)

/-- Lines of the first item find it in stock. -/
theorem districtLines_stocks {dNextOId : UInt64} {orders : List Nat} {rid : Rid}
    {line : Table.orderLine.Record UInt64}
    (indexed : (Shared.storing (districtLines dNextOId orders)).Indexed .stock)
    (item : ∀ line ∈ recordsOf .orderLine (districtLines dNextOId orders), line .olIId = (0 : UInt64))
    (row : (Shared.storing (districtLines dNextOId orders)).rows .orderLine rid = some line)
    : (Shared.storing (districtLines dNextOId orders)).Stocks 0 line := by
  have stock : (Shared.storing (districtLines dNextOId orders)).rows .stock 0
      = some Table.stock.zeroed := by
    simp [districtLines, Shared.storing, Shared.rows_store]
  have key : Table.stock.key (Table.stock.zeroed (A := UInt64)) = StockTuple.makeKey 0 0 := rfl
  refine ⟨0, _, ?_, stock⟩
  rw [item line (Shared.mem_recordsOf row), ← key]
  exact indexed.listed stock

/-- Twenty orders of one line each: they are the last twenty. -/
theorem stock_level_recent_of_first
    : Alone (.wholeTuples true)
        (fun last result =>
          result = .ok ()
          ∧ ∀ rid, rid ∈ rowsRead .orderLine (looks last.log)
            ↔ ∃ line,
                (Shared.storing (districtLines 20 (List.range 20))).rows .orderLine rid
                  = some line
                ∧ recentLine 0 0 20 line = true)
        (stockLevel ⟨0, 0, 15⟩) ⟨Shared.storing (districtLines 20 (List.range 20)), []⟩ := by
  have indexed := Shared.indexed_storing
    (by decide +kernel : (districtLines 20 (List.range 20)).Pairwise StoredRow.Apart)
  have row : (Shared.storing (districtLines 20 (List.range 20))).rows .district 0
      = some (Function.update Table.district.zeroed .dNextOId (20 : UInt64)) :=
    rfl
  refine (stock_level_recent_iff ⟨0, 0, 15⟩ (by decide +kernel) row (by decide +kernel)
    ⟨by decide, by decide, by decide, trivial⟩ (indexed .orderLine).toBacked
    (storing_linesFit (by decide +kernel))
    (fun _ _ _ => districtLines_stocks (indexed .stock) (by decide +kernel))).mpr ?_
  exact ⟨by decide +kernel, by decide +kernel, Or.inr (by decide +kernel),
    fun rid line row _ => (indexed .orderLine).listed row⟩

/-- With the next order id 21, the line of order 0 is read, though its order is the twenty-first
from the last.
-/
theorem old_line_examined
    : (∀ table, (Shared.storing (districtLines 21 (List.range 21))).Indexed table)
      ∧ (Shared.storing (districtLines 21 (List.range 21))).LinesFit
      ∧ (∀ rid line,
          (Shared.storing (districtLines 21 (List.range 21))).rows .orderLine rid = some line
          → (Shared.storing (districtLines 21 (List.range 21))).Stocks 0 line)
      ∧ Alone (.wholeTuples true)
          (fun last result => result = .ok () ∧ 0 ∈ rowsRead .orderLine (looks last.log))
          (stockLevel ⟨0, 0, 15⟩) ⟨Shared.storing (districtLines 21 (List.range 21)), []⟩
      ∧ ∃ line,
          (Shared.storing (districtLines 21 (List.range 21))).rows .orderLine 0 = some line
          ∧ recentLine 0 0 21 line = false := by
  have indexed := Shared.indexed_storing
    (by decide +kernel : (districtLines 21 (List.range 21)).Pairwise StoredRow.Apart)
  have row : (Shared.storing (districtLines 21 (List.range 21))).rows .district 0
      = some (Function.update Table.district.zeroed .dNextOId (21 : UInt64)) :=
    rfl
  have stocked : ∀ rid line,
      (Shared.storing (districtLines 21 (List.range 21))).rows .orderLine rid = some line
      → (Shared.storing (districtLines 21 (List.range 21))).Stocks 0 line :=
    fun _ _ => districtLines_stocks (indexed .stock) (by decide +kernel)
  refine ⟨indexed, storing_linesFit (by decide +kernel), stocked, ?_, _, rfl, by decide +kernel⟩
  refine Prog.Ensures.mono (stockLevel_lines ⟨0, 0, 15⟩ (by decide +kernel) row
    (by decide +kernel) (indexed .orderLine).toBacked (fun rid _ line => stocked rid line)) ?_
  rintro last _ ⟨ends, same⟩
  rw [same]
  exact ⟨ends, by decide +kernel⟩

end Alchemy.Tpcc
