import Alchemy.Tpcc.Rows

/-! The shared data cell by cell. An operation changes one cell at most, and what it leaves there
depends on that cell only, so changes of different cells can be made in any order.
-/

namespace Alchemy.Tpcc

open Cache Oid Interaction

variable {A : Type}

/-- A record, or an entry of an index. -/
inductive Cell
  | row (table : Table) (rid : Rid)
  | entry (table : Table) (key : UInt64)
  | lastName (key : UInt64)
  | newOrder (key : UInt64)
deriving DecidableEq

/-- The cell an operation changes. -/
def written : Step A → Option Cell
  | ⟨.insert table _, rid⟩ => some (.row table rid)
  | ⟨.getValueMut table rid _ _ _, _⟩ => some (.row table rid)
  | ⟨.indexInsert table key _, _⟩ => some (.entry table key)
  | ⟨.lastNameInsert key _, _⟩ => some (.lastName key)
  | ⟨.newOrderInsert key _, _⟩ => some (.newOrder key)
  | ⟨.newOrderRemove key, _⟩ => some (.newOrder key)
  | _ => none

theorem written_row {step : Step A} {table : Table} {rid : Rid}
    : written step = some (.row table rid) ↔ touched step = some (table, rid) := by
  obtain ⟨op, answer⟩ := step
  cases op <;> simp [written, touched]

namespace Shared

variable {left right third shared : Shared A} {step first second : Step A} {cell : Cell}

/-- The cell has the same content. -/
def Agree (left right : Shared A) : Cell → Prop
  | .row table rid => left.rows table rid = right.rows table rid
  | .entry table key => (left.index table)[key]? = (right.index table)[key]?
  | .lastName key => left.cLastIdx[key]? = right.cLastIdx[key]?
  | .newOrder key => left.newOrder[key]? = right.newOrder[key]?

/-- The same content everywhere; an index may be balanced in another way. -/
def Same (left right : Shared A) : Prop :=
  ∀ cell, left.Agree right cell

theorem Agree.refl (shared : Shared A) (cell : Cell) : shared.Agree shared cell := by
  cases cell <;> rfl

theorem Agree.symm (agree : left.Agree right cell) : right.Agree left cell := by
  cases cell <;> exact Eq.symm agree

theorem Agree.trans (first : left.Agree right cell) (second : right.Agree third cell)
    : left.Agree third cell := by
  cases cell <;> exact Eq.trans first second

/-- A scan finds the same entries. -/
theorem range_eq {V : Type} {left right : Index V} (same : ∀ key : UInt64, left[key]? = right[key]?)
    (scan : IndexScan) (low high : UInt64) (length : Nat)
    : scan.range left low high length = scan.range right low high length := by
  rw [scan.range_eq, scan.range_eq, Index.between, Index.between,
    (Std.TreeMap.Equiv.of_forall_constGet?_eq same).toList_eq]

/-- An operation leaves all other cells alone. -/
theorem after_agree (apart : written step ≠ some cell) : (shared.after step).Agree shared cell := by
  obtain ⟨op, answer⟩ := step
  cases op with
  | insert | getValueMut =>
      cases cell with
      | row table rid => exact after_rows (fun touches => apart (written_row.mpr touches))
      | entry | lastName | newOrder => rfl
  | indexInsert target key rid =>
      cases cell with
      | entry table key' =>
          by_cases same : table = target
          · subst same
            have different : key ≠ key' := by
              rintro rfl
              exact apart rfl
            simp [Agree, after, setIndex, Index.getElem?_insert, different]
          · simp [Agree, after, setIndex, same]
      | row | lastName | newOrder => rfl
  | lastNameInsert key | newOrderInsert key | newOrderRemove key =>
      cases cell with
      | lastName key' | newOrder key' =>
          by_cases same : key = key'
          · subst same
            first | exact absurd rfl apart | rfl
          · simp [Agree, after, Index.getElem?_insert, Std.TreeMap.getElem?_erase, same]
      | row | entry => rfl
  | _ => exact .refl _ _

/-- What an operation leaves in a cell depends on that cell only. -/
theorem Agree.after (agree : left.Agree right cell)
    : (left.after step).Agree (right.after step) cell := by
  by_cases apart : written step = some cell
  · obtain ⟨op, answer⟩ := step
    cases op with
    | insert | getValueMut | indexInsert | lastNameInsert | newOrderInsert | newOrderRemove =>
        cases apart
        simp only [Agree] at agree
        simp [Agree, Shared.after, setIndex, agree]
    | _ => cases apart
  · exact ((after_agree apart).trans agree).trans (after_agree apart).symm

/-- Changes of different cells can be made in any order. -/
theorem after_comm (apart : ∀ cell, written first = some cell → written second ≠ some cell)
    : ((shared.after first).after second).Same ((shared.after second).after first) := by
  intro cell
  by_cases mine : written first = some cell
  · have untouched : (shared.after second).Agree shared cell := after_agree (apart cell mine)
    exact (after_agree (apart cell mine)).trans untouched.symm.after
  · have untouched : (shared.after first).Agree shared cell := after_agree mine
    exact untouched.after.trans (after_agree mine).symm

/-- Records come by insertion, and stay. -/
theorem after_rows_eq_none {table : Table} {rid : Rid}
    : (shared.after step).rows table rid = none
      ↔ shared.rows table rid = none ∧ ∀ record, step ≠ ⟨.insert table record, rid⟩ := by
  by_cases touches : touched step = some (table, rid)
  · obtain ⟨op, answer⟩ := step
    cases op with
    | insert | getValueMut =>
        cases touches
        simp [Shared.after]
    | _ => cases touches
  · rw [after_rows touches, iff_self_and]
    rintro _ record rfl
    exact touches rfl

end Shared

end Alchemy.Tpcc
