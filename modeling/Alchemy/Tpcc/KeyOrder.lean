import Alchemy.Library.MixedRadix
import Alchemy.Tpcc.Transactions

/-! Composite keys order records as their components do, and the scans that ask for a prefix of
the components get the records with that prefix.
-/

namespace Alchemy.Tpcc

open MixedRadix

/-- Components inside the widths, in bits, that an encoder gives them. -/
def Within (widths : List Nat) (parts : List UInt64) : Prop :=
  Fits widths (parts.map UInt64.toNat)

instance (widths : List Nat) (parts : List UInt64) : Decidable (Within widths parts) :=
  decidableFits widths (parts.map UInt64.toNat)

/-- Two keys compare as their components do, the leading one first. -/
structure SameOrder {P : Type} [LT P] (key other : UInt64) (parts others : List P) : Prop where
  less : key < other ↔ parts < others
  same : key = other ↔ parts = others

/-- The key lies in a scan, both ends included. -/
def InScan (low high key : UInt64) : Prop :=
  low ≤ key ∧ key ≤ high

/-! ### From digits to components -/

theorem map_lt_map {P : Type} [LT P] {digit : P → Nat} (less : ∀ a b, digit a < digit b ↔ a < b)
    (inj : Function.Injective digit) (parts others : List P)
    : parts.map digit < others.map digit ↔ parts < others := by
  induction parts generalizing others with
  | nil => cases others <;> simp
  | cons part parts ih =>
      cases others with
      | nil => simp
      | cons other others =>
          simp only [List.map_cons, List.cons_lt_cons_iff, less, inj.eq_iff, ih]

theorem sameOrder_of_value {P : Type} [LT P] {digit : P → Nat} {widths : List Nat}
    {parts others : List P} {key other : UInt64} (less : ∀ a b, digit a < digit b ↔ a < b)
    (inj : Function.Injective digit) (fits : Fits widths (parts.map digit))
    (fits' : Fits widths (others.map digit))
    (number : key.toNat = value widths (parts.map digit))
    (number' : other.toNat = value widths (others.map digit))
    : SameOrder key other parts others where
  less := by
    rw [UInt64.lt_iff_toNat_lt, number, number', value_lt_iff fits fits',
      map_lt_map less inj]
  same := by
    rw [← UInt64.toNat_inj, number, number', value_inj fits fits',
      (List.map_injective_iff.mpr inj).eq_iff]

theorem Within.sameOrder {widths : List Nat} {parts others : List UInt64} {key other : UInt64}
    (fits : Within widths parts) (fits' : Within widths others)
    (number : key.toNat = value widths (parts.map UInt64.toNat))
    (number' : other.toNat = value widths (others.map UInt64.toNat))
    : SameOrder key other parts others :=
  sameOrder_of_value (fun _ _ => UInt64.lt_iff_toNat_lt.symm) (fun _ _ => UInt64.toNat_inj.mp)
    fits fits' number number'

/-! ### The encoders -/

variable {w d l c o i : UInt64}

theorem DistrictTuple.makeKey_value (within : Within [16, 16] [w, d])
    : (DistrictTuple.makeKey w d).toNat = value [16, 48] [w.toNat, d.toNat] := by
  obtain ⟨wide, district, _⟩ := within
  rw [DistrictTuple.makeKey_toNat wide (Nat.lt_trans district (by decide))]
  simp [value]

theorem CustomerTuple.makeKey_value (within : Within [16, 16, 16] [w, d, c])
    : (CustomerTuple.makeKey w d c).toNat
      = value [16, 16, 32] [w.toNat, d.toNat, c.toNat] := by
  obtain ⟨wide, district, customer, _⟩ := within
  rw [CustomerTuple.makeKey_toNat wide district (Nat.lt_trans customer (by decide))]
  simp [value, Nat.add_assoc]

theorem NewOrderTuple.makeKey_value (within : Within [16, 16, 16, 16] [w, d, o, c])
    : (NewOrderTuple.makeKey w d o c).toNat
      = value [16, 16, 16, 16] [w.toNat, d.toNat, o.toNat, c.toNat] := by
  obtain ⟨wide, district, order, customer, _⟩ := within
  rw [NewOrderTuple.makeKey_toNat wide district order customer]
  simp [value, Nat.add_assoc]

theorem OrderLineTuple.makeKey_value (within : Within [16, 8, 20, 20] [w, d, o, i])
    : (OrderLineTuple.makeKey w d o i).toNat
      = value [16, 8, 20, 20] [w.toNat, d.toNat, o.toNat, i.toNat] := by
  obtain ⟨wide, district, order, item, _⟩ := within
  rw [OrderLineTuple.makeKey_toNat wide district order item]
  simp [value, Nat.add_assoc]

theorem StockTuple.makeKey_value (within : Within [16, 32] [w, i])
    : (StockTuple.makeKey w i).toNat = value [16, 32] [w.toNat, i.toNat] := by
  obtain ⟨wide, item, _⟩ := within
  rw [StockTuple.makeKey_toNat (Nat.lt_trans wide (by decide)) item]
  simp [value]

/-- A `u16` as a component. -/
theorem toNat_shl_u16 {part : UInt16} {bits : Nat} (small : bits ≤ 48)
    : (part.toUInt64 <<< UInt64.ofNat bits).toNat = part.toNat * 2 ^ bits := by
  have fits : part.toUInt64.toNat < 2 ^ (64 - bits) :=
    Nat.lt_of_lt_of_le part.toNat_lt (Nat.pow_le_pow_right (by decide) (by omega))
  rw [toNat_shl (by omega) fits]
  rfl

theorem CustomerTuple.idxKeyLastname_value (w d l c : UInt16)
    : (CustomerTuple.idxKeyLastname w d l c).toNat
      = value [16, 16, 16, 16] ([w, d, l, c].map UInt16.toNat) := by
  have first : (w.toUInt64 <<< 48).toNat = w.toNat * 2 ^ 48 := toNat_shl_u16 (by decide)
  have second : (d.toUInt64 <<< 32).toNat = d.toNat * 2 ^ 32 := toNat_shl_u16 (by decide)
  have third : (l.toUInt64 <<< 16).toNat = l.toNat * 2 ^ 16 := toNat_shl_u16 (by decide)
  have last : c.toUInt64.toNat = c.toNat := rfl
  have bounds := And.intro (And.intro w.toNat_lt d.toNat_lt) (And.intro l.toNat_lt c.toNat_lt)
  rw [CustomerTuple.idxKeyLastname, UInt64.toNat_add, UInt64.toNat_add, UInt64.toNat_add, first,
    second, third, last]
  simp only [value, List.map_cons, List.sum_cons, List.sum_nil]
  omega

theorem fits_u16 (w d l c : UInt16) : Fits [16, 16, 16, 16] ([w, d, l, c].map UInt16.toNat) :=
  ⟨w.toNat_lt, d.toNat_lt, l.toNat_lt, c.toNat_lt, trivial⟩

theorem NewOrderTuple.sameOrder {w' d' o' c' : UInt64}
    (within : Within [16, 16, 16, 16] [w, d, o, c])
    (within' : Within [16, 16, 16, 16] [w', d', o', c'])
    : SameOrder (NewOrderTuple.makeKey w d o c) (NewOrderTuple.makeKey w' d' o' c')
        [w, d, o, c] [w', d', o', c'] :=
  within.sameOrder within' (NewOrderTuple.makeKey_value within)
    (NewOrderTuple.makeKey_value within')

/-- A new-order key gives back the order id and the customer id. -/
theorem NewOrderTuple.oCIdFromKey_makeKey (within : Within [16, 16, 16, 16] [w, d, o, c])
    : NewOrderTuple.oCIdFromKey (NewOrderTuple.makeKey w d o c) = (o, c) := by
  obtain ⟨wide, district, order, customer, _⟩ := within
  have number := NewOrderTuple.makeKey_toNat wide district order customer
  have low (n : Nat) : n &&& 0xffff = n % 2 ^ 16 := Nat.and_two_pow_sub_one_eq_mod n 16
  rw [NewOrderTuple.oCIdFromKey, Prod.mk.injEq]
  constructor
  · rw [← UInt64.toNat_inj]
    have mask : (0x00000000ffff0000 : UInt64).toNat = 0xffff0000 := rfl
    have shift : (16 : UInt64).toNat % 64 = 16 := rfl
    rw [UInt64.toNat_shiftRight, UInt64.toNat_and, shift, mask, Nat.shiftRight_and_distrib,
      show 0xffff0000 >>> 16 = 0xffff from rfl, low, Nat.shiftRight_eq_div_pow, number]
    omega
  · rw [← UInt64.toNat_inj]
    have mask : (0x000000000000ffff : UInt64).toNat = 0xffff := rfl
    rw [UInt64.toNat_and, mask, low, number]
    omega

theorem OrderLineTuple.sameOrder {w' d' o' i' : UInt64}
    (within : Within [16, 8, 20, 20] [w, d, o, i])
    (within' : Within [16, 8, 20, 20] [w', d', o', i'])
    : SameOrder (OrderLineTuple.makeKey w d o i) (OrderLineTuple.makeKey w' d' o' i')
        [w, d, o, i] [w', d', o', i'] :=
  within.sameOrder within' (OrderLineTuple.makeKey_value within)
    (OrderLineTuple.makeKey_value within')

/-! ### The scans -/

/-- A scan between keys that share their leading components. -/
theorem scanned_iff {P : Type} {digit : P → Nat} {leading chosen : List P}
    {bottom key top : UInt64} (front back : List Nat) (low parts high : List P)
    (inj : Function.Injective digit)
    (lowFits : Fits front (leading.map digit) ∧ Fits back (low.map digit))
    (fits : Fits front (chosen.map digit) ∧ Fits back (parts.map digit))
    (highFits : Fits back (high.map digit))
    (bottomNumber : bottom.toNat = value (front ++ back) (leading.map digit ++ low.map digit))
    (number : key.toNat = value (front ++ back) (chosen.map digit ++ parts.map digit))
    (topNumber : top.toNat = value (front ++ back) (leading.map digit ++ high.map digit))
    (above : value back (low.map digit) ≤ value back (parts.map digit))
    (below : value back (parts.map digit) ≤ value back (high.map digit))
    : InScan bottom top key ↔ chosen = leading := by
  rw [InScan, UInt64.le_iff_toNat_le, UInt64.le_iff_toNat_le, bottomNumber, number, topNumber,
    between_iff lowFits.1 fits.1 lowFits.2 fits.2 highFits above below,
    (List.map_injective_iff.mpr inj).eq_iff]

/-- The scan of `delivery` for the undelivered orders of a district. -/
theorem newOrder_scanned {w' d' : UInt64} (scan : Within [16, 16] [w, d])
    (within : Within [16, 16, 16, 16] [w', d', o, c])
    : InScan (NewOrderTuple.makeKey w d 0 0) (NewOrderTuple.makeKey w d 0xffff 0xffff)
        (NewOrderTuple.makeKey w' d' o c)
      ↔ [w', d'] = [w, d] := by
  obtain ⟨wide, district, _⟩ := scan
  obtain ⟨wide', district', order, customer, _⟩ := id within
  refine scanned_iff [16, 16] [16, 16] [0, 0] [o, c] [0xffff, 0xffff]
    (fun _ _ => UInt64.toNat_inj.mp)
    ⟨⟨wide, district, trivial⟩, by decide, by decide, trivial⟩
    ⟨⟨wide', district', trivial⟩, order, customer, trivial⟩ ⟨by decide, by decide, trivial⟩
    (NewOrderTuple.makeKey_value ⟨wide, district, by decide, by decide, trivial⟩)
    (NewOrderTuple.makeKey_value within)
    (NewOrderTuple.makeKey_value ⟨wide, district, by decide, by decide, trivial⟩) ?_ ?_
  · exact Nat.zero_le _
  · have last : (0xffff : UInt64).toNat = 2 ^ 16 - 1 := rfl
    simp only [value, List.map_cons, List.sum_cons, List.sum_nil, last]
    omega

/-- The scan of `delivery` for the lines of an order. -/
theorem orderLine_scanned {w' d' o' : UInt64} (scan : Within [16, 8, 20] [w, d, o])
    (within : Within [16, 8, 20, 20] [w', d', o', i]) (item : i.toNat ≤ itemScale)
    : InScan (OrderLineTuple.makeKey w d o 0) (OrderLineTuple.makeKey w d o itemScale.toUInt64)
        (OrderLineTuple.makeKey w' d' o' i)
      ↔ [w', d', o'] = [w, d, o] := by
  obtain ⟨wide, district, order, _⟩ := scan
  obtain ⟨wide', district', order', small, _⟩ := id within
  refine scanned_iff [16, 8, 20] [20] [0] [i] [itemScale.toUInt64]
    (fun _ _ => UInt64.toNat_inj.mp)
    ⟨⟨wide, district, order, trivial⟩, by decide, trivial⟩
    ⟨⟨wide', district', order', trivial⟩, small, trivial⟩ ⟨by decide, trivial⟩
    (OrderLineTuple.makeKey_value ⟨wide, district, order, by decide, trivial⟩)
    (OrderLineTuple.makeKey_value within)
    (OrderLineTuple.makeKey_value ⟨wide, district, order, by decide, trivial⟩) ?_ ?_
  · exact Nat.zero_le _
  · have last : itemScale.toUInt64.toNat = itemScale := rfl
    simpa [value, last] using item

/-- A scan from one pair of order and item of a district to another. -/
theorem orderLine_inScan_iff {w' d' o' low high top : UInt64}
    (bottom : Within [16, 8, 20, 20] [w, d, low, 0])
    (ceiling : Within [16, 8, 20, 20] [w, d, high, top])
    (within : Within [16, 8, 20, 20] [w', d', o', i])
    : InScan (OrderLineTuple.makeKey w d low 0) (OrderLineTuple.makeKey w d high top)
        (OrderLineTuple.makeKey w' d' o' i)
      ↔ (w' = w ∧ d' = d) ∧ low ≤ o' ∧ (o' < high ∨ o' = high ∧ i ≤ top) := by
  rw [InScan, ← UInt64.not_lt, ← UInt64.not_lt,
    (OrderLineTuple.sameOrder within bottom).less, (OrderLineTuple.sameOrder ceiling within).less]
  simp only [List.cons_lt_cons_iff, List.not_lt_nil, and_false, or_false, UInt64.lt_iff_toNat_lt,
    UInt64.le_iff_toNat_le, ← UInt64.toNat_inj, UInt64.toNat_zero]
  omega

/-- The scan of `order_status` for the orders of a customer. -/
theorem order_scanned {w' d' c' : UInt64} (scan : Within [16, 16, 16] [w, d, c])
    (within : Within [16, 16, 16, 16] [w', d', c', o])
    : InScan (OrderTuple.makeKey w d c 0) (OrderTuple.makeKey w d c 0xffff)
        (OrderTuple.makeKey w' d' c' o)
      ↔ w' = w ∧ d' = d ∧ c' = c := by
  obtain ⟨wide, district, customer, _⟩ := scan
  have last : (0xffff : UInt64).toNat = 2 ^ 16 - 1 := rfl
  have small := within.2.2.2.1
  rw [InScan, ← UInt64.not_lt, ← UInt64.not_lt, OrderTuple.makeKey_eq, OrderTuple.makeKey_eq,
    OrderTuple.makeKey_eq,
    (NewOrderTuple.sameOrder within ⟨wide, district, customer, by decide, trivial⟩).less,
    (NewOrderTuple.sameOrder ⟨wide, district, customer, by decide, trivial⟩ within).less]
  simp only [List.cons_lt_cons_iff, List.not_lt_nil, and_false, or_false, UInt64.lt_iff_toNat_lt,
    ← UInt64.toNat_inj, UInt64.toNat_zero, last]
  omega

/-- The scan of `payment` and `order_status` for the customers with a last name. -/
theorem lastName_scanned (w d l w' d' l' c : UInt16) (customer : c.toNat ≤ customerScale)
    : InScan (CustomerTuple.idxKeyLastname w d l 0)
        (CustomerTuple.idxKeyLastname w d l customerScale.toUInt16)
        (CustomerTuple.idxKeyLastname w' d' l' c)
      ↔ [w', d', l'] = [w, d, l] := by
  refine scanned_iff [16, 16, 16] [16] [0] [c] [customerScale.toUInt16]
    (fun _ _ => UInt16.toNat_inj.mp)
    ⟨⟨w.toNat_lt, d.toNat_lt, l.toNat_lt, trivial⟩, by decide, trivial⟩
    ⟨⟨w'.toNat_lt, d'.toNat_lt, l'.toNat_lt, trivial⟩, c.toNat_lt, trivial⟩ ⟨by decide, trivial⟩
    (CustomerTuple.idxKeyLastname_value w d l 0)
    (CustomerTuple.idxKeyLastname_value w' d' l' c)
    (CustomerTuple.idxKeyLastname_value w d l customerScale.toUInt16) ?_ ?_
  · exact Nat.zero_le _
  · have last : customerScale.toUInt16.toNat = customerScale := rfl
    simpa [value, last] using customer

/-- Components inside their widths: every key is strictly monotone in them for the order of
lists, so it tells them apart, and the scans for a prefix of them meet exactly the keys with
that prefix.
-/
theorem composite_keys_ordered
    : (∀ w d w' d', Within [16, 16] [w, d] → Within [16, 16] [w', d']
        → SameOrder (DistrictTuple.makeKey w d) (DistrictTuple.makeKey w' d') [w, d] [w', d'])
      ∧ (∀ w d c w' d' c', Within [16, 16, 16] [w, d, c] → Within [16, 16, 16] [w', d', c']
        → SameOrder (CustomerTuple.makeKey w d c) (CustomerTuple.makeKey w' d' c')
            [w, d, c] [w', d', c'])
      ∧ (∀ w d l c w' d' l' c' : UInt16,
          SameOrder (CustomerTuple.idxKeyLastname w d l c)
            (CustomerTuple.idxKeyLastname w' d' l' c') [w, d, l, c] [w', d', l', c'])
      ∧ (∀ w d c o w' d' c' o', Within [16, 16, 16, 16] [w, d, c, o]
        → Within [16, 16, 16, 16] [w', d', c', o']
        → SameOrder (OrderTuple.makeKey w d c o) (OrderTuple.makeKey w' d' c' o')
            [w, d, c, o] [w', d', c', o'])
      ∧ (∀ w d o c w' d' o' c', Within [16, 16, 16, 16] [w, d, o, c]
        → Within [16, 16, 16, 16] [w', d', o', c']
        → SameOrder (NewOrderTuple.makeKey w d o c) (NewOrderTuple.makeKey w' d' o' c')
            [w, d, o, c] [w', d', o', c'])
      ∧ (∀ w d o i w' d' o' i', Within [16, 8, 20, 20] [w, d, o, i]
        → Within [16, 8, 20, 20] [w', d', o', i']
        → SameOrder (OrderLineTuple.makeKey w d o i) (OrderLineTuple.makeKey w' d' o' i')
            [w, d, o, i] [w', d', o', i'])
      ∧ (∀ w i w' i', Within [16, 32] [w, i] → Within [16, 32] [w', i']
        → SameOrder (StockTuple.makeKey w i) (StockTuple.makeKey w' i') [w, i] [w', i'])
      ∧ (∀ w d w' d' o c, Within [16, 16] [w, d] → Within [16, 16, 16, 16] [w', d', o, c]
        → (InScan (NewOrderTuple.makeKey w d 0 0) (NewOrderTuple.makeKey w d 0xffff 0xffff)
            (NewOrderTuple.makeKey w' d' o c)
          ↔ [w', d'] = [w, d]))
      ∧ (∀ w d o w' d' o' i, Within [16, 8, 20] [w, d, o]
        → Within [16, 8, 20, 20] [w', d', o', i] → i.toNat ≤ itemScale
        → (InScan (OrderLineTuple.makeKey w d o 0)
            (OrderLineTuple.makeKey w d o itemScale.toUInt64)
            (OrderLineTuple.makeKey w' d' o' i)
          ↔ [w', d', o'] = [w, d, o]))
      ∧ (∀ w d l w' d' l' c : UInt16, c.toNat ≤ customerScale
        → (InScan (CustomerTuple.idxKeyLastname w d l 0)
            (CustomerTuple.idxKeyLastname w d l customerScale.toUInt16)
            (CustomerTuple.idxKeyLastname w' d' l' c)
          ↔ [w', d', l'] = [w, d, l])) := by
  refine ⟨?_, ?_, ?_, ?_, ?_, ?_, ?_, ?_, ?_, ?_⟩
  · intro w d w' d' within within'
    have wider {w d : UInt64} (within : Within [16, 16] [w, d]) : Within [16, 48] [w, d] :=
      ⟨within.1, Nat.lt_trans within.2.1 (by decide), trivial⟩
    exact (wider within).sameOrder (wider within') (DistrictTuple.makeKey_value within)
      (DistrictTuple.makeKey_value within')
  · intro w d c w' d' c' within within'
    have wider {w d c : UInt64} (within : Within [16, 16, 16] [w, d, c])
        : Within [16, 16, 32] [w, d, c] :=
      ⟨within.1, within.2.1, Nat.lt_trans within.2.2.1 (by decide), trivial⟩
    exact (wider within).sameOrder (wider within') (CustomerTuple.makeKey_value within)
      (CustomerTuple.makeKey_value within')
  · intro w d l c w' d' l' c'
    exact sameOrder_of_value (fun _ _ => UInt16.lt_iff_toNat_lt.symm)
      (fun _ _ => UInt16.toNat_inj.mp) (fits_u16 w d l c) (fits_u16 w' d' l' c')
      (CustomerTuple.idxKeyLastname_value w d l c) (CustomerTuple.idxKeyLastname_value w' d' l' c')
  · intro w d c o w' d' c' o' within within'
    exact NewOrderTuple.sameOrder within within'
  · intro w d o c w' d' o' c' within within'
    exact NewOrderTuple.sameOrder within within'
  · intro w d o i w' d' o' i' within within'
    exact OrderLineTuple.sameOrder within within'
  · intro w i w' i' within within'
    exact within.sameOrder within' (StockTuple.makeKey_value within)
      (StockTuple.makeKey_value within')
  · intro w d w' d' o c scan within
    exact newOrder_scanned scan within
  · intro w d o w' d' o' i scan within item
    exact orderLine_scanned scan within item
  · intro w d l w' d' l' c customer
    exact lastName_scanned w d l w' d' l' c customer

/-- Neighbouring keys are in order, and the first line of an order is met by its scan. -/
theorem composite_keys_ordered_first
    : SameOrder (P := UInt64) (DistrictTuple.makeKey 0 1) (DistrictTuple.makeKey 1 0) [0, 1] [1, 0]
      ∧ SameOrder (P := UInt64) (CustomerTuple.makeKey 0 1 2) (CustomerTuple.makeKey 0 2 1)
          [0, 1, 2] [0, 2, 1]
      ∧ SameOrder (P := UInt64) (OrderTuple.makeKey 0 1 2 3) (OrderTuple.makeKey 0 1 3 2)
          [0, 1, 2, 3] [0, 1, 3, 2]
      ∧ SameOrder (P := UInt64) (NewOrderTuple.makeKey 0 1 2 3) (NewOrderTuple.makeKey 0 1 3 2)
          [0, 1, 2, 3] [0, 1, 3, 2]
      ∧ SameOrder (P := UInt64) (OrderLineTuple.makeKey 0 1 2 3) (OrderLineTuple.makeKey 0 1 3 2)
          [0, 1, 2, 3] [0, 1, 3, 2]
      ∧ SameOrder (P := UInt64) (StockTuple.makeKey 0 1) (StockTuple.makeKey 1 0) [0, 1] [1, 0]
      ∧ InScan (NewOrderTuple.makeKey 0 1 0 0) (NewOrderTuple.makeKey 0 1 0xffff 0xffff)
          (NewOrderTuple.makeKey 0 1 2 3)
      ∧ InScan (OrderLineTuple.makeKey 0 1 2 0)
          (OrderLineTuple.makeKey 0 1 2 itemScale.toUInt64) (OrderLineTuple.makeKey 0 1 2 0)
      ∧ InScan (CustomerTuple.idxKeyLastname 0 1 2 0)
          (CustomerTuple.idxKeyLastname 0 1 2 customerScale.toUInt16)
          (CustomerTuple.idxKeyLastname 0 1 2 3) := by
  obtain ⟨district, customer, _, order, newOrder, line, stock, orders, lines, names⟩ :=
    composite_keys_ordered
  refine ⟨district 0 1 1 0 ?_ ?_, customer 0 1 2 0 2 1 ?_ ?_, order 0 1 2 3 0 1 3 2 ?_ ?_,
    newOrder 0 1 2 3 0 1 3 2 ?_ ?_, line 0 1 2 3 0 1 3 2 ?_ ?_, stock 0 1 1 0 ?_ ?_,
    (orders 0 1 0 1 2 3 ?_ ?_).mpr rfl, (lines 0 1 2 0 1 2 0 ?_ ?_ (by decide)).mpr rfl,
    (names 0 1 2 0 1 2 3 (by decide)).mpr rfl⟩
  all_goals simp [Within, Fits]

end Alchemy.Tpcc
