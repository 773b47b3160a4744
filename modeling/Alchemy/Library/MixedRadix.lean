import Mathlib.Algebra.BigOperators.Group.List.Basic
import Mathlib.Tactic.Ring

/-! Numbers written with digits of different widths, the leading digit first. Digits inside
their widths never carry: the numbers compare as the lists of digits do, and the numbers that
begin with the same digits fill an interval.
-/

namespace MixedRadix

/-- Digits inside their widths, in bits. -/
def Fits : List Nat → List Nat → Prop
  | [], [] => True
  | width :: widths, digit :: digits => digit < 2 ^ width ∧ Fits widths digits
  | _, _ => False

instance decidableFits : (widths digits : List Nat) → Decidable (Fits widths digits)
  | [], [] => isTrue trivial
  | width :: widths, digit :: digits =>
      have := decidableFits widths digits
      inferInstanceAs (Decidable (digit < 2 ^ width ∧ Fits widths digits))
  | [], _ :: _ | _ :: _, [] => isFalse id

/-- The number the digits stand for. -/
def value : List Nat → List Nat → Nat
  | _ :: widths, digit :: digits => digit * 2 ^ widths.sum + value widths digits
  | _, _ => 0

variable {widths front back digits left right leading low high : List Nat}

theorem Fits.value_lt (fits : Fits widths digits) : value widths digits < 2 ^ widths.sum := by
  induction widths generalizing digits with
  | nil =>
      cases digits with
      | nil => simp [value]
      | cons => cases fits
  | cons width widths ih =>
      cases digits with
      | nil => cases fits
      | cons digit digits =>
          rw [List.sum_cons, Nat.pow_add]
          calc digit * 2 ^ widths.sum + value widths digits
              < digit * 2 ^ widths.sum + 2 ^ widths.sum := Nat.add_lt_add_left (ih fits.2) _
            _ = (digit + 1) * 2 ^ widths.sum := by ring
            _ ≤ 2 ^ width * 2 ^ widths.sum := Nat.mul_le_mul_right _ fits.1

/-- A leading digit and a rest below its weight compare as a pair. -/
theorem scaled_lt_iff {weight first second rest other : Nat} (small : rest < weight)
    (small' : other < weight)
    : first * weight + rest < second * weight + other
      ↔ first < second ∨ first = second ∧ rest < other := by
  rcases Nat.lt_trichotomy first second with below | rfl | above
  · have grown : (first + 1) * weight ≤ second * weight := Nat.mul_le_mul_right _ below
    have spread : (first + 1) * weight = first * weight + weight := by ring
    exact iff_of_true (by omega) (.inl below)
  · simp
  · have grown : (second + 1) * weight ≤ first * weight := Nat.mul_le_mul_right _ above
    have spread : (second + 1) * weight = second * weight + weight := by ring
    exact iff_of_false (by omega) (by omega)

/-- Numbers compare as their digits do, by induction on the digits. -/
theorem value_lt_iff (fits : Fits widths left) (fits' : Fits widths right)
    : value widths left < value widths right ↔ left < right := by
  induction widths generalizing left right with
  | nil =>
      cases left with
      | nil =>
          cases right with
          | nil => simp [value]
          | cons => cases fits'
      | cons => cases fits
  | cons width widths ih =>
      cases left with
      | nil => cases fits
      | cons digit left =>
          cases right with
          | nil => cases fits'
          | cons digit' right =>
              rw [List.cons_lt_cons_iff, ← ih fits.2 fits'.2]
              exact scaled_lt_iff fits.2.value_lt fits'.2.value_lt

theorem value_inj (fits : Fits widths left) (fits' : Fits widths right)
    : value widths left = value widths right ↔ left = right := by
  constructor
  · intro same
    have above : ¬left < right := fun less =>
      absurd ((value_lt_iff fits fits').mpr less) (Nat.not_lt.mpr (Nat.le_of_eq same.symm))
    have below : ¬right < left := fun less =>
      absurd ((value_lt_iff fits' fits).mpr less) (Nat.not_lt.mpr (Nat.le_of_eq same))
    exact List.le_antisymm below above
  · rintro rfl
    rfl

theorem value_append (lead : Fits front leading)
    : value (front ++ back) (leading ++ digits)
      = value front leading * 2 ^ back.sum + value back digits := by
  induction front generalizing leading with
  | nil =>
      cases leading with
      | nil => simp [value]
      | cons => cases lead
  | cons width front ih =>
      cases leading with
      | nil => cases lead
      | cons digit leading =>
          simp only [List.cons_append, value, ih lead.2, List.sum_append, Nat.pow_add]
          ring

/-- The numbers between two that begin with `leading` are those that begin with it, if their
other digits stay between those of the two.
-/
theorem between_iff {chosen : List Nat} (lead : Fits front leading) (choice : Fits front chosen)
    (bottom : Fits back low) (rest : Fits back digits) (top : Fits back high)
    (above : value back low ≤ value back digits) (below : value back digits ≤ value back high)
    : value (front ++ back) (leading ++ low) ≤ value (front ++ back) (chosen ++ digits)
        ∧ value (front ++ back) (chosen ++ digits) ≤ value (front ++ back) (leading ++ high)
      ↔ chosen = leading := by
  simp only [value_append lead, value_append choice, ← Nat.not_lt,
    scaled_lt_iff rest.value_lt bottom.value_lt, scaled_lt_iff top.value_lt rest.value_lt]
  rw [← value_inj choice lead]
  omega

end MixedRadix
