import Mathlib.Data.Nat.ModEq

/-! A stream of positions laid out over `count` buffers of `size` bytes that are used in turn.
Positions share a byte only when they are a multiple of `size * count` apart.
-/

namespace BufferRing

/-- The buffer and the index in it that hold a position of the stream. -/
def slot (size count position : Nat) : Nat × Nat :=
  (position / size % count, position % size)

variable {size count position other step : Nat}

/-- Inside one buffer consecutive positions have consecutive indices. -/
theorem slot_add (fits : position % size + step < size)
    : slot size count (position + step)
      = ((slot size count position).1, (slot size count position).2 + step) := by
  have small : step < size := by omega
  have quotient : (position + step) / size = position / size := by
    rw [Nat.add_div_eq_of_add_mod_lt, Nat.div_eq_of_lt small, Nat.add_zero]
    rwa [Nat.mod_eq_of_lt small]
  have remainder : (position + step) % size = position % size + step := by
    rw [Nat.add_mod_of_add_mod_lt, Nat.mod_eq_of_lt small]
    rwa [Nat.mod_eq_of_lt small]
  simp only [slot, quotient, remainder]

/-- Positions on one byte agree modulo the size of the ring. -/
theorem modEq_of_slot_eq (same : slot size count position = slot size count other)
    : position ≡ other [MOD size * count] := by
  obtain ⟨buffer, index⟩ := Prod.mk.inj same
  rw [Nat.ModEq, Nat.mod_mul, Nat.mod_mul, buffer, index]

/-- Within one turn of the ring no two positions share a byte. -/
theorem not_modEq_of_lt (later : position < other) (near : other < position + size * count)
    : ¬ position ≡ other [MOD size * count] := by
  intro same
  obtain ⟨turns, apart⟩ := (Nat.modEq_iff_dvd' later.le).mp same
  cases turns with
  | zero => omega
  | succ turns =>
      have whole : size * count ≤ size * count * (turns + 1) := Nat.le_mul_of_pos_right _ (by omega)
      omega

theorem slot_ne_of_lt (later : position < other) (near : other < position + size * count)
    : slot size count position ≠ slot size count other :=
  fun same => not_modEq_of_lt later near (modEq_of_slot_eq same)

end BufferRing
