import Alchemy.Tpcc.Records

/-! `FixedString::copy_from` and the last names generated with it. -/

namespace Alchemy.Tpcc

open Cache

variable {N : Nat}

namespace FixedString

theorem length_zeroes (N : Nat) : (List.replicate N (0 : Byte)).length = N :=
  List.length_replicate

/-- `FixedString::new` -/
def new : FixedString N :=
  ⟨List.replicate N 0, length_zeroes N⟩

/-- `self.data[idx] = byte`, which panics outside of the array. -/
def store (self : FixedString N) (idx : Nat) (byte : Byte) : Option (FixedString N) :=
  if idx < N then some ⟨self.data.set idx byte, by rw [List.length_set, self.sized]⟩ else none

/-- The loop of `copy_from` from index `idx` on. -/
def copyLoop (self : FixedString N) (idx : Nat) : List Byte → Option (FixedString N)
  | [] => some self
  | byte :: rest => (self.store idx byte).bind (fun stored => stored.copyLoop (idx + 1) rest)

/-- `copy_from`: `start` appears in the assertion, which only a debug build has, and nowhere else. -/
def copyFrom (debug : Bool) (self : FixedString N) (src : List Byte) (start : Nat)
    : Option (FixedString N) :=
  if debug = true ∧ N ≤ start + src.length then none else self.copyLoop 0 src

/-- The loop overwrites the bytes from `idx` on, by induction on those to copy. -/
theorem copyLoop_data (self : FixedString N) (idx : Nat) (src : List Byte)
    (room : idx + src.length ≤ N)
    : ∃ out, self.copyLoop idx src = some out
      ∧ out.data = self.data.take idx ++ src ++ self.data.drop (idx + src.length) := by
  induction src generalizing self idx with
  | nil => exact ⟨self, rfl, by simp⟩
  | cons byte rest ih =>
      rw [List.length_cons] at room
      have inside : idx < self.data.length := by rw [self.sized]; omega
      obtain ⟨out, copied, bytes⟩ := ih
        ⟨self.data.set idx byte, by rw [List.length_set, self.sized]⟩ (idx + 1) (by omega)
      refine ⟨out, ?_, ?_⟩
      · rw [copyLoop, store, if_pos (by omega)]
        exact copied
      · have written : (self.data.set idx byte).take (idx + 1) = self.data.take idx ++ [byte] := by
          rw [List.set_eq_take_append_cons_drop, if_pos inside, List.take_append,
            List.length_take_of_le inside.le]
          simp [Nat.le_of_lt inside]
        have after : (self.data.set idx byte).drop (idx + 1 + rest.length)
            = self.data.drop (idx + (rest.length + 1)) := by
          rw [List.drop_set_of_lt (by omega)]
          congr 1
          omega
        rw [bytes, written, after]
        simp

/-- Whatever `start` is, the copy begins at the first byte. -/
theorem copyFrom_data (debug : Bool) (self : FixedString N) {src : List Byte} {start : Nat}
    (room : start + src.length < N)
    : ∃ out, self.copyFrom debug src start = some out
      ∧ out.data = src ++ self.data.drop src.length := by
  obtain ⟨out, copied, bytes⟩ := self.copyLoop_data 0 src (by omega)
  refine ⟨out, ?_, by simpa using bytes⟩
  rw [copyFrom, if_neg (fun fails => absurd fails.2 (Nat.not_le.mpr room))]
  exact copied

/-- `out` is `self` with `src` in its bytes from `start` on. -/
structure Placed (text : FixedString N) (src : List Byte) (start : Nat) (out : FixedString N)
    : Prop where
  inside : ∀ i, i < src.length → out.data[start + i]? = src[i]?
  outside : ∀ i, i < start ∨ start + src.length ≤ i → out.data[i]? = text.data[i]?

variable {text out : FixedString N} {src : List Byte} {start : Nat}

/-- Placing a text is one equation between the bytes. -/
theorem placed_iff (room : start + src.length ≤ N)
    : text.Placed src start out
      ↔ out.data = text.data.take start ++ src ++ text.data.drop (start + src.length) := by
  have short : (text.data.take start).length = start := by
    rw [List.length_take, text.sized]
    omega
  constructor
  · intro placed
    refine List.ext_getElem? fun i => ?_
    by_cases before : i < start
    · rw [placed.outside i (.inl before), List.append_assoc,
        List.getElem?_append_left (by omega), List.getElem?_take_of_lt before]
    · obtain ⟨offset, rfl⟩ := Nat.exists_eq_add_of_le (Nat.le_of_not_lt before)
      rw [List.append_assoc, List.getElem?_append_right (by omega), short, Nat.add_sub_cancel_left]
      by_cases within : offset < src.length
      · rw [placed.inside offset within, List.getElem?_append_left within]
      · rw [placed.outside _ (.inr (by omega)), List.getElem?_append_right (by omega),
          List.getElem?_drop]
        congr 1
        omega
  · intro same
    constructor
    · intro i within
      rw [same, List.append_assoc, List.getElem?_append_right (by omega), short,
        Nat.add_sub_cancel_left, List.getElem?_append_left within]
    · rintro i (before | after)
      · rw [same, List.append_assoc, List.getElem?_append_left (by omega),
          List.getElem?_take_of_lt before]
      · rw [same, List.getElem?_append_right (by simp [short]; omega), List.getElem?_drop]
        congr 1
        simp [short]
        omega

/-- The bytes that the copy changes or should change are right already: as far as `src` would
reach from `start`, `src` at the front reads like `src` at `start`.
-/
def Agrees (text : FixedString N) (src : List Byte) (start : Nat) : Prop :=
  (src ++ text.data.drop src.length).take (start + src.length) = text.data.take start ++ src

instance (text : FixedString N) (src : List Byte) (start : Nat)
    : Decidable (text.Agrees src start) :=
  inferInstanceAs (Decidable (_ = _))

/-- A copy to the front is where the caller wants it if its `start` is the front, or if the
bytes agree.
-/
theorem placed_front_iff (room : start + src.length < N)
    (bytes : out.data = src ++ text.data.drop src.length)
    : text.Placed src start out ↔ text.Agrees src start := by
  have rest : (src ++ text.data.drop src.length).drop (start + src.length)
      = text.data.drop (start + src.length) := by
    rw [List.drop_append, List.drop_eq_nil_of_le (by omega), List.nil_append, List.drop_drop]
    congr 1
    omega
  have long : ((src ++ text.data.drop src.length).take (start + src.length)).length
      = (text.data.take start ++ src).length := by
    simp [text.sized]
    omega
  rw [placed_iff room.le, bytes, Agrees, ← rest]
  constructor
  · intro same
    nth_rewrite 1 [← List.take_append_drop (start + src.length) (src ++ _)] at same
    exact (List.append_inj same long).1
  · intro same
    rw [← same, List.take_append_drop]

/-- Only at the front, or without bytes to copy, is the copy right whatever the text was. -/
theorem agrees_iff (room : start + src.length < N)
    : (∀ text : FixedString N, text.Agrees src start) ↔ start = 0 ∨ src = [] := by
  constructor
  · intro always
    by_contra neither
    obtain ⟨late, some⟩ := not_or.mp neither
    obtain ⟨byte, rest, rfl⟩ := List.exists_cons_of_ne_nil some
    have first := congrArg List.head?
      (always ⟨List.replicate N (byte + 1), List.length_replicate⟩)
    obtain ⟨start, rfl⟩ := Nat.exists_eq_succ_of_ne_zero late
    obtain ⟨N, rfl⟩ := Nat.exists_eq_succ_of_ne_zero (by omega : N ≠ 0)
    simp [List.head?_take, List.replicate_succ] at first
  · rintro (rfl | rfl) text
    · simp [Agrees]
    · simp [Agrees]

end FixedString

/-! ### Last names -/

def asBytes (text : String) : List Byte :=
  text.toUTF8.data.toList

/-- The syllables of `last_name_gen`. -/
def nameBank : List (List Byte) :=
  ["BAR", "OUGHT", "ABLE", "PRI", "PRES", "ESE", "ANTI", "CALLY", "ATION", "EING"].map asBytes

/-- `name_bank[idx]` for `idx = seed % 10` -/
def syllable (seed : UInt32) : List Byte :=
  nameBank.getD (seed % 10).toNat []

/-- The loop of `last_name_gen`, for the number of syllables still to come. -/
def lastNameLoop (debug : Bool)
    : Nat → UInt32 → Nat → FixedString 16 → Option (FixedString 16)
  | 0, _, _, lastName => some lastName
  | more + 1, seed, pos, lastName =>
      (lastName.copyFrom debug (syllable seed) pos).bind
        (lastNameLoop debug more (seed / 10) (pos + (syllable seed).length))

def lastNameGen (debug : Bool) (seed : UInt32) : Option (FixedString 16) :=
  lastNameLoop debug 3 seed 0 .new

/-- Every syllable has three to five letters. -/
theorem syllable_letters (seed : UInt32)
    : 3 ≤ (syllable seed).length ∧ (syllable seed).length ≤ 5 ∧ 0 ∉ syllable seed := by
  have bank : ∀ idx : Fin 10, 3 ≤ (nameBank.getD idx []).length
      ∧ (nameBank.getD idx []).length ≤ 5 ∧ 0 ∉ nameBank.getD idx [] := by
    decide +kernel
  have digit : (seed % 10).toNat < 10 := by
    rw [UInt32.toNat_mod]
    exact Nat.mod_lt _ (by decide)
  exact bank ⟨_, digit⟩

/-- The syllables all go to the first five bytes, by induction on how many are to come. -/
theorem lastNameLoop_tail (debug : Bool) (more : Nat) (seed : UInt32) {pos : Nat} (lastName : FixedString 16)
    (room : pos + 5 * more < 16)
    : ∃ out, lastNameLoop debug more seed pos lastName = some out
      ∧ ∀ i, 5 ≤ i → out.data[i]? = lastName.data[i]? := by
  induction more generalizing pos seed lastName with
  | zero => exact ⟨lastName, rfl, fun _ _ => rfl⟩
  | succ more ih =>
      obtain ⟨_, short, _⟩ := syllable_letters seed
      have fits : pos + (syllable seed).length < 16 := by omega
      obtain ⟨next, copied, bytes⟩ := lastName.copyFrom_data debug fits
      have onward : pos + (syllable seed).length + 5 * more < 16 := by omega
      obtain ⟨out, looped, tail⟩ := ih (seed / 10) next onward
      refine ⟨out, ?_, fun i late => ?_⟩
      · rw [lastNameLoop, copied]
        exact looped
      · rw [tail i late, bytes, List.getElem?_append_right (by omega), List.getElem?_drop]
        congr 1
        omega

/-- The name is the syllables of the digits in order, followed by zero bytes. -/
def FixedString.Spells (name : FixedString 16) (digits : List UInt32) : Prop :=
  name.data = digits.flatMap syllable ++ List.replicate (16 - (digits.flatMap syllable).length) 0

/-- Three syllables are longer than what the loop leaves. -/
theorem lastNameGen_spells_none (debug : Bool) (seed : UInt32)
    : ∃ name, lastNameGen debug seed = some name
      ∧ ∀ first second third, ¬ name.Spells [first, second, third] := by
  obtain ⟨name, generated, tail⟩ :=
    lastNameLoop_tail debug 3 seed .new (by decide : 0 + 5 * 3 < 16)
  refine ⟨name, generated, ?_⟩
  intro first second third spells
  have zero : name.data[8]? = some 0 := (tail 8 (by decide)).trans (by decide)
  obtain ⟨long, _, letters⟩ := syllable_letters first
  obtain ⟨long', _, letters'⟩ := syllable_letters second
  obtain ⟨long'', _, letters''⟩ := syllable_letters third
  rw [spells, List.getElem?_append_left (by simp; omega)] at zero
  have member := List.mem_of_getElem? zero
  simp [letters, letters', letters''] at member

/-- `copy_from` ignores its `start`, in every build: the text ends up with `src` from `start` on and its other
bytes unchanged exactly if the bytes agree already, and for every text only if `start` is 0 or
there is nothing to copy. A generated last name is never the three syllables one after the
other, in any order.
-/
theorem copyFrom_places_iff (debug : Bool) (text : FixedString N) (src : List Byte) (start : Nat)
    (room : start + src.length < N)
    : ((∃ out, text.copyFrom debug src start = some out ∧ text.Placed src start out)
        ↔ text.Agrees src start)
      ∧ ((∀ other : FixedString N,
            ∃ out, other.copyFrom debug src start = some out ∧ other.Placed src start out)
        ↔ start = 0 ∨ src = [])
      ∧ ∀ seed, ∃ name, lastNameGen debug seed = some name
          ∧ ∀ first second third, ¬ name.Spells [first, second, third] := by
  have placed (other : FixedString N)
      : (∃ out, other.copyFrom debug src start = some out ∧ other.Placed src start out)
        ↔ other.Agrees src start := by
    obtain ⟨out, copied, bytes⟩ := other.copyFrom_data debug room
    simp [copied, FixedString.placed_front_iff room bytes]
  refine ⟨placed text, ?_, lastNameGen_spells_none debug⟩
  simp only [placed]
  exact FixedString.agrees_iff room

/-- A copy to the front of an empty text. -/
theorem copyFrom_places_at_front
    : ∃ out, (FixedString.new : FixedString 6).copyFrom true (asBytes "AB") 0 = some out
        ∧ FixedString.new.Placed (asBytes "AB") 0 out :=
  (copyFrom_places_iff true .new (asBytes "AB") 0 (by decide)).1.mpr (by decide)

/-- Two letters for the middle of an empty text do not get there, and the name for the digits `0`,
`0` and `0` is not `BARBARBAR`.
-/
theorem copyFrom_misplaces
    : (∃ out, (FixedString.new : FixedString 6).copyFrom true (asBytes "AB") 2 = some out
        ∧ ¬ FixedString.new.Placed (asBytes "AB") 2 out)
      ∧ ∃ name, lastNameGen true 0 = some name ∧ ¬ name.Spells [0, 0, 0] := by
  constructor
  · refine ⟨⟨asBytes "AB" ++ [0, 0, 0, 0], by decide⟩, by decide, fun placed => ?_⟩
    exact absurd (placed.inside 0 (by decide)) (by decide)
  · obtain ⟨name, generated, spells⟩ := lastNameGen_spells_none true 0
    exact ⟨name, generated, spells 0 0 0⟩

end Alchemy.Tpcc
