import Mathlib.Data.BitVec
import Mathlib.Tactic.NormNum

/-! The packed word of a `LockedOid`: eight lock bits above a 56-bit payload.
Every bit operation of the lock is split here into its effect on the lock byte and its
effect on the payload, so that the step lemmas never look at single bits.
-/

namespace Alchemy.Oid

/-- `usize` on the 64-bit targets of the repository. -/
abbrev Word := BitVec 64

/-- Record id, the offset into the table storage. -/
abbrev Rid := BitVec 32

/-- `u32::MAX`, reserved for a cache entry that holds no record. -/
def sentinel : Rid := BitVec.allOnes 32

/-! ### Constants and pure word functions of the source -/

def lockMask : Word := 0xff00000000000000#64
def lockWriter : Word := 0x8000000000000000#64
def lockReader : Word := 0x0100000000000000#64
def maxReader : Word := (lockMask - lockWriter) / lockReader
def isCachedMask : Word := 0x00ff000000000000#64
def idMask : Word := 0x00000000ffffffff#64

/-- The word of `LockedOid::from_rid`. -/
def fromRid (rid : Rid) : Word := rid.setWidth 64

def writeLocked (val : Word) : Bool := (val &&& lockWriter) != 0#64

/-- The `has_lock` test of `write` and `try_write`. -/
def hasLock (val : Word) : Bool := (val &&& lockMask) != 0#64

def readLockCnt (val : Word) : Word := (val &&& lockMask) / lockReader

def isCached (val : Word) : Bool := (val &&& isCachedMask) != 0#64

def isRid (val : Word) : Bool := !isCached val

def toCacheIndex (val : Word) : Word := (val &&& ~~~lockMask) &&& ~~~isCachedMask

def toRid (val : Word) : Rid := ((val &&& ~~~lockMask) &&& idMask).setWidth 32

/-- The word a read acquisition tries to install: `val.wrapping_add(LOCK_READER)`. -/
def withReader (val : Word) : Word := val + lockReader

/-- The word a write acquisition tries to install: `val | LOCK_WRITER`. -/
def withWriter (val : Word) : Word := val ||| lockWriter

/-- The word an upgrade tries to install. -/
def upgraded (val : Word) : Word := (val &&& ~~~lockMask) ||| lockWriter

/-- The word `store_rid` computes from the one it loaded. -/
def storeRidData (val : Word) (rid : Rid) : Word :=
  ((val &&& ~~~idMask) &&& ~~~isCachedMask) ||| rid.setWidth 64

/-- The word `store_index` computes from the one it loaded. -/
def storeIndexData (val new : Word) : Word :=
  ((val &&& ~~~idMask) ||| isCachedMask) ||| new

/-- The value fits the id bits. Every cache index does, since the capacity is a `u32`. -/
def FitsId (new : Word) : Prop := new.toNat < 2 ^ 32

instance : DecidablePred FitsId := fun new => Nat.decLt new.toNat (2 ^ 32)

/-! ### The four fields of the word -/

def lockByte (val : Word) : BitVec 8 := val.extractLsb' 56 8
def cachedByte (val : Word) : BitVec 8 := val.extractLsb' 48 8

/-- Bits 32..47: `is_dirty` and `hotness` of the layout comment, which no code sets. -/
def middleBits (val : Word) : BitVec 16 := val.extractLsb' 32 16
def idBits (val : Word) : BitVec 32 := val.extractLsb' 0 32

/-- The low 56 bits, everything a lock operation has to leave alone. -/
def payload (val : Word) : BitVec 56 := val.extractLsb' 0 56

theorem word_eq_of_fields {left right : Word} (lock : lockByte left = lockByte right)
    (rest : payload left = payload right)
    : left = right := by
  have split (val : Word) : val = (lockByte val ++ payload val : BitVec (8 + 56)) := by
    simp only [lockByte, payload]
    rw [BitVec.extractLsb'_append_extractLsb'_eq_extractLsb' (by omega)]
    simp
  rw [split left, split right, lock, rest]

theorem payload_eq_of_fields {left right : Word}
    (cached : cachedByte left = cachedByte right)
    (middle : middleBits left = middleBits right) (id : idBits left = idBits right)
    : payload left = payload right := by
  have split (val : Word)
      : payload val = (cachedByte val ++ (middleBits val ++ idBits val) : BitVec (8 + (16 + 32))) := by
    simp only [cachedByte, middleBits, idBits, payload]
    rw [BitVec.extractLsb'_append_extractLsb'_eq_extractLsb' (by omega),
      BitVec.extractLsb'_append_extractLsb'_eq_extractLsb' (by omega)]
  rw [split left, split right, cached, middle, id]

theorem cachedByte_of_payload (val : Word)
    : cachedByte val = (payload val).extractLsb' 48 8 := by
  rw [cachedByte, payload, BitVec.extractLsb'_extractLsb'_of_le (by omega)]

theorem middleBits_of_payload (val : Word)
    : middleBits val = (payload val).extractLsb' 32 16 := by
  rw [middleBits, payload, BitVec.extractLsb'_extractLsb'_of_le (by omega)]

theorem lockByte_toNat (val : Word) : (lockByte val).toNat = val.toNat / 2 ^ 56 := by
  have bound := val.isLt
  rw [lockByte, BitVec.extractLsb'_toNat, Nat.shiftRight_eq_div_pow, Nat.mod_eq_of_lt]
  omega

theorem payload_toNat (val : Word) : (payload val).toNat = val.toNat % 2 ^ 56 := by
  rw [payload, BitVec.extractLsb'_toNat, Nat.shiftRight_zero]

/-! ### Lock bits -/

theorem lockReader_toNat : lockReader.toNat = 2 ^ 56 := by decide

/-- A clear writer bit is a lock byte below `0x80`, by enumeration of the byte. -/
theorem writeLocked_eq_false (val : Word)
    : writeLocked val = false ↔ (lockByte val).toNat < 128 := by
  have byte : ∀ b : BitVec 8, b &&& 0x80#8 = 0#8 ↔ b.toNat < 128 := by decide
  rw [← byte, writeLocked, bne_eq_false_iff_eq]
  constructor
  · intro clear
    have lock := congrArg lockByte clear
    rw [lockByte, BitVec.extractLsb'_and, show lockWriter.extractLsb' 56 8 = 0x80#8 by decide,
      show lockByte 0#64 = 0#8 by decide] at lock
    exact lock
  · intro clear
    apply word_eq_of_fields
    · rw [lockByte, BitVec.extractLsb'_and, show lockWriter.extractLsb' 56 8 = 0x80#8 by decide,
        ← lockByte, clear]
      decide
    · rw [payload, BitVec.extractLsb'_and, show lockWriter.extractLsb' 0 56 = 0#56 by decide]
      simp [payload]

/-- No lock bit is set exactly when the lock byte is zero. -/
theorem hasLock_eq_false (val : Word) : hasLock val = false ↔ lockByte val = 0#8 := by
  rw [hasLock, bne_eq_false_iff_eq]
  constructor
  · intro clear
    have lock := congrArg lockByte clear
    rw [lockByte, BitVec.extractLsb'_and,
      show lockMask.extractLsb' 56 8 = BitVec.allOnes 8 by decide, BitVec.and_allOnes] at lock
    exact lock.trans (by decide)
  · intro clear
    apply word_eq_of_fields
    · rw [lockByte, BitVec.extractLsb'_and, ← lockByte, clear]
      decide
    · rw [payload, BitVec.extractLsb'_and, show lockMask.extractLsb' 0 56 = 0#56 by decide]
      simp [payload]

theorem and_lockMask_toNat (val : Word)
    : (val &&& lockMask).toNat = (lockByte val).toNat * 2 ^ 56 := by
  have byte : lockByte (val &&& lockMask) = lockByte val := by
    rw [lockByte, BitVec.extractLsb'_and,
      show lockMask.extractLsb' 56 8 = BitVec.allOnes 8 by decide, BitVec.and_allOnes, lockByte]
  have rest : payload (val &&& lockMask) = 0#56 := by
    rw [payload, BitVec.extractLsb'_and, show lockMask.extractLsb' 0 56 = 0#56 by decide]
    simp
  have high := congrArg BitVec.toNat byte
  have low := congrArg BitVec.toNat rest
  rw [lockByte_toNat] at high
  rw [payload_toNat] at low
  rw [← high]
  simp only [BitVec.toNat_ofNat, Nat.zero_mod] at low
  omega

/-- `read_lock_cnt` is the whole lock byte, the writer bit included. -/
theorem readLockCnt_toNat (val : Word)
    : (readLockCnt val).toNat = (lockByte val).toNat := by
  rw [readLockCnt, BitVec.toNat_udiv, and_lockMask_toNat, lockReader_toNat,
    Nat.mul_div_cancel _ (by norm_num)]

/-! ### Effect of the lock operations -/

theorem two_pow_split : 2 ^ 64 = 2 ^ 56 * 2 ^ 8 := by norm_num

theorem lockByte_withReader (val : Word)
    : lockByte (withReader val) = lockByte val + 1#8 := by
  apply BitVec.eq_of_toNat_eq
  rw [lockByte_toNat, withReader, BitVec.toNat_add, BitVec.toNat_add, lockByte_toNat,
    lockReader_toNat, two_pow_split, Nat.mod_mul_right_div_self,
    Nat.add_div_right _ (by norm_num)]
  rfl

theorem payload_withReader (val : Word) : payload (withReader val) = payload val := by
  apply BitVec.eq_of_toNat_eq
  rw [payload_toNat, withReader, BitVec.toNat_add, payload_toNat, lockReader_toNat,
    two_pow_split, Nat.mod_mul_right_mod, Nat.add_mod_right]

theorem lockByte_sub_reader (val : Word)
    : lockByte (val - lockReader) = lockByte val - 1#8 := by
  have added := lockByte_withReader (val - lockReader)
  rw [withReader, BitVec.sub_add_cancel] at added
  rw [added, BitVec.add_sub_cancel]

theorem payload_sub_reader (val : Word) : payload (val - lockReader) = payload val := by
  have added := payload_withReader (val - lockReader)
  rw [withReader, BitVec.sub_add_cancel] at added
  exact added.symm

theorem lockByte_withWriter (val : Word)
    : lockByte (withWriter val) = lockByte val ||| 0x80#8 := by
  rw [lockByte, withWriter, BitVec.extractLsb'_or,
    show lockWriter.extractLsb' 56 8 = 0x80#8 by decide, lockByte]

theorem payload_withWriter (val : Word) : payload (withWriter val) = payload val := by
  rw [payload, withWriter, BitVec.extractLsb'_or,
    show lockWriter.extractLsb' 0 56 = 0#56 by decide, BitVec.or_zero, payload]

theorem lockByte_upgraded (val : Word) : lockByte (upgraded val) = 0x80#8 := by
  rw [lockByte, upgraded, BitVec.extractLsb'_or, BitVec.extractLsb'_and,
    show (~~~lockMask).extractLsb' 56 8 = 0#8 by decide,
    show lockWriter.extractLsb' 56 8 = 0x80#8 by decide]
  simp

theorem payload_upgraded (val : Word) : payload (upgraded val) = payload val := by
  rw [payload, upgraded, BitVec.extractLsb'_or, BitVec.extractLsb'_and,
    show (~~~lockMask).extractLsb' 0 56 = BitVec.allOnes 56 by decide,
    show lockWriter.extractLsb' 0 56 = 0#56 by decide, BitVec.and_allOnes, BitVec.or_zero,
    payload]

/-- Adding and subtracting the top bit of the word are the same operation. -/
theorem sub_lockWriter (val : Word) : val - lockWriter = val + lockWriter := by
  rw [BitVec.sub_eq_add_neg, show -lockWriter = lockWriter by decide]

theorem lockByte_sub_writer (val : Word)
    : lockByte (val - lockWriter) = lockByte val - 0x80#8 := by
  rw [sub_lockWriter]
  apply BitVec.eq_of_toNat_eq
  rw [lockByte_toNat, BitVec.toNat_add, show lockWriter.toNat = 128 * 2 ^ 56 by decide,
    two_pow_split, Nat.mod_mul_right_div_self, Nat.add_mul_div_right _ _ (by norm_num),
    show lockByte val - 0x80#8 = lockByte val + 0x80#8 by
      rw [BitVec.sub_eq_add_neg, show -0x80#8 = 0x80#8 by decide],
    BitVec.toNat_add, lockByte_toNat]
  rfl

theorem payload_sub_writer (val : Word) : payload (val - lockWriter) = payload val := by
  rw [sub_lockWriter]
  apply BitVec.eq_of_toNat_eq
  rw [payload_toNat, BitVec.toNat_add, payload_toNat,
    show lockWriter.toNat = 128 * 2 ^ 56 by decide, two_pow_split, Nat.mod_mul_right_mod,
    Nat.add_mul_mod_self_right]

/-! ### The decoded payload -/

/-- What an oid word says about the place of its record. -/
inductive Place
  | rid (rid : Rid)
  | cached (index : Word)
  deriving DecidableEq

/-- The reading of a word by `is_cached`, `to_cache_index` and `to_rid`. -/
def decode (val : Word) : Place :=
  if isCached val then .cached (toCacheIndex val) else .rid (toRid val)

theorem isCached_eq_false (val : Word) : isCached val = false ↔ cachedByte val = 0#8 := by
  rw [isCached, bne_eq_false_iff_eq]
  constructor
  · intro clear
    have byte := congrArg cachedByte clear
    rw [cachedByte, BitVec.extractLsb'_and,
      show isCachedMask.extractLsb' 48 8 = BitVec.allOnes 8 by decide, BitVec.and_allOnes] at byte
    exact byte.trans (by decide)
  · intro clear
    apply word_eq_of_fields
    · rw [lockByte, BitVec.extractLsb'_and,
        show isCachedMask.extractLsb' 56 8 = 0#8 by decide, BitVec.and_zero]
      decide
    · apply payload_eq_of_fields
      · rw [cachedByte, BitVec.extractLsb'_and, ← cachedByte, clear]
        decide
      · rw [middleBits, BitVec.extractLsb'_and,
          show isCachedMask.extractLsb' 32 16 = 0#16 by decide, BitVec.and_zero]
        decide
      · rw [idBits, BitVec.extractLsb'_and,
          show isCachedMask.extractLsb' 0 32 = 0#32 by decide, BitVec.and_zero]
        decide

/-- Masking the lock byte away leaves a function of the payload. -/
theorem and_not_lockMask_congr {left right : Word} (same : payload left = payload right)
    : left &&& ~~~lockMask = right &&& ~~~lockMask := by
  apply word_eq_of_fields
  · rw [lockByte, lockByte, BitVec.extractLsb'_and, BitVec.extractLsb'_and,
      show (~~~lockMask).extractLsb' 56 8 = 0#8 by decide, BitVec.and_zero, BitVec.and_zero]
  · rw [payload, payload, BitVec.extractLsb'_and, BitVec.extractLsb'_and]
    exact congrArg (· &&& (~~~lockMask).extractLsb' 0 56) same

/-- The decoded place depends on the payload only, so lock operations cannot change it. -/
theorem decode_congr {left right : Word} (same : payload left = payload right)
    : decode left = decode right := by
  have flag : isCached left = isCached right := by
    rw [Bool.eq_iff_iff, ← not_iff_not, Bool.not_eq_true, Bool.not_eq_true,
      isCached_eq_false, isCached_eq_false, cachedByte_of_payload, cachedByte_of_payload, same]
  rw [decode, decode, flag, toCacheIndex, toCacheIndex, toRid, toRid,
    and_not_lockMask_congr same]

/-! ### Effect of the stores -/

/-- A value that fits the id bits leaves the other fields clear. -/
theorem fields_of_fitsId {new : Word} (small : FitsId new)
    : lockByte new = 0#8 ∧ cachedByte new = 0#8 ∧ middleBits new = 0#16 := by
  refine ⟨?_, ?_, ?_⟩
  all_goals
    apply BitVec.eq_of_toNat_eq
    simp only [lockByte, cachedByte, middleBits, BitVec.extractLsb'_toNat,
      Nat.shiftRight_eq_div_pow]
    rw [Nat.div_eq_of_lt (Nat.lt_of_lt_of_le small (by norm_num))]
    rfl

theorem fitsId_rid (rid : Rid) : FitsId (rid.setWidth 64) := by
  rw [FitsId, BitVec.toNat_setWidth, Nat.mod_eq_of_lt (rid.isLt.trans (by norm_num))]
  exact rid.isLt

theorem lockByte_storeRidData (val : Word) (rid : Rid)
    : lockByte (storeRidData val rid) = lockByte val := by
  have fresh := (fields_of_fitsId (fitsId_rid rid)).1
  rw [lockByte] at fresh
  rw [lockByte, storeRidData, BitVec.extractLsb'_or, BitVec.extractLsb'_and,
    BitVec.extractLsb'_and, fresh,
    show (~~~idMask).extractLsb' 56 8 = BitVec.allOnes 8 by decide,
    show (~~~isCachedMask).extractLsb' 56 8 = BitVec.allOnes 8 by decide,
    BitVec.and_allOnes, BitVec.and_allOnes, BitVec.or_zero, lockByte]

theorem middleBits_storeRidData (val : Word) (rid : Rid)
    : middleBits (storeRidData val rid) = middleBits val := by
  have fresh := (fields_of_fitsId (fitsId_rid rid)).2.2
  rw [middleBits] at fresh
  rw [middleBits, storeRidData, BitVec.extractLsb'_or, BitVec.extractLsb'_and,
    BitVec.extractLsb'_and, fresh,
    show (~~~idMask).extractLsb' 32 16 = BitVec.allOnes 16 by decide,
    show (~~~isCachedMask).extractLsb' 32 16 = BitVec.allOnes 16 by decide,
    BitVec.and_allOnes, BitVec.and_allOnes, BitVec.or_zero, middleBits]

theorem lockByte_storeIndexData (val : Word) {new : Word} (small : FitsId new)
    : lockByte (storeIndexData val new) = lockByte val := by
  have fresh := (fields_of_fitsId small).1
  rw [lockByte] at fresh
  rw [lockByte, storeIndexData, BitVec.extractLsb'_or, BitVec.extractLsb'_or,
    BitVec.extractLsb'_and, fresh,
    show (~~~idMask).extractLsb' 56 8 = BitVec.allOnes 8 by decide,
    show isCachedMask.extractLsb' 56 8 = 0#8 by decide,
    BitVec.and_allOnes, BitVec.or_zero, BitVec.or_zero, lockByte]

theorem middleBits_storeIndexData (val : Word) {new : Word} (small : FitsId new)
    : middleBits (storeIndexData val new) = middleBits val := by
  have fresh := (fields_of_fitsId small).2.2
  rw [middleBits] at fresh
  rw [middleBits, storeIndexData, BitVec.extractLsb'_or, BitVec.extractLsb'_or,
    BitVec.extractLsb'_and, fresh,
    show (~~~idMask).extractLsb' 32 16 = BitVec.allOnes 16 by decide,
    show isCachedMask.extractLsb' 32 16 = 0#16 by decide,
    BitVec.and_allOnes, BitVec.or_zero, BitVec.or_zero, middleBits]

/-- `store_rid` makes the word say `rid r`, whatever it said before. -/
theorem decode_storeRidData (val : Word) (rid : Rid)
    : decode (storeRidData val rid) = .rid rid := by
  have clear : isCached (storeRidData val rid) = false := by
    have fresh := (fields_of_fitsId (fitsId_rid rid)).2.1
    rw [cachedByte] at fresh
    rw [isCached_eq_false, cachedByte, storeRidData, BitVec.extractLsb'_or,
      BitVec.extractLsb'_and, BitVec.extractLsb'_and, fresh,
      show (~~~isCachedMask).extractLsb' 48 8 = 0#8 by decide, BitVec.and_zero, BitVec.or_zero]
  have number : toRid (storeRidData val rid) = rid := by
    apply BitVec.eq_of_getLsbD_eq
    intro i bound
    have inside : i < 64 := by omega
    have below : i < 56 := by omega
    have masks : idMask.getLsbD i = true ∧ (~~~lockMask).getLsbD i = true := by
      rw [show idMask = (BitVec.allOnes 32).setWidth 64 by decide, BitVec.getLsbD_setWidth,
        BitVec.getLsbD_allOnes, show ~~~lockMask = (BitVec.allOnes 56).setWidth 64 by decide,
        BitVec.getLsbD_setWidth, BitVec.getLsbD_allOnes]
      simp [inside, bound, below]
    have cleared : (~~~idMask).getLsbD i = false := by
      rw [BitVec.getLsbD_not, masks.1]
      simp
    simp only [toRid, storeRidData, BitVec.getLsbD_setWidth, BitVec.getLsbD_and,
      BitVec.getLsbD_or, masks.1, masks.2, cleared, bound, inside, decide_true,
      Bool.and_false, Bool.false_and, Bool.false_or, Bool.and_true, Bool.true_and]
  rw [decode, clear, number]
  rfl

/-- `store_index` makes the word say `cached at new`, provided the middle bits are clear:
`to_cache_index` does not mask them. -/
theorem decode_storeIndexData (val : Word) {new : Word} (small : FitsId new)
    (middle : middleBits val = 0#16)
    : decode (storeIndexData val new) = .cached new := by
  obtain ⟨lockNew, cachedNew, middleNew⟩ := fields_of_fitsId small
  have flag : isCached (storeIndexData val new) = true := by
    rw [← Bool.not_eq_false, isCached_eq_false, cachedByte, storeIndexData,
      BitVec.extractLsb'_or, BitVec.extractLsb'_or,
      show isCachedMask.extractLsb' 48 8 = BitVec.allOnes 8 by decide, BitVec.or_allOnes,
      BitVec.allOnes_or]
    decide
  have index : toCacheIndex (storeIndexData val new) = new := by
    apply word_eq_of_fields
    · rw [lockNew, toCacheIndex, lockByte, BitVec.extractLsb'_and, BitVec.extractLsb'_and,
        show (~~~lockMask).extractLsb' 56 8 = 0#8 by decide, BitVec.and_zero, BitVec.zero_and]
    · apply payload_eq_of_fields
      · rw [cachedNew, toCacheIndex, cachedByte, BitVec.extractLsb'_and,
          show (~~~isCachedMask).extractLsb' 48 8 = 0#8 by decide, BitVec.and_zero]
      · have kept := middleBits_storeIndexData val small
        rw [middle, middleBits] at kept
        rw [middleNew, toCacheIndex, middleBits, BitVec.extractLsb'_and,
          BitVec.extractLsb'_and, kept, BitVec.zero_and, BitVec.zero_and]
      · rw [toCacheIndex, storeIndexData, idBits, idBits, BitVec.extractLsb'_and,
          BitVec.extractLsb'_and, BitVec.extractLsb'_or, BitVec.extractLsb'_or,
          BitVec.extractLsb'_and,
          show (~~~idMask).extractLsb' 0 32 = 0#32 by decide,
          show isCachedMask.extractLsb' 0 32 = 0#32 by decide,
          show (~~~lockMask).extractLsb' 0 32 = BitVec.allOnes 32 by decide,
          show (~~~isCachedMask).extractLsb' 0 32 = BitVec.allOnes 32 by decide,
          BitVec.and_zero, BitVec.zero_or, BitVec.zero_or, BitVec.and_allOnes,
          BitVec.and_allOnes]
  rw [decode, flag, index]
  rfl

end Alchemy.Oid
