/-!
# Bytes and words

Registers and memory cells hold bytes, addresses are words. A word is its high byte followed by its
low byte, and all arithmetic on either wraps.
-/

namespace Mos6502

abbrev Byte := BitVec 8

abbrev Word := BitVec 16

namespace Word

/-- The word with the given high and low byte. -/
def ofBytes (hi lo : Byte) : Word := hi ++ lo

def high (w : Word) : Byte := w.extractLsb' 8 8

def low (w : Word) : Byte := w.extractLsb' 0 8

theorem toNat_ofBytes (hi lo : Byte) : (ofBytes hi lo).toNat = 256 * hi.toNat + lo.toNat := by
  rw [ofBytes, BitVec.toNat_append, ← Nat.shiftLeft_add_eq_or_of_lt lo.isLt, Nat.shiftLeft_eq,
    Nat.mul_comm]

theorem toNat_high (w : Word) : w.high.toNat = w.toNat / 256 := by
  have h := w.isLt
  rw [high, BitVec.extractLsb'_toNat, Nat.shiftRight_eq_div_pow]
  omega

theorem toNat_low (w : Word) : w.low.toNat = w.toNat % 256 := by
  rw [low, BitVec.extractLsb'_toNat, Nat.shiftRight_zero]

@[simp] theorem high_ofBytes (hi lo : Byte) : (ofBytes hi lo).high = hi :=
  BitVec.eq_of_toNat_eq (by rw [toNat_high, toNat_ofBytes]; omega)

@[simp] theorem low_ofBytes (hi lo : Byte) : (ofBytes hi lo).low = lo :=
  BitVec.eq_of_toNat_eq (by rw [toNat_low, toNat_ofBytes]; omega)

@[simp] theorem ofBytes_high_low (w : Word) : ofBytes w.high w.low = w :=
  BitVec.eq_of_toNat_eq (by rw [toNat_ofBytes, toNat_high, toNat_low]; omega)

end Word

end Mos6502
