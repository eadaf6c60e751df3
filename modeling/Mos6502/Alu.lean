import Mos6502.Byte

/-!
# Eight-bit arithmetic

Addition and subtraction with a carry, and the two rotations through it. The arithmetic is binary:
there is no decimal mode. Each operation is pinned down by an equation over the natural numbers.
-/

namespace Mos6502.Alu

/-- A sum or difference with the two flags it produces. -/
structure Sum where
  value : Byte
  /-- For a subtraction, that nothing was borrowed. -/
  carry : Bool
  /-- The result is out of the signed range. -/
  overflow : Bool
deriving DecidableEq, Repr

def add (a v : Byte) (carry : Bool) : Sum :=
  let total := a.toNat + v.toNat + carry.toNat
  let value := BitVec.ofNat 8 total
  { value
    carry := decide (0xFF < total)
    overflow := ((a ^^^ value) &&& (v ^^^ value)).msb }

/-- A clear carry is a borrow of one. -/
def sub (a v : Byte) (carry : Bool) : Sum :=
  let difference : Int := a.toNat - v.toNat - (!carry).toNat
  let value := BitVec.ofInt 8 difference
  { value
    carry := decide (0 ≤ difference)
    overflow := ((a ^^^ v) &&& (a ^^^ value)).msb }

/-- Shift left by one: the carry comes in at the bottom, the top bit goes out into it. -/
def rotateLeft (v : Byte) (carry : Bool) : Byte × Bool :=
  (v <<< 1 ||| if carry then 0x01 else 0x00, v.msb)

/-- Shift right by one: the carry comes in at the top, the bottom bit goes out into it. -/
def rotateRight (v : Byte) (carry : Bool) : Byte × Bool :=
  (v >>> 1 ||| if carry then 0x80 else 0x00, v.getLsbD 0)

theorem toNat_add (a v : Byte) (c : Bool) :
    (add a v c).value.toNat + 256 * (add a v c).carry.toNat = a.toNat + v.toNat + c.toNat := by
  have ha := a.isLt
  have hv := v.isLt
  have hc : c.toNat ≤ 1 := c.toNat_le
  simp only [add, BitVec.toNat_ofNat]
  by_cases h : 0xFF < a.toNat + v.toNat + c.toNat <;> simp only [h, decide_true, decide_false,
    Bool.toNat_true, Bool.toNat_false] <;> omega

theorem toNat_sub (a v : Byte) (c : Bool) :
    (sub a v c).value.toNat + v.toNat + (!c).toNat = a.toNat + 256 * (!(sub a v c).carry).toNat := by
  have ha := a.isLt
  have hv := v.isLt
  have hc : (!c).toNat ≤ 1 := (!c).toNat_le
  simp only [sub, BitVec.toNat_ofInt]
  by_cases h : (0 : Int) ≤ a.toNat - v.toNat - (!c).toNat <;> simp only [h, decide_true,
    decide_false, Bool.toNat_true, Bool.toNat_false, Bool.not_true, Bool.not_false] <;> omega

theorem toNat_rotateLeft (v : Byte) (c : Bool) :
    (rotateLeft v c).1.toNat + 256 * (rotateLeft v c).2.toNat = 2 * v.toNat + c.toNat := by
  revert v; cases c <;> decide

theorem toNat_rotateRight (v : Byte) (c : Bool) :
    2 * (rotateRight v c).1.toNat + (rotateRight v c).2.toNat = v.toNat + 256 * c.toNat := by
  revert v; cases c <;> decide

end Mos6502.Alu
