import Mos6502.Byte

/-!
# Hexadecimal text

Numbers of a fixed width in upper-case digits, the highest digit first.
-/

namespace Mos6502.Hex

/-- The digit of a number below sixteen. -/
def digit (n : Nat) : Char := (Nat.digitChar n).toUpper

/-- The last `width` digits of a number. -/
def digits : (width : Nat) → Nat → List Char
  | 0, _ => []
  | width + 1, n => digits width (n / 16) ++ [digit (n % 16)]

@[simp] theorem length_digits (width n : Nat) : (digits width n).length = width := by
  induction width generalizing n with
  | zero => rfl
  | succ width ih => simp [digits, ih]

def byte (b : Byte) : String := String.ofList (digits 2 b.toNat)

def word (w : Word) : String := String.ofList (digits 4 w.toNat)

end Mos6502.Hex
