import Mos6502.Byte

/-!
# Processor status

The status register holds six flags. The byte form has two further bits, break (`$10`) and an
unused one (`$20`), which exist only in the copy on the stack: pushing puts them in, pulling drops
them.
-/

namespace Mos6502

inductive Flag where
  | carry
  | zero
  | interruptDisable
  | decimal
  | overflow
  | negative
deriving DecidableEq, Repr

@[ext]
structure Status where
  carry : Bool := false
  zero : Bool := false
  /-- Interrupt requests wait while this is set. -/
  interruptDisable : Bool := false
  /-- Held, pushed and pulled, but no operation looks at it. -/
  decimal : Bool := false
  overflow : Bool := false
  negative : Bool := false
deriving DecidableEq, Repr, Inhabited

namespace Status

def get (p : Status) : Flag → Bool
  | .carry => p.carry
  | .zero => p.zero
  | .interruptDisable => p.interruptDisable
  | .decimal => p.decimal
  | .overflow => p.overflow
  | .negative => p.negative

def put (p : Status) (flag : Flag) (on : Bool) : Status :=
  match flag with
  | .carry => { p with carry := on }
  | .zero => { p with zero := on }
  | .interruptDisable => { p with interruptDisable := on }
  | .decimal => { p with decimal := on }
  | .overflow => { p with overflow := on }
  | .negative => { p with negative := on }

@[simp] theorem get_put_self (p : Status) (f : Flag) (on : Bool) : (p.put f on).get f = on := by
  cases f <;> rfl

theorem get_put_of_ne (p : Status) {f g : Flag} (on : Bool) (h : g ≠ f) :
    (p.put f on).get g = p.get g := by
  cases f <;> cases g <;> first | rfl | exact absurd rfl h

/-- Zero and negative follow a result. -/
def ofResult (p : Status) (result : Byte) : Status :=
  { p with zero := result == 0, negative := result.msb }

/-! ## The byte form -/

/-- The flags in a byte; bits 4 and 5 are dropped. -/
def ofByte (b : Byte) : Status where
  carry := b.getLsbD 0
  zero := b.getLsbD 1
  interruptDisable := b.getLsbD 2
  decimal := b.getLsbD 3
  overflow := b.getLsbD 6
  negative := b.getLsbD 7

/-- The live flags, with bits 4 and 5 clear. -/
def toByte (p : Status) : Byte :=
  BitVec.ofBoolListLE
    [p.carry, p.zero, p.interruptDisable, p.decimal, false, false, p.overflow, p.negative]

/-- The copy that an instruction pushes: break and the unused bit are set. -/
def instructionCopy (p : Status) : Byte := p.toByte ||| 0x30

/-- The copy that an interrupt pushes: only the unused bit is set. -/
def interruptCopy (p : Status) : Byte := p.toByte ||| 0x20

@[simp] theorem ofByte_toByte (p : Status) : ofByte p.toByte = p := by
  rcases p with ⟨_ | _, _ | _, _ | _, _ | _, _ | _, _ | _⟩ <;> rfl

@[simp] theorem ofByte_instructionCopy (p : Status) : ofByte p.instructionCopy = p := by
  rcases p with ⟨_ | _, _ | _, _ | _, _ | _, _ | _, _ | _⟩ <;> rfl

@[simp] theorem ofByte_interruptCopy (p : Status) : ofByte p.interruptCopy = p := by
  rcases p with ⟨_ | _, _ | _, _ | _, _ | _, _ | _, _ | _⟩ <;> rfl

/-- Is any flag of the mask set? -/
def any (p : Status) (mask : Byte) : Bool := p.toByte &&& mask != 0

/-- Put every flag of the mask into one state. -/
def assign (p : Status) (mask : Byte) (on : Bool) : Status :=
  ofByte (if on then p.toByte ||| mask else p.toByte &&& ~~~mask)

/-! ## The text form -/

/-- One letter per bit from the highest down, in upper case where the flag is set. The two bits that
are never live always show as `-` and `b`. -/
def render (p : Status) : String :=
  String.ofList
    [letter p.negative 'n', letter p.overflow 'v', '-', 'b', letter p.decimal 'd',
      letter p.interruptDisable 'i', letter p.zero 'z', letter p.carry 'c']
where
  letter (on : Bool) (c : Char) : Char := if on then c.toUpper else c

end Status

end Mos6502
