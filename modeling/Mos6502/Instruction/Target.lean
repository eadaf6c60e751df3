import Mos6502.Bus
import Mos6502.Registers

/-!
# Target addresses

The addressing modes, and the cycles each spends on finding the address of its operand. Every such
cycle makes one access: it fetches a byte of the instruction, reads a pointer, or reads something it
then ignores while the address is being added up. Once the address is known the bus is free on the
very same cycle, so the instruction's own access comes at once.
-/

namespace Mos6502

inductive Index where
  | x
  | y
deriving DecidableEq, Repr

def Index.value : Index → Registers → Byte
  | .x, r => r.x
  | .y, r => r.y

inductive Mode where
  | immediate
  | zeroPage
  | zeroPageIndexed (index : Index)
  | absolute
  | absoluteIndexed (index : Index)
  /-- The pointer is indexed: `(zp,X)`. -/
  | indexedIndirect
  /-- The address behind the pointer is indexed: `(zp),Y`. -/
  | indirectIndexed
deriving DecidableEq, Repr

/-- When an indexed access spends the cycle that corrects the high byte of its address. -/
inductive Correction where
  /-- Reads spend it only if the index carried. -/
  | ifCrossed
  /-- Writes spend it in any case. -/
  | always
deriving DecidableEq, Repr

/-- What is known of an operand's address so far. -/
structure Target where
  address : Word := 0
  /-- Zero-page address of the pointer, in the modes that have one. -/
  pointer : Byte := 0
  /-- The index carried out of the low byte. -/
  crossed : Bool := false
  /-- The address is final. -/
  ready : Bool := false
deriving DecidableEq, Repr

/-- How far one cycle gets with an address. -/
inductive Resolution where
  /-- The cycle's access was spent on the address. -/
  | pending (cycle : Cycle (Target × Registers))
  /-- The address is final and the bus is still free. -/
  | ready (target : Target) (regs : Registers)

namespace Target

/-- Add an index to the low byte; the carry waits. -/
def addIndex (t : Target) (hi index : Byte) : Target :=
  { t with
    address := Word.ofBytes hi (t.address.low + index)
    crossed := decide (0xFF < t.address.low.toNat + index.toNat) }

/-- Let the carry into the high byte. -/
def addCarry (t : Target) : Target :=
  if t.crossed then { t with address := t.address + 0x100 } else t

/-- Spend an access on a byte of the instruction. -/
def fetch (r : Registers) (next : Byte → Target) : Resolution :=
  .pending (.read r.pc fun value => (next value, r.advancePc))

/-- Spend an access on another byte. -/
def peek (r : Registers) (address : Word) (next : Byte → Target) : Resolution :=
  .pending (.read address fun value => (next value, r))

def settled (t : Target) (r : Registers) : Resolution := .ready { t with ready := true } r

/-- The cycle that corrects the high byte, if it is spent: a read at the address without the carry.
-/
def correct (t : Target) (correction : Correction) (r : Registers) : Resolution :=
  if !t.crossed && correction == .ifCrossed then t.settled r
  else peek r t.address fun _ => t.addCarry

/-- One cycle of an instruction, the first after the opcode being 1, as far as the address needs it.
-/
def locate (t : Target) (cycle : Nat) (mode : Mode) (correction : Correction) (r : Registers) :
    Resolution :=
  if t.ready then .ready t r
  else match mode, cycle with
  | .immediate, _ => { t with address := r.pc }.settled r.advancePc
  | .zeroPage, 1 => fetch r fun z => { t with address := Word.ofBytes 0 z }
  | .zeroPage, _ => t.settled r
  | .zeroPageIndexed _, 1 => fetch r fun z => { t with pointer := z }
  | .zeroPageIndexed index, 2 =>
    peek r (Word.ofBytes 0 t.pointer) fun _ =>
      { t with address := Word.ofBytes 0 (t.pointer + index.value r) }
  | .zeroPageIndexed _, _ => t.settled r
  | .absolute, 1 => fetch r fun lo => { t with address := Word.ofBytes 0 lo }
  | .absolute, 2 => fetch r fun hi => { t with address := Word.ofBytes hi t.address.low }
  | .absolute, _ => t.settled r
  | .absoluteIndexed _, 1 => fetch r fun lo => { t with address := Word.ofBytes 0 lo }
  | .absoluteIndexed index, 2 => fetch r fun hi => t.addIndex hi (index.value r)
  | .absoluteIndexed _, 3 => t.correct correction r
  | .absoluteIndexed _, _ => t.settled r
  | .indexedIndirect, 1 => fetch r fun z => { t with pointer := z }
  | .indexedIndirect, 2 =>
    peek r (Word.ofBytes 0 t.pointer) fun _ => { t with pointer := t.pointer + r.x }
  | .indexedIndirect, 3 =>
    peek r (Word.ofBytes 0 t.pointer) fun lo => { t with address := Word.ofBytes 0 lo }
  | .indexedIndirect, 4 =>
    peek r (Word.ofBytes 0 (t.pointer + 1)) fun hi =>
      { t with address := Word.ofBytes hi t.address.low }
  | .indexedIndirect, _ => t.settled r
  | .indirectIndexed, 1 => fetch r fun z => { t with pointer := z }
  | .indirectIndexed, 2 =>
    peek r (Word.ofBytes 0 t.pointer) fun lo => { t with address := Word.ofBytes 0 lo }
  | .indirectIndexed, 3 =>
    peek r (Word.ofBytes 0 (t.pointer + 1)) fun hi => t.addIndex hi r.y
  | .indirectIndexed, 4 => t.correct correction r
  | .indirectIndexed, _ => t.settled r

@[simp] theorem locate_of_ready {t : Target} (h : t.ready = true) (cycle : Nat) (mode : Mode)
    (correction : Correction) (r : Registers) :
    t.locate cycle mode correction r = .ready t r := by
  simp [locate, h]

end Target

end Mos6502
