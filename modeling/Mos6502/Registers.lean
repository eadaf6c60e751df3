import Mos6502.Status

/-!
# Registers

The register file, and the two counters that move by themselves: the program counter over the code
and the stack pointer within page `$01`.
-/

namespace Mos6502

@[ext]
structure Registers where
  a : Byte := 0
  x : Byte := 0
  y : Byte := 0
  /-- Stack pointer, the low byte of the next free stack address. -/
  s : Byte := 0xFD
  pc : Word := 0
  p : Status := { interruptDisable := true }
deriving DecidableEq, Repr, Inhabited

namespace Registers

/-- Address of the next free stack slot. -/
def slot (r : Registers) : Word := Word.ofBytes 0x01 r.s

/-- The free slot has been claimed. -/
def pushed (r : Registers) : Registers := { r with s := r.s - 1 }

/-- The slot claimed last is free again. -/
def popped (r : Registers) : Registers := { r with s := r.s + 1 }

/-- The program counter has moved past one byte. -/
def advancePc (r : Registers) : Registers := { r with pc := r.pc + 1 }

@[simp] theorem popped_pushed (r : Registers) : r.pushed.popped = r :=
  Registers.ext rfl rfl rfl (BitVec.sub_add_cancel r.s 1) rfl rfl

@[simp] theorem pushed_popped (r : Registers) : r.popped.pushed = r :=
  Registers.ext rfl rfl rfl (BitVec.add_sub_cancel r.s 1) rfl rfl

@[simp] theorem slot_advancePc (r : Registers) : r.advancePc.slot = r.slot := rfl

@[simp] theorem pc_pushed (r : Registers) : r.pushed.pc = r.pc := rfl

@[simp] theorem pc_popped (r : Registers) : r.popped.pc = r.pc := rfl

end Registers

end Mos6502
