import Mos6502.Instruction.Opcode

/-!
# Instructions in flight

An instruction comes from its opcode, or is one of the reset and interrupt sequences, and is advanced
one cycle at a time. The fetch of the opcode is not part of it.
-/

namespace Mos6502

structure Instruction where
  /-- Absent in the reset and interrupt sequences. -/
  opcode : Option Byte
  sequence : Sequence
  progress : Progress := {}
  /-- The next opcode, if a branch has fetched it. -/
  prefetched : Option Byte := none
deriving DecidableEq, Repr

/-- What one cycle made of an instruction. -/
structure Advance where
  done : Bool
  instruction : Instruction
  regs : Registers
deriving DecidableEq, Repr

namespace Instruction

def decode (opcode : Byte) : Instruction := { opcode := some opcode, sequence := Opcode.sequence opcode }

def reset : Instruction := { opcode := none, sequence := .reset }

def interrupt (source : Interrupt) : Instruction := { opcode := none, sequence := .entry source }

/-- The cycle that the next `advance` runs. -/
def cycle (i : Instruction) : Nat := i.progress.cycle

def isJam (i : Instruction) : Bool := i.sequence == .jam

def isUnsupported (i : Instruction) : Bool := i.sequence == .unsupported

/-- Take the instruction whose opcode has been fetched already, if there is one. It is there once. -/
def takePrefetched (i : Instruction) : Option Instruction × Instruction :=
  (i.prefetched.map decode, { i with prefetched := none })

/-- Only a cycle that does not complete the instruction is counted. -/
def after (i : Instruction) : Stage → Advance
  | .more progress regs => ⟨false, { i with progress := progress.tick }, regs⟩
  | .done progress regs => ⟨true, { i with progress }, regs⟩
  | .prefetched progress regs opcode => ⟨true, { i with progress, prefetched := some opcode }, regs⟩

/-- Run one cycle. -/
def advance (i : Instruction) (r : Registers) : Cycle Advance :=
  (i.sequence.cycle i.progress r).map i.after

@[simp] theorem opcode_after (i : Instruction) (s : Stage) :
    (i.after s).instruction.opcode = i.opcode := by
  cases s <;> rfl

@[simp] theorem sequence_after (i : Instruction) (s : Stage) :
    (i.after s).instruction.sequence = i.sequence := by
  cases s <;> rfl

end Instruction

end Mos6502
