import Mos6502.Operation
import Mos6502.Instruction.Target

/-!
# Sequences

What an instruction does on each of its cycles after the opcode fetch. A sequence is a function from
the cycle it is in to one bus access and the `Stage` that follows, so a sequence makes exactly one
access per cycle whatever the bus answers.
-/

namespace Mos6502

/-- A hardware interrupt. -/
inductive Interrupt where
  | nmi
  | irq
deriving DecidableEq, Repr

/-- Where the address of the interrupt's handler is kept. -/
def Interrupt.vector : Interrupt → Word
  | .nmi => 0xFFFA
  | .irq => 0xFFFE

/-- Where the address execution starts from is kept. -/
def resetVector : Word := 0xFFFC

inductive Sequence where
  | data (mode : Mode) (op : DataOp)
  | store (mode : Mode) (op : StoreOp)
  | modify (mode : Mode) (op : ModifyOp)
  /-- A modification of the accumulator. -/
  | accumulator (op : ModifyOp)
  | register (op : RegisterOp)
  | branch (condition : Condition)
  | brk
  /-- Entry into an interrupt's handler. -/
  | entry (source : Interrupt)
  | reset
  | jsr
  | rts
  | rti
  | jmp
  | jmpIndirect
  | pha
  | php
  | pla
  | plp
  /-- Locks the processor up, and never completes. -/
  | jam
  /-- Stands for an opcode that is not executed. -/
  | unsupported
deriving DecidableEq, Repr

/-- What a sequence carries from one cycle to the next. -/
structure Progress where
  /-- The cycle about to run, counted from 1. -/
  cycle : Nat := 1
  target : Target := {}
  /-- Cycles of a modification already run. -/
  phase : Nat := 0
  data : Byte := 0
deriving DecidableEq, Repr

namespace Progress

/-- The cycle has been run. The count stops at the largest byte. -/
def tick (p : Progress) : Progress := { p with cycle := min (p.cycle + 1) 0xFF }

def keep (p : Progress) (data : Byte) : Progress := { p with data }

def setAddress (p : Progress) (address : Word) : Progress := { p with target.address := address }

end Progress

/-- What follows a cycle's access. -/
inductive Stage where
  | more (progress : Progress) (regs : Registers)
  | done (progress : Progress) (regs : Registers)
  /-- Done, and the access was the fetch of the next opcode. -/
  | prefetched (progress : Progress) (regs : Registers) (opcode : Byte)

namespace Sequence

/-! ## Instructions with an operand in memory -/

/-- Find the operand's address, then go on with the instruction's own access. -/
def atTarget (mode : Mode) (correction : Correction)
    (next : Progress → Registers → Cycle Stage) (p : Progress) (r : Registers) : Cycle Stage :=
  match p.target.locate p.cycle mode correction r with
  | .pending cycle => cycle.map fun (target, r) => .more { p with target } r
  | .ready target r => next { p with target } r

def read (op : DataOp) (p : Progress) (r : Registers) : Cycle Stage :=
  .read p.target.address fun value => .done p (op.apply r value)

def write (op : StoreOp) (p : Progress) (r : Registers) : Cycle Stage :=
  .write p.target.address (op.value r) (.done p r)

/-- The byte is read, written back as it was while the operation is carried out, and written again.
-/
def readModifyWrite (op : ModifyOp) (p : Progress) (r : Registers) : Cycle Stage :=
  let address := p.target.address
  let p' := { p with phase := p.phase + 1 }
  match p.phase with
  | 0 => .read address fun value => .more (p'.keep value) r
  | 1 =>
    let (value, r) := op.apply r p.data
    .write address p.data (.more (p'.keep value) r)
  | _ => .write address p.data (.done p' r)

/-! ## Branches -/

/-- Every way through a branch ends with the fetch of the next opcode. A taken branch first moves
the low byte of the program counter alone, and the high byte a cycle later if it has to. -/
def branchOn (condition : Condition) (p : Progress) (r : Registers) : Cycle Stage :=
  match p.cycle with
  | 1 => .read r.pc fun offset => .more (p.keep offset) r.advancePc
  | 2 =>
    .read r.pc fun opcode =>
      if condition.holds r.p then
        .more (p.setAddress (r.pc + p.data.signExtend 16))
          { r with pc := Word.ofBytes r.pc.high (r.pc.low + p.data) }
      else .prefetched p r.advancePc opcode
  | 3 =>
    .read r.pc fun opcode =>
      if r.pc = p.target.address then .prefetched p r.advancePc opcode
      else .more p { r with pc := p.target.address }
  | _ => .read r.pc fun opcode => .prefetched p r.advancePc opcode

/-! ## Interrupts and reset -/

/-- Push a byte and go on. -/
def push (value : Byte) (p : Progress) (r : Registers) : Cycle Stage :=
  .write r.slot value (.more p r.pushed)

/-- Read the low byte of a vector. -/
def vectorLow (vector : Word) (p : Progress) (r : Registers) : Cycle Stage :=
  .read vector fun lo => .more (p.setAddress (Word.ofBytes 0 lo)) r

/-- Read the high byte of a vector, and continue where it points. -/
def vectorHigh (vector : Word) (p : Progress) (r : Registers) : Cycle Stage :=
  .read (vector + 1) fun hi => .done p { r with pc := Word.ofBytes hi p.target.address.low }

/-- The byte behind the opcode is skipped, and execution returns behind it. -/
def forceBreak (p : Progress) (r : Registers) : Cycle Stage :=
  match p.cycle with
  | 1 => .read r.pc fun _ => .more p r.advancePc
  | 2 => push r.pc.high p r
  | 3 => push r.pc.low p r
  | 4 => push r.p.instructionCopy p r
  | 5 => (vectorLow Interrupt.irq.vector p) { r with p.interruptDisable := true }
  | _ => vectorHigh Interrupt.irq.vector p r

/-- The opcode fetched before this was dropped, so this begins with a second read there. -/
def interrupt (source : Interrupt) (p : Progress) (r : Registers) : Cycle Stage :=
  match p.cycle with
  | 1 => .read r.pc fun _ => .more p r
  | 2 => push r.pc.high p r
  | 3 => push r.pc.low p r
  | 4 => .write r.slot r.p.interruptCopy (.more p { r.pushed with p.interruptDisable := true })
  | 5 => vectorLow source.vector p r
  | _ => vectorHigh source.vector p r

/-- The pushes of an interrupt, turned into reads. -/
def start (p : Progress) (r : Registers) : Cycle Stage :=
  match p.cycle with
  | 1 | 2 => .read r.pc fun _ => .more p r
  | 3 | 4 | 5 => .read r.slot fun _ => .more p r.pushed
  | 6 => vectorLow resetVector p r
  | _ => (vectorHigh resetVector p) { r with p.interruptDisable := true }

/-! ## Jumps and returns -/

/-- The high byte of the target is fetched after the return address, which is that of this byte, has
been pushed. -/
def call (p : Progress) (r : Registers) : Cycle Stage :=
  match p.cycle with
  | 1 => .read r.pc fun lo => .more (p.keep lo) r.advancePc
  | 2 => .read r.slot fun _ => .more p r
  | 3 => push r.pc.high p r
  | 4 => push r.pc.low p r
  | _ => .read r.pc fun hi => .done p { r with pc := Word.ofBytes hi p.data }

def returnFromCall (p : Progress) (r : Registers) : Cycle Stage :=
  match p.cycle with
  | 1 => .read r.pc fun _ => .more p r
  | 2 => .read r.slot fun _ => .more p r
  | 3 => .read r.popped.slot fun lo => .more (p.setAddress (Word.ofBytes 0 lo)) r.popped
  | 4 =>
    .read r.popped.slot fun hi =>
      let address := Word.ofBytes hi p.target.address.low
      .more (p.setAddress address) { r.popped with pc := address }
  | _ => .read r.pc fun _ => .done p r.advancePc

def returnFromInterrupt (p : Progress) (r : Registers) : Cycle Stage :=
  match p.cycle with
  | 1 => .read r.pc fun _ => .more p r
  | 2 => .read r.slot fun _ => .more p r
  | 3 => .read r.popped.slot fun status => .more p { r.popped with p := Status.ofByte status }
  | 4 => .read r.popped.slot fun lo => .more (p.setAddress (Word.ofBytes 0 lo)) r.popped
  | _ =>
    .read r.popped.slot fun hi =>
      .done p { r.popped with pc := Word.ofBytes hi p.target.address.low }

def jump (p : Progress) (r : Registers) : Cycle Stage :=
  match p.cycle with
  | 1 => .read r.pc fun lo => .more (p.keep lo) r.advancePc
  | _ => .read r.pc fun hi => .done p { r with pc := Word.ofBytes hi p.data }

/-- The pointer never carries: the high byte of the target comes from the page of the low one. -/
def jumpIndirect (p : Progress) (r : Registers) : Cycle Stage :=
  let pointer := p.target.address
  match p.cycle with
  | 1 => .read r.pc fun lo => .more (p.setAddress (Word.ofBytes 0 lo)) r.advancePc
  | 2 => .read r.pc fun hi => .more (p.setAddress (Word.ofBytes hi pointer.low)) r.advancePc
  | 3 => .read pointer fun lo => .more (p.keep lo) r
  | _ =>
    .read (Word.ofBytes pointer.high (pointer.low + 1)) fun hi =>
      .done p { r with pc := Word.ofBytes hi p.data }

/-! ## Stack instructions -/

def pushByte (value : Byte) (p : Progress) (r : Registers) : Cycle Stage :=
  match p.cycle with
  | 1 => .read r.pc fun _ => .more p r
  | _ => .write r.slot value (.done p r.pushed)

def pullByte (next : Registers → Byte → Registers) (p : Progress) (r : Registers) : Cycle Stage :=
  match p.cycle with
  | 1 => .read r.pc fun _ => .more p r
  | 2 => .read r.slot fun _ => .more p r
  | _ => .read r.popped.slot fun value => .done p (next r.popped value)

/-! ## All sequences -/

/-- One cycle of a sequence. -/
def cycle : Sequence → Progress → Registers → Cycle Stage
  | .data mode op, p, r => atTarget mode .ifCrossed (read op) p r
  | .store mode op, p, r => atTarget mode .always (write op) p r
  | .modify mode op, p, r => atTarget mode .always (readModifyWrite op) p r
  | .accumulator op, p, r =>
    .read r.pc fun _ =>
      let (value, r) := op.apply r r.a
      .done p { r with a := value }
  | .register op, p, r => .read r.pc fun _ => .done p (op.apply r)
  | .branch condition, p, r => branchOn condition p r
  | .brk, p, r => forceBreak p r
  | .entry source, p, r => interrupt source p r
  | .reset, p, r => start p r
  | .jsr, p, r => call p r
  | .rts, p, r => returnFromCall p r
  | .rti, p, r => returnFromInterrupt p r
  | .jmp, p, r => jump p r
  | .jmpIndirect, p, r => jumpIndirect p r
  | .pha, p, r => pushByte r.a p r
  | .php, p, r => pushByte r.p.instructionCopy p r
  | .pla, p, r => pullByte Registers.setA p r
  | .plp, p, r => pullByte (fun r value => { r with p := Status.ofByte value }) p r
  | .jam, p, r | .unsupported, p, r => .read r.pc fun _ => .more p r

end Sequence

end Mos6502
