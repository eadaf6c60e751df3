import Mos6502.Instruction
import Mos6502.Processor.Event

/-!
# The processor

A tick is one clock: it makes one access, which either fetches an opcode or advances the instruction
in flight. Interrupts are polled where an opcode would be fetched. A branch ends by fetching the
opcode behind it, and then the processor is at an instruction boundary with that opcode in flight.
-/

universe u

namespace Mos6502

structure Processor where
  regs : Registers := {}
  /-- The instruction in flight. -/
  inFlight : Option Instruction := none
  /-- The opcode fetched last. -/
  opcode : Byte := 0
  /-- Cycles since the last reset. -/
  cycles : UInt64 := 0
  /-- Latched until its handler is entered. -/
  nmiLatched : Bool := false
  /-- A request that was accepted while interrupts were enabled. -/
  irqRequested : Bool := false
  /-- An unsupported opcode that a branch fetched, to be reported by the next tick. -/
  refusal : Option UnsupportedOpcode := none
deriving DecidableEq, Repr

namespace Processor

/-- What became of the instruction in flight. -/
inductive Outcome where
  | completed
  | unfinished
  /-- An opcode was fetched that is not executed. -/
  | refused (refusal : UnsupportedOpcode)
deriving DecidableEq, Repr

/-- What a tick or a step did. -/
structure Turn where
  outcome : Outcome
  processor : Processor
  events : List Event := []
deriving DecidableEq, Repr

/-- A processor with nothing in flight. -/
def ofRegisters (regs : Registers) : Processor := { regs }

/-- The program counter moves at once, and is looked at by the next fetch. -/
def setPc (p : Processor) (pc : Word) : Processor := { p with regs.pc := pc }

/-- Does a locked-up instruction hold the processor? -/
def isHalted (p : Processor) : Bool := p.inFlight.any Instruction.isJam

/-! ## Requests from outside -/

/-- Request an interrupt; refused while interrupts are disabled. -/
def interrupt (p : Processor) : Bool × Processor :=
  if p.regs.p.interruptDisable then (false, p) else (true, { p with irqRequested := true })

/-- Latch a non-maskable interrupt. -/
def nmi (p : Processor) : Processor := { p with nmiLatched := true }

/-- Drop everything in flight and begin the reset sequence, which the next ticks run. -/
def reset (p : Processor) : Processor :=
  { p with
    inFlight := some .reset
    cycles := 0
    nmiLatched := false
    irqRequested := false
    refusal := none }

/-- What a reset reports. -/
def resetEvent (p : Processor) : Event := .reset p.regs.pc

/-! ## One cycle -/

/-- The interrupt to enter where the next opcode would be fetched. -/
def dueInterrupt (p : Processor) : Option Interrupt :=
  if p.nmiLatched then some .nmi
  else if p.irqRequested && !p.regs.p.interruptDisable then some .irq
  else none

/-- One request has been used up. -/
def acknowledge (p : Processor) : Interrupt → Processor
  | .nmi => { p with nmiLatched := false }
  | .irq => { p with irqRequested := false }

/-- Decode the opcode that was fetched from an address, and take it in flight unless it is refused.
-/
def accept (p : Processor) (opcode : Byte) (address : Word) : Turn :=
  let p := { p with opcode }
  let instruction := Instruction.decode opcode
  let decoded := Event.decoded address opcode p.regs p.cycles
  if instruction.isUnsupported then
    ⟨.refused ⟨address, opcode⟩, p, [decoded, .unsupported address opcode]⟩
  else
    ⟨.unfinished, { p with inFlight := some instruction },
      if instruction.isJam then [decoded, .jam address opcode] else [decoded]⟩

/-- Fetch the next opcode, or read it, drop it and enter the interrupt that is due. -/
def fetch (p : Processor) : Cycle Turn :=
  match p.dueInterrupt with
  | some source =>
    .read p.regs.pc fun _ =>
      ⟨.unfinished, { p.acknowledge source with inFlight := some (.interrupt source) },
        [.interrupt source.vector p.regs.pc]⟩
  | none => .read p.regs.pc fun opcode => { p with regs := p.regs.advancePc }.accept opcode p.regs.pc

/-- An instruction has completed. If it has fetched the next opcode, that one is decoded now, and
refusing it has to wait for the next tick. -/
def complete (p : Processor) (prefetched : Option Byte) : Turn :=
  match prefetched with
  | none => ⟨.completed, p, []⟩
  | some opcode =>
    match p.accept opcode (p.regs.pc - 1) with
    | ⟨.refused e, p, events⟩ => ⟨.completed, { p with refusal := some e }, events⟩
    | ⟨_, p, events⟩ => ⟨.completed, p, events⟩

/-- Put an advanced instruction back, or complete it. -/
def settle (p : Processor) (advance : Advance) : Turn :=
  if advance.done then
    { p with regs := advance.regs, inFlight := none }.complete advance.instruction.prefetched
  else ⟨.unfinished, { p with regs := advance.regs, inFlight := some advance.instruction }, []⟩

/-- The cycle of a tick that has no refusal to report. -/
def cycle (p : Processor) : Cycle Turn :=
  let p := { p with cycles := p.cycles + 1 }
  match p.inFlight with
  | none => p.fetch
  | some instruction => (instruction.advance p.regs).map p.settle

/-! ## Running on a bus -/

variable {β : Type u} [Bus β]

/-- One clock. A refusal that was put off is reported first, which takes no cycle. -/
def tick (p : Processor) (bus : β) : Turn × β :=
  match p.refusal with
  | some e => (⟨.refused e, { p with refusal := none }, []⟩, bus)
  | none => p.cycle.run bus

/-- Tick until an instruction completes, an opcode is refused or the processor is halted, but at most
so many times. -/
def stepWithin : Nat → Processor → β → Turn × β
  | 0, p, bus => (⟨.unfinished, p, []⟩, bus)
  | limit + 1, p, bus =>
    match p.tick bus with
    | (⟨.unfinished, p, events⟩, bus) =>
      if p.isHalted then (⟨.unfinished, p, events⟩, bus)
      else
        match stepWithin limit p bus with
        | (turn, bus) => ({ turn with events := events ++ turn.events }, bus)
    | (turn, bus) => (turn, bus)

/-- No instruction takes more ticks than this, the fetch included. -/
def longest : Nat := 8

/-- Tick until the current instruction completes. Only a halted processor leaves it unfinished, and
then one tick is spent. -/
def step (p : Processor) (bus : β) : Turn × β := p.stepWithin longest bus

end Processor

end Mos6502
