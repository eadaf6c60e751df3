import Mos6502.Machine

/-!
# Runs

Two ways to let a machine run: for a number of instructions, or cycle by cycle in batches until the
time is up. Both go on behind an unsupported opcode, and both end where the processor is locked up.
-/

namespace Mos6502.Machine

/-- The events of the processor, and the refusal if the outcome is one. -/
def eventsOf (turn : Processor.Turn) : List Event :=
  turn.events.map .processor ++
    match turn.outcome with
    | .refused e => [.skipped e]
    | _ => []

/-! ## By instructions -/

/-- What a number of steps came to. -/
structure Summary where
  /-- Steps that completed an instruction. -/
  instructions : Nat := 0
  /-- Steps that refused an opcode. -/
  unsupported : Nat := 0
  /-- A step found the processor locked up. -/
  halted : Bool := false
deriving DecidableEq, Repr

/-- Count one more step. -/
def Summary.count (s : Summary) : Processor.Outcome → Summary
  | .completed => { s with instructions := s.instructions + 1 }
  | .unfinished => { s with halted := true }
  | .refused _ => { s with unsupported := s.unsupported + 1 }

/-- The summary of two runs, the second of which goes on from the first. -/
def Summary.append (s t : Summary) : Summary where
  instructions := s.instructions + t.instructions
  unsupported := s.unsupported + t.unsupported
  halted := t.halted

/-- The state of a run by instructions. -/
structure Run where
  machine : Machine
  summary : Summary := {}
  events : Array Event := #[]

/-- Go on with a run for up to so many steps. -/
def Run.go : Nat → Run → Run
  | 0, run => run
  | count + 1, ⟨⟨processor, memory⟩, summary, events⟩ =>
    match processor.step memory with
    | (turn, memory) =>
      let summary := summary.count turn.outcome
      let events := events ++ eventsOf turn
      if summary.halted then
        ⟨⟨turn.processor, memory⟩, summary, events.push (.jammed turn.processor.regs.pc)⟩
      else go count ⟨⟨turn.processor, memory⟩, summary, events⟩

/-- Execute up to so many instructions. -/
def execute (m : Machine) (count : Nat) : Run := Run.go count { machine := m }

/-! ## By cycles -/

/-- The state of a run by cycles. -/
structure Burst where
  machine : Machine
  events : Array Event := #[]
  /-- The processor was found locked up. -/
  halted : Bool := false

/-- Go on for a number of cycles. -/
def Burst.batch : Nat → Burst → Burst
  | 0, burst => burst
  | size + 1, ⟨⟨processor, memory⟩, events, halted⟩ =>
    match processor.tick memory with
    | (turn, memory) =>
      let events := events ++ eventsOf turn
      if turn.processor.isHalted then
        ⟨⟨turn.processor, memory⟩, events.push (.jammed turn.processor.regs.pc), true⟩
      else batch size ⟨⟨turn.processor, memory⟩, events, halted⟩

/-- Go on for up to so many batches. -/
def Burst.go (size : Nat) : Nat → Burst → Burst
  | 0, burst => burst
  | batches + 1, burst =>
    let burst := burst.batch size
    if burst.halted then burst else go size batches burst

/-- Tick in batches of a size. How many there is time for is up to the clock. -/
def tickBatches (m : Machine) (batches size : Nat) : Burst := Burst.go size batches { machine := m }

end Mos6502.Machine
