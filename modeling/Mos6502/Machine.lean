import Mos6502.Memory
import Mos6502.Processor.Query

/-!
# Machines

A processor on a flat memory: loading an image into it, starting it, and the line that reports its
registers.
-/

namespace Mos6502

structure Machine where
  processor : Processor := {}
  memory : Memory := .zeros
deriving DecidableEq

namespace Machine

/-! ## Events -/

inductive Event where
  | processor (event : Processor.Event)
  | loaded (count : Nat) (path : String) (address : Word)
  | starting (pc : Word)
  /-- The reset sequence has found where to start. -/
  | vectored (pc : Word)
  /-- A run has come upon a processor that is locked up. -/
  | jammed (pc : Word)
  | skipped (refusal : UnsupportedOpcode)
deriving DecidableEq, Repr

namespace Event

def level : Event → Log.Level
  | .processor e => e.level
  | .loaded .. | .starting _ | .vectored _ => .info
  | .jammed _ | .skipped _ => .warn

def source : Event → Log.Source
  | .processor _ => .processor
  | _ => .machine

def message : Event → String
  | .processor e => e.message
  | .loaded count path address => s!"loaded {count} bytes from {path} at ${Hex.word address}"
  | .starting pc => s!"starting at ${Hex.word pc}"
  | .vectored pc => s!"reset vector -> ${Hex.word pc}"
  | .jammed pc => s!"processor jammed at ${Hex.word pc}"
  | .skipped refusal => s!"{refusal.message}, skipping"

def line (e : Event) : Log.Line := ⟨e.level, e.source, e.message⟩

end Event

/-! ## Loading and starting -/

/-- Load an image from what the file system answered for its path. -/
def load (m : Machine) (path : String) (file : Except String (List Byte)) (address : Word) :
    Except LoadError Nat × Machine × List Event :=
  match m.memory.load path file address with
  | (.ok count, memory) => (.ok count, { m with memory }, [.loaded count path address])
  | (.error e, memory) => (.error e, { m with memory }, [])

/-- Start at an address, or where the reset sequence leads if none is given. -/
def boot (m : Machine) (start : Option Word) :
    Except UnsupportedOpcode Unit × Machine × List Event :=
  match start with
  | some pc => (.ok (), { m with processor := m.processor.setPc pc }, [.starting pc])
  | none =>
    match m.processor.reset.step m.memory with
    | (⟨outcome, processor, events⟩, memory) =>
      let events := .processor m.processor.resetEvent :: events.map .processor
      match outcome with
      | .refused e => (.error e, ⟨processor, memory⟩, events)
      | _ => (.ok (), ⟨processor, memory⟩, events ++ [.vectored processor.regs.pc])

/-! ## Looking at a machine -/

def query (m : Machine) (path : String) : Option Value := m.processor.query path

/-- The registers in one line. -/
def report (m : Machine) : String :=
  let r := m.processor.regs
  s!"PC=${Hex.word r.pc} A=${Hex.byte r.a} X=${Hex.byte r.x} Y=${Hex.byte r.y} " ++
    s!"S=${Hex.byte r.s} P={r.p.render} CYC={m.processor.cycles.toNat}"

end Machine

end Mos6502
