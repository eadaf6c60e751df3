import Mos6502.Log
import Mos6502.Registers
import Mos6502.Text.Hex

/-!
# Events of the processor

What the processor reports besides its outcome: each is a line of the log.
-/

namespace Mos6502

/-- An opcode that is not executed, with the address it was fetched from. -/
structure UnsupportedOpcode where
  address : Word
  opcode : Byte
deriving DecidableEq, Repr

def UnsupportedOpcode.message (e : UnsupportedOpcode) : String :=
  s!"encountered an unsupported ${Hex.byte e.opcode} opcode at ${Hex.word e.address}"

namespace Processor

inductive Event where
  /-- An opcode was decoded; with the registers and the cycle count of that moment. -/
  | decoded (address : Word) (opcode : Byte) (regs : Registers) (cycles : UInt64)
  | unsupported (address : Word) (opcode : Byte)
  | jam (address : Word) (opcode : Byte)
  | reset (pc : Word)
  | interrupt (vector pc : Word)
deriving DecidableEq, Repr

namespace Event

def level : Event → Log.Level
  | .decoded .. => .trace
  | .unsupported .. | .jam .. => .warn
  | .reset .. | .interrupt .. => .debug

def message : Event → String
  | .decoded address opcode r cycles =>
    s!"{Hex.word address}  {Hex.byte opcode}  A:{Hex.byte r.a} X:{Hex.byte r.x} Y:{Hex.byte r.y} " ++
      s!"P:{r.p.render} SP:{Hex.byte r.s} CYC:{cycles.toNat}"
  | .unsupported address opcode =>
    s!"unsupported opcode ${Hex.byte opcode} at ${Hex.word address}"
  | .jam address opcode => s!"JAM ${Hex.byte opcode} at ${Hex.word address}, processor halted"
  | .reset pc => s!"6502 reset from PC=${Hex.word pc}"
  | .interrupt vector pc => s!"6502 interrupt via ${Hex.word vector} at PC=${Hex.word pc}"

def line (e : Event) : Log.Line := ⟨e.level, .processor, e.message⟩

end Event

end Processor

end Mos6502
