import Mos6502.Processor
import Mos6502.Value

/-!
# Queries

What can be asked about a processor, by a path such as `pc` or `flags.z`. Asking changes nothing.
-/

namespace Mos6502

inductive Query where
  | pc
  | a
  | x
  | y
  | s
  | p
  /-- All flags as text. -/
  | flags
  | flag (flag : Flag)
  | opcode
  | cycle
  | halted
deriving DecidableEq, Repr

namespace Query

def path : Query → String
  | .pc => "pc"
  | .a => "a"
  | .x => "x"
  | .y => "y"
  | .s => "s"
  | .p => "p"
  | .flags => "flags"
  | .flag .carry => "flags.c"
  | .flag .zero => "flags.z"
  | .flag .interruptDisable => "flags.i"
  | .flag .decimal => "flags.d"
  | .flag .overflow => "flags.v"
  | .flag .negative => "flags.n"
  | .opcode => "opcode"
  | .cycle => "cycle"
  | .halted => "halted"

/-- All queries, in the order in which they are listed. -/
def all : List Query :=
  [.pc, .a, .x, .y, .s, .p, .flags, .flag .carry, .flag .zero, .flag .interruptDisable,
    .flag .decimal, .flag .overflow, .flag .negative, .opcode, .cycle, .halted]

def paths : List String := all.map path

def ofPath? (path : String) : Option Query := all.find? (·.path == path)

theorem mem_all (q : Query) : q ∈ all := by
  cases q with
  | flag f => cases f <;> decide
  | _ => decide

@[simp] theorem ofPath?_path (q : Query) : ofPath? q.path = some q := by
  cases q with
  | flag f => cases f <;> decide
  | _ => decide

end Query

namespace Processor

def observe (p : Processor) : Query → Value
  | .pc => .word p.regs.pc
  | .a => .byte p.regs.a
  | .x => .byte p.regs.x
  | .y => .byte p.regs.y
  | .s => .byte p.regs.s
  | .p => .byte p.regs.p.toByte
  | .flags => .text p.regs.p.render
  | .flag f => .bool (p.regs.p.get f)
  | .opcode => .byte p.opcode
  | .cycle => .count p.cycles
  | .halted => .bool p.isHalted

/-- The value at a path, if there is one. -/
def query (p : Processor) (path : String) : Option Value := (Query.ofPath? path).map p.observe

end Processor

end Mos6502
