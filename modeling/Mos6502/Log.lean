/-!
# The log

A log line has a level, the part of the program that it comes from, and a message.
-/

namespace Mos6502.Log

inductive Level where
  | error
  | warn
  | info
  | debug
  | trace
deriving DecidableEq, Repr

/-- The more severe the level, the smaller its rank. -/
def Level.rank : Level → Nat
  | .error => 1
  | .warn => 2
  | .info => 3
  | .debug => 4
  | .trace => 5

def Level.name : Level → String
  | .error => "ERROR"
  | .warn => "WARN"
  | .info => "INFO"
  | .debug => "DEBUG"
  | .trace => "TRACE"

/-- The least severe level that is shown; with `none`, nothing is. -/
abbrev Threshold := Option Level

def Threshold.admits (threshold : Threshold) (level : Level) : Bool :=
  match threshold with
  | none => false
  | some least => decide (level.rank ≤ least.rank)

/-- The part of the program that a line comes from. -/
inductive Source where
  | processor
  | machine
  | runner
deriving DecidableEq, Repr

def Source.name : Source → String
  | .processor => "nes_6502::processor"
  | .machine => "nes_runner::machine"
  | .runner => "nes_runner"

structure Line where
  level : Level
  source : Source
  message : String
deriving DecidableEq, Repr

/-- The name of a level, filled up with blanks to the length of the longest. -/
def Level.column (level : Level) : String := level.name.pushn ' ' (5 - level.name.length)

def Line.render (line : Line) : String :=
  s!"[{line.level.column} {line.source.name}] {line.message}"

end Mos6502.Log
