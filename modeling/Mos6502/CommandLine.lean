import Mos6502.CommandLine.Options
import Mos6502.Machine.Run

/-!
# The runner

What a run from the command line prints: the log, then the report of the registers and the values
that were asked for.
-/

namespace Mos6502.CommandLine

inductive Event where
  | machine (event : Machine.Event)
  | loadFailed (error : LoadError)
  | bootFailed (refusal : UnsupportedOpcode)
  | finished (summary : Machine.Summary)
  | unknownQuery (path : String)
deriving DecidableEq, Repr

namespace Event

def level : Event → Log.Level
  | .machine e => e.level
  | .loadFailed _ | .bootFailed _ => .error
  | .finished _ => .info
  | .unknownQuery _ => .warn

def source : Event → Log.Source
  | .machine e => e.source
  | _ => .runner

def message : Event → String
  | .machine e => e.message
  | .loadFailed error => error.message
  | .bootFailed refusal => refusal.message
  | .finished summary =>
    let halted := if summary.halted then ", halted" else ""
    s!"{summary.instructions} instructions, {summary.unsupported} unsupported opcodes skipped" ++
      halted
  | .unknownQuery path =>
    let known := ", ".intercalate Query.paths
    s!"unknown query path {Text.quoted path}; known paths: {known}"

def line (e : Event) : Log.Line := ⟨e.level, e.source, e.message⟩

end Event

/-- What the program leaves behind. -/
structure Result where
  exitCode : Nat
  stdout : String
  events : List Event

/-- The log as it is printed, one line per event that the threshold admits. -/
def Result.stderr (r : Result) (threshold : Log.Threshold) : String :=
  String.join <|
    (r.events.filter fun e => threshold.admits e.level).map fun e => e.line.render ++ "\n"

/-- A machine with the image loaded, ready to run, or the failure that prevents it. -/
def prepare (o : Options) (file : Except String (List Byte)) : Option Machine × List Event :=
  match ({} : Machine).load o.program file o.loadAddress with
  | (.error e, _, events) => (none, events.map .machine ++ [.loadFailed e])
  | (.ok _, machine, loaded) =>
    match machine.boot o.start with
    | (.error e, _, booted) => (none, (loaded ++ booted).map .machine ++ [.bootFailed e])
    | (.ok _, machine, booted) => (some machine, (loaded ++ booted).map .machine)

/-- Run a machine as the options say; a run by time gets so many batches. -/
def execute (o : Options) (batches : Nat) (m : Machine) : Machine × List Event :=
  match o.continuousMs with
  | some _ =>
    let burst := m.tickBatches batches o.batch
    (burst.machine, burst.events.toList.map .machine)
  | none =>
    let run := m.execute o.steps
    (run.machine, run.events.toList.map .machine ++ [.finished run.summary])

/-- The answers to the queries: a line of output, or an event for a path that is not known. -/
def answer (m : Machine) (path : String) : String × List Event :=
  match m.query path with
  | some value => (s!"{path} = {value.render}\n", [])
  | none => ("", [.unknownQuery path])

/-- The report and the answers. -/
def conclude (o : Options) (m : Machine) : String × List Event :=
  let answers := o.queries.map (answer m)
  (m.report ++ "\n" ++ String.join (answers.map (·.1)), answers.flatMap (·.2))

/-- A whole run. -/
def run (o : Options) (file : Except String (List Byte)) (batches : Nat) : Result :=
  match prepare o file with
  | (none, events) => { exitCode := 1, stdout := "", events }
  | (some machine, prepared) =>
    match execute o batches machine with
    | (machine, executed) =>
      match conclude o machine with
      | (stdout, concluded) =>
        { exitCode := 0, stdout, events := prepared ++ executed ++ concluded }

end Mos6502.CommandLine
