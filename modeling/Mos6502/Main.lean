import Mos6502.CommandLine

/-!
# The program

Reads the image, keeps the time and prints. Log lines go to the standard error stream as they come.
-/

namespace Mos6502.CommandLine

def usage : String :=
  "Usage: mos6502 [OPTIONS] <PROGRAM>\n\n" ++
    "  <PROGRAM>                raw program image\n" ++
    "  --load-address <ADDR>    address the image is loaded at [default: 0000]\n" ++
    "  --start <ADDR>           start here instead of running the reset sequence\n" ++
    "  --steps <N>              number of instructions to execute [default: 1000]\n" ++
    "  --continuous-ms <MS>     run for this many milliseconds instead\n" ++
    "  --batch <N>              cycles between two looks at the clock [default: 1024]\n" ++
    "  --query <PATH>           print a value after the run, e.g. pc or flags.c\n" ++
    "  --log-level <LEVEL>      off, error, warn, info, debug or trace [default: info]\n"

/-- What the system said about a file, with its code. -/
def describe : IO.Error → String
  | .noFileOrDirectory .. => "No such file or directory (os error 2)"
  | .permissionDenied .. => "Permission denied (os error 13)"
  | .inappropriateType _ code details => s!"{details} (os error {code})"
  | e => toString e

def readImage (path : String) : IO (Except String (List Byte)) := do
  try
    let bytes ← IO.FS.readBinFile path
    return .ok (bytes.toList.map fun b => b.toBitVec)
  catch e => return .error (describe e)

def emit (threshold : Log.Threshold) (events : List Event) : IO Unit :=
  for e in events do
    if threshold.admits e.level then IO.eprintln e.line.render

/-- Steps between two prints of the log. -/
def stride : Nat := 4096

partial def runCounted (threshold : Log.Threshold) (left : Nat) (summary : Machine.Summary)
    (m : Machine) : IO (Machine × Machine.Summary) := do
  if left = 0 then return (m, summary)
  let run := m.execute (min left stride)
  emit threshold (run.events.toList.map .machine)
  let summary := summary.append run.summary
  if run.summary.halted then return (run.machine, summary)
  else runCounted threshold (left - stride) summary run.machine

partial def runTimed (threshold : Log.Threshold) (deadline size : Nat) (m : Machine) :
    IO Machine := do
  let burst := m.tickBatches 1 size
  emit threshold (burst.events.toList.map .machine)
  if burst.halted then return burst.machine
  else if deadline ≤ (← IO.monoMsNow) then return burst.machine
  else runTimed threshold deadline size burst.machine

def perform (o : Options) : IO UInt32 := do
  let (prepared, events) := prepare o (← readImage o.program)
  emit o.logLevel events
  match prepared with
  | none => return 1
  | some m =>
    let m ← match o.continuousMs with
      | some ms => runTimed o.logLevel ((← IO.monoMsNow) + ms) o.batch m
      | none => do
        let (m, summary) ← runCounted o.logLevel o.steps {} m
        emit o.logLevel [.finished summary]
        pure m
    let (stdout, events) := conclude o m
    IO.print stdout
    emit o.logLevel events
    return 0

end Mos6502.CommandLine

open Mos6502.CommandLine in
def main (args : List String) : IO UInt32 := do
  match parse args with
  | .error e =>
    IO.eprintln s!"error: {e.message}\n\n{usage}"
    return 2
  | .ok .help =>
    IO.print usage
    return 0
  | .ok (.run o) => perform o
