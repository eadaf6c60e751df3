import Mos6502.Address
import Mos6502.Log

/-!
# The command line

The options of the runner and how they are read from the arguments. An option takes its value from
the same argument, behind an equals sign, or from the next one. Every option but `--query` may be
given once, and `--` ends the options.
-/

namespace Mos6502.CommandLine

structure Options where
  /-- Path of the image. -/
  program : String
  loadAddress : Word := 0
  /-- Without one, execution starts with the reset sequence. -/
  start : Option Word := none
  steps : Nat := 1000
  /-- Run for this long instead of for a number of steps. -/
  continuousMs : Option Nat := none
  batch : Nat := 1024
  queries : List String := []
  logLevel : Log.Threshold := some .info
deriving DecidableEq, Repr

/-- What is wrong with the arguments. -/
inductive UsageError where
  | unknownOption (argument : String)
  | missingValue (option : String)
  | invalidValue (option value : String)
  | repeated (option : String)
  | missingProgram
  | emptyProgram
  | extraArgument (argument : String)
deriving DecidableEq, Repr

def UsageError.message : UsageError → String
  | .unknownOption argument => s!"unexpected argument {Text.quoted argument}"
  | .missingValue option => s!"a value is required for --{option}"
  | .invalidValue option value => s!"invalid value {Text.quoted value} for --{option}"
  | .repeated option => s!"--{option} cannot be used more than once"
  | .missingProgram => "a program image is required"
  | .emptyProgram => "the path of the program image is empty"
  | .extraArgument argument => s!"unexpected argument {Text.quoted argument}"

/-- What the arguments ask for. -/
inductive Request where
  | help
  | run (options : Options)
deriving DecidableEq, Repr

/-! ## Values -/

/-- Decimal digits with an optional plus sign, up to a bound. -/
def natural? (bound : Nat) (text : String) : Option Nat :=
  match text.toList with
  | '+' :: digits => decimal? digits
  | digits => decimal? digits
where
  decimal? (digits : List Char) : Option Nat :=
    if digits.isEmpty || !digits.all Char.isDigit then none
    else
      let value := digits.foldl (fun n c => 10 * n + (c.toNat - '0'.toNat)) 0
      if value < bound then some value else none

/-- As `natural?`, but zero may also have a minus sign. -/
def unsigned? (bound : Nat) (text : String) : Option Nat :=
  match text.toList with
  | '-' :: zeros => if !zeros.isEmpty && zeros.all (· == '0') then some 0 else none
  | _ => natural? bound text

/-- The levels in the order of the help text; `off` shows nothing. -/
def threshold? : String → Option Log.Threshold
  | "off" => some none
  | "error" => some (some .error)
  | "warn" => some (some .warn)
  | "info" => some (some .info)
  | "debug" => some (some .debug)
  | "trace" => some (some .trace)
  | _ => none

/-! ## Arguments -/

inductive Argument where
  /-- Two dashes, behind which everything is positional. -/
  | separator
  | option (name : String) (value : Option String)
  /-- A dash and letters. -/
  | short (letters : List Char)
  | positional (text : String)
deriving DecidableEq, Repr

def Argument.classify (argument : String) : Argument :=
  match argument.toList with
  | ['-', '-'] => .separator
  | '-' :: '-' :: rest =>
    let name := String.ofList (rest.takeWhile (· != '='))
    match rest.dropWhile (· != '=') with
    | [] => .option name none
    | _ :: value => .option name (some (String.ofList value))
  | '-' :: c :: rest => .short (c :: rest)
  | _ => .positional argument

/-- Can an argument be the value of the option before it? -/
def Argument.isValue : Argument → Bool
  | .positional _ => true
  | _ => false

/-- The options given so far. -/
structure Draft where
  program : Option String := none
  loadAddress : Option Word := none
  start : Option Word := none
  steps : Option Nat := none
  continuousMs : Option Nat := none
  batch : Option Nat := none
  queries : List String := []
  logLevel : Option Log.Threshold := none
deriving DecidableEq, Repr

namespace Draft

/-- A value for an option that may be given once. -/
def once {α : Type} (option text : String) (old new : Option α) : Except UsageError (Option α) :=
  match new, old with
  | none, _ => .error (.invalidValue option text)
  | some _, some _ => .error (.repeated option)
  | some value, none => .ok (some value)

/-- The options that there are, apart from the request for help. -/
def names : List String :=
  ["load-address", "start", "steps", "continuous-ms", "batch", "query", "log-level"]

/-- Give an option a value. -/
def set (d : Draft) (option text : String) : Except UsageError Draft := do
  match option with
  | "load-address" =>
    let loadAddress ← once option text d.loadAddress (Address.parse text).toOption
    return { d with loadAddress }
  | "start" =>
    let start ← once option text d.start (Address.parse text).toOption
    return { d with start }
  | "steps" =>
    let steps ← once option text d.steps (natural? UInt64.size text)
    return { d with steps }
  | "continuous-ms" =>
    let continuousMs ← once option text d.continuousMs (natural? UInt64.size text)
    return { d with continuousMs }
  | "batch" =>
    let batch ← once option text d.batch (unsigned? UInt32.size text)
    return { d with batch }
  | "query" => return { d with queries := d.queries ++ [text] }
  | "log-level" =>
    let logLevel ← once option text d.logLevel (threshold? text)
    return { d with logLevel }
  | _ => .error (.unknownOption option)

def setProgram (d : Draft) (path : String) : Except UsageError Draft :=
  match d.program with
  | some _ => .error (.extraArgument path)
  | none => if path.isEmpty then .error .emptyProgram else .ok { d with program := some path }

/-- Fill in what was not given. -/
def finish (d : Draft) : Except UsageError Options :=
  match d.program with
  | none => .error .missingProgram
  | some program =>
    let defaults : Options := { program }
    .ok
      { program
        loadAddress := d.loadAddress.getD defaults.loadAddress
        start := d.start
        steps := d.steps.getD defaults.steps
        continuousMs := d.continuousMs
        batch := d.batch.getD defaults.batch
        queries := d.queries
        logLevel := d.logLevel.getD defaults.logLevel }

end Draft

/-- Read the arguments from left to right; the first fault counts. -/
def read (d : Draft) : List String → Except UsageError Request
  | [] => do return .run (← d.finish)
  | argument :: rest =>
    match Argument.classify argument with
    | .separator => do
      let d ← rest.foldlM Draft.setProgram d
      return .run (← d.finish)
    | .positional path => do read (← d.setProgram path) rest
    | .short letters =>
      if letters.head? = some 'h' then .ok .help else .error (.unknownOption argument)
    | .option "help" none => .ok .help
    | .option name (some value) => do read (← d.set name value) rest
    | .option name none =>
      if name ∉ Draft.names then .error (.unknownOption argument)
      else
        match rest with
        | [] => .error (.missingValue name)
        | value :: rest =>
          if (Argument.classify value).isValue then do read (← d.set name value) rest
          else .error (.missingValue name)

def parse (arguments : List String) : Except UsageError Request := read {} arguments

end Mos6502.CommandLine
