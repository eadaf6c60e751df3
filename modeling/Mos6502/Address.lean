import Mos6502.Byte
import Mos6502.Text.Quoted

/-!
# Written addresses

An address is written in hexadecimal digits of either case, after an optional mark `$`, `0x` or `0X`
and an optional plus sign. There may be any number of leading zeros.
-/

namespace Mos6502.Address

/-- Why a text is not an address. -/
inductive Reason where
  /-- Nothing is left after the mark. -/
  | empty
  | invalidDigit
  /-- The digits read so far exceed the largest address. -/
  | tooLarge
deriving DecidableEq, Repr

def Reason.message : Reason → String
  | .empty => "cannot parse integer from empty string"
  | .invalidDigit => "invalid digit found in string"
  | .tooLarge => "number too large to fit in target type"

/-- A text that is not an address. -/
structure Invalid where
  text : String
  reason : Reason
deriving DecidableEq, Repr

def Invalid.message (e : Invalid) : String :=
  s!"invalid address {Text.quoted e.text}: {e.reason.message}"

/-- The value of a hexadecimal digit. -/
def digit? (c : Char) : Option Nat :=
  if '0' ≤ c ∧ c ≤ '9' then some (c.toNat - '0'.toNat)
  else if 'A' ≤ c ∧ c ≤ 'F' then some (c.toNat - 'A'.toNat + 10)
  else if 'a' ≤ c ∧ c ≤ 'f' then some (c.toNat - 'a'.toNat + 10)
  else none

/-- Read digits up to the end, after those that make up a value. Of the two faults the one further
left counts, and at one place a wrong digit. -/
def digits (value : Nat) : List Char → Except Reason Nat
  | [] => .ok value
  | c :: rest =>
    match digit? c with
    | none => .error .invalidDigit
    | some d =>
      if 0xFFFF < 16 * value + d then .error .tooLarge else digits (16 * value + d) rest

/-- A plus sign counts as one only if something follows it. -/
def number : List Char → Except Reason Nat
  | [] => .error .empty
  | '+' :: c :: rest => digits 0 (c :: rest)
  | text => digits 0 text

/-- What is left after one mark. -/
def dropMark : List Char → List Char
  | '$' :: rest => rest
  | '0' :: 'x' :: rest => rest
  | '0' :: 'X' :: rest => rest
  | text => text

def parse (text : String) : Except Invalid Word :=
  match number (dropMark text.toList) with
  | .ok value => .ok (BitVec.ofNat 16 value)
  | .error reason => .error ⟨text, reason⟩

end Mos6502.Address
