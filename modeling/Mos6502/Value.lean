import Mos6502.Text.Hex

/-!
# Observable values

The values a query about the processor is answered with, and their text.
-/

namespace Mos6502

inductive Value where
  | bool (value : Bool)
  | byte (value : Byte)
  | word (value : Word)
  | count (value : UInt64)
  | text (value : String)
deriving DecidableEq, Repr

/-- Bytes and words show in hexadecimal at their full width, counts in decimal. -/
def Value.render : Value → String
  | .bool true => "true"
  | .bool false => "false"
  | .byte b => "0x" ++ Hex.byte b
  | .word w => "0x" ++ Hex.word w
  | .count n => toString n.toNat
  | .text s => s

end Mos6502
