import Mos6502.Alu
import Mos6502.Registers

/-!
# Operations

What the instructions compute, in the four kinds that differ in their traffic on the bus: operations
on a byte that was read, stores, read-modify-write operations, and operations on registers alone.
Nothing here takes time or looks at the bus.
-/

namespace Mos6502

/-! ## Flags and registers that follow a result -/

/-- Carry, zero and negative after comparing a register with an operand. -/
def Status.compare (p : Status) (register operand : Byte) : Status :=
  { p with carry := decide (operand ≤ register) }.ofResult (register - operand)

namespace Registers

def setA (r : Registers) (v : Byte) : Registers := { r with a := v, p := r.p.ofResult v }

def setX (r : Registers) (v : Byte) : Registers := { r with x := v, p := r.p.ofResult v }

def setY (r : Registers) (v : Byte) : Registers := { r with y := v, p := r.p.ofResult v }

/-- The accumulator and all four arithmetic flags take over a sum. -/
def takeSum (r : Registers) (sum : Alu.Sum) : Registers :=
  { r with p := { r.p with carry := sum.carry, overflow := sum.overflow } }.setA sum.value

def adc (r : Registers) (v : Byte) : Registers := r.takeSum (Alu.add r.a v r.p.carry)

def sbc (r : Registers) (v : Byte) : Registers := r.takeSum (Alu.sub r.a v r.p.carry)

/-- The flags follow a byte that was shifted; the byte itself goes back to where it came from. -/
def takeShift (r : Registers) (shifted : Byte × Bool) : Byte × Registers :=
  (shifted.1, { r with p := { r.p with carry := shifted.2 }.ofResult shifted.1 })

def asl (r : Registers) (v : Byte) : Byte × Registers := r.takeShift (Alu.rotateLeft v false)

def rol (r : Registers) (v : Byte) : Byte × Registers := r.takeShift (Alu.rotateLeft v r.p.carry)

def lsr (r : Registers) (v : Byte) : Byte × Registers := r.takeShift (Alu.rotateRight v false)

def ror (r : Registers) (v : Byte) : Byte × Registers := r.takeShift (Alu.rotateRight v r.p.carry)

end Registers

/-! ## Operations on a byte that was read -/

inductive DataOp where
  | lda | ldx | ldy
  | ora | and | eor
  | adc | sbc
  | cmp | cpx | cpy
  | bit
  /-- The byte is read and dropped. -/
  | nop
  | lax | anc | alr | arr | sbx | las
deriving DecidableEq, Repr

def DataOp.apply (op : DataOp) (r : Registers) (v : Byte) : Registers :=
  match op with
  | .lda => r.setA v
  | .ldx => r.setX v
  | .ldy => r.setY v
  | .ora => r.setA (r.a ||| v)
  | .and => r.setA (r.a &&& v)
  | .eor => r.setA (r.a ^^^ v)
  | .adc => r.adc v
  | .sbc => r.sbc v
  | .cmp => { r with p := r.p.compare r.a v }
  | .cpx => { r with p := r.p.compare r.x v }
  | .cpy => { r with p := r.p.compare r.y v }
  | .bit =>
    { r with
      p := { r.p with zero := r.a &&& v == 0, negative := v.msb, overflow := v.getLsbD 6 } }
  | .nop => r
  | .lax => { r.setA v with x := v }
  | .anc => { r.setA (r.a &&& v) with p.carry := (r.a &&& v).msb }
  | .alr => { (r.lsr (r.a &&& v)).2 with a := (r.lsr (r.a &&& v)).1 }
  | .arr =>
    let result := (Alu.rotateRight (r.a &&& v) r.p.carry).1
    { r.setA result with
      p.carry := result.getLsbD 6, p.overflow := result.getLsbD 6 ^^ result.getLsbD 5 }
  | .sbx => { r.setX ((r.a &&& r.x) - v) with p.carry := decide (v ≤ r.a &&& r.x) }
  | .las => { r.setA (v &&& r.s) with x := v &&& r.s, s := v &&& r.s }

/-! ## Stores -/

inductive StoreOp where
  | sta | stx | sty | sax
deriving DecidableEq, Repr

/-- The byte that is stored. -/
def StoreOp.value : StoreOp → Registers → Byte
  | .sta, r => r.a
  | .stx, r => r.x
  | .sty, r => r.y
  | .sax, r => r.a &&& r.x

/-! ## Read-modify-write operations -/

inductive ModifyOp where
  | asl | lsr | rol | ror | inc | dec
  | slo | rla | sre | rra | dcp | isc
deriving DecidableEq, Repr

/-- The byte to write back, and the registers after the operation. -/
def ModifyOp.apply (op : ModifyOp) (r : Registers) (v : Byte) : Byte × Registers :=
  match op with
  | .asl => r.asl v
  | .lsr => r.lsr v
  | .rol => r.rol v
  | .ror => r.ror v
  | .inc => (v + 1, { r with p := r.p.ofResult (v + 1) })
  | .dec => (v - 1, { r with p := r.p.ofResult (v - 1) })
  | .slo => thenApply .ora (r.asl v)
  | .rla => thenApply .and (r.rol v)
  | .sre => thenApply .eor (r.lsr v)
  | .rra => thenApply .adc (r.ror v)
  | .dcp => thenApply .cmp (v - 1, r)
  | .isc => thenApply .sbc (v + 1, r)
where
  /-- The written byte is also the operand of an operation on the accumulator. -/
  thenApply (op : DataOp) (shifted : Byte × Registers) : Byte × Registers :=
    (shifted.1, op.apply shifted.2 shifted.1)

/-! ## Operations on registers alone -/

inductive RegisterOp where
  | setFlag (flag : Flag) (on : Bool)
  | tax | tay | txa | tya
  /-- The one transfer from the stack pointer sets flags, the one to it sets none. -/
  | tsx | txs
  | inx | iny | dex | dey
  | nop
deriving DecidableEq, Repr

def RegisterOp.apply (op : RegisterOp) (r : Registers) : Registers :=
  match op with
  | .setFlag flag on => { r with p := r.p.put flag on }
  | .tax => r.setX r.a
  | .tay => r.setY r.a
  | .txa => r.setA r.x
  | .tya => r.setA r.y
  | .tsx => r.setX r.s
  | .txs => { r with s := r.x }
  | .inx => r.setX (r.x + 1)
  | .iny => r.setY (r.y + 1)
  | .dex => r.setX (r.x - 1)
  | .dey => r.setY (r.y - 1)
  | .nop => r

/-! ## Branch conditions -/

/-- A branch is taken when a flag is in a given state. -/
structure Condition where
  flag : Flag
  on : Bool
deriving DecidableEq, Repr

def Condition.holds (c : Condition) (p : Status) : Bool := p.get c.flag == c.on

end Mos6502
