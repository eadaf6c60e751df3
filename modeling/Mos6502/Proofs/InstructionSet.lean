import Mos6502.Memory
import Mos6502.Processor

/-!
# The instruction set

A second account of the processor, which knows no cycles: an instruction is one step, from the
registers and the memory it finds to those it leaves.  Bytes and words are numbers here, registers
and flags go by their names, and all wrapping around is written out.  Opcodes are decoded by their
fields: the two low bits choose a block, the three above them a mode and the three highest an
operation, with the exceptions named.

`step` is the reference that the processor is compared with, one step of the one for one step of the
other.
-/

namespace Mos6502.InstructionSet

/-- What there is between two instructions. -/
@[ext]
structure State where
  regs : Registers
  memory : Memory

/-! ## Numbers in registers and in memory -/

namespace State

def pc (s : State) : Nat := s.regs.pc.toNat

/-- The cell at an address modulo the size of the memory. -/
def peek (s : State) (address : Nat) : Nat := (s.memory.read (BitVec.ofNat 16 address)).toNat

def poke (s : State) (address value : Nat) : State :=
  { s with memory := s.memory.write (BitVec.ofNat 16 address) (BitVec.ofNat 8 value) }

/-- The word whose low and high byte are at two addresses. -/
def peekWord (s : State) (lo hi : Nat) : Nat := s.peek lo + 256 * s.peek hi

/-- A byte of the instruction, the opcode being the first. -/
def code (s : State) (index : Nat) : Nat := s.peek (s.pc + index)

def goto (s : State) (address : Nat) : State := { s with regs.pc := BitVec.ofNat 16 address }

/-- The stack grows downwards in page `$01`, and wraps around in it. -/
def push (s : State) (value : Nat) : State :=
  { s.poke (256 + s.regs.s.toNat) value with regs.s := BitVec.ofNat 8 (s.regs.s.toNat + 255) }

def pull (s : State) : Nat × State :=
  let top := (s.regs.s.toNat + 1) % 256
  (s.peek (256 + top), { s with regs.s := BitVec.ofNat 8 top })

end State

/-! ## Flags -/

/-- Zero and negative after a result, which is less than 256. -/
def judge (p : Status) (result : Nat) : Status :=
  { p with zero := decide (result = 0), negative := decide (128 ≤ result) }

/-- The number that a byte stands for in two's complement. -/
def signed (value : Nat) : Int := if value < 128 then value else value - 256

/-- Is a number out of the range of `signed`? -/
def overflows (value : Int) : Bool := decide (value < -128 ∨ 127 < value)

def statusByte (p : Status) : Nat :=
  p.carry.toNat + 2 * p.zero.toNat + 4 * p.interruptDisable.toNat + 8 * p.decimal.toNat +
    64 * p.overflow.toNat + 128 * p.negative.toNat

/-- Bits 4 and 5 of a pulled byte are dropped. -/
def statusOf (value : Nat) : Status where
  carry := decide (value % 2 = 1)
  zero := decide (value / 2 % 2 = 1)
  interruptDisable := decide (value / 4 % 2 = 1)
  decimal := decide (value / 8 % 2 = 1)
  overflow := decide (value / 64 % 2 = 1)
  negative := decide (value / 128 % 2 = 1)

/-! ## Operations -/

def putA (r : Registers) (n : Nat) : Registers := { r with a := BitVec.ofNat 8 n, p := judge r.p n }

def putX (r : Registers) (n : Nat) : Registers := { r with x := BitVec.ofNat 8 n, p := judge r.p n }

def putY (r : Registers) (n : Nat) : Registers := { r with y := BitVec.ofNat 8 n, p := judge r.p n }

def add (r : Registers) (v : Nat) : Registers :=
  let sum := r.a.toNat + v + r.p.carry.toNat
  let exact := signed r.a.toNat + signed v + r.p.carry.toNat
  putA { r with p := { r.p with carry := decide (255 < sum), overflow := overflows exact } }
    (sum % 256)

/-- A clear carry is a borrow, coming in as well as going out. -/
def subtract (r : Registers) (v : Nat) : Registers :=
  let borrow : Int := 1 - r.p.carry.toNat
  let difference : Int := r.a.toNat - v - borrow
  let exact := signed r.a.toNat - signed v - borrow
  putA { r with p := { r.p with carry := decide (0 ≤ difference), overflow := overflows exact } }
    (difference % 256).toNat

/-- A comparison is a subtraction without a borrow that keeps the flags only. -/
def compare (r : Registers) (register v : Nat) : Registers :=
  { r with p := judge { r.p with carry := decide (v ≤ register) } ((register + 256 - v) % 256) }

def data (op : DataOp) (r : Registers) (v : Nat) : Registers :=
  let a := r.a.toNat
  let x := r.x.toNat
  match op with
  | .lda => putA r v
  | .ldx => putX r v
  | .ldy => putY r v
  | .ora => putA r (a ||| v)
  | .and => putA r (a &&& v)
  | .eor => putA r (a ^^^ v)
  | .adc => add r v
  | .sbc => subtract r v
  | .cmp => compare r a v
  | .cpx => compare r x v
  | .cpy => compare r r.y.toNat v
  | .bit =>
    { r with p := { r.p with
        zero := decide (a &&& v = 0)
        negative := decide (128 ≤ v)
        overflow := decide (v / 64 % 2 = 1) } }
  | .nop => r
  | .lax => putX (putA r v) v
  | .anc => { putA r (a &&& v) with p.carry := decide (128 ≤ a &&& v) }
  | .alr => { putA r ((a &&& v) / 2) with p.carry := decide ((a &&& v) % 2 = 1) }
  | .arr =>
    let n := (a &&& v) / 2 + 128 * r.p.carry.toNat
    { putA r n with
      p.carry := decide (n / 64 % 2 = 1)
      p.overflow := decide (n / 64 % 2 ≠ n / 32 % 2) }
  | .sbx =>
    { putX r (((a &&& x) + 256 - v) % 256) with p.carry := decide (v ≤ a &&& x) }
  | .las =>
    let n := v &&& r.s.toNat
    { putX (putA r n) n with s := BitVec.ofNat 8 n }

def stored : StoreOp → Registers → Nat
  | .sta, r => r.a.toNat
  | .stx, r => r.x.toNat
  | .sty, r => r.y.toNat
  | .sax, r => r.a.toNat &&& r.x.toNat

/-- A shifted byte, and the bit that was shifted out. -/
def shift (r : Registers) (result : Nat) (out : Bool) : Nat × Registers :=
  (result, { r with p := judge { r.p with carry := out } result })

/-- The byte that replaces the operand, and the registers. -/
def modify (op : ModifyOp) (r : Registers) (v : Nat) : Nat × Registers :=
  let c := r.p.carry.toNat
  let asl := shift r (2 * v % 256) (decide (128 ≤ v))
  let rol := shift r ((2 * v + c) % 256) (decide (128 ≤ v))
  let lsr := shift r (v / 2) (decide (v % 2 = 1))
  let ror := shift r (v / 2 + 128 * c) (decide (v % 2 = 1))
  let increment := (v + 1) % 256
  let decrement := (v + 255) % 256
  match op with
  | .asl => asl
  | .lsr => lsr
  | .rol => rol
  | .ror => ror
  | .inc => (increment, { r with p := judge r.p increment })
  | .dec => (decrement, { r with p := judge r.p decrement })
  | .slo => (asl.1, data .ora asl.2 asl.1)
  | .rla => (rol.1, data .and rol.2 rol.1)
  | .sre => (lsr.1, data .eor lsr.2 lsr.1)
  | .rra => (ror.1, data .adc ror.2 ror.1)
  | .dcp => (decrement, data .cmp r decrement)
  | .isc => (increment, data .sbc r increment)

def register (op : RegisterOp) (r : Registers) : Registers :=
  match op with
  | .setFlag .carry on => { r with p.carry := on }
  | .setFlag .zero on => { r with p.zero := on }
  | .setFlag .interruptDisable on => { r with p.interruptDisable := on }
  | .setFlag .decimal on => { r with p.decimal := on }
  | .setFlag .overflow on => { r with p.overflow := on }
  | .setFlag .negative on => { r with p.negative := on }
  | .tax => putX r r.a.toNat
  | .tay => putY r r.a.toNat
  | .txa => putA r r.x.toNat
  | .tya => putA r r.y.toNat
  | .tsx => putX r r.s.toNat
  | .txs => { r with s := r.x }
  | .inx => putX r ((r.x.toNat + 1) % 256)
  | .iny => putY r ((r.y.toNat + 1) % 256)
  | .dex => putX r ((r.x.toNat + 255) % 256)
  | .dey => putY r ((r.y.toNat + 255) % 256)
  | .nop => r

/-! ## Addresses -/

/-- Bytes of an instruction with an operand in memory. -/
def length : Mode → Nat
  | .immediate | .zeroPage | .zeroPageIndexed _ | .indexedIndirect | .indirectIndexed => 2
  | .absolute | .absoluteIndexed _ => 3

/-- What an index adds. -/
def index (i : Index) (r : Registers) : Nat :=
  match i with
  | .x => r.x.toNat
  | .y => r.y.toNat

/-- Where the operand is. -/
def address (mode : Mode) (s : State) : Nat :=
  let b := s.code 1
  let w := s.code 1 + 256 * s.code 2
  match mode with
  | .immediate => s.pc + 1
  | .zeroPage => b
  | .zeroPageIndexed i => (b + index i s.regs) % 256
  | .absolute => w
  | .absoluteIndexed i => (w + index i s.regs) % 65536
  | .indexedIndirect =>
    s.peekWord ((b + s.regs.x.toNat) % 256) ((b + s.regs.x.toNat + 1) % 256)
  | .indirectIndexed => (s.peekWord b ((b + 1) % 256) + s.regs.y.toNat) % 65536

/-! ## Instructions -/

/-- Is a branch taken with these flags? -/
def taken (condition : Condition) (p : Status) : Bool :=
  match condition with
  | ⟨.carry, on⟩ => p.carry == on
  | ⟨.zero, on⟩ => p.zero == on
  | ⟨.interruptDisable, on⟩ => p.interruptDisable == on
  | ⟨.decimal, on⟩ => p.decimal == on
  | ⟨.overflow, on⟩ => p.overflow == on
  | ⟨.negative, on⟩ => p.negative == on

/-- What an instruction does.  Nothing is executed for what is not an instruction. -/
def execute (i : Sequence) (s : State) : State :=
  match i with
  | .data mode op =>
    { s with regs := data op s.regs (s.peek (address mode s)) }.goto (s.pc + length mode)
  | .store mode op => (s.poke (address mode s) (stored op s.regs)).goto (s.pc + length mode)
  | .modify mode op =>
    let (value, regs) := modify op s.regs (s.peek (address mode s))
    { s.poke (address mode s) value with regs }.goto (s.pc + length mode)
  | .accumulator op =>
    let (value, regs) := modify op s.regs s.regs.a.toNat
    { s with regs := { regs with a := BitVec.ofNat 8 value } }.goto (s.pc + 1)
  | .register op => { s with regs := register op s.regs }.goto (s.pc + 1)
  | .branch condition =>
    if taken condition s.regs.p then
      s.goto ((s.pc + 2 + signed (s.code 1)) % 65536).toNat
    else s.goto (s.pc + 2)
  | .brk =>
    let back := (s.pc + 2) % 65536
    let s := ((s.push (back / 256)).push (back % 256)).push (statusByte s.regs.p + 48)
    { s with regs.p.interruptDisable := true }.goto (s.peekWord 0xFFFE 0xFFFF)
  | .jsr =>
    -- The high byte of the target is fetched after the pushes, which may have changed it.
    let back := (s.pc + 2) % 65536
    let s' := (s.push (back / 256)).push (back % 256)
    s'.goto (s.code 1 + 256 * s'.peek (s.pc + 2))
  | .rts =>
    let (lo, s) := s.pull
    let (hi, s) := s.pull
    s.goto (lo + 256 * hi + 1)
  | .rti =>
    let (status, s) := s.pull
    let (lo, s) := s.pull
    let (hi, s) := s.pull
    { s with regs.p := statusOf status }.goto (lo + 256 * hi)
  | .jmp => s.goto (s.code 1 + 256 * s.code 2)
  | .jmpIndirect =>
    -- The high byte comes from the page of the low one.
    let page := 256 * s.code 2
    s.goto (s.peekWord (page + s.code 1) (page + (s.code 1 + 1) % 256))
  | .pha => (s.push s.regs.a.toNat).goto (s.pc + 1)
  | .php => (s.push (statusByte s.regs.p + 48)).goto (s.pc + 1)
  | .pla =>
    let (value, s') := s.pull
    { s' with regs := putA s'.regs value }.goto (s.pc + 1)
  | .plp =>
    let (value, s') := s.pull
    { s' with regs.p := statusOf value }.goto (s.pc + 1)
  | .entry _ | .reset | .jam | .unsupported => s

/-! ## Opcodes -/

/-- The mode in a column, where nothing else is said. -/
def mode : Nat → Mode
  | 0 => .indexedIndirect
  | 1 => .zeroPage
  | 2 => .immediate
  | 3 => .absolute
  | 4 => .indirectIndexed
  | 5 => .zeroPageIndexed .x
  | 6 => .absoluteIndexed .y
  | _ => .absoluteIndexed .x

/-- The mode in a column for what moves `X`, which is then indexed by `Y` instead. -/
def modeY : Nat → Mode
  | 5 => .zeroPageIndexed .y
  | 7 => .absoluteIndexed .y
  | column => mode column

/-- Control, and what is about `Y`. -/
def control (row column : Nat) : Sequence :=
  match column, row with
  | 0, 0 => .brk
  | 0, 1 => .jsr
  | 0, 2 => .rti
  | 0, 3 => .rts
  | 0, 4 => .data .immediate .nop
  | 0, 5 => .data .immediate .ldy
  | 0, 6 => .data .immediate .cpy
  | 0, _ => .data .immediate .cpx
  | 2, 0 => .php
  | 2, 1 => .plp
  | 2, 2 => .pha
  | 2, 3 => .pla
  | 2, 4 => .register .dey
  | 2, 5 => .register .tay
  | 2, 6 => .register .iny
  | 2, _ => .register .inx
  | 4, _ =>
    let flag : Flag := match row / 2 with
      | 0 => .negative
      | 1 => .overflow
      | 2 => .carry
      | _ => .zero
    .branch ⟨flag, row % 2 = 1⟩
  | 6, 0 => .register (.setFlag .carry false)
  | 6, 1 => .register (.setFlag .carry true)
  | 6, 2 => .register (.setFlag .interruptDisable false)
  | 6, 3 => .register (.setFlag .interruptDisable true)
  | 6, 4 => .register .tya
  | 6, 5 => .register (.setFlag .overflow false)
  | 6, 6 => .register (.setFlag .decimal false)
  | 6, _ => .register (.setFlag .decimal true)
  | 3, 2 => .jmp
  | 3, 3 => .jmpIndirect
  | 7, 4 => .unsupported
  | _, 4 => .store (mode column) .sty
  | _, 5 => .data (mode column) .ldy
  | 1, 1 | 3, 1 => .data (mode column) .bit
  | 1, 6 | 3, 6 => .data (mode column) .cpy
  | 1, 7 | 3, 7 => .data (mode column) .cpx
  | _, _ => .data (mode column) .nop

/-- What is about the accumulator and an operand. -/
def arithmetic (row column : Nat) : Sequence :=
  match row, column with
  | 0, _ => .data (mode column) .ora
  | 1, _ => .data (mode column) .and
  | 2, _ => .data (mode column) .eor
  | 3, _ => .data (mode column) .adc
  | 4, 2 => .data .immediate .nop
  | 4, _ => .store (mode column) .sta
  | 5, _ => .data (mode column) .lda
  | 6, _ => .data (mode column) .cmp
  | _, _ => .data (mode column) .sbc

/-- Shifts and counts, and what is about `X`. -/
def shifting (row column : Nat) : Sequence :=
  match column, row with
  | 0, 5 => .data .immediate .ldx
  | 0, 4 | 0, 6 | 0, 7 => .data .immediate .nop
  | 0, _ | 4, _ => .jam
  | 2, 0 => .accumulator .asl
  | 2, 1 => .accumulator .rol
  | 2, 2 => .accumulator .lsr
  | 2, 3 => .accumulator .ror
  | 2, 4 => .register .txa
  | 2, 5 => .register .tax
  | 2, 6 => .register .dex
  | 6, 4 => .register .txs
  | 6, 5 => .register .tsx
  | 2, _ | 6, _ => .register .nop
  | 7, 4 => .unsupported
  | _, 0 => .modify (mode column) .asl
  | _, 1 => .modify (mode column) .rol
  | _, 2 => .modify (mode column) .lsr
  | _, 3 => .modify (mode column) .ror
  | _, 4 => .store (modeY column) .stx
  | _, 5 => .data (modeY column) .ldx
  | _, 6 => .modify (mode column) .dec
  | _, _ => .modify (mode column) .inc

/-- The undocumented block: what the two blocks before it do, done at once. -/
def combined (row column : Nat) : Sequence :=
  match column, row with
  | 2, 0 | 2, 1 => .data .immediate .anc
  | 2, 2 => .data .immediate .alr
  | 2, 3 => .data .immediate .arr
  | 2, 6 => .data .immediate .sbx
  | 2, 7 => .data .immediate .sbc
  | 2, _ | 4, 4 | 6, 4 | 7, 4 => .unsupported
  | 6, 5 => .data (.absoluteIndexed .y) .las
  | _, 0 => .modify (mode column) .slo
  | _, 1 => .modify (mode column) .rla
  | _, 2 => .modify (mode column) .sre
  | _, 3 => .modify (mode column) .rra
  | _, 4 => .store (modeY column) .sax
  | _, 5 => .data (modeY column) .lax
  | _, 6 => .modify (mode column) .dcp
  | _, _ => .modify (mode column) .isc

/-- The instruction of an opcode. -/
def decode (opcode : Nat) : Sequence :=
  let row := opcode / 32
  let column := opcode / 4 % 8
  match opcode % 4 with
  | 0 => control row column
  | 1 => arithmetic row column
  | 2 => shifting row column
  | _ => combined row column

/-! ## Steps -/

/-- One instruction.  A lock-up leaves everything as it is, and an opcode that is not executed is
passed over. -/
def step (s : State) : Processor.Outcome × State :=
  match decode (s.code 0) with
  | .jam => (.unfinished, s)
  | .unsupported => (.refused ⟨s.regs.pc, BitVec.ofNat 8 (s.code 0)⟩, s.goto (s.pc + 1))
  | i => (.completed, execute i s)

/-- So many steps, with what each of them came to. -/
def run : Nat → State → List Processor.Outcome × State
  | 0, s => ([], s)
  | n + 1, s => ((step s).1 :: (run n (step s).2).1, (run n (step s).2).2)

/-- The matrix of opcodes holds what the fields of each say. -/
theorem sequence_eq_decode (opcode : Byte) : Opcode.sequence opcode = decode opcode.toNat := by
  revert opcode
  decide

end Mos6502.InstructionSet
