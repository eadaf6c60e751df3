import Mos6502.Proofs.InstructionSet.Execution
import Mos6502.Proofs.Leads
import Mos6502.Proofs.Refinement
import Mos6502.Proofs.Traffic.Operand

/-!
# Instructions in place of two

Six of the read-modify-write operations do the work of two instructions: a documented one that
changes a byte in memory, and one that takes the changed byte as its operand (`Fusion.apply_fused`).
Their opcodes stand in the columns behind those of the two, in all modes that the two share
(`Operand`).  As long as the byte is none of the code, a step of the one leaves what two steps of
the others leave (`fusion_eq_pair`).
-/

namespace Mos6502

open InstructionSet (apply_data_pc apply_modify_pc write_write)

/-! ## Operands -/

/-- An operand in a mode that read-modify-write instructions share with those that only read. -/
inductive Operand where
  | zeroPage (z : Byte)
  | zeroPageX (z : Byte)
  | absolute (a : Word)
  | absoluteX (a : Word)
deriving DecidableEq, Repr

namespace Operand

def mode : Operand → Mode
  | .zeroPage _ => .zeroPage
  | .zeroPageX _ => .zeroPageIndexed .x
  | .absolute _ => .absolute
  | .absoluteX _ => .absoluteIndexed .x

/-- The bytes behind the opcode. -/
def bytes : Operand → List Byte
  | .zeroPage z | .zeroPageX z => [z]
  | .absolute a | .absoluteX a => [a.low, a.high]

/-- How long an instruction with the operand is. -/
def length (o : Operand) : Word := BitVec.ofNat 16 (o.bytes.length + 1)

def address (r : Registers) : Operand → Word
  | .zeroPage z => Word.ofBytes 0 z
  | .zeroPageX z => Word.ofBytes 0 (z + r.x)
  | .absolute a => a
  | .absoluteX a => a + r.x.setWidth 16

theorem address_pc (o : Operand) (r : Registers) (pc : Word) :
    o.address { r with pc } = o.address r := by
  cases o <;> rfl

/-- Only the index is looked at. -/
theorem address_congr (o : Operand) {r r' : Registers} (h : r'.x = r.x) :
    o.address r' = o.address r := by
  cases o <;> simp only [address, h]

/-- Where the opcodes of the mode begin in each block of 32. -/
def column : Operand → Nat
  | .zeroPage _ => 0x04
  | .absolute _ => 0x0C
  | .zeroPageX _ => 0x14
  | .absoluteX _ => 0x1C

theorem length_mode (o : Operand) : InstructionSet.length o.mode = o.bytes.length + 1 := by
  cases o <;> rfl

/-- Where code holds the operand, its address is the one that the instruction set says. -/
theorem address_eq (o : Operand) {r : Registers} {m : Memory} {opcode : Byte}
    (h : m.CodeAt r.pc (opcode :: o.bytes)) :
    BitVec.ofNat 16 (InstructionSet.address o.mode ⟨r, m⟩) = o.address r := by
  let s : InstructionSet.State := ⟨r, m⟩
  have hone {v : Byte} {l : List Byte} (h : m.CodeAt r.pc (opcode :: v :: l)) :
      s.code 1 = v.toNat :=
    s.code_one.trans (congrArg BitVec.toNat h.tail.head)
  have htwo {v w : Byte} {l : List Byte} (h : m.CodeAt r.pc (opcode :: v :: w :: l)) :
      s.code 2 = w.toNat :=
    s.code_two.trans (congrArg BitVec.toNat h.tail.tail.head)
  cases o with
  | zeroPage z =>
      show BitVec.ofNat 16 (s.code 1) = _
      rw [hone h]
      exact (InstructionSet.zeroPage_eq z).symm
  | zeroPageX z =>
      show BitVec.ofNat 16 ((s.code 1 + r.x.toNat) % 256) = _
      rw [hone h]
      exact (InstructionSet.zeroPage_add z r.x).symm
  | absolute a =>
      show BitVec.ofNat 16 (s.code 1 + 256 * s.code 2) = _
      rw [hone h, htwo h, ← InstructionSet.ofBytes_eq]
      exact a.ofBytes_high_low
  | absoluteX a =>
      show BitVec.ofNat 16 ((s.code 1 + 256 * s.code 2 + r.x.toNat) % 65536) = _
      rw [hone h, htwo h, InstructionSet.ofNat_mod, ← InstructionSet.ofBytes_add_eq,
        Word.ofBytes_high_low]
      rfl

/-- Its address is found, and memory is left as it is. -/
theorem run_locating (o : Operand) (correction : Correction) {r : Registers} {m : Memory}
    {opcode : Byte} (h : m.CodeAt r.pc (opcode :: o.bytes)) :
    (Sequence.locating correction r.advancePc o.mode).run m =
      ((o.address r, { r with pc := r.pc + o.length }), m) := by
  rw [InstructionSet.run_locating correction o.mode ⟨r, m⟩, o.address_eq h, o.length_mode,
    InstructionSet.State.goto_add]
  rfl

end Operand

/-! ## Operations -/

/-- An operation in place of two. -/
inductive Fusion where
  | slo | rla | sre | rra | dcp | isc
deriving DecidableEq, Repr

namespace Fusion

def fused : Fusion → ModifyOp
  | .slo => .slo
  | .rla => .rla
  | .sre => .sre
  | .rra => .rra
  | .dcp => .dcp
  | .isc => .isc

/-- The operation on the byte in memory. -/
def first : Fusion → ModifyOp
  | .slo => .asl
  | .rla => .rol
  | .sre => .lsr
  | .rra => .ror
  | .dcp => .dec
  | .isc => .inc

/-- The operation on the accumulator, with the changed byte. -/
def second : Fusion → DataOp
  | .slo => .ora
  | .rla => .and
  | .sre => .eor
  | .rra => .adc
  | .dcp => .cmp
  | .isc => .sbc

/-- The flags that the first operation sets and the second does not are set all the same, and those
that both set need not be set twice. -/
theorem apply_fused (f : Fusion) (r : Registers) (v : Byte) :
    f.fused.apply r v =
      ((f.first.apply r v).1, f.second.apply (f.first.apply r v).2 (f.first.apply r v).1) := by
  cases f <;> rfl

theorem x_apply_first (f : Fusion) (r : Registers) (v : Byte) :
    (f.first.apply r v).2.x = r.x := by
  cases f <;> rfl

/-! ## Opcodes -/

/-- Where the opcodes of the operations begin. -/
def block : Fusion → Nat
  | .slo => 0x00
  | .rla => 0x20
  | .sre => 0x40
  | .rra => 0x60
  | .dcp => 0xC0
  | .isc => 0xE0

def secondOpcode (f : Fusion) (o : Operand) : Byte := BitVec.ofNat 8 (f.block + o.column + 1)

def firstOpcode (f : Fusion) (o : Operand) : Byte := BitVec.ofNat 8 (f.block + o.column + 2)

def fusedOpcode (f : Fusion) (o : Operand) : Byte := BitVec.ofNat 8 (f.block + o.column + 3)

variable (f : Fusion) (o : Operand)

theorem sequence_secondOpcode :
    Opcode.sequence (f.secondOpcode o) = .data o.mode f.second := by
  cases f <;> cases o <;> simp only [secondOpcode, block, Operand.column] <;> rfl

theorem sequence_firstOpcode :
    Opcode.sequence (f.firstOpcode o) = .modify o.mode f.first := by
  cases f <;> cases o <;> simp only [firstOpcode, block, Operand.column] <;> rfl

theorem sequence_fusedOpcode :
    Opcode.sequence (f.fusedOpcode o) = .modify o.mode f.fused := by
  cases f <;> cases o <;> simp only [fusedOpcode, block, Operand.column] <;> rfl

end Fusion

namespace Board

variable {b b' : Board Memory} {o : Operand} {opcode : Byte}

/-! ## Steps -/

/-- A read-modify-write instruction changes the byte at its address, and passes over itself. -/
theorem leads_of_modify {op : ModifyOp} (hb : b.processor.Idle)
    (hd : b.processor.dueInterrupt = none) (hs : Opcode.sequence opcode = .modify o.mode op)
    (hcode : b.bus.CodeAt b.processor.regs.pc (opcode :: o.bytes)) :
    let r := b.processor.regs
    let changed := op.apply r (b.bus.read (o.address r))
    ∃ cycles, b.Leads 1
      ⟨b.processor.behind opcode cycles { changed.2 with pc := r.pc + o.length },
        b.bus.write (o.address r) changed.1⟩ := by
  intro r changed
  let a : Word := o.address r
  let moved : Registers := { r with pc := r.pc + o.length }
  refine ⟨_, leads_of_fetch ⟨hb, hd, hcode.head⟩ ?_⟩
  show ((Opcode.sequence opcode).course r.advancePc).run b.bus = _
  rw [hs, Sequence.course, Script.run_bind, o.run_locating .always hcode]
  have hmoved : op.apply moved (b.bus.read a) =
      (changed.1, { changed.2 with pc := r.pc + o.length }) := apply_modify_pc ..
  show (some (Ending.mk (op.apply moved (b.bus.read a)).2 none),
    (b.bus.write a (b.bus.read a)).write a (op.apply moved (b.bus.read a)).1) = _
  rw [write_write, hmoved]

theorem leads_of_data {op : DataOp} (hb : b.processor.Idle)
    (hd : b.processor.dueInterrupt = none) (hs : Opcode.sequence opcode = .data o.mode op)
    (hcode : b.bus.CodeAt b.processor.regs.pc (opcode :: o.bytes)) :
    let r := b.processor.regs
    ∃ cycles, b.Leads 1
      ⟨b.processor.behind opcode cycles
        { op.apply r (b.bus.read (o.address r)) with pc := r.pc + o.length }, b.bus⟩ := by
  intro r
  refine ⟨_, leads_of_fetch ⟨hb, hd, hcode.head⟩ ?_⟩
  show ((Opcode.sequence opcode).course r.advancePc).run b.bus = _
  rw [hs, Sequence.course, Script.run_bind, o.run_locating .ifCrossed hcode]
  exact congrArg (fun r => (some (Ending.mk r none), b.bus)) (apply_data_pc ..)

/-- **One instruction in place of two.**  Where nothing is in flight or requested, a step that
executes one of the six instructions, and two steps that from the same registers and memory execute
the two it stands for, with the same operand, complete and leave the same registers and flags but
for the program counter, and the same memory.  The code may stand anywhere, as long as the byte that
is changed is none of the two instructions. -/
theorem fusion_eq_pair (f : Fusion) (o : Operand) {q : Word} (hb : b.processor.Idle)
    (hquiet : b.processor.Quiet) (hb' : b'.processor.Idle) (hquiet' : b'.processor.Quiet)
    (hbus : b'.bus = b.bus) (hregs : b'.processor.regs = { b.processor.regs with pc := q })
    (hfused : b.bus.CodeAt b.processor.regs.pc (f.fusedOpcode o :: o.bytes))
    (hpair : b.bus.CodeAt q (f.firstOpcode o :: o.bytes ++ f.secondOpcode o :: o.bytes))
    (hclear : ∀ i < 2 * (o.bytes.length + 1),
      o.address b.processor.regs ≠ q + BitVec.ofNat 16 i) :
    let one := b.stepped 1
    let two := b'.stepped 2
    b.Leads 1 one ∧ b'.Leads 2 two ∧ one.bus = two.bus ∧
      one.processor.regs = { two.processor.regs with pc := one.processor.regs.pc } := by
  intro one two
  let r : Registers := b.processor.regs
  let a : Word := o.address r
  let first : Byte × Registers := f.first.apply r (b.bus.read a)
  have hpc : b'.processor.regs.pc = q := congrArg Registers.pc hregs
  obtain ⟨hcode, hcode'⟩ := hpair.of_append
  obtain ⟨m, hone⟩ := leads_of_modify hb hquiet.dueInterrupt (f.sequence_fusedOpcode o) hfused
  obtain ⟨n, hfirst⟩ := leads_of_modify (b := b') hb' hquiet'.dueInterrupt
    (f.sequence_firstOpcode o) (hbus.symm ▸ hpc.symm ▸ hcode)
  rw [hregs, hbus, o.address_pc, apply_modify_pc] at hfirst
  -- The write of the first instruction leaves the second one alone.
  have hclear' : ∀ i < o.bytes.length + 1, a ≠ q + o.length + BitVec.ofNat 16 i := by
    intro i hi
    rw [Operand.length, BitVec.add_assoc, ← BitVec.ofNat_add]
    exact hclear _ (by omega)
  obtain ⟨k, hsecond⟩ := leads_of_data (b := ⟨b'.processor.behind (f.firstOpcode o) n
    { first.2 with pc := q + o.length }, b.bus.write a first.1⟩) hb'.behind
    (Processor.Quiet.dueInterrupt hquiet') (f.sequence_secondOpcode o) (hcode'.write hclear' first.1)
  have hx : o.address { first.2 with pc := q + o.length } = a := by
    rw [o.address_pc, o.address_congr (f.x_apply_first r _)]
  simp only [Processor.regs_behind, hx, Memory.read_write_self, apply_data_pc] at hsecond
  have htwo := hfirst.trans hsecond
  have hone' : one = _ := hone.stepped
  have htwo' : two = _ := htwo.stepped
  refine ⟨⟨rfl, hone.completes⟩, ⟨rfl, htwo.completes⟩, ?_, ?_⟩
  · rw [hone', htwo', f.apply_fused]
  · rw [hone', htwo', f.apply_fused]
    rfl

/-- `RRA $FFF0,X`, and elsewhere `ROR $FFF0,X` with `ADC $FFF0,X` behind it. -/
def rotatingAndAdding (pc : Word) : Board Memory :=
  fresh { a := 0x10, x := 0x20, pc, p := { carry := true } }
    (((Memory.zeros.put 0x0010 [0x81]).put 0x0200 [0x7F, 0xF0, 0xFF]).put 0x0300
      [0x7E, 0xF0, 0xFF, 0x7D, 0xF0, 0xFF])

/-- The address wraps around, and the carry that the rotation leaves is added. -/
theorem fusion_eq_pair_rotatingAndAdding :
    let b := rotatingAndAdding 0x0200
    let b' := rotatingAndAdding 0x0300
    let o : Operand := .absoluteX 0xFFF0
    (b.processor.Idle ∧ b.processor.Quiet ∧ b'.processor.Idle ∧ b'.processor.Quiet ∧
      b'.bus = b.bus ∧ b'.processor.regs = { b.processor.regs with pc := 0x0300 } ∧
      b.bus.CodeAt 0x0200 [0x7F, 0xF0, 0xFF] ∧
      b.bus.CodeAt 0x0300 [0x7E, 0xF0, 0xFF, 0x7D, 0xF0, 0xFF] ∧
      ∀ i < 2 * (o.bytes.length + 1), o.address b.processor.regs ≠ 0x0300 + BitVec.ofNat 16 i) ∧
      b.Leads 1 (b.stepped 1) ∧ b'.Leads 2 (b'.stepped 2) ∧
      (b.stepped 1).bus = (b'.stepped 2).bus ∧ (b.stepped 1).bus.read 0x0010 = 0xC0 ∧
      (b.stepped 1).processor.regs = { (b'.stepped 2).processor.regs with pc := 0x0203 } ∧
      (b.stepped 1).processor.regs.a = 0xD1 := by
  intro b b' o
  have hfused : b.bus.CodeAt 0x0200 [0x7F, 0xF0, 0xFF] := by decide +kernel
  have hpair : b.bus.CodeAt 0x0300 [0x7E, 0xF0, 0xFF, 0x7D, 0xF0, 0xFF] := by decide +kernel
  have hclear : ∀ i < 2 * (o.bytes.length + 1),
      o.address b.processor.regs ≠ 0x0300 + BitVec.ofNat 16 i := by decide
  have hpc : (b.stepped 1).processor.regs.pc = 0x0203 := by decide +kernel
  have hb : b.processor.Idle := ⟨rfl, rfl⟩
  have hb' : b'.processor.Idle := ⟨rfl, rfl⟩
  have hquiet : b.processor.Quiet := ⟨rfl, rfl⟩
  have hquiet' : b'.processor.Quiet := ⟨rfl, rfl⟩
  obtain ⟨hone, htwo, hbus, hregs⟩ := fusion_eq_pair .rra o hb hquiet hb' hquiet' rfl rfl hfused
    hpair hclear
  rw [hpc] at hregs
  exact ⟨⟨hb, hquiet, hb', hquiet', rfl, rfl, hfused, hpair, hclear⟩, hone, htwo, hbus,
    by decide +kernel, hregs, by decide +kernel⟩

end Board

end Mos6502
