import Mos6502.Proofs.InstructionSet.Execution
import Mos6502.Proofs.Traffic

/-!
# Traffic to an operand

Instructions with an operand in memory first find its address (`Locates`), and then make their own
accesses there (`OperandTraffic`): one read, one write, or a read and two writes.  An index is added
to the low byte of an address first.  The read at what comes of that is left out where the
instruction only reads and there was no carry (`Corrects`); everything else is the same for every
opcode of a mode.
-/

universe u

namespace Mos6502

/-- An address in page zero. -/
abbrev Word.zeroPage (low : Byte) : Word := ofBytes 0 low

/-- The reads that correct the high byte of an indexed address: one at the address without the
carry, or none. -/
inductive Corrects (correction : Correction) (hi lo index : Byte) : List Access → Prop
  | spent (v : Byte) (h : 255 < lo.toNat + index.toNat ∨ correction = .always) :
      Corrects correction hi lo index [.read (Word.ofBytes hi (lo + index)) v]
  | saved (h : lo.toNat + index.toNat ≤ 255) (h' : correction = .ifCrossed) :
      Corrects correction hi lo index []

/-- The accesses that find the address of an operand, and that address.  The registers are those
before the opcode is fetched. -/
inductive Locates (r : Registers) (correction : Correction) : Mode → List Access → Word → Prop
  | immediate : Locates r correction .immediate [] (r.pc + 1)
  | zeroPage (z : Byte) : Locates r correction .zeroPage [.read (r.pc + 1) z] (Word.zeroPage z)
  | zeroPageX (z v : Byte) :
      Locates r correction (.zeroPageIndexed .x)
        [.read (r.pc + 1) z, .read (Word.zeroPage z) v] (Word.zeroPage (z + r.x))
  | zeroPageY (z v : Byte) :
      Locates r correction (.zeroPageIndexed .y)
        [.read (r.pc + 1) z, .read (Word.zeroPage z) v] (Word.zeroPage (z + r.y))
  | absolute (lo hi : Byte) :
      Locates r correction .absolute [.read (r.pc + 1) lo, .read (r.pc + 2) hi] (Word.ofBytes hi lo)
  | absoluteX (lo hi : Byte) {l : List Access} (h : Corrects correction hi lo r.x l) :
      Locates r correction (.absoluteIndexed .x)
        (.read (r.pc + 1) lo :: .read (r.pc + 2) hi :: l)
        (Word.ofBytes hi lo + r.x.setWidth 16)
  | absoluteY (lo hi : Byte) {l : List Access} (h : Corrects correction hi lo r.y l) :
      Locates r correction (.absoluteIndexed .y)
        (.read (r.pc + 1) lo :: .read (r.pc + 2) hi :: l)
        (Word.ofBytes hi lo + r.y.setWidth 16)
  | indexedIndirect (z v lo hi : Byte) :
      Locates r correction .indexedIndirect
        [.read (r.pc + 1) z, .read (Word.zeroPage z) v, .read (Word.zeroPage (z + r.x)) lo,
          .read (Word.zeroPage (z + r.x + 1)) hi]
        (Word.ofBytes hi lo)
  | indirectIndexed (z lo hi : Byte) {l : List Access} (h : Corrects correction hi lo r.y l) :
      Locates r correction .indirectIndexed
        (.read (r.pc + 1) z :: .read (Word.zeroPage z) lo :: .read (Word.zeroPage (z + 1)) hi ::
          l)
        (Word.ofBytes hi lo + r.y.setWidth 16)

/-- The byte that each store writes. -/
inductive Stores (r : Registers) : StoreOp → Byte → Prop
  | sta : Stores r .sta r.a
  | stx : Stores r .stx r.x
  | sty : Stores r .sty r.y
  | sax : Stores r .sax (r.a &&& r.x)

theorem stores_value (op : StoreOp) (r : Registers) : Stores r op (op.value r) := by
  cases op with
  | sta => exact .sta
  | stx => exact .stx
  | sty => exact .sty
  | sax => exact .sax

/-- The accesses of an instruction with an operand in memory behind its opcode, and the registers
after them.  The registers given are those before the opcode is fetched; what is computed is what
the instruction set says. -/
inductive OperandTraffic (r : Registers) : Sequence → List Access → Registers → Prop
  | data {mode : Mode} {l : List Access} {a : Word} (op : DataOp) (v : Byte)
      (h : Locates r .ifCrossed mode l a) :
      OperandTraffic r (.data mode op) (l ++ [.read a v])
        { InstructionSet.data op r v.toNat with
          pc := r.pc + BitVec.ofNat 16 (InstructionSet.length mode) }
  | store {mode : Mode} {l : List Access} {a : Word} {op : StoreOp} {v : Byte}
      (h : Locates r .always mode l a) (hv : Stores r op v) :
      OperandTraffic r (.store mode op) (l ++ [.write a v])
        { r with pc := r.pc + BitVec.ofNat 16 (InstructionSet.length mode) }
  | modify {mode : Mode} {l : List Access} {a : Word} (op : ModifyOp) (v : Byte)
      (h : Locates r .always mode l a) :
      OperandTraffic r (.modify mode op)
        (l ++ [.read a v, .write a v,
          .write a (BitVec.ofNat 8 (InstructionSet.modify op r v.toNat).1)])
        { (InstructionSet.modify op r v.toNat).2 with
          pc := r.pc + BitVec.ofNat 16 (InstructionSet.length mode) }

/-- Has it an operand in memory? -/
def Sequence.hasOperand : Sequence → Bool
  | .data .. | .store .. | .modify .. => true
  | _ => false

namespace Registers

theorem pc_advancePc_add_one (r : Registers) : r.advancePc.pc + 1 = r.pc + 2 :=
  BitVec.add_assoc r.pc 1 1

theorem pc_advancePc_add_two (r : Registers) : r.advancePc.pc + 2 = r.pc + 3 :=
  BitVec.add_assoc r.pc 1 2

theorem advancePc_advancePc (r : Registers) : r.advancePc.advancePc = { r with pc := r.pc + 2 } :=
  Registers.ext rfl rfl rfl rfl r.pc_advancePc_add_one rfl

theorem advancePc_advancePc_advancePc (r : Registers) :
    r.advancePc.advancePc.advancePc = { r with pc := r.pc + 3 } := by
  rw [advancePc_advancePc r.advancePc]
  exact Registers.ext rfl rfl rfl rfl r.pc_advancePc_add_two rfl

end Registers

namespace Sequence

/-! ## What the courses come to -/

theorem always_correcting (correction : Correction) (hi lo index : Byte) (r : Registers) :
    (correcting correction hi lo index r).Always fun l x =>
      Corrects correction hi lo index l ∧ x = (Word.ofBytes hi lo + index.setWidth 16, r) := by
  unfold correcting
  split
  · next h => exact fun v => ⟨.spent v h, rfl⟩
  · next h =>
      obtain ⟨hcarry, hcorrection⟩ := not_or.mp h
      refine ⟨.saved (Nat.le_of_not_lt hcarry) ?_, rfl⟩
      cases correction with
      | ifCrossed => rfl
      | always => exact absurd rfl hcorrection

/-- The registers behind an instruction of a mode. -/
def behind (r : Registers) (mode : Mode) : Registers :=
  { r with pc := r.pc + BitVec.ofNat 16 (InstructionSet.length mode) }

theorem always_locating (correction : Correction) (r : Registers) (mode : Mode) :
    (locating correction r.advancePc mode).Always fun l x =>
      Locates r correction mode l x.1 ∧ x.2 = behind r mode := by
  have hnext := r.pc_advancePc_add_one
  have htwo := r.advancePc_advancePc
  have hthree := r.advancePc_advancePc_advancePc
  cases mode with
  | immediate => exact ⟨.immediate, htwo⟩
  | zeroPage => exact fun z => ⟨.zeroPage z, htwo⟩
  | zeroPageIndexed index =>
      cases index with
      | x => exact fun z v => ⟨.zeroPageX z v, htwo⟩
      | y => exact fun z v => ⟨.zeroPageY z v, htwo⟩
  | absolute =>
      rw [locating, hnext]
      exact fun lo hi => ⟨.absolute lo hi, hthree⟩
  | absoluteIndexed index =>
      rw [locating, hnext, Index.value_advancePc]
      intro lo hi
      refine (always_correcting ..).mono ?_
      rintro l x ⟨hl, rfl⟩
      cases index with
      | x => exact ⟨.absoluteX lo hi hl, hthree⟩
      | y => exact ⟨.absoluteY lo hi hl, hthree⟩
  | indexedIndirect => exact fun z v lo hi => ⟨.indexedIndirect z v lo hi, htwo⟩
  | indirectIndexed =>
      intro z lo hi
      refine (always_correcting ..).mono ?_
      rintro l x ⟨hl, rfl⟩
      exact ⟨.indirectIndexed z lo hi hl, htwo⟩

theorem endsPlainly_of_hasOperand {s : Sequence} (h : s.hasOperand = true) (r : Registers) :
    (s.course r.advancePc).EndsPlainly (OperandTraffic r s) := by
  cases s with
  | data mode op =>
      refine (always_locating .ifCrossed r mode).bind ?_
      rintro l ⟨a, r'⟩ ⟨hl, rfl⟩ v
      refine ⟨_, rfl, ?_⟩
      rw [behind, InstructionSet.apply_data_pc, InstructionSet.apply_data]
      exact .data op v hl
  | store mode op =>
      refine (always_locating .always r mode).bind ?_
      rintro l ⟨a, r'⟩ ⟨hl, rfl⟩
      refine ⟨_, rfl, ?_⟩
      rw [behind, InstructionSet.value_pc]
      exact .store hl (stores_value op r)
  | modify mode op =>
      refine (always_locating .always r mode).bind ?_
      rintro l ⟨a, r'⟩ ⟨hl, rfl⟩ v
      refine ⟨_, rfl, ?_⟩
      rw [behind, InstructionSet.apply_modify_pc, InstructionSet.apply_modify_eq]
      exact .modify op v hl
  | _ => cases h

end Sequence

namespace Board

variable {β : Type u} [Bus β]

/-- **The traffic of an instruction with an operand in memory.**  On every bus, where nothing is in
flight and neither an interrupt nor a refusal is due, a step fetches the opcode, finds the address
of the operand and makes the accesses of the instruction there, and no others.  Each takes one
tick. -/
theorem operand_traffic {b : Board β} (hb : b.processor.Idle)
    (hd : b.processor.dueInterrupt = none)
    (ho : (Opcode.sequence b.upcoming).hasOperand = true) :
    ∃ l r, OperandTraffic b.processor.regs (Opcode.sequence b.upcoming) l r ∧
      b.Performs (.read b.processor.regs.pc b.upcoming :: l)
        { b.processor with
          regs := r
          opcode := b.upcoming
          cycles := b.processor.cyclesAfter (l.length + 1) } :=
  performs_of_fetch_plainly hb hd (Sequence.endsPlainly_of_hasOperand ho b.processor.regs)

/-- About to shift a byte behind a pointer that wraps around in page zero, with an index that
carries into the next page. -/
def shiftingAcrossPage : Board Memory :=
  fresh { y := 0x20, pc := 0x0200 }
    (((Memory.zeros.put 0x00FF [0xF0]).put 0x0110 [0x41]).put 0x0200 [0x13, 0xFF])

/-- About to store `X` behind `Y`, in page zero. -/
def storingInPageZero : Board Memory :=
  fresh { x := 0x55, y := 0x20, pc := 0x0200 } (Memory.zeros.put 0x0200 [0x96, 0xF0])

/-- About to load a byte behind `X`, where the index carries into the next page. -/
def loadingAcrossPage : Board Memory :=
  fresh { x := 0x20, y := 0x01, pc := 0x0200 }
    ((Memory.zeros.put 0x0110 [0x41]).put 0x0200 [0xBD, 0xF0, 0x00])

theorem operand_traffic_indexed :
    (∀ b ∈ [shiftingAcrossPage, storingInPageZero, loadingAcrossPage],
      b.processor.Idle ∧ b.processor.dueInterrupt = none ∧
        (Opcode.sequence b.upcoming).hasOperand = true) ∧
      (∃ r, OperandTraffic shiftingAcrossPage.processor.regs (.modify .indirectIndexed .slo)
          [.read 0x0201 0xFF, .read 0x00FF 0xF0, .read 0x0000 0x00, .read 0x0010 0x00,
            .read 0x0110 0x41, .write 0x0110 0x41, .write 0x0110 0x82] r ∧
        shiftingAcrossPage.Performs
          [.read 0x0200 0x13, .read 0x0201 0xFF, .read 0x00FF 0xF0, .read 0x0000 0x00,
            .read 0x0010 0x00, .read 0x0110 0x41, .write 0x0110 0x41, .write 0x0110 0x82]
          { shiftingAcrossPage.processor with regs := r, opcode := 0x13, cycles := 8 }) ∧
      (∃ r, OperandTraffic storingInPageZero.processor.regs (.store (.zeroPageIndexed .y) .stx)
          [.read 0x0201 0xF0, .read 0x00F0 0x00, .write 0x0010 0x55] r ∧
        storingInPageZero.Performs
          [.read 0x0200 0x96, .read 0x0201 0xF0, .read 0x00F0 0x00, .write 0x0010 0x55]
          { storingInPageZero.processor with regs := r, opcode := 0x96, cycles := 4 }) ∧
      ∃ r, OperandTraffic loadingAcrossPage.processor.regs (.data (.absoluteIndexed .x) .lda)
          [.read 0x0201 0xF0, .read 0x0202 0x00, .read 0x0010 0x00, .read 0x0110 0x41] r ∧
        loadingAcrossPage.Performs
          [.read 0x0200 0xBD, .read 0x0201 0xF0, .read 0x0202 0x00, .read 0x0010 0x00,
            .read 0x0110 0x41]
          { loadingAcrossPage.processor with regs := r, opcode := 0xBD, cycles := 5 } := by
  have traffic : ∀ (b : Board Memory) (opcode : Byte) {l : List Access}, b.processor.Idle →
      b.processor.dueInterrupt = none → b.upcoming = opcode →
      (Opcode.sequence opcode).hasOperand = true → b.stepAccesses.tail = l →
      ∃ r, OperandTraffic b.processor.regs (Opcode.sequence opcode) l r ∧
        b.Performs (.read b.processor.regs.pc opcode :: l)
          { b.processor with
            regs := r
            opcode
            cycles := b.processor.cyclesAfter (l.length + 1) } := by
    rintro b _ _ hb hd rfl ho rfl
    obtain ⟨l, r, ht, hp⟩ := operand_traffic hb hd ho
    obtain rfl : l = b.stepAccesses.tail := hp.eq_tail
    exact ⟨r, ht, hp⟩
  have hshift : shiftingAcrossPage.upcoming = 0x13 := by decide +kernel
  have hstore : storingInPageZero.upcoming = 0x96 := by decide +kernel
  have hload : loadingAcrossPage.upcoming = 0xBD := by decide +kernel
  refine ⟨?_, traffic _ 0x13 ⟨rfl, rfl⟩ rfl hshift rfl (by decide +kernel),
    traffic _ 0x96 ⟨rfl, rfl⟩ rfl hstore rfl (by decide +kernel),
    traffic _ 0xBD ⟨rfl, rfl⟩ rfl hload rfl (by decide +kernel)⟩
  simp only [List.forall_mem_cons, hshift, hstore, hload]
  exact ⟨⟨⟨rfl, rfl⟩, rfl, rfl⟩, ⟨⟨rfl, rfl⟩, rfl, rfl⟩, ⟨⟨rfl, rfl⟩, rfl, rfl⟩,
    List.forall_mem_nil _⟩

end Board

end Mos6502
