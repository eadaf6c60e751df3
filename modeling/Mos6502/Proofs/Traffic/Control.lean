import Mos6502.Proofs.InstructionSet.Execution
import Mos6502.Proofs.Traffic.Operand

/-!
# Traffic without an operand in memory

What is left besides the instructions with an operand in memory and the branches: operations on
registers, jumps, whatever uses the stack, and the entry of a handler.  Each of them makes the same
accesses every time, at the program counter, at the cells of the stack and where the bytes it has
read lead to (`ControlTraffic`).  The stack lies in page `$01` and wraps around in it, also between
two accesses of one instruction.
-/

universe u

namespace Mos6502

/-- The address of a cell of the stack. -/
def stackCell (low : Byte) : Word := 0x0100 + low.setWidth 16

/-- The accesses of an instruction behind its opcode, or of the entry of a handler behind the read
that is dropped, and the registers after them.  The registers given are those before the first
read. -/
inductive ControlTraffic (r : Registers) : Sequence → List Access → Registers → Prop
  | register (op : RegisterOp) (v : Byte) :
      ControlTraffic r (.register op) [.read (r.pc + 1) v] { op.apply r with pc := r.pc + 1 }
  | accumulator (op : ModifyOp) (v : Byte) :
      ControlTraffic r (.accumulator op) [.read (r.pc + 1) v]
        { (op.apply r r.a).2 with a := (op.apply r r.a).1, pc := r.pc + 1 }
  | pha (v : Byte) :
      ControlTraffic r .pha [.read (r.pc + 1) v, .write (stackCell r.s) r.a]
        { r with s := r.s - 1, pc := r.pc + 1 }
  | php (v : Byte) :
      ControlTraffic r .php
        [.read (r.pc + 1) v, .write (stackCell r.s) (r.p.toByte ||| 0x30)]
        { r with s := r.s - 1, pc := r.pc + 1 }
  | pla (v w a : Byte) :
      ControlTraffic r .pla
        [.read (r.pc + 1) v, .read (stackCell r.s) w, .read (stackCell (r.s + 1)) a]
        { r with a, p := r.p.ofResult a, s := r.s + 1, pc := r.pc + 1 }
  | plp (v w status : Byte) :
      ControlTraffic r .plp
        [.read (r.pc + 1) v, .read (stackCell r.s) w, .read (stackCell (r.s + 1)) status]
        { r with p := .ofByte status, s := r.s + 1, pc := r.pc + 1 }
  | jmp (lo hi : Byte) :
      ControlTraffic r .jmp [.read (r.pc + 1) lo, .read (r.pc + 2) hi]
        { r with pc := Word.ofBytes hi lo }
  | jmpIndirect (lo hi lo' hi' : Byte) :
      ControlTraffic r .jmpIndirect
        [.read (r.pc + 1) lo, .read (r.pc + 2) hi, .read (Word.ofBytes hi lo) lo',
          .read (Word.ofBytes hi (lo + 1)) hi']
        { r with pc := Word.ofBytes hi' lo' }
  | jsr (lo v hi : Byte) :
      ControlTraffic r .jsr
        [.read (r.pc + 1) lo, .read (stackCell r.s) v, .write (stackCell r.s) (r.pc + 2).high,
          .write (stackCell (r.s - 1)) (r.pc + 2).low, .read (r.pc + 2) hi]
        { r with s := r.s - 2, pc := Word.ofBytes hi lo }
  | rts (v w lo hi x : Byte) :
      ControlTraffic r .rts
        [.read (r.pc + 1) v, .read (stackCell r.s) w, .read (stackCell (r.s + 1)) lo,
          .read (stackCell (r.s + 2)) hi, .read (Word.ofBytes hi lo) x]
        { r with s := r.s + 2, pc := Word.ofBytes hi lo + 1 }
  | rti (v w status lo hi : Byte) :
      ControlTraffic r .rti
        [.read (r.pc + 1) v, .read (stackCell r.s) w, .read (stackCell (r.s + 1)) status,
          .read (stackCell (r.s + 2)) lo, .read (stackCell (r.s + 3)) hi]
        { r with p := .ofByte status, s := r.s + 3, pc := Word.ofBytes hi lo }
  | brk (v lo hi : Byte) :
      ControlTraffic r .brk
        [.read (r.pc + 1) v, .write (stackCell r.s) (r.pc + 2).high,
          .write (stackCell (r.s - 1)) (r.pc + 2).low,
          .write (stackCell (r.s - 2)) (r.p.toByte ||| 0x30), .read 0xFFFE lo, .read 0xFFFF hi]
        { r with s := r.s - 3, p.interruptDisable := true, pc := Word.ofBytes hi lo }
  | entry (source : Interrupt) (v lo hi : Byte) :
      ControlTraffic r (.entry source)
        [.read r.pc v, .write (stackCell r.s) r.pc.high, .write (stackCell (r.s - 1)) r.pc.low,
          .write (stackCell (r.s - 2)) (r.p.toByte ||| 0x20), .read source.vector lo,
          .read (source.vector + 1) hi]
        { r with s := r.s - 3, p.interruptDisable := true, pc := Word.ofBytes hi lo }

/-! ## The cells of the stack -/

theorem stackCell_eq (low : Byte) : stackCell low = Word.ofBytes 0x01 low := by
  revert low
  decide

namespace Registers

variable (r : Registers)

theorem slot_eq : r.slot = stackCell r.s := (stackCell_eq r.s).symm

theorem pushed_pushed : r.pushed.pushed = { r with s := r.s - 2 } :=
  Registers.ext rfl rfl rfl (BitVec.sub_sub r.s 1 1) rfl rfl

theorem pushed_pushed_pushed : r.pushed.pushed.pushed = { r with s := r.s - 3 } := by
  rw [pushed_pushed]
  exact Registers.ext rfl rfl rfl (BitVec.sub_sub r.s 1 2) rfl rfl

theorem popped_popped : r.popped.popped = { r with s := r.s + 2 } :=
  Registers.ext rfl rfl rfl (BitVec.add_assoc r.s 1 1) rfl rfl

theorem popped_popped_popped : r.popped.popped.popped = { r with s := r.s + 3 } := by
  rw [popped_popped]
  exact Registers.ext rfl rfl rfl (BitVec.add_assoc r.s 1 2) rfl rfl

end Registers

namespace Sequence

open Registers

/-- The pushes of an interrupt, and the jump through its vector. -/
theorem endsPlainly_entering {P : List Access → Registers → Prop} (status : Byte) (vector : Word)
    (r : Registers)
    (h : ∀ lo hi, P
      [.write (stackCell r.s) r.pc.high, .write (stackCell (r.s - 1)) r.pc.low,
        .write (stackCell (r.s - 2)) status, .read vector lo, .read (vector + 1) hi]
      { r with s := r.s - 3, p.interruptDisable := true, pc := Word.ofBytes hi lo }) :
    (entering status vector r).EndsPlainly P := by
  intro lo hi
  refine ⟨_, rfl, ?_⟩
  rw [pushed_pushed_pushed, pushed_pushed, slot_eq, slot_eq, slot_eq]
  exact h lo hi

theorem endsPlainly_entry (source : Interrupt) (r : Registers) :
    ((Sequence.entry source).course r).EndsPlainly (ControlTraffic r (.entry source)) :=
  fun v => endsPlainly_entering _ _ r fun lo hi => .entry source v lo hi

/-- Is it neither an instruction with an operand in memory nor a branch, and does it end? -/
def isControl : Sequence → Bool
  | .data .. | .store .. | .modify .. | .branch _ | .entry _ | .reset | .jam | .unsupported => false
  | _ => true

theorem endsPlainly_of_isControl {s : Sequence} (h : s.isControl = true) (r : Registers) :
    (s.course r.advancePc).EndsPlainly (ControlTraffic r s) := by
  have hnext := r.pc_advancePc_add_one
  cases s with
  | accumulator op =>
      intro v
      refine ⟨_, rfl, ?_⟩
      rw [advancePc, InstructionSet.apply_modify_pc]
      exact .accumulator op v
  | register op =>
      intro v
      refine ⟨_, rfl, ?_⟩
      rw [advancePc, InstructionSet.apply_register_pc]
      exact .register op v
  | brk =>
      intro v
      refine endsPlainly_entering _ _ _ fun lo hi => ?_
      rw [advancePc_advancePc]
      exact .brk v lo hi
  | jsr =>
      intro lo v hi
      refine ⟨_, rfl, ?_⟩
      rw [hnext, pushed_pushed, slot_eq, slot_eq]
      exact .jsr lo v hi
  | rts =>
      intro v w lo hi x
      refine ⟨_, rfl, ?_⟩
      rw [popped_popped, slot_eq, slot_eq, slot_eq]
      exact .rts v w lo hi x
  | rti =>
      intro v w status lo hi
      refine ⟨_, rfl, ?_⟩
      rw [popped_popped_popped, popped_popped, slot_eq, slot_eq, slot_eq, slot_eq]
      exact .rti v w status lo hi
  | jmp =>
      intro lo hi
      refine ⟨_, rfl, ?_⟩
      rw [hnext]
      exact .jmp lo hi
  | jmpIndirect =>
      intro lo hi lo' hi'
      refine ⟨_, rfl, ?_⟩
      rw [hnext]
      exact .jmpIndirect lo hi lo' hi'
  | pha =>
      intro v
      refine ⟨_, rfl, ?_⟩
      rw [slot_eq]
      exact .pha v
  | php =>
      intro v
      refine ⟨_, rfl, ?_⟩
      rw [slot_eq]
      exact .php v
  | pla =>
      intro v w a
      refine ⟨_, rfl, ?_⟩
      rw [slot_eq, slot_eq]
      exact .pla v w a
  | plp =>
      intro v w status
      refine ⟨_, rfl, ?_⟩
      rw [slot_eq, slot_eq]
      exact .plp v w status
  | _ => cases h

end Sequence

namespace Board

variable {β : Type u} [Bus β]

/-- **The traffic of stack, jumps and interrupts.**  On every bus, where nothing is in flight and no
refusal waits, a step makes exactly these accesses, one with each tick: if no interrupt is due, the
fetch of the opcode and those of an instruction that has no operand in memory and is no branch; if
one is due, a read that is dropped and those of the entry of its handler, which settles the request
and leaves the last opcode as it is. -/
theorem control_traffic {b : Board β} (hb : b.processor.Idle) :
    (b.processor.dueInterrupt = none → (Opcode.sequence b.upcoming).isControl = true →
      ∃ l r, ControlTraffic b.processor.regs (Opcode.sequence b.upcoming) l r ∧
        b.Performs (.read b.processor.regs.pc b.upcoming :: l)
          { b.processor with
            regs := r
            opcode := b.upcoming
            cycles := b.processor.cyclesAfter (l.length + 1) }) ∧
      ∀ source, b.processor.dueInterrupt = some source →
        ∃ l r, ControlTraffic b.processor.regs (.entry source) l r ∧
          b.Performs (.read b.processor.regs.pc b.upcoming :: l)
            { b.processor.acknowledge source with
              regs := r
              cycles := b.processor.cyclesAfter (l.length + 1) } := by
  refine ⟨fun hd hs => ?_, fun source hd => ?_⟩
  · exact performs_of_fetch_plainly hb hd (Sequence.endsPlainly_of_isControl hs b.processor.regs)
  · exact performs_of_due hb hd (Sequence.endsPlainly_entry source b.processor.regs)

/-- A call that lies in the stack page, and pushes its return address over its own operand. -/
def callOverOperand : Board Memory :=
  fresh { s := 0xFE, pc := 0x01FC }
    (((Memory.zeros.write 0x01FC 0x20).write 0x01FD 0x34).write 0x01FE 0x12)

/-- A non-maskable interrupt is due, and the stack is about to wrap around. -/
def interruptedAtStackEnd : Board Memory :=
  ⟨{ regs := { s := 0x01, pc := 0x0300 }, nmiLatched := true }, .zeros⟩

theorem control_traffic_callOverOperand :
    (callOverOperand.processor.Idle ∧ callOverOperand.processor.dueInterrupt = none ∧
      (Opcode.sequence callOverOperand.upcoming).isControl = true ∧
      callOverOperand.Performs
        [.read 0x01FC 0x20, .read 0x01FD 0x34, .read 0x01FE 0x12, .write 0x01FE 0x01,
          .write 0x01FD 0xFE, .read 0x01FE 0x01]
        { callOverOperand.processor with
          regs := { s := 0xFC, pc := 0x0134 }, opcode := 0x20, cycles := 6 }) ∧
      interruptedAtStackEnd.processor.Idle ∧
      interruptedAtStackEnd.processor.dueInterrupt = some .nmi ∧
      ∃ u v lo hi, interruptedAtStackEnd.Performs
        [.read 0x0300 u, .read 0x0300 v, .write 0x0101 0x03, .write 0x0100 0x00,
          .write 0x01FF 0x24, .read 0xFFFA lo, .read 0xFFFB hi]
        { interruptedAtStackEnd.processor with
          regs := { s := 0xFE, pc := Word.ofBytes hi lo }, nmiLatched := false, cycles := 7 } := by
  have hb : callOverOperand.processor.Idle := ⟨rfl, rfl⟩
  have hb' : interruptedAtStackEnd.processor.Idle := ⟨rfl, rfl⟩
  have hopcode : callOverOperand.upcoming = 0x20 := by decide +kernel
  have hs : (Opcode.sequence callOverOperand.upcoming).isControl = true := by
    rw [hopcode]
    rfl
  refine ⟨⟨hb, rfl, hs, ?_⟩, hb', rfl, ?_⟩
  · obtain ⟨l, r, ht, hp⟩ := (control_traffic hb).1 rfl hs
    rw [hopcode] at ht hp
    have hl : l = [.read 0x01FD 0x34, .read 0x01FE 0x12, .write 0x01FE 0x01, .write 0x01FD 0xFE,
        .read 0x01FE 0x01] :=
      hp.eq_tail.trans (by decide +kernel)
    have hs' : Opcode.sequence 0x20 = .jsr := rfl
    rw [hs'] at ht
    subst hl
    cases ht
    exact hp
  · obtain ⟨l, r, ht, hp⟩ := (control_traffic hb').2 .nmi rfl
    cases ht
    exact ⟨_, _, _, _, hp⟩

end Board

end Mos6502
