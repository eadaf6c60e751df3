import Mos6502.Proofs.Stack
import Mos6502.Proofs.StackBits

/-!
# Interruption

A handler that does nothing but return puts back what its entry has pushed, so the code that is
interrupted cannot tell (`handled_transparently`): of the processor, only the request that was
entered is used up.  Interrupts are disabled in between, so a request that waits besides is entered
behind the return.  The copy of the flags that is left on the stack has bits that the flags
themselves never have, and they tell a break from an interrupt.
-/

namespace Mos6502

namespace Status

variable (p : Status)

theorem interruptCopy_xor : p.interruptCopy ^^^ p.toByte = 0x20 := by
  rcases p with ⟨_ | _, _ | _, _ | _, _ | _, _ | _, _ | _⟩ <;> rfl

theorem instructionCopy_xor : p.instructionCopy ^^^ p.toByte = 0x30 := by
  rcases p with ⟨_ | _, _ | _, _ | _, _ | _, _ | _, _ | _⟩ <;> rfl

end Status

namespace Processor

variable {p : Processor}

theorem Idle.acknowledge (h : p.Idle) (source : Interrupt) : (p.acknowledge source).Idle := by
  cases source <;> exact ⟨h.refusal, h.inFlight⟩

/-- The request that is entered was the only one that could not wait. -/
theorem not_nmiLatched_acknowledge {source : Interrupt} (h : p.dueInterrupt = some source) :
    (p.acknowledge source).nmiLatched = false := by
  cases source with
  | nmi => rfl
  | irq => exact (dueInterrupt_eq_irq_iff.mp h).1

/-- What is left is not entered at the beginning of a handler. -/
theorem dueInterrupt_handling (h : p.nmiLatched = false) (opcode : Byte) (n : Nat) (r : Registers)
    (pc : Word) : (p.behind opcode n (r.handling pc)).dueInterrupt = none := by
  simp [dueInterrupt, behind, Registers.handling, h]

end Processor

namespace Board

/-- A handler that is a return leads back to the address that was pushed, with the flags that were
pushed. -/
theorem leads_of_handler {p : Processor} {m : Memory} {r : Registers} {opcode status : Byte}
    {back pc : Word} {n : Nat} (hp : p.Idle) (hn : p.nmiLatched = false)
    (hreturn : (m.pushFrame r.s back status).read pc = 0x40) (hstatus : .ofByte status = r.p) :
    Leads ⟨p.behind opcode n (r.handling pc), m.pushFrame r.s back status⟩ 1
      ⟨p.behind 0x40 (n + 6) { r with pc := back }, m.pushFrame r.s back status⟩ := by
  let b : Board Memory := ⟨p.behind opcode n (r.handling pc), m.pushFrame r.s back status⟩
  have hfetches : b.Fetches 0x40 := ⟨hp.behind, Processor.dueInterrupt_handling hn .., hreturn⟩
  have hs : r.s - 3 + 1 = r.s - 2 := by bv_omega
  have hstatus' : b.bus.read (stackCell (r.s - 3 + 1)) = status := by
    rw [hs]
    exact Memory.read_pushFrame ..
  have htop : b.bus.topWord (r.s - 3 + 1) = back := by
    rw [hs]
    exact Memory.topWord_pushFrame ..
  have hregs : { r.handling pc with s := (r.handling pc).s + 3, p := .ofByte status, pc := back } =
      { r with pc := back } :=
    Registers.ext rfl rfl rfl (BitVec.sub_add_cancel r.s 3) rfl hstatus
  have hleads := leads_of_rti hfetches hstatus' htop
  rw [← hregs, ← Processor.behind_behind]
  exact hleads

variable {b : Board Memory}

/-- The entry of a handler and its return. -/
theorem leads_of_entry_rti {source : Interrupt} (hb : b.processor.Idle)
    (hd : b.processor.dueInterrupt = some source)
    (hreturn : (b.entered source).bus.read ((b.entered source).bus.word source.vector) = 0x40) :
    b.Leads 2
      ⟨(b.processor.acknowledge source).behind 0x40 13 b.processor.regs,
        (b.entered source).bus⟩ := by
  have hnmi := Processor.not_nmiLatched_acknowledge hd
  have hpulled := b.processor.regs.p.ofByte_interruptCopy
  have hentry := leads_of_entry hb hd
  exact hentry.trans (leads_of_handler (hb.acknowledge source) hnmi hreturn hpulled)

/-- A break and the return from its handler. -/
theorem leads_of_brk_rti (h : b.Fetches 0x00)
    (hreturn : b.broken.bus.read (b.broken.bus.word 0xFFFE) = 0x40) :
    b.Leads 2
      ⟨b.processor.behind 0x40 13 { b.processor.regs with pc := b.processor.regs.pc + 2 },
        b.broken.bus⟩ := by
  have hnmi : b.processor.nmiLatched = false := by
    rw [← Bool.not_eq_true, ← Processor.dueInterrupt_eq_nmi_iff, h.not_due]
    simp
  have hpulled := b.processor.regs.p.ofByte_instructionCopy
  have hbreak := leads_of_brk h
  exact hbreak.trans (leads_of_handler h.idle hnmi hreturn hpulled)

/-- **Handled interrupts are transparent.**  Where nothing is in flight and no refusal waits, a due
interrupt whose handler is a return takes two steps and thirteen cycles.  All registers are then as
they were, one request is used up, and memory differs at most in the three cells of the stack that
were pushed to.  Nothing else is entered in between, but behind the return what was left waiting is.
A break takes as long, and goes on behind the byte that it skips.  The copy of the flags on the
stack differs from the flags in bits that these never have: the unused bit, and for a break that of
the break. -/
theorem handled_transparently (hb : b.processor.Idle) :
    (∀ source, b.processor.dueInterrupt = some source →
      let p := b.processor
      let m := (b.entered source).bus
      let b' : Board Memory :=
        ⟨{ p.acknowledge source with opcode := 0x40, cycles := p.cyclesAfter 13 }, m⟩
      m.read (m.word source.vector) = 0x40 →
        (b.Leads 2 b' ∧ b'.processor.regs = p.regs ∧ b.bus.SameBut m p.regs.s 3) ∧
        (b.Leads 1 (b.entered source) ∧
          (b.entered source).processor.regs.p.interruptDisable = true ∧
          (b.entered source).processor.dueInterrupt = none) ∧
        (source = .nmi → p.irqRequested = true → p.regs.p.interruptDisable = false →
          b'.processor.dueInterrupt = some .irq ∧ b'.Leads 1 (b'.entered .irq)) ∧
        m.read (stackCell (p.regs.s - 2)) ^^^ p.regs.p.toByte = 0x20) ∧
      (b.processor.dueInterrupt = none → b.upcoming = 0x00 →
        let p := b.processor
        let m := b.broken.bus
        m.read (m.word 0xFFFE) = 0x40 →
          b.Leads 2
            ⟨{ p with
                regs.pc := p.regs.pc + 2
                opcode := 0x40
                cycles := p.cyclesAfter 13 }, m⟩ ∧
          b.bus.SameBut m p.regs.s 3 ∧
          m.read (stackCell (p.regs.s - 2)) ^^^ p.regs.p.toByte = 0x30) ∧
      ∀ flags : Status, flags.toByte &&& 0x30 = 0 := by
  refine ⟨fun source hd => ?_, fun hd hopcode => ?_, Status.toByte_and_stackBits⟩
  · intro p m b' hreturn
    have hb' : b'.processor.Idle :=
      ⟨(hb.acknowledge source).refusal, (hb.acknowledge source).inFlight⟩
    have hnmi := Processor.not_nmiLatched_acknowledge hd
    have hleads := leads_of_entry_rti hb hd hreturn
    refine ⟨⟨?_, ?_, .pushFrame _ _ _ _⟩, ⟨leads_of_entry hb hd, rfl, ?_⟩, ?_, ?_⟩
    · cases source <;> exact hleads
    · cases source <;> rfl
    · exact Processor.dueInterrupt_handling hnmi ..
    · rintro rfl hi hclear
      have hdue : b'.processor.dueInterrupt = some .irq :=
        Processor.dueInterrupt_eq_irq_iff.mpr ⟨rfl, hi, hclear⟩
      exact ⟨hdue, leads_of_entry hb' hdue⟩
    · rw [← p.regs.p.interruptCopy_xor]
      exact congrArg (· ^^^ p.regs.p.toByte) (Memory.read_pushFrame ..)
  · intro p m hreturn
    refine ⟨leads_of_brk_rti ⟨hb, hd, hopcode⟩ hreturn, .pushFrame _ _ _ _, ?_⟩
    rw [← p.regs.p.instructionCopy_xor]
    exact congrArg (· ^^^ p.regs.p.toByte) (Memory.read_pushFrame ..)

/-- Both requests are pending, and the handler of the first is the low byte of the address that its
entry pushes. -/
def bothRequested : Board Memory :=
  ⟨{ regs := { s := 0x01, pc := 0x0340, p := {} }, nmiLatched := true, irqRequested := true },
    Memory.zeros.write 0xFFFB 0x01⟩

/-- A break at the end of memory, which skips the byte at its beginning. -/
def breakAtEnd : Board Memory :=
  fresh { s := 0x00, pc := 0xFFFF, p := { carry := true } }
    ((Memory.zeros.write 0xFFFE 0x40).write 0x0040 0x40)

theorem handled_transparently_bothRequested :
    let m := (bothRequested.entered .nmi).bus
    let m' := breakAtEnd.broken.bus
    ((bothRequested.processor.Idle ∧ bothRequested.processor.dueInterrupt = some .nmi ∧
        m.read (m.word 0xFFFA) = 0x40) ∧
      bothRequested.Leads 2
        ⟨{ bothRequested.processor with nmiLatched := false, opcode := 0x40, cycles := 13 }, m⟩ ∧
      bothRequested.bus.SameBut m 0x01 3 ∧ m.read (stackCell 0xFF) ^^^ 0x00 = 0x20 ∧
      ∃ b', (bothRequested.stepped 2).Leads 1 b') ∧
      (breakAtEnd.processor.Idle ∧ breakAtEnd.processor.dueInterrupt = none ∧
        breakAtEnd.upcoming = 0x00 ∧ m'.read (m'.word 0xFFFE) = 0x40) ∧
      breakAtEnd.Leads 2
        ⟨{ breakAtEnd.processor with regs.pc := 0x0001, opcode := 0x40, cycles := 13 }, m'⟩ ∧
      breakAtEnd.bus.SameBut m' 0x00 3 ∧ m'.read (stackCell 0xFE) ^^^ 0x01 = 0x30 := by
  intro m m'
  have hb : bothRequested.processor.Idle := ⟨rfl, rfl⟩
  have hb' : breakAtEnd.processor.Idle := ⟨rfl, rfl⟩
  have hhandler : m.read (m.word 0xFFFA) = 0x40 := by
    simp [m, bothRequested, entered, Memory.word, Memory.pushFrame, Memory.pushWord, stackCell,
      Memory.read_write_of_ne, Word.ofBytes, Word.high, Word.low]
  have hhandler' : m'.read (m'.word 0xFFFE) = 0x40 := by
    simp [m', breakAtEnd, fresh, Processor.ofRegisters, broken, Memory.word, Memory.pushFrame,
      Memory.pushWord, stackCell, Memory.read_write_of_ne, Word.ofBytes, Word.high, Word.low]
  have hbreak : breakAtEnd.upcoming = 0x00 := by
    rw [upcoming_eq_read]
    simp [breakAtEnd, fresh, Processor.ofRegisters, Memory.read_write_of_ne]
  obtain ⟨⟨hleads, -, hsame⟩, -, hthen, hstatus⟩ :=
    (handled_transparently hb).1 .nmi rfl hhandler
  obtain ⟨-, hthird⟩ := hthen rfl rfl rfl
  obtain ⟨hleads', hsame', hstatus'⟩ := (handled_transparently hb').2.1 rfl hbreak hhandler'
  have hafter : ∃ b', (bothRequested.stepped 2).Leads 1 b' := by
    rw [hleads.stepped]
    exact ⟨_, hthird⟩
  exact ⟨⟨⟨hb, rfl, hhandler⟩, hleads, hsame, hstatus, hafter⟩, ⟨hb', rfl, hbreak, hhandler'⟩,
    hleads', hsame', hstatus'⟩

end Board

end Mos6502
