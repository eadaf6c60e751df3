import Mos6502.Proofs.Leads
import Mos6502.Proofs.Traffic.Control

/-!
# The stack in flat memory

The stack is a ring of 256 cells, so a push reaches a cell below the top and leaves every other one
alone as long as no more than 256 bytes are on it.  Words are pushed with their high byte first and
pulled with their low byte first (`topWord_pushWord`), and what a run of pushes may have changed
is so many cells from one downwards (`Memory.SameBut`).  The second half are the steps that push and
pull return addresses, with the memory they leave.
-/

namespace Mos6502

@[simp] theorem high_stackCell (low : Byte) : (stackCell low).high = 0x01 := by
  rw [stackCell_eq, Word.high_ofBytes]

theorem stackCell_inj {s t : Byte} : stackCell s = stackCell t ↔ s = t := by
  refine ⟨fun h => ?_, congrArg stackCell⟩
  rw [stackCell_eq, stackCell_eq] at h
  simpa using congrArg Word.low h

theorem stackCell_ne_of_high {a : Word} (h : a.high ≠ 0x01) (s : Byte) : a ≠ stackCell s := by
  rintro rfl
  exact h (high_stackCell s)

namespace Memory

/-- The word at an address, its low byte first. -/
def word (m : Memory) (a : Word) : Word := Word.ofBytes (m.read (a + 1)) (m.read a)

/-- A word pushed where the stack pointer points. -/
def pushWord (m : Memory) (s : Byte) (w : Word) : Memory :=
  (m.write (stackCell s) w.high).write (stackCell (s - 1)) w.low

/-- The word on top of the stack. -/
def topWord (m : Memory) (s : Byte) : Word :=
  Word.ofBytes (m.read (stackCell (s + 2))) (m.read (stackCell (s + 1)))

/-! ## What pushes leave alone -/

/-- The second memory differs from the first at most in so many cells of the stack, from one
downwards. -/
def SameBut (m m' : Memory) (s : Byte) (n : Nat) : Prop :=
  ∀ a, (∀ k < n, a ≠ stackCell (s - BitVec.ofNat 8 k)) → m'.read a = m.read a

namespace SameBut

variable {m m' m'' : Memory} {s : Byte} {j n : Nat}

theorem refl (m : Memory) (s : Byte) : m.SameBut m s 0 := fun _ _ => rfl

theorem write (m : Memory) (s : Byte) (v : Byte) : m.SameBut (m.write (stackCell s) v) s 1 := by
  intro a h
  exact read_write_of_ne m v (by simpa using h 0 Nat.one_pos)

/-- Cells that were changed one after the other, further down each time. -/
theorem trans (h : m.SameBut m' s j) (h' : m'.SameBut m'' (s - BitVec.ofNat 8 j) n) :
    m.SameBut m'' s (j + n) := by
  intro a ha
  have hlower : ∀ k < n, a ≠ stackCell (s - BitVec.ofNat 8 j - BitVec.ofNat 8 k) := by
    intro k hk
    rw [BitVec.sub_sub, ← BitVec.ofNat_add]
    exact ha (j + k) (Nat.add_lt_add_left hk j)
  rw [h' a hlower]
  exact h a fun k hk => ha k (Nat.lt_add_right n hk)

theorem pushWord (m : Memory) (s : Byte) (w : Word) : m.SameBut (m.pushWord s w) s 2 :=
  (write m s w.high).trans (write _ (s - 1) w.low)

/-- Nothing outside the page of the stack is changed. -/
theorem read_of_high (h : m.SameBut m' s n) {a : Word} (ha : a.high ≠ 0x01) :
    m'.read a = m.read a :=
  h a fun _ _ => stackCell_ne_of_high ha _

/-- Nor is a cell above, as long as the changes have not gone around. -/
theorem read_above (h : m.SameBut m' s n) (hj : 0 < j) (hn : j + n ≤ 256) :
    m'.read (stackCell (s + BitVec.ofNat 8 j)) = m.read (stackCell (s + BitVec.ofNat 8 j)) := by
  refine h _ fun k hk he => ?_
  have hs := s.isLt
  have hcells := congrArg BitVec.toNat (stackCell_inj.mp he)
  simp only [BitVec.toNat_add, BitVec.toNat_sub, BitVec.toNat_ofNat] at hcells
  omega

theorem topWord_eq (h : m.SameBut m' s n) (hn : n ≤ 254) : m'.topWord s = m.topWord s := by
  have hhigh : m'.read (stackCell (s + 2)) = m.read (stackCell (s + 2)) :=
    h.read_above (j := 2) (by decide) (by omega)
  have hlow : m'.read (stackCell (s + 1)) = m.read (stackCell (s + 1)) :=
    h.read_above (j := 1) (by decide) (by omega)
  rw [topWord, topWord, hhigh, hlow]

end SameBut

/-- A word that has been pushed is on top of the stack. -/
@[simp] theorem topWord_pushWord (m : Memory) (s : Byte) (w : Word) :
    (m.pushWord s w).topWord (s - 2) = w := by
  have hhigh : s - 2 + 2 = s := BitVec.sub_add_cancel s 2
  have hlow : s - 2 + 1 = s - 1 := by bv_omega
  have hne : stackCell s ≠ stackCell (s - 1) := fun h => by
    have := stackCell_inj.mp h
    bv_omega
  rw [topWord, pushWord, hhigh, hlow, read_write_self, read_write_of_ne _ _ hne, read_write_self,
    Word.ofBytes_high_low]

/-! ## What an interrupt pushes -/

/-- The address to go back to and a copy of the flags, pushed where the stack pointer points. -/
def pushFrame (m : Memory) (s : Byte) (pc : Word) (status : Byte) : Memory :=
  (m.pushWord s pc).write (stackCell (s - 2)) status

variable (m : Memory) (s : Byte) (pc : Word) (status : Byte)

theorem SameBut.pushFrame : m.SameBut (m.pushFrame s pc status) s 3 :=
  (SameBut.pushWord m s pc).trans (write _ (s - 2) status)

@[simp] theorem read_pushFrame : (m.pushFrame s pc status).read (stackCell (s - 2)) = status :=
  read_write_self _ _ _

theorem topWord_pushFrame : (m.pushFrame s pc status).topWord (s - 2) = pc := by
  have hframe := SameBut.write (m.pushWord s pc) (s - 2) status
  exact (hframe.topWord_eq (by decide)).trans (topWord_pushWord m s pc)

end Memory

namespace Registers

/-- The registers at the first byte of a handler. -/
def handling (r : Registers) (pc : Word) : Registers :=
  { r with s := r.s - 3, p.interruptDisable := true, pc }

end Registers

namespace Board

open Registers

theorem upcoming_eq_read (b : Board Memory) : b.upcoming = b.bus.read b.processor.regs.pc := rfl

variable {b : Board Memory}

/-! ## Calls and returns -/

/-- The board behind a call, with the address of the call's last byte on the stack. -/
def called (b : Board Memory) (target : Word) : Board Memory :=
  let r := b.processor.regs
  ⟨b.processor.behind 0x20 6 { r with s := r.s - 2, pc := target }, b.bus.pushWord r.s (r.pc + 2)⟩

theorem sameBut_called (b : Board Memory) (target : Word) :
    b.bus.SameBut (b.called target).bus b.processor.regs.s 2 :=
  .pushWord _ _ _

/-- The high byte of the target is read behind the push. -/
theorem leads_of_jsr {target : Word} (h : b.Fetches 0x20)
    (hlow : b.bus.read (b.processor.regs.pc + 1) = target.low)
    (hhigh : (b.called target).bus.read (b.processor.regs.pc + 2) = target.high) :
    b.Leads 1 (b.called target) := by
  let r : Registers := b.processor.regs
  have hnext : r.advancePc.pc + 1 = r.pc + 2 := r.pc_advancePc_add_one
  refine leads_of_fetch h ?_
  show (Sequence.jsr.course r.advancePc).run b.bus = _
  rw [Sequence.course, hnext, pushed_pushed, slot_eq, slot_eq, ← target.ofBytes_high_low, ← hlow,
    ← hhigh]
  rfl

/-- A return goes on behind the address that it pulls. -/
theorem leads_of_rts {w : Word} (h : b.Fetches 0x60)
    (htop : b.bus.topWord b.processor.regs.s = w) :
    b.Leads 1
      ⟨b.processor.behind 0x60 6
        { b.processor.regs with s := b.processor.regs.s + 2, pc := w + 1 }, b.bus⟩ := by
  let r : Registers := b.processor.regs
  refine leads_of_fetch h ?_
  show (Sequence.rts.course r.advancePc).run b.bus = _
  rw [Sequence.course, popped_popped, slot_eq, slot_eq, slot_eq, ← htop]
  rfl

/-! ## Handlers -/

/-- The board behind a break, with the address behind the byte that it skips on the stack. -/
def broken (b : Board Memory) : Board Memory :=
  let r := b.processor.regs
  let m := b.bus.pushFrame r.s (r.pc + 2) r.p.instructionCopy
  ⟨b.processor.behind 0x00 7 (r.handling (m.word 0xFFFE)), m⟩

/-- The board behind the entry of a handler: the opcode that was read is dropped, and one request is
used up. -/
def entered (b : Board Memory) (source : Interrupt) : Board Memory :=
  let r := b.processor.regs
  let m := b.bus.pushFrame r.s r.pc r.p.interruptCopy
  ⟨(b.processor.acknowledge source).behind b.processor.opcode 7
    (r.handling (m.word source.vector)), m⟩

theorem leads_of_brk (h : b.Fetches 0x00) : b.Leads 1 b.broken := by
  let r : Registers := b.processor.regs
  refine leads_of_fetch h ?_
  show (Sequence.brk.course r.advancePc).run b.bus = _
  rw [Sequence.course, Sequence.entering, advancePc_advancePc, pushed_pushed_pushed, pushed_pushed,
    slot_eq, slot_eq, slot_eq]
  rfl

theorem leads_of_entry {source : Interrupt} (hb : b.processor.Idle)
    (hd : b.processor.dueInterrupt = some source) : b.Leads 1 (b.entered source) := by
  let r : Registers := b.processor.regs
  refine leads_of_due hb hd ?_
  show ((Sequence.entry source).course r).run b.bus = _
  rw [Sequence.course, Sequence.entering, pushed_pushed_pushed, pushed_pushed, slot_eq, slot_eq,
    slot_eq]
  rfl

/-- A return from a handler pulls the flags, and goes on at the address that it pulls behind
them. -/
theorem leads_of_rti {status : Byte} {pc : Word} (h : b.Fetches 0x40)
    (hstatus : b.bus.read (stackCell (b.processor.regs.s + 1)) = status)
    (htop : b.bus.topWord (b.processor.regs.s + 1) = pc) :
    b.Leads 1
      ⟨b.processor.behind 0x40 6
        { b.processor.regs with s := b.processor.regs.s + 3, p := .ofByte status, pc }, b.bus⟩ := by
  let r : Registers := b.processor.regs
  refine leads_of_fetch h ?_
  show (Sequence.rti.course r.advancePc).run b.bus = _
  rw [Sequence.course, popped_popped_popped, popped_popped, slot_eq, slot_eq, slot_eq, slot_eq,
    ← hstatus, ← htop, Memory.topWord, BitVec.add_assoc, BitVec.add_assoc]
  rfl

end Board

end Mos6502
