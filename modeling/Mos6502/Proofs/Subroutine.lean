import Mos6502.Proofs.Stack

/-!
# Nested subroutines

A subroutine that calls nothing, or only one further subroutine, returns behind its call and leaves
the registers as they were (`nested_calls_return`).  Each level keeps its return address in two
cells of the stack, and what is called from it pushes below them.  The stack is a ring, so this
holds of nestings as deep as 128 levels, wherever the stack pointer begins.
-/

namespace Mos6502

namespace Memory

/-- These bytes are at an address and behind it, none of them in the page of the stack. -/
def Holds (m : Memory) (a : Word) : List Byte → Prop
  | [] => True
  | v :: l => (a.high ≠ 0x01 ∧ m.read a = v) ∧ m.Holds (a + 1) l

instance decidableHolds (m : Memory) : ∀ a l, Decidable (m.Holds a l)
  | _, [] => inferInstanceAs (Decidable True)
  | a, v :: l =>
    have := decidableHolds m (a + 1) l
    inferInstanceAs (Decidable ((a.high ≠ 0x01 ∧ m.read a = v) ∧ m.Holds (a + 1) l))

/-- What follows a piece of code is held behind it. -/
theorem Holds.of_append {m : Memory} {a : Word} {l k : List Byte} (h : m.Holds a (l ++ k)) :
    m.Holds a l ∧ m.Holds (a + BitVec.ofNat 16 l.length) k := by
  induction l generalizing a with
  | nil => exact ⟨trivial, by simpa using h⟩
  | cons v l ih =>
      obtain ⟨hv, hrest⟩ := h
      obtain ⟨hl, hk⟩ := ih hrest
      have hnext : a + 1 + BitVec.ofNat 16 l.length = a + BitVec.ofNat 16 (v :: l).length := by
        rw [BitVec.add_assoc, List.length_cons, Nat.add_comm, BitVec.ofNat_add]
        rfl
      rw [hnext] at hk
      exact ⟨⟨hv, hl⟩, hk⟩

/-- The code of a subroutine that so many calls nested into each other reach, its own among them. -/
inductive Subroutine (m : Memory) : Nat → Word → Prop
  | leaf {a : Word} (hreturn : m.Holds a [0x60]) : Subroutine m 1 a
  | calling {n : Nat} {a target : Word}
      (hcode : m.Holds a [0x20, target.low, target.high, 0x60]) (hsub : Subroutine m n target) :
      Subroutine m (n + 1) a

/-- Both memories are the same outside the page of the stack. -/
def SameCode (m m' : Memory) : Prop := ∀ a, a.high ≠ 0x01 → m'.read a = m.read a

variable {m m' m'' : Memory} {a : Word} {s : Byte} {n : Nat}

theorem SameBut.sameCode (h : m.SameBut m' s n) : m.SameCode m' := fun _ => h.read_of_high

namespace SameCode

theorem trans (h : m.SameCode m') (h' : m'.SameCode m'') : m.SameCode m'' :=
  fun a ha => (h' a ha).trans (h a ha)

theorem holds (h : m.SameCode m') {l : List Byte} (hl : m.Holds a l) : m'.Holds a l := by
  induction l generalizing a with
  | nil => trivial
  | cons v l ih =>
      obtain ⟨⟨ha, hv⟩, hrest⟩ := hl
      exact ⟨⟨ha, (h a ha).trans hv⟩, ih hrest⟩

end SameCode

end Memory

namespace Board

variable {b : Board Memory}

/-- The board behind a return to the caller, so many cycles on. -/
def returned (b : Board Memory) (cycles : Nat) (m : Memory) : Board Memory :=
  ⟨b.processor.behind 0x60 cycles { b.processor.regs with pc := b.processor.regs.pc + 3 }, m⟩

theorem returned_called (target : Word) (cycles : Nat) (m : Memory) :
    (b.called target).returned cycles m =
      ⟨b.processor.behind 0x60 (6 + cycles)
        { b.processor.regs with s := b.processor.regs.s - 2, pc := target + 3 }, m⟩ :=
  congrArg (Board.mk · m) (Processor.behind_behind ..)

/-- The operand of a call is read on both sides of the push, which does not reach it. -/
theorem leads_of_holds_jsr {target : Word} (hb : b.processor.Idle)
    (hd : b.processor.dueInterrupt = none)
    (hcode : b.bus.Holds b.processor.regs.pc [0x20, target.low, target.high]) :
    b.Leads 1 (b.called target) := by
  obtain ⟨⟨-, hcall⟩, ⟨-, hlow⟩, ⟨hpage, hhigh⟩, -⟩ := hcode
  have hnext : b.processor.regs.pc + 1 + 1 = b.processor.regs.pc + 2 := BitVec.add_assoc _ 1 1
  rw [hnext] at hpage hhigh
  have hpushed := (b.sameBut_called target).read_of_high hpage
  exact leads_of_jsr ⟨hb, hd, hcall⟩ hlow (hpushed.trans hhigh)

/-- Code behind a call that comes to a return, with the address still on the stack, leads back. -/
theorem leads_returned {target pc : Word} {opcode : Byte} {k n cycles : Nat} {m : Memory}
    (hb : b.processor.Idle) (hd : b.processor.dueInterrupt = none)
    (hbody : (b.called target).Leads k
      ⟨b.processor.behind opcode cycles
        { b.processor.regs with s := b.processor.regs.s - 2, pc }, m⟩)
    (hsame : (b.called target).bus.SameBut m (b.processor.regs.s - 2) n) (hn : n ≤ 254)
    (hreturn : m.read pc = 0x60) :
    (b.called target).Leads (k + 1) (b.returned (cycles + 6) m) := by
  let body : Board Memory := ⟨b.processor.behind opcode cycles
    { b.processor.regs with s := b.processor.regs.s - 2, pc }, m⟩
  have htop : m.topWord (b.processor.regs.s - 2) = b.processor.regs.pc + 2 :=
    (hsame.topWord_eq hn).trans (Memory.topWord_pushWord ..)
  have hs : b.processor.regs.s - 2 + 2 = b.processor.regs.s := BitVec.sub_add_cancel _ 2
  have hpc : b.processor.regs.pc + 2 + 1 = b.processor.regs.pc + 3 := BitVec.add_assoc _ 2 1
  have hleads := leads_of_rts (b := body) ⟨hb.behind, hd, hreturn⟩ htop
  simp only [body, Processor.behind_behind, Processor.regs_behind, hs, hpc] at hleads
  exact hbody.trans hleads

/-- A call of a subroutine comes back, and changes two cells of the stack for each level. -/
theorem leads_of_subroutine {code : Memory} {n : Nat} {target : Word}
    (hsub : code.Subroutine n target) {b : Board Memory} (hsame : code.SameCode b.bus)
    (hb : b.processor.Idle) (hd : b.processor.dueInterrupt = none) (hn : n ≤ 128)
    (hcall : b.bus.Holds b.processor.regs.pc [0x20, target.low, target.high]) :
    ∃ m, b.Leads (2 * n) (b.returned (12 * n) m) ∧
      b.bus.SameBut m b.processor.regs.s (2 * n) := by
  induction hsub generalizing b with
  | @leaf target hreturn =>
      have hpushed := b.sameBut_called target
      have hcalled := leads_of_holds_jsr hb hd hcall
      obtain ⟨⟨-, hopcode⟩, -⟩ := (hsame.trans hpushed.sameCode).holds hreturn
      have hback := leads_returned (n := 0) hb hd (.refl _) (.refl _ _) (by decide) hopcode
      exact ⟨_, hcalled.trans hback, hpushed⟩
  | @calling n target inner hcode hsub ih =>
      have hpushed := b.sameBut_called target
      have hcalled := leads_of_holds_jsr hb hd hcall
      have hcode' := (hsame.trans hpushed.sameCode).holds hcode
      -- The inner call begins with the stack pointer two lower.
      obtain ⟨m, hinner, hchanged⟩ := ih (b := b.called target) (hsame.trans hpushed.sameCode)
        hb.behind hd (by omega) (Memory.Holds.of_append (k := [0x60]) hcode').1
      obtain ⟨-, ⟨-, hopcode⟩, -⟩ :=
        Memory.Holds.of_append (l := [0x20, inner.low, inner.high]) (hchanged.sameCode.holds hcode')
      rw [returned_called] at hinner
      have hback := leads_returned hb hd hinner hchanged (by omega) hopcode
      have hcells : 2 * (n + 1) = 2 + 2 * n := by omega
      have hsteps : 2 + 2 * n = 1 + (2 * n + 1) := by omega
      have hcycles : 12 * (n + 1) = 6 + 12 * n + 6 := by omega
      rw [hcells, hcycles]
      refine ⟨m, ?_, hpushed.trans hchanged⟩
      rw [hsteps]
      exact hcalled.trans hback

/-- **Nested subroutines return.**  Where nothing is in flight or due, a call of subroutines nested
up to 128 deep, whose code lies outside the page of the stack, completes a call and a return for
each level in twelve cycles, and goes on behind it with all other registers as they were.  At most
two cells of the stack have changed for each level, from the stack pointer downwards and around the
page, and nothing outside of it. -/
theorem nested_calls_return {n : Nat} {target : Word} (hb : b.processor.Idle)
    (hd : b.processor.dueInterrupt = none) (hn : n ≤ 128)
    (hcall : b.bus.Holds b.processor.regs.pc [0x20, target.low, target.high])
    (hsub : b.bus.Subroutine n target) :
    ∃ m,
      b.Leads (2 * n)
        ⟨{ b.processor with
            regs.pc := b.processor.regs.pc + 3
            opcode := 0x60
            cycles := b.processor.cyclesAfter (12 * n) }, m⟩ ∧
        b.bus.SameBut m b.processor.regs.s (2 * n) ∧
        ∀ a : Word, a.high ≠ 0x01 → m.read a = b.bus.read a := by
  obtain ⟨m, hleads, hsame⟩ := leads_of_subroutine hsub (fun _ _ => rfl) hb hd hn hcall
  exact ⟨m, hleads, hsame, hsame.sameCode⟩

/-- A call of a subroutine that calls another one, with the stack pointer at the end of its page. -/
def nestedAtStackEnd : Board Memory :=
  fresh { s := 0x01, pc := 0x0200 }
    ((((((Memory.zeros.write 0x0200 0x20).write 0x0202 0x03).write 0x0300 0x20).write 0x0302
      0x04).write 0x0303 0x60).write 0x0400 0x60)

theorem nested_calls_return_nestedAtStackEnd :
    (nestedAtStackEnd.processor.Idle ∧ nestedAtStackEnd.processor.dueInterrupt = none ∧
      nestedAtStackEnd.bus.Holds 0x0200 [0x20, 0x00, 0x03] ∧
      nestedAtStackEnd.bus.Subroutine 2 0x0300) ∧
      ∃ m,
        nestedAtStackEnd.Leads 4
          ⟨{ nestedAtStackEnd.processor with
              regs.pc := 0x0203
              opcode := 0x60
              cycles := 24 }, m⟩ ∧
          nestedAtStackEnd.bus.SameBut m 0x01 4 ∧
          ∀ a : Word, a.high ≠ 0x01 → m.read a = nestedAtStackEnd.bus.read a := by
  have hb : nestedAtStackEnd.processor.Idle := ⟨rfl, rfl⟩
  have hcall : nestedAtStackEnd.bus.Holds 0x0200 [0x20, 0x00, 0x03] := by decide +kernel
  have hinner : nestedAtStackEnd.bus.Subroutine 1 0x0400 := .leaf (by decide +kernel)
  have hsub : nestedAtStackEnd.bus.Subroutine 2 0x0300 := .calling (by decide +kernel) hinner
  exact ⟨⟨hb, rfl, hcall, hsub⟩,
    @nested_calls_return nestedAtStackEnd 2 0x0300 hb rfl (by decide) hcall hsub⟩

end Board

end Mos6502
