import Mos6502.Memory
import Mos6502.Bus.Recorder
import Mos6502.Proofs.InFlight

/-!
# Lock-ups

A locked-up processor reads at the program counter on every cycle, and that is all it does.
Requests are noted and wait, the program counter can be moved, and the count of the cycles of the
instruction that locks up goes on until it stops at the largest byte (`Processor.stalled`).  No
number of calls leads out of this but a reset (`lockUp_absorbs`).
-/

universe u

namespace Mos6502

namespace Call

/-- Does the call run cycles? -/
def runs : Call → Bool
  | .act .tick | .step => true
  | .act _ => false

/-- Where a call leaves a program counter that nothing else moves. -/
def movePc (pc : Word) : Call → Word
  | .act (.setPc pc') => pc'
  | _ => pc

end Call

namespace Instruction

/-- An instruction that has been held for so many cycles more. -/
def held (i : Instruction) (n : Nat) : Instruction :=
  { i with progress.cycle := min (i.cycle + n) 0xFF }

theorem held_zero {i : Instruction} (h : i.cycle ≤ 0xFF) : i.held 0 = i := by
  rw [held, Nat.add_zero, Nat.min_eq_left h]
  rfl

theorem held_held (i : Instruction) (m n : Nat) : (i.held m).held n = i.held (m + n) := by
  have h : min (min (i.cycle + m) 0xFF + n) 0xFF = min (i.cycle + (m + n)) 0xFF := by omega
  exact congrArg (fun cycle => ({ i with progress.cycle := cycle } : Instruction)) h

end Instruction

namespace Processor

/-- A processor that an instruction locks up, behind some calls other than resets. -/
def stalled (p : Processor) (i : Instruction) (cs : List Call) : Processor :=
  { p with
    regs.pc := cs.foldl Call.movePc p.regs.pc
    inFlight := some (i.held (cs.countP Call.runs))
    cycles := p.cycles + UInt64.ofNat (cs.countP Call.runs)
    nmiLatched := p.nmiLatched || cs.contains (.act .nmi)
    irqRequested :=
      p.irqRequested || !p.regs.p.interruptDisable && cs.contains (.act .interrupt) }

theorem stalled_cons (p : Processor) (i : Instruction) (c : Call) (cs : List Call) :
    p.stalled i (c :: cs) =
      (p.stalled i [c]).stalled (i.held ([c].countP Call.runs)) cs := by
  have hcount : (c :: cs).countP Call.runs = [c].countP Call.runs + cs.countP Call.runs := by
    rw [← List.countP_append, List.singleton_append]
  simp only [stalled, hcount, Instruction.held_held, UInt64.ofNat_add, UInt64.add_assoc,
    List.contains_cons, List.contains_nil, Bool.or_false, Bool.or_assoc, List.foldl_cons,
    List.foldl_nil, Bool.and_or_distrib_left]

/-- The processor is locked up, by this instruction. -/
structure LockedUp (p : Processor) (i : Instruction) : Prop where
  refusal : p.refusal = none
  inFlight : p.inFlight = some i
  jam : i.sequence = .jam
  cycle_le : i.cycle ≤ 0xFF

variable {p : Processor} {i : Instruction}

theorem exists_lockedUp (h : p.WellFormed) (hh : p.isHalted = true) : ∃ i, p.LockedUp i := by
  obtain ⟨i, hi, hj⟩ := inFlight_of_halted hh
  exact ⟨i, h.refusal_of_inFlight hi, hi, hj, (h.inTime i hi).cycle_le⟩

theorem LockedUp.isHalted (h : p.LockedUp i) : p.isHalted = true := by
  rw [Processor.isHalted, h.inFlight]
  exact beq_of_eq h.jam

theorem LockedUp.stalled (h : p.LockedUp i) (cs : List Call) :
    (p.stalled i cs).LockedUp (i.held (cs.countP Call.runs)) :=
  ⟨h.refusal, rfl, h.jam, Nat.min_le_right _ _⟩

/-- Calls that run no cycle leave the instruction as it is. -/
theorem LockedUp.stalled_of_not_runs (h : p.LockedUp i) {cs : List Call}
    (hcs : ∀ c ∈ cs, c.runs = false) :
    p.stalled i cs =
      { p with
        regs.pc := cs.foldl Call.movePc p.regs.pc
        nmiLatched := p.nmiLatched || cs.contains (.act .nmi)
        irqRequested :=
          p.irqRequested || !p.regs.p.interruptDisable && cs.contains (.act .interrupt) } := by
  have hcount : cs.countP Call.runs = 0 := List.countP_eq_zero.mpr fun c hc => by simp [hcs c hc]
  have hcycles : p.cycles + UInt64.ofNat 0 = p.cycles := UInt64.add_zero _
  rw [Processor.stalled, hcount, Instruction.held_zero h.cycle_le, ← h.inFlight, hcycles]

end Processor

namespace Board

variable {β : Type u} [Bus β] {b : Board β} {i : Instruction}

/-- A tick of a locked-up processor is one read at the program counter, and ends the step. -/
theorem act_of_lockedUp (h : b.processor.LockedUp i) :
    b.act .tick = ⟨b.processor.stalled i [.act .tick], (Bus.read b.bus b.processor.regs.pc).2⟩ ∧
      b.turn.outcome = .unfinished ∧ b.turn.ends = true := by
  have ht := Processor.tick_of_jam h.refusal h.inFlight h.jam b.bus
  refine ⟨?_, ?_, ?_⟩
  · rw [act, turn, ht]
    simp [Processor.stalled, Processor.counted, Call.runs, Call.movePc]
    rfl
  · rw [turn, ht]
  · rw [turn, ht]
    exact beq_of_eq h.jam

/-- A step of a locked-up processor is one tick, and comes to nothing. -/
theorem step_of_lockedUp (h : b.processor.LockedUp i) :
    b.call .step = b.act .tick ∧ b.actsOf .step = [.tick] ∧
      b.reply .step = .outcome .unfinished := by
  obtain ⟨-, ho, hends⟩ := act_of_lockedUp h
  obtain ⟨hcall, hacts, hreply⟩ := step_of_lasts (.zero hends) (Nat.succ_pos 7)
  exact ⟨hcall, hacts, hreply.trans (congrArg _ ho)⟩

/-- What a call other than a reset makes of a locked-up processor. -/
theorem call_of_lockedUp (h : b.processor.LockedUp i) {c : Call} (hc : c ≠ .act .reset) :
    (b.call c).processor = b.processor.stalled i [c] := by
  cases c with
  | step =>
      rw [(step_of_lockedUp h).1, (act_of_lockedUp h).1]
      rfl
  | act a =>
      cases a with
      | tick => exact congrArg Board.processor (act_of_lockedUp h).1
      | reset => exact absurd rfl hc
      | interrupt =>
          rw [h.stalled_of_not_runs (by simp [Call.runs]), call, act, Processor.interrupt]
          cases hd : b.processor.regs.p.interruptDisable <;> simp [Call.movePc]
      | nmi =>
          rw [h.stalled_of_not_runs (by simp [Call.runs])]
          simp [call, act, Processor.nmi, Call.movePc]
      | setPc pc =>
          rw [h.stalled_of_not_runs (by simp [Call.runs])]
          simp [call, act, Processor.setPc, Call.movePc]

/-- So many calls make of it what they make one by one. -/
theorem calls_of_lockedUp (h : b.processor.LockedUp i) {cs : List Call}
    (hcs : ∀ c ∈ cs, c ≠ .act .reset) :
    (b.calls cs).processor = b.processor.stalled i cs := by
  induction cs generalizing b i with
  | nil =>
      rw [h.stalled_of_not_runs (by simp)]
      simp [calls]
  | cons c cs ih =>
      obtain ⟨hc, hcs⟩ := List.forall_mem_cons.mp hcs
      have hcall := call_of_lockedUp h hc
      have hnext : (b.call c).processor.LockedUp (i.held ([c].countP Call.runs)) :=
        hcall ▸ h.stalled [c]
      rw [Processor.stalled_cons, ← hcall]
      exact ih hnext hcs

/-- Nothing that stalls begins the entry of a handler. -/
theorem not_enters_of_lockedUp (h : b.processor.LockedUp i) (source : Interrupt) :
    ¬ b.turn.Enters source := by
  intro he
  have hnext : (b.act .tick).processor.inFlight = some (i.held 1) := by
    rw [(act_of_lockedUp h).1]
    rfl
  have hsame : i.held 1 = .interrupt source := Option.some.inj (hnext.symm.trans he)
  have hsequence : i.sequence = .entry source := congrArg Instruction.sequence hsame
  rw [h.jam] at hsequence
  cases hsequence

/-- Only a reset leads out of a lock-up. -/
theorem not_halted_call_iff (h : b.processor.LockedUp i) (c : Call) :
    (b.call c).processor.isHalted = false ↔ c = .act .reset := by
  constructor
  · intro hnot
    by_contra hc
    rw [call_of_lockedUp h hc, (h.stalled [c]).isHalted] at hnot
    cases hnot
  · rintro rfl
    rfl

theorem pending_stalled {p : Processor} {source : Interrupt} (h : p.pending source = true)
    (i : Instruction) (cs : List Call) : (p.stalled i cs).pending source = true := by
  cases source with
  | nmi =>
      have hn : p.nmiLatched = true := h
      simp [Processor.pending, Processor.stalled, hn]
  | irq =>
      have hq : p.irqRequested = true := h
      simp [Processor.pending, Processor.stalled, hq]

/-- **A lock-up is absorbing.**  Behind any calls but resets the processor is locked up as before,
and differs in nothing but the requests made, the program counter it was moved to, and the cycles
spent, which the instruction counts up to the largest byte.  Each tick is one read at the program
counter, comes to nothing and leaves the registers and the last opcode as they are; each step is one
tick.  Requests that are pending stay so, no handler is entered, and only a reset leads out. -/
theorem lockUp_absorbs {b : Board (Recorder β)} (h : b.processor.Reachable)
    (hh : b.processor.isHalted = true) {cs : List Call} (hcs : ∀ c ∈ cs, c ≠ .act .reset) :
    let p := b.processor
    let b' := b.calls cs
    let p' := b'.processor
    p'.isHalted = true ∧
      (∃ i j, p.inFlight = some i ∧ p' = p.stalled i cs ∧ p'.inFlight = some j ∧
        i.cycle ≤ j.cycle ∧ (i.cycle = 0xFF → j.cycle = 0xFF)) ∧
      (b'.turn.outcome = .unfinished ∧
        (b'.act .tick).bus.accesses =
          b'.bus.accesses.push (.read p'.regs.pc (Bus.read b'.bus.bus p'.regs.pc).1) ∧
        (b'.act .tick).processor.cycles = p'.cycles + 1 ∧
        (b'.act .tick).processor.regs = p'.regs ∧
        (b'.act .tick).processor.opcode = p'.opcode) ∧
      (b'.call .step = b'.act .tick ∧ b'.actsOf .step = [.tick] ∧
        b'.reply .step = .outcome .unfinished) ∧
      (∀ source, (p.pending source = true → p'.pending source = true) ∧
        ¬ b'.turn.Enters source) ∧
      ∀ c, (b'.call c).processor.isHalted = false ↔ c = .act .reset := by
  intro p b' p'
  obtain ⟨i, hi⟩ := Processor.exists_lockedUp h.wellFormed hh
  have hp' : p' = p.stalled i cs := calls_of_lockedUp hi hcs
  have hi' : p'.LockedUp (i.held (cs.countP Call.runs)) := hp' ▸ hi.stalled cs
  obtain ⟨hact, houtcome, -⟩ := act_of_lockedUp (b := b') hi'
  refine ⟨hi'.isHalted, ⟨i, _, hi.inFlight, hp', hi'.inFlight, ?_, ?_⟩, ⟨houtcome, ?_⟩,
    step_of_lockedUp hi', fun source => ⟨fun hs => ?_, not_enters_of_lockedUp hi' source⟩,
    not_halted_call_iff hi'⟩
  · exact Nat.le_min.mpr ⟨Nat.le_add_right _ _, hi.cycle_le⟩
  · intro hfull
    exact Nat.min_eq_right (hfull ▸ Nat.le_add_right _ _)
  · rw [hact]
    exact ⟨rfl, rfl, rfl, rfl⟩
  · rw [hp']
    exact pending_stalled hs i cs

/-- A branch in front of a lock-up. -/
def branchToLockUp : Board (Recorder Memory) :=
  fresh { p := {} } { bus := (Memory.zeros.write 0x0000 0xD0).write 0x0002 0x02 }

/-- Requests, a jump and some cycles. -/
def attempts : List Call :=
  [.act .interrupt, .step, .act .nmi, .act (.setPc 0x1234), .act .tick, .step]

theorem lockUp_absorbs_branchToLockUp :
    (branchToLockUp.call .step).processor.isHalted = true ∧
      (∀ c ∈ attempts, c ≠ .act .reset) ∧
      let b := (branchToLockUp.call .step).calls attempts
      b.processor.isHalted = true ∧ b.processor.pending .nmi = true ∧
        b.processor.cycles = 4 + 3 ∧
        (b.act .tick).bus.accesses = b.bus.accesses.push (.read 0x1234 0x00) ∧
        b.reply .step = .outcome .unfinished := by
  have hr : (branchToLockUp.call .step).processor.Reachable :=
    (Processor.Reachable.created { p := {} }).calls (b := branchToLockUp) [.step]
  have hh : (branchToLockUp.call .step).processor.isHalted = true := by decide +kernel
  have hcs : ∀ c ∈ attempts, c ≠ .act .reset := by decide
  obtain ⟨hhalted, ⟨i, j, -, hp, -⟩, ⟨-, haccess, -⟩, ⟨-, -, hreply⟩, -, -⟩ :=
    lockUp_absorbs hr hh hcs
  have hcycles : (branchToLockUp.call .step).processor.cycles = 4 := by decide +kernel
  refine ⟨hh, hcs, hhalted, ?_, ?_, ?_, hreply⟩
  · have hnmi : attempts.contains (.act .nmi) = true := by decide
    rw [hp]
    simp only [Processor.pending, Processor.stalled, hnmi, Bool.or_true]
  · rw [hp]
    exact congrArg (· + 3) hcycles
  · refine haccess.trans ?_
    decide +kernel

end Board

end Mos6502
