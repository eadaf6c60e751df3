import Mos6502.Bus.Recorder
import Mos6502.Memory
import Mos6502.Proofs.Tick

/-!
# The prefetch of a branch

Every way through a branch ends with the fetch of the opcode behind it.  That fetch is the one the
processor would make by itself if the branch were not there: `tick_branch` and `tick_of_fetch` lead
to the same opcode at the same address, and only differ in when a refusal is reported.
-/

universe u

namespace Mos6502.Processor

variable {β : Type u} [Bus β]

/-- The refusal in an outcome, if it is one. -/
def Outcome.refusal? : Outcome → Option UnsupportedOpcode
  | .refused e => some e
  | _ => none

/-- The processor with nothing in flight. -/
def dropped (p : Processor) : Processor := { p with inFlight := none }

/-- Only a tick with nothing left to report completes an instruction. -/
theorem refusal_of_completed {p : Processor} {bus : β}
    (h : (p.tick bus).1.outcome = .completed) : p.refusal = none := by
  cases hr : p.refusal with
  | none => rfl
  | some e =>
      rw [tick_of_refusal hr] at h
      cases h

/-- The tick that completes a branch fetches the opcode at the program counter, and decodes it as
the one behind the branch. -/
theorem tick_branch {p : Processor} {i : Instruction} {condition : Condition} {bus : β}
    (hi : p.inFlight = some i) (hs : i.sequence = .branch condition)
    (hc : (p.tick bus).1.outcome = .completed) :
    p.tick bus =
      ({ p.counted.dropped with regs := p.regs.advancePc }.complete
        (some (Bus.read bus p.regs.pc).1), (Bus.read bus p.regs.pc).2) := by
  obtain ⟨next, hcycle, hnext⟩ := Sequence.branchOn_spec condition i.progress p.regs
  have ht := tick_of_inFlight (refusal_of_completed hc) hi bus
  rw [hs, show Sequence.cycle (.branch condition) i.progress p.regs = _ from hcycle] at ht
  rcases hnext (Bus.read bus p.regs.pc).1 with ⟨q, r, hmore, -⟩ | hpre
  · rw [Cycle.run_read, hmore, settle_more] at ht
    rw [ht] at hc
    cases hc
  · rw [Cycle.run_read, hpre, settle_prefetched] at ht
    exact ht

/-- What a branch leaves behind, in terms of the plain fetch of the same opcode. -/
theorem complete_eq_fetched {p : Processor} (hr : p.refusal = none) (opcode : Byte) :
    complete { p.dropped with regs := p.regs.advancePc } (some opcode) =
      { p.dropped.fetched opcode with
        outcome := .completed
        processor :=
          { (p.dropped.fetched opcode).processor with
            refusal := (p.dropped.fetched opcode).outcome.refusal? } } := by
  have hpc : p.regs.advancePc.pc - 1 = p.regs.pc := BitVec.add_sub_cancel p.regs.pc 1
  cases h : (Instruction.decode opcode).isUnsupported with
  | true =>
      rw [complete_of_unsupported h, fetched, accept_of_unsupported h]
      simp only [hpc]
      rfl
  | false =>
      rw [complete_of_supported h, fetched, accept_of_supported h]
      simp only [hpc, dropped, Outcome.refusal?, hr]

theorem refusal_fetched (p : Processor) (opcode : Byte) :
    (p.fetched opcode).processor.refusal = p.refusal := by
  obtain ⟨events, h | h⟩ := p.fetched_cases opcode
  · rw [h]
  · rw [h]

/-- **A branch ends like a fetch.**  Where no interrupt is due, the tick that completes a branch and
the one that would fetch if the branch were dropped make the same read, report the same events and
leave the same processor; but a refusal that the fetch reports at once is kept, and the tick after
the branch reports it and does nothing else. -/
theorem tick_of_completed_branch {p : Processor} {i : Instruction} {condition : Condition}
    {bus : Recorder β} (hi : p.inFlight = some i) (hs : i.sequence = .branch condition)
    (hd : p.dueInterrupt = none) (hc : (p.tick bus).1.outcome = .completed) :
    let branch := (p.tick bus).1
    let plain := (p.dropped.tick bus).1
    (p.tick bus).2 = (p.dropped.tick bus).2 ∧
      (p.tick bus).2.accesses =
        bus.accesses.push (.read p.regs.pc (Bus.read bus.bus p.regs.pc).1) ∧
      branch.events = plain.events ∧
      branch.processor = { plain.processor with refusal := plain.outcome.refusal? } ∧
      ((plain.outcome = .unfinished ∧
          ∃ next, branch.processor.inFlight = some next ∧ next.cycle = 1) ∨
        ∃ e, plain.outcome = .refused e ∧
          ∀ bus' : β, branch.processor.tick bus' = (⟨.refused e, plain.processor, []⟩, bus')) := by
  intro branch plain
  have hr : p.refusal = none := refusal_of_completed hc
  let opcode := (Bus.read bus p.regs.pc).1
  have hplain : p.dropped.tick bus =
      (p.counted.dropped.fetched opcode, (Bus.read bus p.regs.pc).2) :=
    tick_of_fetch (p := p.dropped) hr rfl hd bus
  have hbranch : p.tick bus = (_, (Bus.read bus p.regs.pc).2) :=
    (tick_branch hi hs hc).trans
      (congrArg (·, _) (complete_eq_fetched (p := p.counted) hr opcode))
  have hb : branch = _ := congrArg Prod.fst hbranch
  have hp : plain = p.counted.dropped.fetched opcode := congrArg Prod.fst hplain
  have hproc : branch.processor = { plain.processor with refusal := plain.outcome.refusal? } := by
    rw [hb, hp]
  refine ⟨by rw [hbranch, hplain], by rw [hbranch]; rfl, by rw [hb, hp], hproc, ?_⟩
  obtain ⟨events, hf | hf⟩ := p.counted.dropped.fetched_cases opcode
  · have hpe : plain.outcome = .refused ⟨p.regs.pc, opcode⟩ := by rw [hp, hf]; rfl
    have hpr : plain.processor.refusal = none := by rw [hp, refusal_fetched]; exact hr
    have hwait : branch.processor.refusal = some ⟨p.regs.pc, opcode⟩ := by rw [hproc, hpe]; rfl
    refine .inr ⟨_, hpe, fun bus' => ?_⟩
    rw [tick_of_refusal hwait, hproc, ← hpr]
  · refine .inl ⟨by rw [hp, hf], .decode opcode, ?_, rfl⟩
    rw [hproc, hp, hf]

/-- A branch on its last cycle. -/
def endingBranch : Processor where
  regs := { pc := 0x0002 }
  inFlight := some { Instruction.decode 0xD0 with progress := { cycle := 4 } }

/-- The opcode behind that branch is refused. -/
def refusedBehind : Recorder Memory := { bus := Memory.zeros.write 0x0002 0x8B }

theorem tick_of_completed_branch_refusedBehind :
    endingBranch.dueInterrupt = none ∧
      (endingBranch.tick refusedBehind).1.outcome = .completed ∧
      (endingBranch.dropped.tick refusedBehind).1.outcome = .refused ⟨0x0002, 0x8B⟩ ∧
      (endingBranch.tick refusedBehind).1.processor =
        { (endingBranch.dropped.tick refusedBehind).1.processor with
          refusal := some ⟨0x0002, 0x8B⟩ } := by
  have hc : (endingBranch.tick refusedBehind).1.outcome = .completed := by decide +kernel
  have hp : (endingBranch.dropped.tick refusedBehind).1.outcome = .refused ⟨0x0002, 0x8B⟩ := by
    decide +kernel
  obtain ⟨-, -, -, hproc, -⟩ := tick_of_completed_branch (p := endingBranch) rfl rfl rfl hc
  refine ⟨rfl, hc, hp, ?_⟩
  rw [hproc, hp]
  rfl

end Mos6502.Processor
