import Mos6502.Machine
import Mos6502.Proofs.Duration
import Mos6502.Proofs.Prefetch
import Mos6502.Proofs.Refinement

/-!
# Jumps between two steps

A jump moves the program counter and nothing else, and so does starting a machine at an address.
Where nothing has been fetched ahead, the processor goes on there (`GoesOn`).  A branch has fetched
the opcode behind it, and a jump does not take that back (`HoldsOpcode`): the instruction of that
opcode is executed first, with the bytes at the new address for its operand; a lock-up stays one;
and a refusal is reported before the processor goes on (`jump_behind_step`).
-/

universe u

namespace Mos6502

namespace Processor

open InstructionSet (State)

/-! ## Going on at the program counter -/

/-- The next tick fetches the opcode at the program counter, and the next step carries out the
instruction there. -/
structure GoesOn (p : Processor) (m : Memory) : Prop where
  reads : (p.tick (⟨m, #[]⟩ : Recorder Memory)).2.accesses =
    #[.read p.regs.pc (m.read p.regs.pc)]
  fetches : (p.tick m).1.processor.opcode = m.read p.regs.pc
  executes : Matches (p.step m) (InstructionSet.step ⟨p.regs, m⟩)

theorem opcode_fetched (p : Processor) (opcode : Byte) :
    (p.fetched opcode).processor.opcode = opcode := by
  obtain ⟨events, h | h⟩ := p.fetched_cases opcode
  · rw [h]
  · rw [h]

variable {p : Processor} {m : Memory}

theorem goesOn_of_idle (hr : p.refusal = none) (hi : p.inFlight = none) (hq : p.Quiet) :
    p.GoesOn m where
  reads := by
    rw [tick_of_fetch hr hi hq.dueInterrupt]
    rfl
  fetches := by
    rw [tick_of_fetch hr hi hq.dueInterrupt]
    exact opcode_fetched _ _
  executes := matches_of_idle hr hi hq

/-! ## Behind a branch -/

/-- The opcode fetched last has been fetched ahead, and waits to be carried out or to be refused. -/
inductive HoldsOpcode (p : Processor) : Prop
  | decoded (hr : p.refusal = none) (hi : p.inFlight = some (.decode p.opcode))
      (hu : Opcode.sequence p.opcode ≠ .unsupported)
  | refused (e : UnsupportedOpcode) (hr : p.refusal = some e) (he : e.opcode = p.opcode)
      (hi : p.inFlight = none) (hu : Opcode.sequence p.opcode = .unsupported)

theorem holdsOpcode_complete (hr : p.refusal = none) (hi : p.inFlight = none) (opcode : Byte) :
    (p.complete (some opcode)).processor.HoldsOpcode ∧
      (p.complete (some opcode)).processor.opcode = opcode := by
  by_cases hu : Opcode.sequence opcode = .unsupported
  · rw [complete_of_unsupported (beq_of_eq hu)]
    exact ⟨.refused _ rfl rfl hi hu, rfl⟩
  · rw [complete_of_supported (beq_false_of_ne hu)]
    exact ⟨.decoded hr rfl hu, rfl⟩

/-- A jump keeps it. -/
theorem HoldsOpcode.setPc (h : p.HoldsOpcode) (a : Word) : (p.setPc a).HoldsOpcode := by
  cases h with
  | decoded hr hi hu => exact .decoded hr hi hu
  | refused e hr he hi hu => exact .refused e hr he hi hu

/-- The first cycle of an instruction does not fetch the next opcode. -/
theorem opcode_tick_of_decoded {opcode : Byte} (hr : p.refusal = none)
    (hi : p.inFlight = some (.decode opcode)) : (p.tick m).1.processor.opcode = p.opcode := by
  rw [tick_of_inFlight hr hi]
  rcases (Instruction.decode opcode).sequence.run_cases {} p.regs m with
    ⟨q, r, hstage, -⟩ | ⟨q, r, hstage, -⟩ | ⟨q, r, next, c, hstage, hs⟩
  · rw [show (Instruction.decode opcode).progress = {} from rfl, hstage]
    rfl
  · rw [show (Instruction.decode opcode).progress = {} from rfl, hstage, settle_done rfl]
    rfl
  · rw [hs] at hstage
    cases hstage

/-- The opcode that was fetched ahead is dealt with where it is: its instruction is executed with
the operand under the program counter, it locks the processor up, or it is reported before the
processor goes on. -/
structure TakesHeld (p : Processor) (m : Memory) : Prop where
  executes : InstructionSet.isExecuted (Opcode.sequence p.opcode) = true →
    (p.tick m).1.processor.opcode = p.opcode ∧
      Matches (p.step m) (.completed, InstructionSet.execute (Opcode.sequence p.opcode)
        ⟨{ p.regs with pc := p.regs.pc - 1 }, m⟩)
  locksUp : Opcode.sequence p.opcode = .jam →
    p.isHalted = true ∧ (p.step m).1.outcome = .unfinished ∧
      (p.step m).1.processor.regs = p.regs
  reports : Opcode.sequence p.opcode = .unsupported →
    ∃ e : UnsupportedOpcode, e.opcode = p.opcode ∧
      p.tick m = (⟨.refused e, { p with refusal := none }, []⟩, m) ∧
      GoesOn { p with refusal := none } m

theorem HoldsOpcode.takesHeld (h : p.HoldsOpcode) (hq : p.Quiet) (m : Memory) : p.TakesHeld m := by
  cases h with
  | decoded hr hi hu =>
      refine ⟨fun hx => ⟨opcode_tick_of_decoded hr hi, matches_of_inFlight hr hi hx hq⟩,
        fun hj => ?_, fun hu' => absurd hu' hu⟩
      rw [step_of_jam hr hi hj]
      refine ⟨?_, rfl, rfl⟩
      rw [isHalted, hi]
      exact beq_of_eq hj
  | refused e hr he hi hu =>
      constructor
      · intro hx
        exact absurd hu ((InstructionSet.isExecuted_iff _).mp hx).2
      · intro hj
        rw [hu] at hj
        cases hj
      · intro _
        exact ⟨e, he, tick_of_refusal hr m, goesOn_of_idle rfl hi hq⟩

end Processor

namespace Board

variable {β : Type u} [Bus β] {b : Board β}

/-- The tick that completes an instruction leaves nothing behind, or the opcode behind a branch. -/
theorem left_of_completed (h : b.processor.Coherent) (hc : b.turn.outcome = .completed) :
    ∃ i, b.processor.inFlight = some i ∧
      (i.sequence.isBranch = false → (b.act .tick).processor.refusal = none ∧
        (b.act .tick).processor.inFlight = none) ∧
      (i.sequence.isBranch = true → (b.act .tick).processor.HoldsOpcode ∧
        (b.act .tick).processor.opcode = (Bus.read b.bus b.processor.regs.pc).1) := by
  obtain ⟨i, hi, ⟨hs, hidle, hr⟩ | ⟨⟨c, hs⟩, -⟩⟩ := h.tick_of_completed hc
  · refine ⟨i, hi, fun _ => ⟨hr, hidle⟩, fun hb => ?_⟩
    obtain ⟨c, hs'⟩ := Sequence.isBranch_iff.mp hb
    exact absurd hs' (hs c)
  · refine ⟨i, hi, fun hb => ?_, fun _ => ?_⟩
    · rw [hs] at hb
      cases hb
    · have hbranch := Processor.tick_branch hi hs hc
      have hr : b.processor.refusal = none := Processor.refusal_of_completed hc
      let p : Processor := { b.processor.counted.dropped with regs := b.processor.regs.advancePc }
      rw [act, turn, hbranch]
      exact Processor.holdsOpcode_complete (p := p) hr rfl _

/-- **A jump does not take back what a branch has fetched.**  Let a step on a reachable processor
complete an instruction, and no request be pending.  Jumping to an address, or starting a machine
there, moves the program counter.  If the instruction was not a branch, the next tick fetches the
opcode at that address and the next step carries out the instruction there.  Behind a branch the
opcode that it has fetched comes first: its instruction is executed with the bytes at the address
for its operand, or it locks the processor up, or it is reported and the processor goes on at the
address after that. -/
theorem jump_behind_step (h : b.processor.Reachable) (hc : b.reply .step = .outcome .completed)
    (hq : (b.call .step).processor.Quiet) (m : Memory) (a : Word) :
    let p := (b.call .step).processor
    let q := p.setPc a
    (Machine.mk p m).boot (some a) = (.ok (), ⟨q, m⟩, [.starting a]) ∧
      ∃ n i, b.call .step = b.ticked (n + 1) ∧ (b.ticked n).processor.inFlight = some i ∧
        (i.sequence.isBranch = false → q.GoesOn m) ∧
        (i.sequence.isBranch = true → q.TakesHeld m ∧
          q.opcode = (Bus.read (b.ticked n).bus (b.ticked n).processor.regs.pc).1) := by
  intro p q
  obtain ⟨n, hn, hl⟩ := exists_lasts h.coherent h.issues
  obtain ⟨hcall, -, hreply⟩ := step_of_lasts hl hn
  have hcoherent : (b.ticked n).processor.Coherent := after_induction coherent_act h.coherent _
  have hcompleted : (b.ticked n).turn.outcome = .completed :=
    Reply.outcome.inj (hreply.symm.trans hc)
  obtain ⟨i, hi, hplain, hbranch⟩ := left_of_completed hcoherent hcompleted
  have hp : p = ((b.ticked n).act .tick).processor := by
    rw [act_ticked]
    exact congrArg Board.processor hcall
  have hqq : q.Quiet := hq
  rw [← hp] at hplain hbranch
  refine ⟨rfl, n, i, hcall, hi, fun hb => ?_, fun hb => ?_⟩
  · obtain ⟨hr, hidle⟩ := hplain hb
    exact Processor.goesOn_of_idle (p := q) hr hidle hqq
  · obtain ⟨hholds, hopcode⟩ := hbranch hb
    exact ⟨(hholds.setPc a).takesHeld hqq m, hopcode⟩

/-- A branch in front of a load, and an instruction without an operand at `$0300`. -/
def branchToLoad : Board Memory :=
  fresh { pc := 0x0200 }
    (((Memory.zeros.write 0x0200 0xD0).write 0x0202 0xA9).write 0x0300 0xEA)

/-- What a jump behind the branch makes of the processor. -/
def jumpedBehindBranch : Processor := (branchToLoad.call .step).processor.setPc 0x0300

theorem completes_branchToLoad : branchToLoad.reply .step = .outcome .completed := by
  decide +kernel

theorem quiet_branchToLoad : (branchToLoad.call .step).processor.Quiet := by
  constructor <;> decide +kernel

theorem stale_jumpedBehindBranch :
    (jumpedBehindBranch.tick branchToLoad.bus).1.processor.opcode ≠
      branchToLoad.bus.read jumpedBehindBranch.regs.pc := by
  decide +kernel

theorem jump_behind_step_branchToLoad :
    branchToLoad.processor.Reachable ∧ branchToLoad.reply .step = .outcome .completed ∧
      (branchToLoad.call .step).processor.Quiet ∧
      jumpedBehindBranch.opcode = 0xA9 ∧
      (jumpedBehindBranch.step branchToLoad.bus).1.outcome = .completed ∧
      ((jumpedBehindBranch.step branchToLoad.bus).1.processor.state
        (jumpedBehindBranch.step branchToLoad.bus).2).regs.a = 0xEA := by
  have hr : branchToLoad.processor.Reachable := .created _
  have hopcode : jumpedBehindBranch.opcode = 0xA9 := by decide +kernel
  obtain ⟨-, n, i, -, -, hplain, hbranch⟩ :=
    jump_behind_step hr completes_branchToLoad quiet_branchToLoad branchToLoad.bus 0x0300
  cases hb : i.sequence.isBranch with
  | false =>
      have hgoes : jumpedBehindBranch.GoesOn branchToLoad.bus := hplain hb
      exact absurd hgoes.fetches stale_jumpedBehindBranch
  | true =>
      have htakes : jumpedBehindBranch.TakesHeld branchToLoad.bus := (hbranch hb).1
      have hx : InstructionSet.isExecuted (Opcode.sequence jumpedBehindBranch.opcode) = true := by
        rw [hopcode]
        rfl
      obtain ⟨-, hmatches⟩ := htakes.executes hx
      refine ⟨hr, completes_branchToLoad, quiet_branchToLoad, hopcode, hmatches.outcome, ?_⟩
      rw [hmatches.state]
      decide +kernel

/-- So a jump does not always make the processor go on where it leads. -/
theorem not_goesOn_behind_branch :
    branchToLoad.processor.Reachable ∧ branchToLoad.reply .step = .outcome .completed ∧
      (branchToLoad.call .step).processor.Quiet ∧
      ¬ ((branchToLoad.call .step).processor.setPc 0x0300).GoesOn branchToLoad.bus := by
  refine ⟨.created _, completes_branchToLoad, quiet_branchToLoad, fun h => ?_⟩
  have hgoes : jumpedBehindBranch.GoesOn branchToLoad.bus := h
  exact stale_jumpedBehindBranch hgoes.fetches

end Board

end Mos6502
