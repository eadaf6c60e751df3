import Mos6502.Memory
import Mos6502.Proofs.Duration

/-!
# What is in flight

What a processor holds between two ticks is accounted for.  An instruction in flight is as it was
decoded from the opcode fetched last, or it is the reset sequence or the entry of a handler, with
nothing but its progress added (`Instruction.Begun`).  Its progress keeps to bounds: of the cycles
it has run and those that are left (`Sequence.left`) there are never more than seven, and so its
counters have room in a byte (`Instruction.InTime`).  A refusal that waits is that of the opcode
fetched last.
-/

universe u

namespace Mos6502

/-! ## The phase of a modification -/

namespace Sequence

/-- A stage that is over, or has not run more than two cycles of a modification. -/
def PhaseLe : Stage → Prop
  | .more q _ => q.phase ≤ 2
  | .done .. | .prefetched .. => True

theorem phaseLe_readModifyWrite (op : ModifyOp) (p : Progress) (r : Registers) :
    (readModifyWrite op p r).Always PhaseLe := by
  unfold readModifyWrite
  split
  · next h => exact fun _ => by simp [PhaseLe, Progress.keep, h]
  · next h => simp [PhaseLe, Progress.keep, h]
  · exact trivial

/-- The last cycle of a modification is its third, and nothing else counts them. -/
theorem phaseLe_cycle (s : Sequence) {p : Progress} (h : p.phase ≤ 2) (r : Registers) :
    (s.cycle p r).Always PhaseLe := by
  cases s with
  | data mode op => exact always_atTarget (fun _ _ => h) fun _ _ _ => trivial
  | store mode op => exact always_atTarget (fun _ _ => h) fun _ _ => trivial
  | modify mode op => exact always_atTarget (fun _ _ => h) fun _ _ => phaseLe_readModifyWrite op _ _
  | branch condition =>
      simp only [cycle, branchOn]
      split
      · exact fun _ => h
      · refine fun _ => ?_
        split <;> first | exact h | trivial
      · refine fun _ => ?_
        split <;> first | exact h | trivial
      · exact fun _ => trivial
  | accumulator | register => exact fun _ => trivial
  | jam | unsupported => exact fun _ => h
  | _ =>
      simp only [cycle, forceBreak, interrupt, start, call, returnFromCall, returnFromInterrupt,
        jump, jumpIndirect, pushByte, pullByte]
      split <;> simp [push, vectorLow, vectorHigh, PhaseLe, Progress.keep, Progress.setAddress, h]

end Sequence

/-! ## Instructions in flight -/

namespace Instruction

/-- An instruction as the processor takes it in flight, but for its progress: decoded from an
opcode, or one of the sequences that have none. -/
inductive Begun (opcode : Byte) : Instruction → Prop
  | decoded (q : Progress) (hu : Opcode.sequence opcode ≠ .unsupported) :
      Begun opcode { decode opcode with progress := q }
  | reset (q : Progress) : Begun opcode { reset with progress := q }
  | entry (source : Interrupt) (q : Progress) :
      Begun opcode { interrupt source with progress := q }

variable {i : Instruction} {opcode : Byte}

theorem Begun.goes_on (h : i.Begun opcode) (q : Progress) :
    ({ i with progress := q } : Instruction).Begun opcode := by
  cases h with
  | decoded _ hu => exact .decoded q hu
  | reset => exact .reset q
  | entry source => exact .entry source q

theorem Begun.prefetched (h : i.Begun opcode) : i.prefetched = none := by
  cases h <;> rfl

theorem Begun.issued (h : i.Begun opcode) : i.sequence.Issued := by
  cases h with
  | decoded _ hu => exact .opcode opcode hu
  | reset => exact .reset
  | entry source => exact .entry source

/-- The counters of an instruction are within their bounds.  A lock-up goes on for ever, and its
count of cycles stops. -/
structure InTime (i : Instruction) : Prop where
  started : 1 ≤ i.cycle
  /-- No instruction has more than seven cycles behind its opcode. -/
  ends : i.isJam = false → i.cycle + i.sequence.left i.progress ≤ 7
  phase_le : i.progress.phase ≤ 2
  cycle_le : i.cycle ≤ 0xFF

theorem inTime_first (opcode : Option Byte) (s : Sequence) :
    ({ opcode, sequence := s } : Instruction).InTime where
  started := Nat.le_refl 1
  ends _ := Nat.add_le_add_left (s.left_le (p := {}) (Nat.le_refl 1)) 1
  phase_le := Nat.zero_le 2
  cycle_le := Nat.le_of_ble_eq_true rfl

variable {β : Type u} [Bus β] {r r' : Registers} {bus : β} {q : Progress}

/-- A cycle that does not end an instruction is counted. -/
theorem InTime.cycle_succ (h : i.InTime) (hj : i.isJam = false)
    (hstage : ((i.sequence.cycle i.progress r).run bus).1 = .more q r') :
    q.tick.cycle = i.cycle + 1 := by
  have hq : q.cycle = i.progress.cycle := by
    rcases i.sequence.run_cases i.progress r bus with
      ⟨q', r'', hm, hq⟩ | ⟨_, _, hd, -⟩ | ⟨_, _, _, _, hp, -⟩
    · rw [hm] at hstage
      cases hstage
      exact hq
    · rw [hd] at hstage
      cases hstage
    · rw [hp] at hstage
      cases hstage
  have hends := h.ends hj
  have htick : q.tick.cycle = min (q.cycle + 1) 0xFF := rfl
  have hcycle : i.cycle = i.progress.cycle := rfl
  omega

theorem InTime.goes_on (h : i.InTime) (hu : i.sequence ≠ .unsupported)
    (hstage : ((i.sequence.cycle i.progress r).run bus).1 = .more q r') :
    ({ i with progress := q.tick } : Instruction).InTime where
  started := by
    show 1 ≤ min (q.cycle + 1) 0xFF
    omega
  ends hj := by
    have hnear := (Sequence.nearer_cycle (ne_of_beq_false hj) hu i.progress r).run bus
    rw [hstage] at hnear
    have hless : i.sequence.left q.tick < i.sequence.left i.progress := hnear
    have hsucc : q.tick.cycle = i.cycle + 1 := h.cycle_succ hj hstage
    have hends := h.ends hj
    show q.tick.cycle + i.sequence.left q.tick ≤ 7
    omega
  phase_le := by
    have hphase := (i.sequence.phaseLe_cycle h.phase_le r).run bus
    rwa [hstage] at hphase
  cycle_le := Nat.min_le_right _ _

end Instruction

/-! ## Processors -/

namespace Processor

/-- What a processor holds between two ticks is accounted for. -/
structure WellFormed (p : Processor) : Prop where
  begun : ∀ i, p.inFlight = some i → i.Begun p.opcode
  inTime : ∀ i, p.inFlight = some i → i.InTime
  waiting : ∀ e, p.refusal = some e →
    p.inFlight = none ∧ e.opcode = p.opcode ∧ Opcode.sequence e.opcode = .unsupported

variable {p : Processor}

theorem wellFormed_of_idle (hr : p.refusal = none) (hi : p.inFlight = none) : p.WellFormed where
  begun i h := by rw [hi] at h; cases h
  inTime i h := by rw [hi] at h; cases h
  waiting e h := by rw [hr] at h; cases h

theorem wellFormed_of_inFlight {i : Instruction} (hr : p.refusal = none) (hi : p.inFlight = some i)
    (hb : i.Begun p.opcode) (ht : i.InTime) : p.WellFormed where
  begun j h := by rw [hi] at h; cases h; exact hb
  inTime j h := by rw [hi] at h; cases h; exact ht
  waiting e h := by rw [hr] at h; cases h

theorem WellFormed.refusal_of_inFlight (h : p.WellFormed) {i : Instruction}
    (hi : p.inFlight = some i) : p.refusal = none := by
  cases hr : p.refusal with
  | none => rfl
  | some e =>
      rw [(h.waiting e hr).1] at hi
      cases hi

theorem wellFormed_fetched (hr : p.refusal = none) (hi : p.inFlight = none) (opcode : Byte) :
    (p.fetched opcode).processor.WellFormed := by
  by_cases hu : Opcode.sequence opcode = .unsupported
  · rw [fetched, accept_of_unsupported (beq_of_eq hu)]
    exact wellFormed_of_idle hr hi
  · rw [fetched, accept_of_supported (beq_false_of_ne hu)]
    exact wellFormed_of_inFlight hr rfl (.decoded {} hu) (Instruction.inTime_first _ _)

theorem wellFormed_complete (hr : p.refusal = none) (hi : p.inFlight = none) (opcode : Byte) :
    (p.complete (some opcode)).processor.WellFormed := by
  by_cases hu : Opcode.sequence opcode = .unsupported
  · rw [complete_of_unsupported (beq_of_eq hu)]
    constructor
    · intro i h
      rw [hi] at h
      cases h
    · intro i h
      rw [hi] at h
      cases h
    · rintro e ⟨⟩
      exact ⟨hi, rfl, hu⟩
  · rw [complete_of_supported (beq_false_of_ne hu)]
    exact wellFormed_of_inFlight hr rfl (.decoded {} hu) (Instruction.inTime_first _ _)

variable {β : Type u} [Bus β]

theorem WellFormed.tick (h : p.WellFormed) (bus : β) : (p.tick bus).1.processor.WellFormed := by
  cases hr : p.refusal with
  | some e =>
      rw [tick_of_refusal hr]
      exact wellFormed_of_idle rfl (h.waiting e hr).1
  | none =>
      cases hi : p.inFlight with
      | none =>
          cases hd : p.dueInterrupt with
          | some source =>
              rw [tick_of_due hr hi hd]
              refine wellFormed_of_inFlight (i := .interrupt source) ?_ rfl (.entry source {})
                (Instruction.inTime_first _ _)
              cases source <;> exact hr
          | none =>
              rw [tick_of_fetch hr hi hd]
              exact wellFormed_fetched (p := p.counted) hr hi _
      | some i =>
          have hb := h.begun i hi
          rw [tick_of_inFlight hr hi]
          cases hstage : ((i.sequence.cycle i.progress p.regs).run bus).1 with
          | more q r =>
              exact wellFormed_of_inFlight hr rfl (hb.goes_on q.tick)
                ((h.inTime i hi).goes_on hb.issued.ne_unsupported hstage)
          | done q r =>
              rw [settle_done hb.prefetched]
              exact wellFormed_of_idle hr rfl
          | prefetched q r opcode =>
              rw [settle_prefetched]
              exact wellFormed_complete (p := p.counted.retired r) hr rfl opcode

/-- A tick completes an instruction, or leaves it in flight one cycle further on. -/
theorem WellFormed.tick_of_inFlight (h : p.WellFormed) {i : Instruction} (hi : p.inFlight = some i)
    (hj : i.isJam = false) (bus : β) :
    (p.tick bus).1.outcome = .completed ∨
      ∃ q, (p.tick bus).1.processor.inFlight = some { i with progress := q } ∧
        q.cycle = i.cycle + 1 := by
  rw [Processor.tick_of_inFlight (h.refusal_of_inFlight hi) hi]
  cases hstage : ((i.sequence.cycle i.progress p.regs).run bus).1 with
  | more q r => exact .inr ⟨q.tick, rfl, (h.inTime i hi).cycle_succ hj hstage⟩
  | done q r =>
      rw [settle_done (h.begun i hi).prefetched]
      exact .inl rfl
  | prefetched q r opcode =>
      rw [settle_prefetched]
      exact .inl (outcome_complete _ _)

end Processor

theorem Board.wellFormed_act {β : Type u} [Bus β] (b : Board β) (a : Act)
    (h : b.processor.WellFormed) : (b.act a).processor.WellFormed := by
  cases a with
  | tick => exact h.tick b.bus
  | interrupt =>
      simp only [act, Processor.interrupt]
      split
      · exact h
      · exact ⟨h.begun, h.inTime, h.waiting⟩
  | nmi | setPc => exact ⟨h.begun, h.inTime, h.waiting⟩
  | reset =>
      exact Processor.wellFormed_of_inFlight (i := .reset) rfl rfl (.reset {})
        (Instruction.inTime_first _ _)

theorem Processor.Reachable.wellFormed {p : Processor} (h : p.Reachable) : p.WellFormed := by
  induction h with
  | created regs => exact wellFormed_of_idle rfl rfl
  | acted h bus a ih => exact Board.wellFormed_act ⟨_, bus⟩ a ih

namespace Board

variable {β : Type u} [Bus β]

/-- **What is in flight is as it was decoded, and on time.**  Behind any calls on a reachable
processor, an instruction in flight that has an opcode is that opcode decoded, and the opcode is
executed and is the one fetched last; one without is the reset sequence or the entry of a handler.
It has no opcode to hand over.  Unless it is a lock-up it is on one of seven cycles, the next one
with every tick that does not complete it, and a modification is in one of its three phases.  While
a refusal waits nothing is in flight, and the refusal is that of the opcode fetched last. -/
theorem inFlight_as_decoded {b : Board β} (h : b.processor.Reachable) (cs : List Call) :
    let p := (b.calls cs).processor
    (∀ i, p.inFlight = some i →
      (∀ opcode, i.opcode = some opcode →
          i = { Instruction.decode opcode with progress := i.progress } ∧
            opcode = p.opcode ∧ i.isUnsupported = false) ∧
        i.prefetched = none ∧
        (i.isJam = false →
          1 ≤ i.cycle ∧ i.cycle ≤ 7 ∧ ∀ bus : β, (p.tick bus).1.outcome = .completed ∨
            ∃ q, (p.tick bus).1.processor.inFlight = some { i with progress := q } ∧
              q.cycle = i.cycle + 1) ∧
        i.progress.phase ≤ 2 ∧
        (i.opcode = none →
          i = { Instruction.reset with progress := i.progress } ∨
            ∃ source : Interrupt, i = { Instruction.interrupt source with progress := i.progress } ∧
              (source.vector = 0xFFFA ∨ source.vector = 0xFFFE))) ∧
      ∀ e, p.refusal = some e →
        p.inFlight = none ∧ e.opcode = p.opcode ∧
          (Instruction.decode e.opcode).isUnsupported = true := by
  intro p
  have hp : p.WellFormed := calls_induction wellFormed_act h.wellFormed cs
  refine ⟨fun i hi => ⟨fun opcode ho => ?_, (hp.begun i hi).prefetched, fun hj => ⟨?_, ?_, ?_⟩,
    (hp.inTime i hi).phase_le, fun ho => ?_⟩, fun e he => ?_⟩
  · have hb := hp.begun i hi
    generalize p.opcode = fetched at hb ⊢
    cases hb with
    | decoded q hu =>
        cases ho
        exact ⟨rfl, rfl, beq_false_of_ne hu⟩
    | reset | entry => cases ho
  · exact (hp.inTime i hi).started
  · exact Nat.le_trans (Nat.le_add_right _ _) ((hp.inTime i hi).ends hj)
  · exact hp.tick_of_inFlight hi hj
  · have hb := hp.begun i hi
    generalize p.opcode = fetched at hb
    cases hb with
    | decoded => cases ho
    | reset => exact .inl rfl
    | entry source =>
        refine .inr ⟨source, rfl, ?_⟩
        cases source with
        | nmi => exact .inl rfl
        | irq => exact .inr rfl
  · obtain ⟨hi, ho, hu⟩ := hp.waiting e he
    exact ⟨hi, ho, beq_of_eq hu⟩

/-- About to shift a byte and combine it with the accumulator, through a pointer. -/
def shifting : Board Memory := fresh {} (Memory.zeros.write 0x0000 0x03)

theorem inFlight_as_decoded_shifting :
    shifting.processor.Reachable ∧
      ∃ i, (shifting.calls (List.replicate 7 (.act .tick))).processor.inFlight = some i ∧
        i = { Instruction.decode 0x03 with progress := i.progress } ∧ i.cycle = 7 ∧
        i.progress.phase = 2 ∧
        (shifting.calls (List.replicate 7 (.act .tick))).turn.outcome = .completed := by
  have hp : shifting.processor.Reachable := .created {}
  have hi : ((shifting.calls (List.replicate 7 (.act .tick))).processor.inFlight.map fun i =>
      (i.opcode, i.isJam, i.cycle, i.progress.phase)) = some (some 0x03, false, 7, 2) := by
    decide +kernel
  obtain ⟨i, hi, hfields⟩ := Option.map_eq_some_iff.mp hi
  simp only [Prod.mk.injEq] at hfields
  obtain ⟨ho, hj, hcycle, hphase⟩ := hfields
  obtain ⟨hinFlight, -⟩ := inFlight_as_decoded hp (List.replicate 7 (.act .tick))
  obtain ⟨hdecoded, -, hcounted, -⟩ := hinFlight i hi
  obtain ⟨-, -, htick⟩ := hcounted hj
  refine ⟨hp, i, hi, (hdecoded 0x03 ho).1, hcycle, hphase, ?_⟩
  rcases htick (shifting.calls (List.replicate 7 (.act .tick))).bus with ht | ⟨q, hq, hsucc⟩
  · exact ht
  · -- There is no eighth cycle.
    obtain ⟨hnext, -⟩ := inFlight_as_decoded hp (List.replicate 8 (.act .tick))
    obtain ⟨-, -, hcounted', -⟩ := hnext { i with progress := q } hq
    have hle : q.cycle ≤ 7 := (hcounted' hj).2.1
    omega

end Board

end Mos6502
