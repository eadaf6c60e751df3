import Mos6502.Proofs.Course
import Mos6502.Proofs.Step

/-!
# Steps and courses

A step of the processor runs the course of the instruction in flight to its end, or where nothing is
in flight that of the opcode it fetches or of the entry of a handler (`step_of_inFlight`,
`step_of_fetch`, `step_of_due`).  All it leaves of the cycles in between is their number, which is
that of the accesses.
-/

universe u

namespace Mos6502.Processor

variable {β : Type u} [Bus β] {p : Processor} {bus : β}

/-- The turn at the end of an instruction, some cycles later. -/
def finish (p : Processor) (cycles : UInt64) (e : Ending) : Turn :=
  ({ p with cycles }.retired e.regs).complete e.prefetched

theorem ends_complete (p : Processor) (prefetched : Option Byte) :
    (p.complete prefetched).ends = true := by
  rw [Turn.ends, outcome_complete]
  rfl

/-- The cycles after so many more. -/
def cyclesAfter (p : Processor) (n : Nat) : UInt64 := p.cycles + UInt64.ofNat n

theorem cyclesAfter_succ (p : Processor) (n : Nat) :
    p.cyclesAfter (n + 1) = p.cycles + 1 + UInt64.ofNat n := by
  rw [cyclesAfter, UInt64.ofNat_add, UInt64.add_assoc, UInt64.add_comm 1]
  rfl

/-- An instruction in flight that comes to an end within so many cycles is completed by as many
ticks, one for each access. -/
theorem stepWithin_of_unroll {n : Nat} {i : Instruction} {e : Ending} {bus' : β}
    (hr : p.refusal = none) (hi : p.inFlight = some i) (ht : i.prefetched = none)
    (hj : i.isJam = false)
    (h : (Sequence.unroll i.sequence.cycle n i.progress p.regs).run bus = (some e, bus')) :
    p.stepWithin n bus =
      (p.finish (p.cyclesAfter
        ((Sequence.unroll i.sequence.cycle n i.progress p.regs).count bus)) e, bus') := by
  -- One cycle of the script is one tick; what stays is that nothing is handed over but at the end.
  induction n generalizing p i bus with
  | zero => cases h
  | succ n ih =>
      have htick := tick_of_inFlight hr hi bus
      rw [Sequence.unroll, Script.run_ofCycle] at h
      rw [Sequence.unroll, Script.count_ofCycle, cyclesAfter_succ]
      have hlast : ∀ e, (p.finish (p.cycles + 1) e, bus') =
          (p.finish (p.cycles + 1 + UInt64.ofNat 0) e, bus') := fun e =>
        congrArg (fun cycles => (p.finish cycles e, bus')) (UInt64.add_zero _).symm
      cases hstage : ((i.sequence.cycle i.progress p.regs).run bus).1 with
      | more q r =>
          rw [hstage] at h htick
          rw [settle_more] at htick
          have hends : (p.tick bus).1.ends = false := by
            rw [htick]
            exact hj
          let i' : Instruction := { i with progress := q.tick }
          let bus'' : β := ((i.sequence.cycle i.progress p.regs).run bus).2
          let rest : Script (Option Ending) := Sequence.unroll i.sequence.cycle n q.tick r
          have hrest := ih (p := { p.counted with regs := r, inFlight := some i' }) hr rfl ht hj h
          have hrest' : (p.tick bus).1.processor.stepWithin n (p.tick bus).2 =
              (p.finish (p.cycles + 1 + UInt64.ofNat (rest.count bus'')) e, bus') := by
            rw [htick]
            exact hrest
          refine (stepWithin_of_rest hends hrest').trans ?_
          rw [htick]
          rfl
      | done q r =>
          rw [hstage] at h htick
          rw [settle_done ht] at htick
          cases h
          rw [stepWithin_of_ends (by rw [htick]; rfl), htick]
          exact hlast { regs := r }
      | prefetched q r opcode =>
          rw [hstage] at h htick
          rw [settle_prefetched] at htick
          cases h
          rw [stepWithin_of_ends (by rw [htick]; exact ends_complete _ _), htick]
          exact hlast ⟨r, some opcode⟩

/-! ## What a step comes to -/

theorem step_of_refusal {e : UnsupportedOpcode} (hr : p.refusal = some e) (bus : β) :
    p.step bus = (⟨.refused e, { p with refusal := none }, []⟩, bus) := by
  have htick := tick_of_refusal hr bus
  rw [step, longest, stepWithin_of_ends (by rw [htick]; rfl), htick]

/-- A step executes the instruction whose opcode is in flight already. -/
theorem step_of_inFlight {opcode : Byte} {e : Ending} {bus' : β} (hr : p.refusal = none)
    (hi : p.inFlight = some (.decode opcode)) (hj : Opcode.sequence opcode ≠ .jam)
    (hu : Opcode.sequence opcode ≠ .unsupported)
    (h : ((Opcode.sequence opcode).course p.regs).run bus = (some e, bus')) :
    p.step bus =
      (p.finish (p.cyclesAfter (((Opcode.sequence opcode).course p.regs).count bus)) e, bus') := by
  rw [← Sequence.unroll_cycle hj hu 1] at h ⊢
  exact stepWithin_of_unroll (n := 8) (i := .decode opcode) hr hi rfl (beq_false_of_ne hj) h

/-- Where nothing is in flight and no interrupt is due, a step fetches an opcode and executes it. -/
theorem step_of_fetch {e : Ending} {bus' : β} (bus : β) (hr : p.refusal = none)
    (hi : p.inFlight = none) (hd : p.dueInterrupt = none)
    (hj : Opcode.sequence (Bus.read bus p.regs.pc).1 ≠ .jam)
    (hu : Opcode.sequence (Bus.read bus p.regs.pc).1 ≠ .unsupported)
    (h : ((Opcode.sequence (Bus.read bus p.regs.pc).1).course p.regs.advancePc).run
      (Bus.read bus p.regs.pc).2 = (some e, bus')) :
    ∃ events, p.step bus =
      ({ { p with opcode := (Bus.read bus p.regs.pc).1 }.finish
          (p.cyclesAfter (((Opcode.sequence (Bus.read bus p.regs.pc).1).course
            p.regs.advancePc).count (Bus.read bus p.regs.pc).2 + 1)) e with events }, bus') := by
  let opcode : Byte := (Bus.read bus p.regs.pc).1
  have hsupported : (Instruction.decode opcode).isUnsupported = false := beq_false_of_ne hu
  have hjam : (Instruction.decode opcode).isJam = false := beq_false_of_ne hj
  have htick := tick_of_fetch hr hi hd bus
  rw [fetched, accept_of_supported hsupported] at htick
  rw [← Sequence.unroll_cycle hj hu 0] at h
  rw [← Sequence.unroll_cycle hj hu 0, cyclesAfter_succ]
  have hends : (p.tick bus).1.ends = false := by
    rw [htick]
    exact hjam
  let next : Processor :=
    { p.counted with regs := p.regs.advancePc, opcode, inFlight := some (.decode opcode) }
  have hrest := stepWithin_of_unroll (p := next) hr rfl rfl hjam h
  have hnext : (p.tick bus).1.processor = next := by
    rw [htick]
    rfl
  have hbus : (p.tick bus).2 = (Bus.read bus p.regs.pc).2 := by rw [htick]
  exact ⟨_, stepWithin_of_rest hends (by rw [hnext, hbus]; exact hrest)⟩

/-- Where nothing is in flight and an interrupt is due, a step enters its handler. -/
theorem step_of_due {source : Interrupt} {e : Ending} {bus' : β} (bus : β) (hr : p.refusal = none)
    (hi : p.inFlight = none) (hd : p.dueInterrupt = some source)
    (h : ((Sequence.entry source).course p.regs).run (Bus.read bus p.regs.pc).2 = (some e, bus')) :
    ∃ events, p.step bus =
      ({ (p.acknowledge source).finish
          (p.cyclesAfter (((Sequence.entry source).course p.regs).count
            (Bus.read bus p.regs.pc).2 + 1)) e with events }, bus') := by
  have htick := tick_of_due hr hi hd bus
  rw [← Sequence.unroll_cycle (by simp) (by simp) 0] at h
  rw [← Sequence.unroll_cycle (by simp) (by simp) 0, cyclesAfter_succ]
  have hends : (p.tick bus).1.ends = false := by
    rw [htick]
    rfl
  let next : Processor := (p.counted.enter source).processor
  have hnext : next.refusal = none ∧ next.regs = p.regs ∧ next.cycles = p.cycles + 1 := by
    cases source <;> exact ⟨hr, rfl, rfl⟩
  obtain ⟨hr', hregs, hcycles⟩ := hnext
  rw [← hregs] at h
  have hrest := stepWithin_of_unroll (p := next) (i := .interrupt source) hr' rfl rfl rfl h
  have hfinish : ∀ cycles, next.finish cycles e = (p.acknowledge source).finish cycles e := by
    intro cycles
    cases source <;> rfl
  rw [hfinish, cyclesAfter, hcycles, hregs] at hrest
  exact ⟨_, stepWithin_of_rest hends (by rw [htick]; exact hrest)⟩

/-- Where nothing is in flight and no interrupt is due, a step that fetches a lock-up is over. -/
theorem step_of_fetch_jam (bus : β) (hr : p.refusal = none) (hi : p.inFlight = none)
    (hd : p.dueInterrupt = none) (hj : Opcode.sequence (Bus.read bus p.regs.pc).1 = .jam) :
    ∃ events, p.step bus =
      (⟨.unfinished,
          { p.counted with
            regs := p.regs.advancePc
            opcode := (Bus.read bus p.regs.pc).1
            inFlight := some (.decode (Bus.read bus p.regs.pc).1) }, events⟩,
        (Bus.read bus p.regs.pc).2) := by
  let opcode : Byte := (Bus.read bus p.regs.pc).1
  have hsupported : (Instruction.decode opcode).isUnsupported = false := by
    show (Opcode.sequence opcode == .unsupported) = false
    rw [hj]
    rfl
  have htick := tick_of_fetch hr hi hd bus
  rw [fetched, accept_of_supported hsupported] at htick
  have hends : (p.tick bus).1.ends = true := by
    rw [htick]
    exact beq_of_eq hj
  exact ⟨_, (stepWithin_of_ends hends 7).trans htick⟩

/-- Where nothing is in flight and no interrupt is due, a step that fetches an opcode which is not
executed reports it. -/
theorem step_of_fetch_unsupported (bus : β) (hr : p.refusal = none) (hi : p.inFlight = none)
    (hd : p.dueInterrupt = none) (hu : Opcode.sequence (Bus.read bus p.regs.pc).1 = .unsupported) :
    ∃ events, p.step bus =
      (⟨.refused ⟨p.regs.pc, (Bus.read bus p.regs.pc).1⟩,
          { p.counted with
            regs := p.regs.advancePc
            opcode := (Bus.read bus p.regs.pc).1 }, events⟩,
        (Bus.read bus p.regs.pc).2) := by
  let opcode : Byte := (Bus.read bus p.regs.pc).1
  have hunsupported : (Instruction.decode opcode).isUnsupported = true := beq_of_eq hu
  have htick := tick_of_fetch hr hi hd bus
  rw [fetched, accept_of_unsupported hunsupported] at htick
  have hends : (p.tick bus).1.ends = true := by
    rw [htick]
    rfl
  exact ⟨_, (stepWithin_of_ends hends 7).trans htick⟩

/-- A locked-up processor spends one cycle on a step. -/
theorem step_of_jam {i : Instruction} (hr : p.refusal = none) (hi : p.inFlight = some i)
    (hj : i.sequence = .jam) (bus : β) :
    p.step bus =
      (⟨.unfinished, { p.counted with inFlight := some { i with progress := i.progress.tick } },
          []⟩, (Bus.read bus p.regs.pc).2) := by
  have htick := tick_of_jam hr hi hj bus
  have hends : (p.tick bus).1.ends = true := by
    rw [htick]
    exact beq_of_eq hj
  exact (stepWithin_of_ends hends 7).trans htick

end Mos6502.Processor
