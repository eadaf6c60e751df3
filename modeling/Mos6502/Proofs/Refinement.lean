import Mos6502.Proofs.Completion
import Mos6502.Proofs.InstructionSet.Execution

/-!
# The processor refines the instruction set

Between two steps the processor stands for a state of the instruction set: its registers and its
memory, with the program counter taken back by one where the opcode under it has been fetched
already.  One step of the processor is then one step of the instruction set, and what holds of the
state on one side holds on the other, through any number of steps.
-/

universe u

namespace Mos6502

namespace Processor

open InstructionSet (State)

/-! ## Boundaries -/

/-- Has the next opcode been fetched already? -/
def ahead (p : Processor) : Bool := p.inFlight.isSome || p.refusal.isSome

/-- The registers with an opcode that was fetched ahead put back. -/
def boundary (p : Processor) : Registers :=
  if p.ahead then { p.regs with pc := p.regs.pc - 1 } else p.regs

/-- The state of the instruction set that a processor stands for. -/
def state (p : Processor) (m : Memory) : State := ⟨p.boundary, m⟩

theorem state_of_idle {p : Processor} (hr : p.refusal = none) (hi : p.inFlight = none)
    (m : Memory) : p.state m = ⟨p.regs, m⟩ := by
  simp [state, boundary, ahead, hr, hi]

theorem state_of_ahead {p : Processor} (h : p.ahead = true) (m : Memory) :
    p.state m = ⟨{ p.regs with pc := p.regs.pc - 1 }, m⟩ := by
  rw [state, boundary, if_pos h]

/-- A processor between two instructions.  An opcode that has been fetched already is the one in
memory. -/
inductive AtBoundary (p : Processor) (m : Memory) : Prop
  | idle (hr : p.refusal = none) (hi : p.inFlight = none)
  | decoded {opcode : Byte} (hr : p.refusal = none) (hi : p.inFlight = some (.decode opcode))
      (hm : m.read (p.regs.pc - 1) = opcode) (hj : Opcode.sequence opcode ≠ .jam)
      (hu : Opcode.sequence opcode ≠ .unsupported)
  | halted {i : Instruction} (hr : p.refusal = none) (hi : p.inFlight = some i)
      (hj : i.sequence = .jam) (hm : Opcode.sequence (m.read (p.regs.pc - 1)) = .jam)
  | refused {opcode : Byte} (hr : p.refusal = some ⟨p.regs.pc - 1, opcode⟩) (hi : p.inFlight = none)
      (hm : m.read (p.regs.pc - 1) = opcode) (hu : Opcode.sequence opcode = .unsupported)

/-- No request is pending. -/
def Quiet (p : Processor) : Prop := p.nmiLatched = false ∧ p.irqRequested = false

theorem Quiet.dueInterrupt {p : Processor} (h : p.Quiet) : p.dueInterrupt = none := by
  obtain ⟨hn, hi⟩ := h
  simp [Processor.dueInterrupt, hn, hi]

theorem advancePc_sub (r : Registers) : { r with pc := r.pc - 1 }.advancePc = r :=
  Registers.ext rfl rfl rfl rfl (BitVec.sub_add_cancel r.pc 1) rfl

/-- A processor that has just been created is at a boundary, whatever is in memory. -/
theorem atBoundary_ofRegisters (r : Registers) (m : Memory) : (ofRegisters r).AtBoundary m :=
  .idle rfl rfl

theorem quiet_ofRegisters (r : Registers) : (ofRegisters r).Quiet := ⟨rfl, rfl⟩

/-- A step of the processor on memory comes to the same as one of the instruction set. -/
structure Matches (turn : Turn × Memory) (result : Outcome × State) : Prop where
  outcome : turn.1.outcome = result.1
  state : turn.1.processor.state turn.2 = result.2
  boundary : turn.1.processor.AtBoundary turn.2
  quiet : turn.1.processor.Quiet

/-! ## The end of an instruction -/

section Finish

variable {p : Processor} (cycles : UInt64) {e : Ending} {m : Memory}

theorem state_finish (hr : p.refusal = none) :
    (p.finish cycles e).processor.state m = ⟨e.boundary, m⟩ := by
  obtain ⟨r, prefetched⟩ := e
  cases prefetched with
  | none => exact state_of_idle (p := { p with cycles }.retired r) hr rfl m
  | some opcode =>
      rw [finish]
      rcases ({ p with cycles }.retired r).complete_cases opcode with h | h
      · rw [h]
        exact state_of_ahead rfl m
      · rw [h]
        exact state_of_ahead rfl m

theorem Quiet.finish (hq : p.Quiet) : (p.finish cycles e).processor.Quiet := by
  obtain ⟨r, prefetched⟩ := e
  cases prefetched with
  | none => exact hq
  | some opcode =>
      rw [Processor.finish]
      rcases ({ p with cycles }.retired r).complete_cases opcode with h | h
      · rw [h]
        exact hq
      · rw [h]
        exact hq

theorem atBoundary_finish (hr : p.refusal = none)
    (hm : ∀ opcode, e.prefetched = some opcode → m.read e.boundary.pc = opcode) :
    (p.finish cycles e).processor.AtBoundary m := by
  obtain ⟨r, prefetched⟩ := e
  cases prefetched with
  | none => exact .idle hr rfl
  | some opcode =>
      have hread : m.read (r.pc - 1) = opcode := hm opcode rfl
      by_cases hu : Opcode.sequence opcode = .unsupported
      · have hunsupported : (Instruction.decode opcode).isUnsupported = true := beq_of_eq hu
        rw [finish, complete_of_unsupported hunsupported]
        exact .refused rfl rfl hread hu
      · have hsupported : (Instruction.decode opcode).isUnsupported = false := beq_false_of_ne hu
        rw [finish, complete_of_supported hsupported]
        by_cases hj : Opcode.sequence opcode = .jam
        · exact .halted hr rfl hj (hread ▸ hj)
        · exact .decoded hr rfl hread hj hu

theorem matches_finish (hr : p.refusal = none) (hq : p.Quiet) {s : State}
    (he : e.boundary = s.regs)
    (hm : ∀ opcode, e.prefetched = some opcode → s.memory.read e.boundary.pc = opcode)
    (events : List Event) :
    Matches ({ p.finish cycles e with events }, s.memory) (.completed, s) where
  outcome := outcome_complete _ _
  state := (state_finish cycles hr).trans (State.ext he rfl)
  boundary := atBoundary_finish cycles hr hm
  quiet := hq.finish cycles

end Finish

end Processor

namespace InstructionSet

/-! ## One step of the instruction set -/

theorem decode_code_zero (s : State) :
    decode (s.code 0) = Opcode.sequence (s.memory.read s.regs.pc) := by
  rw [State.code_zero, ← sequence_eq_decode]

theorem step_of_jam {s : State} (h : Opcode.sequence (s.memory.read s.regs.pc) = .jam) :
    step s = (.unfinished, s) := by
  rw [step, decode_code_zero, h]

theorem step_of_unsupported {s : State}
    (h : Opcode.sequence (s.memory.read s.regs.pc) = .unsupported) :
    step s =
      (.refused ⟨s.regs.pc, s.memory.read s.regs.pc⟩, { s with regs := s.regs.advancePc }) := by
  rw [step, decode_code_zero, h, State.code_zero, ofNat_toNat, State.goto_one]

theorem step_of_executed {s : State}
    (h : isExecuted (Opcode.sequence (s.memory.read s.regs.pc)) = true) :
    step s = (.completed, execute (Opcode.sequence (s.memory.read s.regs.pc)) s) := by
  rw [step, decode_code_zero]
  generalize Opcode.sequence (s.memory.read s.regs.pc) = i at h ⊢
  cases i <;> first | rfl | cases h

end InstructionSet

namespace Processor

open InstructionSet (State)

/-! ## One step on both sides -/

variable {p : Processor} {m : Memory}

/-- Where nothing has been fetched ahead, a step begins with a fetch. -/
theorem matches_of_idle (hr : p.refusal = none) (hi : p.inFlight = none) (hq : p.Quiet) :
    Matches (p.step m) (InstructionSet.step ⟨p.regs, m⟩) := by
  let s : State := ⟨p.regs, m⟩
  rcases InstructionSet.isExecuted_sequence (m.read p.regs.pc) with hj | hu | hx
  · obtain ⟨events, hstep⟩ := step_of_fetch_jam m hr hi hq.dueInterrupt hj
    have hread : m.read (p.regs.advancePc.pc - 1) = m.read p.regs.pc :=
      congrArg m.read (BitVec.add_sub_cancel p.regs.pc 1)
    rw [hstep, InstructionSet.step_of_jam (s := s) hj]
    refine ⟨rfl, (state_of_ahead rfl _).trans (State.ext ?_ rfl), .halted hr rfl hj ?_, hq⟩
    · exact Registers.ext rfl rfl rfl rfl (BitVec.add_sub_cancel p.regs.pc 1) rfl
    · exact (congrArg Opcode.sequence hread).trans hj
  · obtain ⟨events, hstep⟩ := step_of_fetch_unsupported m hr hi hq.dueInterrupt hu
    have hidle := state_of_idle (m := m) (p := { p.counted with
      regs := p.regs.advancePc, opcode := m.read p.regs.pc }) hr hi
    rw [hstep, InstructionSet.step_of_unsupported (s := s) hu]
    exact ⟨rfl, hidle, .idle hr hi, hq⟩
  · obtain ⟨e, hrun, he, hm, -⟩ := InstructionSet.run_course hx s
    obtain ⟨hj, hu⟩ := (InstructionSet.isExecuted_iff _).mp hx
    obtain ⟨events, hstep⟩ := step_of_fetch m hr hi hq.dueInterrupt hj hu hrun
    rw [hstep, InstructionSet.step_of_executed (s := s) hx]
    exact matches_finish (p := { p with opcode := m.read p.regs.pc }) _ hr hq he hm events

/-- An instruction whose opcode is in flight already is executed with the operand under the program
counter, whatever is in memory before that. -/
theorem matches_of_inFlight {opcode : Byte} (hr : p.refusal = none)
    (hi : p.inFlight = some (.decode opcode))
    (hx : InstructionSet.isExecuted (Opcode.sequence opcode) = true) (hq : p.Quiet) :
    Matches (p.step m) (.completed, InstructionSet.execute (Opcode.sequence opcode)
      ⟨{ p.regs with pc := p.regs.pc - 1 }, m⟩) := by
  let s : State := ⟨{ p.regs with pc := p.regs.pc - 1 }, m⟩
  obtain ⟨hj, hu⟩ := (InstructionSet.isExecuted_iff opcode).mp hx
  obtain ⟨e, hrun, he, hmem, -⟩ := InstructionSet.run_course hx s
  rw [show s.regs.advancePc = p.regs from advancePc_sub p.regs] at hrun
  rw [step_of_inFlight hr hi hj hu hrun]
  exact matches_finish _ hr hq he hmem _

/-- One step of the processor is one step of the instruction set. -/
theorem AtBoundary.step (h : p.AtBoundary m) (hq : p.Quiet) :
    Matches (p.step m) (InstructionSet.step (p.state m)) := by
  cases h with
  | idle hr hi =>
      rw [state_of_idle hr hi]
      exact matches_of_idle hr hi hq
  | @decoded opcode hr hi hm hj hu =>
      let s : State := ⟨{ p.regs with pc := p.regs.pc - 1 }, m⟩
      have hx := (InstructionSet.isExecuted_iff opcode).mpr ⟨hj, hu⟩
      have hsequence : Opcode.sequence (s.memory.read s.regs.pc) = Opcode.sequence opcode :=
        congrArg Opcode.sequence hm
      rw [state_of_ahead (by simp [ahead, hi]), InstructionSet.step_of_executed (s := s)
        (hsequence ▸ hx), hsequence]
      exact matches_of_inFlight hr hi hx hq
  | @halted i hr hi hj hm =>
      let s : State := ⟨{ p.regs with pc := p.regs.pc - 1 }, m⟩
      rw [state_of_ahead (by simp [ahead, hi]), step_of_jam hr hi hj,
        InstructionSet.step_of_jam (s := s) hm]
      exact ⟨rfl, state_of_ahead rfl _, .halted hr rfl hj hm, hq⟩
  | @refused opcode hr hi hm hu =>
      let s : State := ⟨{ p.regs with pc := p.regs.pc - 1 }, m⟩
      subst hm
      have hidle := state_of_idle (m := m) (p := { p with refusal := none }) rfl hi
      rw [state_of_ahead (by simp [ahead, hr]), step_of_refusal hr,
        InstructionSet.step_of_unsupported (s := s) hu]
      exact ⟨rfl, hidle.trans (State.ext (advancePc_sub p.regs).symm rfl), .idle rfl hi, hq⟩

/-! ## Any number of steps -/

/-- So many steps of the processor, with what each of them came to. -/
def steps : Nat → Processor → Memory → List Outcome × Processor × Memory
  | 0, p, m => ([], p, m)
  | n + 1, p, m =>
    let (turn, m) := p.step m
    let (outcomes, rest) := steps n turn.processor m
    (turn.outcome :: outcomes, rest)

/-- **The processor refines the instruction set.**  From a boundary with no request pending, any
number of steps of the processor come one by one to what the steps of the instruction set come to,
and lead to the same registers and the same memory, at a boundary again. -/
theorem steps_refine (n : Nat) (h : p.AtBoundary m) (hq : p.Quiet) :
    let result := steps n p m
    result.1 = (InstructionSet.run n (p.state m)).1 ∧
      result.2.1.state result.2.2 = (InstructionSet.run n (p.state m)).2 ∧
      result.2.1.AtBoundary result.2.2 ∧ result.2.1.Quiet := by
  induction n generalizing p m with
  | zero => exact ⟨rfl, rfl, h, hq⟩
  | succ n ih =>
      obtain ⟨houtcome, hstate, hboundary, hquiet⟩ := h.step hq
      obtain ⟨houtcomes, hrest⟩ := ih hboundary hquiet
      rw [hstate] at houtcomes hrest
      exact ⟨congr (congrArg List.cons houtcome) houtcomes, hrest⟩

/-- A call in the stack page, which pushes over the high byte of its own target.  Where it leads,
the carry flag is set, a byte is loaded behind `X` and stored behind `Y`, both of which wrap around,
and of two branches on the flag the second is taken, over a byte and to an opcode that is not
executed.  Behind that there is a lock-up. -/
def callInStack : Memory :=
  ((Memory.zeros.put 0x0010 [0x80]).put 0x0134
    [0x38, 0xB5, 0xF0, 0x99, 0xF0, 0xFF, 0x90, 0x10, 0xB0, 0x01, 0x00, 0x8B, 0x02]).put 0x01FD
      [0x20, 0x34, 0x56]

/-- About to make that call. -/
def calling : Processor := .ofRegisters { x := 0x20, y := 0x30, s := 0xFF, pc := 0x01FD }

theorem steps_refine_callInStack :
    calling.AtBoundary callInStack ∧ calling.Quiet ∧
      (steps 8 calling callInStack).1 =
        [.completed, .completed, .completed, .completed, .completed, .completed,
          .refused ⟨0x013F, 0x8B⟩, .unfinished] ∧
      ((steps 8 calling callInStack).2.1.state (steps 8 calling callInStack).2.2).regs =
        { a := 0x80, x := 0x20, y := 0x30, s := 0xFD, pc := 0x0140,
          p := { carry := true, interruptDisable := true, negative := true } } ∧
      ((steps 8 calling callInStack).2.1.state (steps 8 calling callInStack).2.2).memory.read
        0x0020 = 0x80 := by
  have h : calling.AtBoundary callInStack := atBoundary_ofRegisters _ _
  have hq : calling.Quiet := quiet_ofRegisters _
  obtain ⟨houtcomes, hstate, -⟩ := steps_refine 8 h hq
  refine ⟨h, hq, ?_, ?_, ?_⟩
  · rw [houtcomes]
    decide +kernel
  · rw [hstate]
    decide +kernel
  · rw [hstate]
    decide +kernel

end Processor

end Mos6502
