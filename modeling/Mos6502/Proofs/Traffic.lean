import Mos6502.Proofs.Accesses
import Mos6502.Proofs.Duration

/-!
# Traffic

What a step does on the bus, access by access.  The course of an instruction says which accesses are
made and what follows from the answers; a property of it that holds whatever is answered
(`Script.Always`) holds of the accesses that a step makes and of what it leaves in the registers
(`performs_of_script`).  The accesses are those that a bus with a record notes down during the step
(`Board.stepAccesses`), and a step makes one with each of its ticks (`length_stepAccesses`).
-/

universe u

namespace Mos6502

/-- A bus that gives these answers to these accesses one after the other, and what becomes of it. -/
inductive Bus.Serves {β : Type u} [Bus β] : β → List Access → β → Prop
  | nil (bus : β) : Serves bus [] bus
  | read {bus bus' : β} {address : Word} {l : List Access}
      (h : Serves (Bus.read bus address).2 l bus') :
      Serves bus (.read address (Bus.read bus address).1 :: l) bus'
  | write {bus bus' : β} {address : Word} {value : Byte} {l : List Access}
      (h : Serves (Bus.write bus address value) l bus') :
      Serves bus (.write address value :: l) bus'

namespace Script

variable {α : Type} {β : Type u}

theorem serves_trace [Bus β] (s : Script α) (bus : β) :
    Bus.Serves bus (s.trace bus) (s.run bus).2 := by
  induction s generalizing bus with
  | done x => exact .nil bus
  | read address next ih => exact .read (ih _ _)
  | write address value next ih => exact .write (ih _)

/-- The script comes to an end, and this holds of the end and of the accesses before it. -/
def Ends (P : List Access → Ending → Prop) (s : Script (Option Ending)) : Prop :=
  s.Always fun l x => ∃ e, x = some e ∧ P l e

/-- The same, where no opcode is fetched ahead. -/
def EndsPlainly (P : List Access → Registers → Prop) (s : Script (Option Ending)) : Prop :=
  s.Always fun l x => ∃ r, x = some { regs := r } ∧ P l r

theorem EndsPlainly.ends {P : List Access → Registers → Prop} {s : Script (Option Ending)}
    (h : s.EndsPlainly P) : s.Ends fun l e => e = { regs := e.regs } ∧ P l e.regs :=
  Always.mono h fun _ _ ⟨_, hx, hr⟩ => ⟨_, hx, rfl, hr⟩

end Script

namespace Board

variable {β : Type u} [Bus β]

/-! ## The accesses of a step -/

/-- The same board with a record of what is done on the bus from here on. -/
def recorded (b : Board β) : Board (Recorder β) := ⟨b.processor, { bus := b.bus }⟩

/-- The accesses that a step makes, the first one first. -/
def stepAccesses (b : Board β) : List Access := (b.recorded.call .step).bus.accesses.toList

theorem turn_unrecorded (b : Board (Recorder β)) : b.unrecorded.turn = b.turn := by
  cases hr : b.processor.refusal with
  | none => rw [turn, turn, Processor.tick_recorder hr, unrecorded]
  | some e =>
      rw [turn, turn, Processor.tick_of_refusal hr, unrecorded, Processor.tick_of_refusal hr]

theorem ticksWithin_unrecorded (limit : Nat) (b : Board (Recorder β)) :
    b.unrecorded.ticksWithin limit = b.ticksWithin limit := by
  induction limit generalizing b with
  | zero => rfl
  | succ limit ih => rw [ticksWithin, ticksWithin, turn_unrecorded, ← unrecorded_act, ih]

/-- With nothing to report, each tick of a step makes one access. -/
theorem made_ticksWithin {b : Board (Recorder β)} (hr : b.processor.refusal = none) (limit : Nat) :
    (b.after (List.replicate (b.ticksWithin limit) .tick)).made = b.made + b.ticksWithin limit := by
  induction limit generalizing b with
  | zero => rfl
  | succ limit ih =>
      have hone : (b.act .tick).made = b.made + 1 := by
        rcases b.tick_counts with ⟨-, -, ⟨access, hb⟩, -⟩ | ⟨e, he, -⟩
        · rw [made, hb, Array.size_push]
          rfl
        · rw [hr] at he
          cases he
      cases hends : b.turn.ends with
      | true =>
          rw [ticksWithin, if_pos hends]
          exact hone
      | false =>
          rw [ticksWithin, if_neg (Bool.eq_false_iff.mp hends), List.replicate_succ, after_cons,
            ih (inFlight_of_not_ends hends).1, hone]
          omega

/-- A step with nothing to report makes one access with each of its ticks. -/
theorem length_stepAccesses {b : Board β} (hr : b.processor.refusal = none) :
    b.actsOf .step = List.replicate b.stepAccesses.length .tick := by
  have hticks : b.ticksWithin Processor.longest = b.recorded.ticksWithin Processor.longest :=
    ticksWithin_unrecorded Processor.longest b.recorded
  have hmade := made_ticksWithin (b := b.recorded) hr Processor.longest
  have hlength : b.stepAccesses.length = b.recorded.ticksWithin Processor.longest := by
    rw [stepAccesses, call_eq_after]
    exact hmade.trans (Nat.zero_add _)
  rw [hlength, ← hticks]
  rfl

/-- A step completes an instruction, makes these accesses and no others, and leaves this
processor. -/
structure Performs (b : Board β) (l : List Access) (p : Processor) : Prop where
  completes : b.reply .step = .outcome .completed
  accesses : b.stepAccesses = l
  served : Bus.Serves b.bus l (b.call .step).bus
  ticks : b.actsOf .step = List.replicate l.length .tick
  processor : (b.call .step).processor = p

/-- The accesses behind the first can be had by running the step. -/
theorem Performs.eq_tail {b : Board β} {a : Access} {l : List Access} {p : Processor}
    (h : b.Performs (a :: l) p) : l = b.stepAccesses.tail := by
  rw [h.accesses, List.tail_cons]

/-- A step that reads a byte at the program counter and then runs a script makes the accesses of the
script, and ends with it. -/
theorem performs_of_script {b : Board β} {v : Byte} {s : Script (Option Ending)} {q : Processor}
    {P : List Access → Ending → Prop} (hr : b.processor.refusal = none)
    (hv : (Bus.read b.bus b.processor.regs.pc).1 = v)
    (hstep : ∀ {β' : Type u} [Bus β'] (bus bus' : β') (e : Ending),
      (Bus.read bus b.processor.regs.pc).1 = v →
      s.run (Bus.read bus b.processor.regs.pc).2 = (some e, bus') →
      ∃ events, b.processor.step bus =
        ({ q.finish (b.processor.cyclesAfter
            (s.count (Bus.read bus b.processor.regs.pc).2 + 1)) e with events }, bus'))
    (h : s.Ends P) :
    ∃ l e, P l e ∧ b.Performs (.read b.processor.regs.pc v :: l)
      (q.finish (b.processor.cyclesAfter (l.length + 1)) e).processor := by
  let bus₁ : β := (Bus.read b.bus b.processor.regs.pc).2
  obtain ⟨e, he, hP⟩ := Script.Always.run h bus₁
  have hrun : s.run bus₁ = (some e, (s.run bus₁).2) := Prod.ext he rfl
  obtain ⟨events, hplain⟩ := hstep b.bus _ e hv hrun
  -- On a bus with a record the same script is run, and the record takes it down.
  have hrun' := s.run_recorder (Bus.read b.recorded.bus b.processor.regs.pc).2
  obtain ⟨events', hrecorded⟩ := hstep b.recorded.bus _ e hv (hrun'.trans (congrArg (·, _) he))
  have haccesses : b.stepAccesses = .read b.processor.regs.pc v :: s.trace bus₁ := by
    have hbus := congrArg (fun t => t.2.accesses.toList) hrecorded
    rw [← hv]
    exact hbus.trans (by simp [recorded, Bus.read, bus₁])
  refine ⟨s.trace bus₁, e, hP, ?_, haccesses, ?_, ?_, ?_⟩
  · rw [reply, hplain]
    exact congrArg Reply.outcome (Processor.outcome_complete _ _)
  · rw [call, hplain, ← hv]
    exact .read (s.serves_trace bus₁)
  · rw [length_stepAccesses hr, haccesses]
  · rw [call, hplain, s.length_trace]

/-! ## Where a step begins with a fetch -/

/-- The opcode that a fetch would read. -/
def upcoming (b : Board β) : Byte := (Bus.read b.bus b.processor.regs.pc).1

end Board

/-- The next opcode has yet to be fetched: nothing is in flight and nothing waits to be reported. -/
structure Processor.Idle (p : Processor) : Prop where
  refusal : p.refusal = none
  inFlight : p.inFlight = none

theorem Processor.finish_of_idle {p : Processor} (hi : p.inFlight = none) (cycles : UInt64)
    (r : Registers) :
    (p.finish cycles { regs := r }).processor = { p with regs := r, cycles } := by
  cases p
  cases hi
  rfl

namespace Board

variable {β : Type u} [Bus β] {b : Board β}

/-- Where no interrupt is due, a step is the fetch of an opcode and its course. -/
theorem performs_of_fetch {P : List Access → Ending → Prop} (hb : b.processor.Idle)
    (hd : b.processor.dueInterrupt = none)
    (h : ((Opcode.sequence b.upcoming).course b.processor.regs.advancePc).Ends P) :
    ∃ l e, P l e ∧ b.Performs (.read b.processor.regs.pc b.upcoming :: l)
      ({ b.processor with opcode := b.upcoming }.finish
        (b.processor.cyclesAfter (l.length + 1)) e).processor := by
  have hends : ¬ (Script.done none).Ends P := by
    rintro ⟨e, he, -⟩
    cases he
  have hj : Opcode.sequence b.upcoming ≠ .jam := fun hs => hends (by rwa [hs] at h)
  have hu : Opcode.sequence b.upcoming ≠ .unsupported := fun hs => hends (by rwa [hs] at h)
  refine performs_of_script hb.refusal rfl ?_ h
  intro β' _ bus bus' e hv hrun
  have hv' : (Bus.read bus b.processor.regs.pc).1 = b.upcoming := hv
  rw [← hv'] at hj hu hrun ⊢
  exact Processor.step_of_fetch bus hb.refusal hb.inFlight hd hj hu hrun

/-- An instruction that fetches no opcode ahead leaves nothing but registers, cycles and opcode. -/
theorem performs_of_fetch_plainly {P : List Access → Registers → Prop} (hb : b.processor.Idle)
    (hd : b.processor.dueInterrupt = none)
    (h : ((Opcode.sequence b.upcoming).course b.processor.regs.advancePc).EndsPlainly P) :
    ∃ l r, P l r ∧ b.Performs (.read b.processor.regs.pc b.upcoming :: l)
      { b.processor with
        regs := r
        opcode := b.upcoming
        cycles := b.processor.cyclesAfter (l.length + 1) } := by
  obtain ⟨l, e, ⟨he, hP⟩, hperforms⟩ := performs_of_fetch hb hd h.ends
  refine ⟨l, e.regs, hP, ?_⟩
  let fetched : Processor := { b.processor with opcode := b.upcoming }
  rw [he, Processor.finish_of_idle (p := fetched) hb.inFlight] at hperforms
  exact hperforms

/-- Where one is due, it is the entry of the handler, behind a read that is dropped. -/
theorem performs_of_due {P : List Access → Registers → Prop} {source : Interrupt}
    (hb : b.processor.Idle) (hd : b.processor.dueInterrupt = some source)
    (h : ((Sequence.entry source).course b.processor.regs).EndsPlainly P) :
    ∃ l r, P l r ∧ b.Performs (.read b.processor.regs.pc b.upcoming :: l)
      { b.processor.acknowledge source with
        regs := r
        cycles := b.processor.cyclesAfter (l.length + 1) } := by
  obtain ⟨l, e, ⟨he, hP⟩, hperforms⟩ := performs_of_script hb.refusal rfl
    (fun bus _ _ _ hrun => Processor.step_of_due bus hb.refusal hb.inFlight hd hrun) h.ends
  have hi : (b.processor.acknowledge source).inFlight = none := by
    cases source <;> exact hb.inFlight
  refine ⟨l, e.regs, hP, ?_⟩
  rw [he, Processor.finish_of_idle hi] at hperforms
  exact hperforms

end Board

end Mos6502
