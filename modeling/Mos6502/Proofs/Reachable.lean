import Mos6502.Proofs.Requests

/-!
# Processors that come about

A processor is created and then acted upon, each time on whatever bus is there: memory may be
changed between two acts, and the processor may be moved to another bus.  `Reachable` holds of what
comes about in this way, and of nothing else.

What it carries in flight was issued: it is the reset sequence, the entry of a handler, or comes
from an opcode that is executed (`Reachable.issued`).  Together with `Reachable.coherent` this is
all that the theory of longer runs knows of the instruction in flight.
-/

universe u

namespace Mos6502

/-! ## What is taken in flight -/

/-- Something that the processor takes in flight. -/
inductive Sequence.Issued : Sequence → Prop
  | reset : Issued .reset
  | entry (source : Interrupt) : Issued (.entry source)
  | opcode (opcode : Byte) (hu : Opcode.sequence opcode ≠ .unsupported) :
      Issued (Opcode.sequence opcode)

theorem Sequence.Issued.ne_unsupported {s : Sequence} (h : s.Issued) : s ≠ .unsupported := by
  cases h with
  | reset | entry => exact fun he => by cases he
  | opcode opcode hu => exact hu

namespace Processor

/-- Nothing is in flight that has not been issued. -/
def Issues (p : Processor) : Prop := ∀ i, p.inFlight = some i → i.sequence.Issued

theorem Issues.of_idle {p : Processor} (hi : p.inFlight = none) : p.Issues := by
  intro i h
  rw [hi] at h
  cases h

theorem Issues.of_inFlight {p : Processor} {i : Instruction} (hi : p.inFlight = some i)
    (h : i.sequence.Issued) : p.Issues := by
  intro j hj
  rw [hi] at hj
  cases hj
  exact h

theorem Issues.accept {p : Processor} (h : p.Issues) (opcode : Byte) (address : Word) :
    (p.accept opcode address).processor.Issues := by
  by_cases hu : Opcode.sequence opcode = .unsupported
  · rw [accept_of_unsupported (beq_of_eq hu)]
    exact h
  · rw [accept_of_supported (beq_false_of_ne hu)]
    exact .of_inFlight rfl (.opcode opcode hu)

theorem inFlight_complete (p : Processor) (opcode : Byte) :
    (p.complete (some opcode)).processor.inFlight =
      (p.accept opcode (p.regs.pc - 1)).processor.inFlight := by
  rw [complete]
  obtain ⟨outcome, q, events⟩ := p.accept opcode (p.regs.pc - 1)
  cases outcome <;> rfl

theorem Issues.complete {p : Processor} (h : p.Issues) (prefetched : Option Byte) :
    (p.complete prefetched).processor.Issues := by
  cases prefetched with
  | none => exact h
  | some opcode =>
      intro i hi
      rw [inFlight_complete] at hi
      exact h.accept opcode _ i hi

variable {β : Type u} [Bus β]

theorem Issues.tick {p : Processor} (h : p.Issues) (bus : β) :
    (p.tick bus).1.processor.Issues := by
  have ht := p.ticks bus
  generalize p.tick bus = t at ht ⊢
  cases ht with
  | reported => exact h
  | @entered source => exact .of_inFlight (i := .interrupt source) rfl (.entry source)
  | fetched hr hi =>
      exact Issues.accept (p := { p.counted with regs := p.regs.advancePc }) (.of_idle hi) _ _
  | @advanced i q r bus' hr hi hq =>
      exact .of_inFlight (i := { i with progress := q.tick }) rfl (h i hi)
  | ended | branched => exact Issues.complete (.of_idle rfl) _

end Processor

theorem Board.issues_act {β : Type u} [Bus β] (b : Board β) (a : Act) (h : b.processor.Issues) :
    (b.act a).processor.Issues := by
  cases a with
  | tick => exact h.tick b.bus
  | interrupt =>
      simp only [act, Processor.interrupt]
      split <;> exact h
  | nmi | setPc => exact h
  | reset => exact .of_inFlight (i := .reset) rfl .reset

/-! ## Reachable processors -/

namespace Processor

/-- A processor that has been created, and acted upon any number of times, on any buses. -/
inductive Reachable : Processor → Prop
  | created (regs : Registers) : Reachable (.ofRegisters regs)
  | acted {p : Processor} (h : Reachable p) {β : Type} [Bus β] (bus : β) (a : Act) :
      Reachable ((⟨p, bus⟩ : Board β).act a).processor

variable {p : Processor}

theorem Reachable.coherent (h : p.Reachable) : p.Coherent := by
  induction h with
  | created regs => exact coherent_of_idle rfl
  | acted h bus a ih => exact Board.coherent_act ⟨_, bus⟩ a ih

theorem Reachable.issues (h : p.Reachable) : p.Issues := by
  induction h with
  | created regs => exact .of_idle rfl
  | acted h bus a ih => exact Board.issues_act ⟨_, bus⟩ a ih

/-- Whatever is called on a reachable processor leaves it reachable. -/
theorem Reachable.calls {β : Type} [Bus β] {b : Board β} (h : b.processor.Reachable)
    (cs : List Call) : (b.calls cs).processor.Reachable :=
  Board.calls_induction (P := fun b => b.processor.Reachable) (fun b a h => .acted h b.bus a) h cs

end Processor

end Mos6502
