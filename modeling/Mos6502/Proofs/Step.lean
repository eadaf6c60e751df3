import Mos6502.Proofs.Tick

/-!
# Steps as ticks

A step is a first tick and, unless that one ends it, the rest of the step.
-/

universe u

namespace Mos6502.Processor

variable {β : Type u} [Bus β] {p : Processor} {bus : β}

/-- A tick after which a step does not go on. -/
def Turn.ends (t : Turn) : Bool := t.outcome != .unfinished || t.processor.isHalted

theorem stepWithin_of_ends (h : (p.tick bus).1.ends = true) (limit : Nat) :
    p.stepWithin (limit + 1) bus = p.tick bus := by
  rw [stepWithin]
  generalize p.tick bus = t at h
  obtain ⟨⟨outcome, q, events⟩, bus'⟩ := t
  cases outcome with
  | unfinished => exact if_pos h
  | completed => rfl
  | refused e => rfl

theorem stepWithin_of_not_ends (h : (p.tick bus).1.ends = false) (limit : Nat) :
    p.stepWithin (limit + 1) bus =
      let rest := (p.tick bus).1.processor.stepWithin limit (p.tick bus).2
      ({ rest.1 with events := (p.tick bus).1.events ++ rest.1.events }, rest.2) := by
  rw [stepWithin]
  generalize p.tick bus = t at h
  obtain ⟨⟨outcome, q, events⟩, bus'⟩ := t
  cases outcome with
  | unfinished => exact if_neg (Bool.eq_false_iff.mp h)
  | completed => cases h
  | refused e => cases h

/-- A step whose first tick does not end it ends like the rest of it. -/
theorem stepWithin_of_rest {limit : Nat} {t : Turn} {bus' : β} (h : (p.tick bus).1.ends = false)
    (hrest : (p.tick bus).1.processor.stepWithin limit (p.tick bus).2 = (t, bus')) :
    p.stepWithin (limit + 1) bus =
      ({ t with events := (p.tick bus).1.events ++ t.events }, bus') := by
  rw [stepWithin_of_not_ends h, hrest]

end Mos6502.Processor
