import Mos6502.Bus

/-!
# A bus that keeps a record

A `Recorder` passes every access on to the bus behind it and notes it down.
-/

universe u v

namespace Mos6502

structure Recorder (β : Type u) where
  bus : β
  /-- The accesses made so far, the oldest first. -/
  accesses : Array Access := #[]

namespace Recorder

variable {α : Type v} {β : Type u} [Bus β]

instance : Bus (Recorder β) where
  read
    | ⟨bus, accesses⟩, address =>
      match Bus.read bus address with
      | (value, bus) => (value, ⟨bus, accesses.push (.read address value)⟩)
  write
    | ⟨bus, accesses⟩, address, value =>
      ⟨Bus.write bus address value, accesses.push (.write address value)⟩

/-- Recording changes nothing, and a cycle adds exactly its one access. -/
theorem run_eq (c : Cycle α) (r : Recorder β) :
    c.run r = ((c.run r.bus).1, ⟨(c.run r.bus).2, r.accesses.push (c.access r.bus)⟩) := by
  cases c <;> rfl

end Recorder

end Mos6502
