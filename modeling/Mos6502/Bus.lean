import Mos6502.Byte

/-!
# The bus

A bus answers one access at a time, and both reading and writing may change what is behind it. A
`Cycle` is one clock of the processor as the bus sees it: exactly one access, and what follows from
the answer.
-/

universe u v

namespace Mos6502

class Bus (β : Type u) where
  read : β → Word → Byte × β
  write : β → Word → Byte → β

/-- An access that has been made, with the byte that went over the bus. -/
inductive Access where
  | read (address : Word) (value : Byte)
  | write (address : Word) (value : Byte)
deriving DecidableEq, Repr

inductive Cycle (α : Type u) where
  | read (address : Word) (next : Byte → α)
  | write (address : Word) (value : Byte) (next : α)

namespace Cycle

variable {α α' : Type u} {β : Type v}

def map (f : α → α') : Cycle α → Cycle α'
  | .read address next => .read address fun value => f (next value)
  | .write address value next => .write address value (f next)

/-- Make the access. -/
def run [Bus β] : Cycle α → β → α × β
  | .read address next, bus =>
    match Bus.read bus address with
    | (value, bus) => (next value, bus)
  | .write address value next, bus => (next, Bus.write bus address value)

/-- The access that `run` makes on a bus. -/
def access [Bus β] : Cycle α → β → Access
  | .read address _, bus => .read address (Bus.read bus address).1
  | .write address value _, _ => .write address value

variable [Bus β]

@[simp] theorem run_read (a : Word) (k : Byte → α) (bus : β) :
    (Cycle.read a k).run bus = (k (Bus.read bus a).1, (Bus.read bus a).2) := rfl

@[simp] theorem run_write (a : Word) (v : Byte) (x : α) (bus : β) :
    (Cycle.write a v x).run bus = (x, Bus.write bus a v) := rfl

@[simp] theorem run_map (f : α → α') (c : Cycle α) (bus : β) :
    (c.map f).run bus = (f (c.run bus).1, (c.run bus).2) := by
  cases c <;> rfl

@[simp] theorem access_map (f : α → α') (c : Cycle α) (bus : β) :
    (c.map f).access bus = c.access bus := by
  cases c <;> rfl

end Cycle

end Mos6502
