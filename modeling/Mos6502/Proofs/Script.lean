import Mos6502.Bus.Recorder

/-!
# Scripts

A `Script` is a finite course of accesses, each of which may depend on what the bus has answered
before.  Unlike a `Cycle` it may make any number of them, or none: how many there are is a property
of a script, and one that holds whatever is answered (`Script.Always`) is put together from those of
its parts (`always_bind`).
-/

universe u

namespace Mos6502

inductive Script (α : Type) where
  | done (result : α)
  | read (address : Word) (next : Byte → Script α)
  | write (address : Word) (value : Byte) (next : Script α)

namespace Script

variable {α α' : Type} {β : Type u}

def bind : Script α → (α → Script α') → Script α'
  | .done x, k => k x
  | .read address next, k => .read address fun value => (next value).bind k
  | .write address value next, k => .write address value (next.bind k)

/-- Make all the accesses. -/
def run [Bus β] : Script α → β → α × β
  | .done x, bus => (x, bus)
  | .read address next, bus => (next (Bus.read bus address).1).run (Bus.read bus address).2
  | .write address value next, bus => next.run (Bus.write bus address value)

/-- How many accesses are made. -/
def count [Bus β] : Script α → β → Nat
  | .done _, _ => 0
  | .read address next, bus =>
    (next (Bus.read bus address).1).count (Bus.read bus address).2 + 1
  | .write address value next, bus => next.count (Bus.write bus address value) + 1

/-- One script behind the other. -/
instance : Monad Script where
  pure := .done
  bind := .bind

/-- Make the access of a cycle, and go on with what follows from the answer. -/
def ofCycle (c : Cycle α) (k : α → Script α') : Script α' :=
  match c with
  | .read address next => .read address fun value => k (next value)
  | .write address value next => .write address value (k next)

variable [Bus β]

@[simp] theorem run_read (a : Word) (next : Byte → Script α) (bus : β) :
    (read a next).run bus = (next (Bus.read bus a).1).run (Bus.read bus a).2 := rfl

@[simp] theorem run_write (a : Word) (v : Byte) (next : Script α) (bus : β) :
    (write a v next).run bus = next.run (Bus.write bus a v) := rfl

@[simp] theorem run_bind (s : Script α) (k : α → Script α') (bus : β) :
    (s.bind k).run bus = (k (s.run bus).1).run (s.run bus).2 := by
  induction s generalizing bus with
  | done x => rfl
  | read address next ih => exact ih _ _
  | write address value next ih => exact ih _

@[simp] theorem run_ofCycle (c : Cycle α) (k : α → Script α') (bus : β) :
    (ofCycle c k).run bus = (k (c.run bus).1).run (c.run bus).2 := by
  cases c <;> rfl

@[simp] theorem count_done (x : α) (bus : β) : (done x).count bus = 0 := rfl

@[simp] theorem count_read (a : Word) (next : Byte → Script α) (bus : β) :
    (read a next).count bus = (next (Bus.read bus a).1).count (Bus.read bus a).2 + 1 := rfl

@[simp] theorem count_write (a : Word) (v : Byte) (next : Script α) (bus : β) :
    (write a v next).count bus = next.count (Bus.write bus a v) + 1 := rfl

@[simp] theorem count_bind (s : Script α) (k : α → Script α') (bus : β) :
    (s.bind k).count bus = s.count bus + (k (s.run bus).1).count (s.run bus).2 := by
  induction s generalizing bus with
  | done x => exact (Nat.zero_add _).symm
  | read address next ih => exact (congrArg Nat.succ (ih _ _)).trans (Nat.succ_add _ _).symm
  | write address value next ih => exact (congrArg Nat.succ (ih _)).trans (Nat.succ_add _ _).symm

@[simp] theorem count_ofCycle (c : Cycle α) (k : α → Script α') (bus : β) :
    (ofCycle c k).count bus = (k (c.run bus).1).count (c.run bus).2 + 1 := by
  cases c <;> rfl

theorem read_congr {a : Word} {next next' : Byte → Script α} (h : ∀ v, next v = next' v) :
    read a next = read a next' :=
  congrArg (read a) (funext h)

theorem write_congr {a : Word} {v : Byte} {next next' : Script α} (h : next = next') :
    write a v next = write a v next' :=
  congrArg (write a v) h

/-! ## The accesses of a script -/

/-- The accesses that are made, the first one first. -/
def trace : Script α → β → List Access
  | .done _, _ => []
  | .read address next, bus =>
    .read address (Bus.read bus address).1 ::
      (next (Bus.read bus address).1).trace (Bus.read bus address).2
  | .write address value next, bus =>
    .write address value :: next.trace (Bus.write bus address value)

/-- A property of the accesses and the result that holds whatever the bus answers. -/
def Always (P : List Access → α → Prop) : Script α → Prop
  | .done x => P [] x
  | .read address next => ∀ value, (next value).Always fun l x => P (.read address value :: l) x
  | .write address value next => next.Always fun l x => P (.write address value :: l) x

@[simp] theorem always_pure {P : List Access → α → Prop} {x : α} :
    (pure x : Script α).Always P ↔ P [] x := Iff.rfl

theorem Always.mono {P Q : List Access → α → Prop} {s : Script α} (hs : s.Always P)
    (h : ∀ l x, P l x → Q l x) : s.Always Q := by
  induction s generalizing P Q with
  | done x => exact h [] x hs
  | read address next ih =>
      intro value
      exact ih value (hs value) fun l x => h _ x
  | write address value next ih => exact ih hs fun l x => h _ x

theorem always_bind {P : List Access → α' → Prop} {s : Script α} {k : α → Script α'} :
    (s.bind k).Always P ↔ s.Always fun l x => (k x).Always fun l' y => P (l ++ l') y := by
  induction s generalizing P with
  | done x => exact Iff.rfl
  | read address next ih => exact forall_congr' fun value => ih value
  | write address value next ih => exact ih

/-- What holds of a script and of all that may follow it. -/
theorem Always.bind {P : List Access → α → Prop} {Q : List Access → α' → Prop} {s : Script α}
    {k : α → Script α'} (hs : s.Always P)
    (h : ∀ l x, P l x → (k x).Always fun l' y => Q (l ++ l') y) : (s.bind k).Always Q :=
  always_bind.mpr (hs.mono h)

theorem Always.run {P : List Access → α → Prop} {s : Script α} (h : s.Always P) (bus : β) :
    P (s.trace bus) (s.run bus).1 := by
  induction s generalizing P bus with
  | done x => exact h
  | read address next ih => exact ih _ (h _) _
  | write address value next ih => exact ih h _

theorem length_trace (s : Script α) (bus : β) : (s.trace bus).length = s.count bus := by
  induction s generalizing bus with
  | done x => rfl
  | read address next ih => exact congrArg (· + 1) (ih _ _)
  | write address value next ih => exact congrArg (· + 1) (ih _)

/-- A record takes down the accesses, and nothing else is changed by it. -/
theorem run_recorder (s : Script α) (r : Recorder β) :
    s.run r = ((s.run r.bus).1, ⟨(s.run r.bus).2, r.accesses ++ (s.trace r.bus).toArray⟩) := by
  induction s generalizing r with
  | done x => simp [Script.run, trace]
  | read address next ih =>
      rw [run_read, ih]
      simp [trace, Bus.read]
  | write address value next ih =>
      rw [run_write, ih]
      simp [trace, Bus.write]

end Script

end Mos6502
