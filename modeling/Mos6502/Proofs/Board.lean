import Mos6502.Proofs.Step

/-!
# Runs of a processor on a bus

A run is a list of acts upon a board, which is a processor with its bus.  A tick is one act, and so
is each request from outside; a call of `step` is as many ticks as the step takes
(`calls_eq_after`).  A history keeps every act of a run with the board as the act found it.
-/

universe u

namespace Mos6502

/-- What can be done to a processor, one thing at a time. -/
inductive Act where
  | tick
  | interrupt
  | nmi
  | reset
  | setPc (pc : Word)
deriving DecidableEq, Repr

/-- What can be called on a processor. -/
inductive Call where
  | act (act : Act)
  | step
deriving DecidableEq, Repr

/-- What a call gives back. -/
inductive Reply where
  | outcome (outcome : Processor.Outcome)
  /-- Was the request taken? -/
  | taken (taken : Bool)
  | nothing
deriving DecidableEq, Repr

/-- A processor and the bus it is driven on. -/
@[ext]
structure Board (β : Type u) where
  processor : Processor
  bus : β

/-- An act, with the board it was done on. -/
structure Moment (β : Type u) where
  board : Board β
  act : Act

namespace Board

variable {β : Type u} [Bus β]

/-- A board whose processor has just been created. -/
def fresh (regs : Registers) (bus : β) : Board β := ⟨.ofRegisters regs, bus⟩

/-- What a tick would do. -/
def turn (b : Board β) : Processor.Turn := (b.processor.tick b.bus).1

def act (b : Board β) : Act → Board β
  | .tick => ⟨b.turn.processor, (b.processor.tick b.bus).2⟩
  | .interrupt => { b with processor := b.processor.interrupt.2 }
  | .nmi => { b with processor := b.processor.nmi }
  | .reset => { b with processor := b.processor.reset }
  | .setPc pc => { b with processor := b.processor.setPc pc }

/-- The board at the end of a run. -/
def after (b : Board β) (acts : List Act) : Board β := acts.foldl act b

/-- The acts of a run, the oldest first. -/
def history (b : Board β) : List Act → List (Moment β)
  | [] => []
  | a :: acts => ⟨b, a⟩ :: (b.act a).history acts

@[simp] theorem after_nil (b : Board β) : b.after [] = b := rfl

@[simp] theorem after_cons (b : Board β) (a : Act) (acts : List Act) :
    b.after (a :: acts) = (b.act a).after acts := rfl

theorem after_append (b : Board β) (acts acts' : List Act) :
    b.after (acts ++ acts') = (b.after acts).after acts' :=
  List.foldl_append

@[simp] theorem history_nil (b : Board β) : b.history [] = [] := rfl

@[simp] theorem history_cons (b : Board β) (a : Act) (acts : List Act) :
    b.history (a :: acts) = ⟨b, a⟩ :: (b.act a).history acts := rfl

theorem history_append (b : Board β) (acts acts' : List Act) :
    b.history (acts ++ acts') = b.history acts ++ (b.after acts).history acts' := by
  induction acts generalizing b with
  | nil => rfl
  | cons a acts ih => exact congrArg (⟨b, a⟩ :: ·) (ih (b.act a))

/-- So many ticks. -/
def ticked (b : Board β) (n : Nat) : Board β := b.after (List.replicate n .tick)

@[simp] theorem ticked_zero (b : Board β) : b.ticked 0 = b := rfl

theorem ticked_add (b : Board β) (m n : Nat) : b.ticked (m + n) = (b.ticked m).ticked n := by
  rw [ticked, ← List.replicate_append_replicate, after_append]
  rfl

theorem act_ticked (b : Board β) (n : Nat) : (b.ticked n).act .tick = b.ticked (n + 1) :=
  (b.ticked_add n 1).symm

/-- What every act keeps, every run keeps. -/
theorem after_induction {P : Board β → Prop} (step : ∀ b a, P b → P (b.act a)) {b : Board β}
    (h : P b) (acts : List Act) : P (b.after acts) := by
  induction acts generalizing b with
  | nil => exact h
  | cons a acts ih => exact ih (step b a h)

/-- So does every moment of a run. -/
theorem history_induction {P : Board β → Prop} (step : ∀ b a, P b → P (b.act a)) {b : Board β}
    (h : P b) (acts : List Act) : ∀ m ∈ b.history acts, P m.board := by
  induction acts generalizing b with
  | nil => exact fun m hm => absurd hm List.not_mem_nil
  | cons a acts ih => exact List.forall_mem_cons.mpr ⟨h, ih (step b a h)⟩

/-! ## Calls -/

def call (b : Board β) : Call → Board β
  | .act a => b.act a
  | .step => ⟨(b.processor.step b.bus).1.processor, (b.processor.step b.bus).2⟩

def calls (b : Board β) (cs : List Call) : Board β := cs.foldl call b

/-- How many ticks a step makes. -/
def ticksWithin : Nat → Board β → Nat
  | 0, _ => 0
  | limit + 1, b => if b.turn.ends then 1 else ticksWithin limit (b.act .tick) + 1

/-- The acts that a call comes to. -/
def actsOf (b : Board β) : Call → List Act
  | .act a => [a]
  | .step => List.replicate (b.ticksWithin Processor.longest) .tick

/-- The acts that a run of calls comes to. -/
def acts (b : Board β) : List Call → List Act
  | [] => []
  | c :: cs => b.actsOf c ++ (b.call c).acts cs

theorem stepWithin_eq_after (limit : Nat) (b : Board β) :
    ⟨(b.processor.stepWithin limit b.bus).1.processor, (b.processor.stepWithin limit b.bus).2⟩ =
      b.after (List.replicate (b.ticksWithin limit) .tick) := by
  induction limit generalizing b with
  | zero => rfl
  | succ limit ih =>
      cases h : b.turn.ends with
      | true =>
          rw [Processor.stepWithin_of_ends h, ticksWithin, if_pos h]
          rfl
      | false =>
          rw [Processor.stepWithin_of_not_ends h, ticksWithin, if_neg (Bool.eq_false_iff.mp h)]
          exact ih (b.act .tick)

theorem call_eq_after (b : Board β) (c : Call) : b.call c = b.after (b.actsOf c) := by
  cases c with
  | act a => rfl
  | step => exact stepWithin_eq_after Processor.longest b

/-- A run of calls is the run of the acts they come to. -/
theorem calls_eq_after (b : Board β) (cs : List Call) : b.calls cs = b.after (b.acts cs) := by
  induction cs generalizing b with
  | nil => rfl
  | cons c cs ih =>
      rw [acts, after_append, ← call_eq_after]
      exact ih (b.call c)

/-- What every act keeps, every run of calls keeps. -/
theorem calls_induction {P : Board β → Prop} (step : ∀ b a, P b → P (b.act a)) {b : Board β}
    (h : P b) (cs : List Call) : P (b.calls cs) := by
  rw [calls_eq_after]
  exact after_induction step h (b.acts cs)

/-- So many steps. -/
def stepped (b : Board β) (n : Nat) : Board β := b.calls (List.replicate n .step)

@[simp] theorem stepped_zero (b : Board β) : b.stepped 0 = b := rfl

theorem call_stepped (b : Board β) (n : Nat) : (b.stepped n).call .step = b.stepped (n + 1) := by
  rw [stepped, stepped, List.replicate_succ', calls, calls, List.foldl_append]
  rfl

/-! ## Replies -/

def reply (b : Board β) : Call → Reply
  | .act .tick => .outcome b.turn.outcome
  | .act .interrupt => .taken b.processor.interrupt.1
  | .act _ => .nothing
  | .step => .outcome (b.processor.step b.bus).1.outcome

/-- The replies to a run of calls, one for each. -/
def replies (b : Board β) : List Call → List Reply
  | [] => []
  | c :: cs => b.reply c :: (b.call c).replies cs

end Board

end Mos6502
