import Mos6502.CommandLine
import Mos6502.Proofs.Traffic.Control

/-!
# Reset

A reset drops whatever is in flight, requested or waiting to be reported, so what follows does not
depend on where it comes (`reset_leads_to_vector`): seven ticks that only read, the pushes of an
interrupt among them, and then the processor is where the vector points, with interrupts disabled.
Starting a machine without an address is a reset and a step, so it takes just that and cannot fail,
and the program goes on wherever its image could be read.
-/

universe u

namespace Mos6502

/-- The reads of the reset sequence, and the registers after them. -/
inductive ResetReads (r : Registers) : List Access → Registers → Prop
  | all (u v w x y lo hi : Byte) :
      ResetReads r
        [.read r.pc u, .read r.pc v, .read (stackCell r.s) w, .read (stackCell (r.s - 1)) x,
          .read (stackCell (r.s - 2)) y, .read 0xFFFC lo, .read 0xFFFD hi]
        { r with s := r.s - 3, p.interruptDisable := true, pc := Word.ofBytes hi lo }

theorem Sequence.endsPlainly_reset (r : Registers) :
    (Sequence.reset.course r).EndsPlainly (ResetReads r) := by
  intro u v w x y lo hi
  refine ⟨_, rfl, ?_⟩
  rw [Registers.pushed_pushed_pushed, Registers.pushed_pushed, Registers.slot_eq,
    Registers.slot_eq, Registers.slot_eq]
  exact .all u v w x y lo hi

namespace Processor

/-- The processor that a reset leads to: seven cycles on, with nothing in flight, requested or
waiting to be reported. -/
def restarted (p : Processor) (r : Registers) : Processor :=
  { p with
    regs := r
    inFlight := none
    cycles := 7
    nmiLatched := false
    irqRequested := false
    refusal := none }

variable {β : Type u} [Bus β]

/-- The step behind a reset runs its sequence, whatever was in flight before. -/
theorem step_of_reset {p : Processor} {e : Ending} {bus bus' : β}
    (h : (Sequence.reset.course p.regs).run bus = (some e, bus')) :
    p.reset.step bus =
      (p.reset.finish (p.reset.cyclesAfter ((Sequence.reset.course p.regs).count bus)) e,
        bus') := by
  rw [← Sequence.unroll_cycle (by simp) (by simp) 1] at h ⊢
  exact stepWithin_of_unroll (n := 8) (i := .reset) rfl rfl rfl rfl h

end Processor

namespace Board

variable {β : Type u} [Bus β]

/-- While a step goes on its ticks complete nothing, and the last one comes to what the step does.
-/
theorem Lasts.replies {b : Board β} {n : Nat} (h : b.Lasts n) :
    b.replies (List.replicate (n + 1) (.act .tick)) =
      List.replicate n (.outcome .unfinished) ++ [.outcome (b.ticked n).turn.outcome] := by
  induction n generalizing b with
  | zero => rfl
  | succ n ih =>
      obtain ⟨hgoes, hrest⟩ := h.of_succ
      have hfirst : b.turn.outcome = .unfinished := by
        rw [Processor.Turn.ends, Bool.or_eq_false_iff] at hgoes
        exact of_not_not fun hne => absurd hgoes.1 (by simpa using hne)
      rw [List.replicate_succ, Board.replies, reply, hfirst]
      exact congrArg (_ :: ·) (ih hrest)

/-- The step behind a reset makes the reads of its sequence. -/
theorem performs_of_reset (b : Board β) :
    ∃ l r, ResetReads b.processor.regs l r ∧
      (b.act .reset).Performs l (b.processor.restarted r) := by
  let r : Registers := b.processor.regs
  have hreads := Sequence.endsPlainly_reset r (Bus.read b.bus r.pc).1
  obtain ⟨l, e, ⟨he, hl⟩, hp⟩ := performs_of_script (b := b.act .reset) rfl rfl
    (fun _ _ _ _ hrun => ⟨_, Processor.step_of_reset hrun⟩) (Script.EndsPlainly.ends hreads)
  have hcycles : (b.act .reset).processor.cyclesAfter (l.length + 1) = 7 := by
    generalize e.regs = r' at hl
    cases hl
    rfl
  rw [he, hcycles] at hp
  exact ⟨_, _, hl, hp⟩

theorem lasts_of_reset (b : Board β) : (b.act .reset).Lasts 6 := by
  obtain ⟨l, r, hl, hp⟩ := b.performs_of_reset
  have hlength : l.length = 7 := by
    cases hl
    rfl
  obtain ⟨n, hn, hlasts⟩ := exists_lasts_of_inFlight (b := b.act .reset) (i := .reset)
    (by simp [Instruction.reset]) rfl rfl (Nat.le_refl 6)
  obtain ⟨-, hticks, -⟩ := step_of_lasts hlasts (Nat.lt_of_le_of_lt hn (by decide))
  have hn' : n + 1 = 7 := by
    rw [hp.ticks, hlength] at hticks
    simpa using (congrArg List.length hticks).symm
  obtain rfl : n = 6 := Nat.succ.inj hn'
  exact hlasts

end Board

namespace Machine

/-- Starting through the vector is a reset and a step, and the step completes. -/
theorem boot_none (m : Machine) :
    let r := m.processor.regs
    let pc := Word.ofBytes (m.memory.read 0xFFFD) (m.memory.read 0xFFFC)
    m.boot none =
      (.ok (),
        ⟨m.processor.restarted { r with s := r.s - 3, p.interruptDisable := true, pc }, m.memory⟩,
        [.processor (.reset r.pc), .vectored pc]) := by
  intro r pc
  let r' : Registers := { r with s := r.s - 3, p.interruptDisable := true, pc }
  have hregs : { r.pushed.pushed.pushed with p.interruptDisable := true, pc } = r' := by
    rw [Registers.pushed_pushed_pushed]
  have hrun : (Sequence.reset.course r).run m.memory = (some { regs := r' }, m.memory) := by
    rw [← hregs]
    rfl
  rw [boot, Processor.step_of_reset hrun]
  rfl

theorem boot_eq_ok (m : Machine) (start : Option Word) :
    ∃ m' events, m.boot start = (.ok (), m', events) := by
  cases start with
  | none => exact ⟨_, _, m.boot_none⟩
  | some pc => exact ⟨_, _, rfl⟩

end Machine

namespace CommandLine

/-- A machine is made ready if its image could be read, and no start fails. -/
theorem prepare_spec (o : Options) (file : Except String (List Byte)) :
    ((prepare o file).1 = none ↔ ∃ cause, file = .error cause) ∧
      ∀ e, .bootFailed e ∉ (prepare o file).2 := by
  cases file with
  | error cause =>
      have hprepare : prepare o (.error cause) = (none, [.loadFailed ⟨o.program, cause⟩]) := rfl
      simp [hprepare]
  | ok data =>
      let loaded : Machine := { memory := Memory.zeros.put o.loadAddress.toNat data }
      obtain ⟨m, events, hboot⟩ := loaded.boot_eq_ok o.start
      let count : Nat := Memory.room o.loadAddress data.length
      have hload : ({} : Machine).load o.program (.ok data) o.loadAddress =
          (.ok count, loaded, [.loaded count o.program o.loadAddress]) := rfl
      have hprepare : prepare o (.ok data) =
          (some m, (.loaded count o.program o.loadAddress :: events).map .machine) := by
        rw [prepare, hload]
        dsimp only
        rw [hboot]
        rfl
      simp [hprepare]

theorem exitCode_run_ne_zero (o : Options) (file : Except String (List Byte)) (batches : Nat) :
    (run o file batches).exitCode ≠ 0 ↔ (prepare o file).1 = none := by
  rw [run]
  obtain ⟨_ | m, events⟩ := prepare o file
  · exact iff_of_true Nat.one_ne_zero rfl
  · exact iff_of_false (fun h => h rfl) (fun h => by cases h)

end CommandLine

namespace Board

open CommandLine

variable {β : Type u} [Bus β]

/-- **A reset leads to the vector from anywhere.**  On every bus, whatever is in flight, requested
or waiting to be reported, the seven ticks behind a reset make the reads of its sequence and no
write, and the last of them completes it.  Of what was before, the registers are left, with the
stack pointer three lower, interrupts disabled and the program counter where the vector points, and
the opcode fetched last.  So starting a machine through the vector takes these seven ticks and
leaves its memory as it is.  No start fails, and the program ends with an error only if its image
could not be read. -/
theorem reset_leads_to_vector (b : Board β) :
    (∃ l r, ResetReads b.processor.regs l r ∧
      (b.act .reset).Performs l (b.processor.restarted r) ∧
      (b.act .reset).call .step = (b.act .reset).ticked 7 ∧
      (b.act .reset).replies (List.replicate 7 (.act .tick)) =
        List.replicate 6 (.outcome .unfinished) ++ [.outcome .completed]) ∧
      (∀ m : Machine,
        let r := m.processor.regs
        let pc := Word.ofBytes (m.memory.read 0xFFFD) (m.memory.read 0xFFFC)
        m.boot none =
          (.ok (),
            ⟨m.processor.restarted { r with s := r.s - 3, p.interruptDisable := true, pc },
              m.memory⟩,
            [.processor (.reset r.pc), .vectored pc]) ∧
          ((⟨m.processor, m.memory⟩ : Board Memory).act .reset).actsOf .step =
            List.replicate 7 .tick) ∧
      ∀ o file batches, (∀ e, .bootFailed e ∉ (prepare o file).2) ∧
        ((prepare o file).1 = none ↔ ∃ cause, file = .error cause) ∧
        ((run o file batches).exitCode ≠ 0 ↔ ∃ cause, file = .error cause) := by
  refine ⟨?_, fun m => ⟨m.boot_none, ?_⟩, fun o file batches => ?_⟩
  · obtain ⟨l, r, hl, hp⟩ := b.performs_of_reset
    have hlasts := b.lasts_of_reset
    obtain ⟨hcall, -, hreply⟩ := step_of_lasts hlasts (by decide)
    rw [hp.completes] at hreply
    refine ⟨l, r, hl, hp, hcall, ?_⟩
    rw [hlasts.replies, ← hreply]
  · exact (step_of_lasts (lasts_of_reset ⟨m.processor, m.memory⟩) (by decide)).2.1
  · obtain ⟨hnone, hnever⟩ := prepare_spec o file
    exact ⟨hnever, hnone, (exitCode_run_ne_zero o file batches).trans hnone⟩

end Board

end Mos6502
