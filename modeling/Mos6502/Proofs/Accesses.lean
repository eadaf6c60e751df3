import Mathlib.Data.List.DropRight
import Mos6502.Proofs.Board
import Mos6502.Proofs.Clock

/-!
# One access per cycle

A tick either reports a refusal, and then it leaves the bus and the count of cycles alone, or it
makes exactly one access and counts it (`tick_counts`).  On a recorded bus this ties `cycles` to the
length of the record: since the last reset both have grown by the same number (`cycles_after`).
-/

universe u

namespace Mos6502

namespace Processor

variable {β : Type u} [Bus β]

/-! ## The count of cycles -/

theorem cycles_fetched (p : Processor) (opcode : Byte) :
    (p.fetched opcode).processor.cycles = p.cycles := by
  obtain ⟨events, h | h⟩ := p.fetched_cases opcode
  · rw [h]
  · rw [h]

theorem cycles_complete (p : Processor) (prefetched : Option Byte) :
    (p.complete prefetched).processor.cycles = p.cycles := by
  cases prefetched with
  | none => rfl
  | some opcode =>
      rcases p.complete_cases opcode with h | h
      · rw [h]
      · rw [h]

theorem cycles_enter (p : Processor) (source : Interrupt) :
    (p.enter source).processor.cycles = p.cycles := by
  cases source <;> rfl

/-- A tick with no refusal to report counts one cycle. -/
theorem cycles_tick {p : Processor} (h : p.refusal = none) (bus : β) :
    (p.tick bus).1.processor.cycles = p.cycles + 1 := by
  have ht := p.ticks bus
  generalize p.tick bus = t at ht ⊢
  cases ht with
  | reported hr =>
      rw [h] at hr
      cases hr
  | entered => exact cycles_enter p.counted _
  | fetched => exact cycles_fetched p.counted _
  | advanced => rfl
  | ended | branched => exact cycles_complete _ _

/-- A tick with no refusal to report adds its one access to a record. -/
theorem tick_recorder {p : Processor} (h : p.refusal = none) (r : Recorder β) :
    p.tick r =
      ((p.tick r.bus).1, ⟨(p.tick r.bus).2, r.accesses.push (p.cycle.access r.bus)⟩) := by
  rw [tick_of_none h, tick_of_none h]
  exact Recorder.run_eq p.cycle r

end Processor

namespace Board

variable {β : Type u} [Bus β]

/-- The same board without the record. -/
def unrecorded (b : Board (Recorder β)) : Board β := ⟨b.processor, b.bus.bus⟩

/-- How many accesses have been recorded. -/
def made (b : Board (Recorder β)) : Nat := b.bus.accesses.size

theorem unrecorded_act (b : Board (Recorder β)) (a : Act) :
    (b.act a).unrecorded = b.unrecorded.act a := by
  cases a with
  | tick =>
      cases h : b.processor.refusal with
      | none =>
          simp only [act, turn, unrecorded]
          rw [Processor.tick_recorder h]
      | some e =>
          simp only [act, turn, unrecorded]
          rw [Processor.tick_of_refusal h, Processor.tick_of_refusal h]
  | interrupt | nmi | reset | setPc => rfl

/-- Recording changes nothing. -/
theorem unrecorded_after (b : Board (Recorder β)) (acts : List Act) :
    (b.after acts).unrecorded = b.unrecorded.after acts := by
  induction acts generalizing b with
  | nil => rfl
  | cons a acts ih =>
      rw [after_cons, after_cons, ih (b.act a), unrecorded_act]

/-- A record takes down what the script of a tick does. -/
theorem accesses_act_tick (b : Board (Recorder β)) :
    (b.act .tick).bus.accesses =
      b.bus.accesses ++ ((Clock.tick b.processor).trace b.bus.bus).toArray := by
  rw [act, ← Clock.run_tick, Script.run_recorder]

/-- What a tick is worth in cycles and in accesses. -/
theorem tick_counts (b : Board (Recorder β)) :
    (b.processor.refusal = none ∧ (Clock.tick b.processor).count b.bus = 1 ∧
        (∃ access, (b.act .tick).bus.accesses = b.bus.accesses.push access) ∧
        (b.act .tick).processor.cycles = b.processor.cycles + 1) ∨
      ∃ e, b.processor.refusal = some e ∧ b.turn.outcome = .refused e ∧
        (Clock.tick b.processor).count b.bus = 0 ∧
        (b.act .tick).bus = b.bus ∧
        (b.act .tick).processor.cycles = b.processor.cycles := by
  have hcount : (Clock.tick b.processor).count b.bus = _ :=
    ((Clock.tick b.processor).length_trace b.bus).symm.trans (Clock.length_trace_tick _ _)
  have hlength := Clock.length_trace_tick b.processor b.bus.bus
  cases h : b.processor.refusal with
  | none =>
      rw [h] at hcount hlength
      obtain ⟨access, hone⟩ := List.length_eq_one_iff.mp hlength
      refine .inl ⟨rfl, hcount, ⟨access, ?_⟩, Processor.cycles_tick h b.bus⟩
      rw [accesses_act_tick, hone]
      exact Array.push_eq_append.symm
  | some e =>
      have ht := Processor.tick_of_refusal h b.bus
      rw [h] at hcount
      refine .inr ⟨e, rfl, ?_, hcount, ?_, ?_⟩
      · rw [turn, ht]
      · rw [act, ht]
      · rw [act, turn, ht]

/-- Any act but a reset makes as many accesses as it counts cycles. -/
theorem act_counts (b : Board (Recorder β)) {a : Act} (h : a ≠ .reset) :
    ∃ n, (b.act a).made = b.made + n ∧
      (b.act a).processor.cycles = b.processor.cycles + UInt64.ofNat n := by
  -- Everything but a tick is worth nothing.
  have idle : ∀ b' : Board (Recorder β), b'.bus = b.bus →
      b'.processor.cycles = b.processor.cycles →
      ∃ n, b'.made = b.made + n ∧
        b'.processor.cycles = b.processor.cycles + UInt64.ofNat n := by
    intro b' hb hp
    exact ⟨0, congrArg (fun bus => bus.accesses.size) hb, hp.trans (UInt64.add_zero _).symm⟩
  cases a with
  | tick =>
      rcases b.tick_counts with ⟨-, -, ⟨access, hb⟩, hp⟩ | ⟨e, -, -, -, hb, hp⟩
      · refine ⟨1, ?_, hp⟩
        rw [made, hb, Array.size_push]
        rfl
      · exact idle _ hb hp
  | interrupt =>
      refine idle _ rfl ?_
      simp only [act, Processor.interrupt]
      split <;> rfl
  | nmi | setPc => exact idle _ rfl rfl
  | reset => exact absurd rfl h

/-- So does every run without a reset. -/
theorem after_counts (b : Board (Recorder β)) {acts : List Act} (h : ∀ a ∈ acts, a ≠ .reset) :
    ∃ n, (b.after acts).made = b.made + n ∧
      (b.after acts).processor.cycles = b.processor.cycles + UInt64.ofNat n := by
  induction acts generalizing b with
  | nil => exact ⟨0, rfl, (UInt64.add_zero _).symm⟩
  | cons a acts ih =>
      obtain ⟨m, hm, hp⟩ := b.act_counts (h a List.mem_cons_self)
      obtain ⟨n, hn, hq⟩ := ih (b.act a) fun a' ha => h a' (List.mem_cons_of_mem a ha)
      refine ⟨m + n, ?_, ?_⟩
      · rw [after_cons, hn, hm, Nat.add_assoc]
      · rw [after_cons, hq, hp, UInt64.add_assoc, UInt64.ofNat_add]

end Board

/-! ## Since the last reset -/

namespace Act

/-- The acts up to the last reset, that one included; none if there was no reset. -/
def untilReset (past : List Act) : List Act := past.rdropWhile (· != .reset)

/-- The acts after the last reset, or all of them. -/
def sinceReset (past : List Act) : List Act := past.rtakeWhile (· != .reset)

theorem untilReset_append_sinceReset (past : List Act) :
    untilReset past ++ sinceReset past = past :=
  List.rdropWhile_append_rtakeWhile

theorem ne_reset_of_mem_sinceReset (past : List Act) : ∀ a ∈ sinceReset past, a ≠ .reset := by
  intro a h
  simpa using List.mem_rtakeWhile_imp h

/-- What comes before the acts since the last reset ends in that reset. -/
theorem untilReset_eq (past : List Act) :
    untilReset past = [] ∨ ∃ older, untilReset past = older ++ [.reset] := by
  by_cases h : untilReset past = []
  · exact .inl h
  · refine .inr ⟨(untilReset past).dropLast, ?_⟩
    have hl : (untilReset past).getLast h = .reset := by
      have hn := List.rdropWhile_last_not (· != Act.reset) past h
      rwa [bne_iff_ne, not_not] at hn
    rw [← hl]
    exact (List.dropLast_append_getLast h).symm

end Act

namespace Board

variable {β : Type u} [Bus β]

/-- The count of cycles starts from nothing at creation and at every reset. -/
theorem cycles_after_untilReset (regs : Registers) (bus : β) (past : List Act) :
    ((fresh regs bus).after (Act.untilReset past)).processor.cycles = 0 := by
  rcases Act.untilReset_eq past with h | ⟨older, h⟩
  · rw [h]
    rfl
  · rw [h, after_append]
    rfl

/-- **One access per cycle.**  On every run from a fresh processor, each tick comes to what its
script comes to.  Either the script makes exactly one access and one cycle is counted, or a refusal
that was put off is reported, with no access and no cycle.  So the count of cycles is, within its 64
bits, the number of accesses made since the last reset. -/
theorem cycles_after (regs : Registers) (bus : β) :
    let start : Board (Recorder β) := fresh regs ⟨bus, #[]⟩
    (∀ cs, start.calls cs = start.after (start.acts cs)) ∧
      ∀ past : List Act,
        let b := start.after past
        let script := Clock.tick b.processor
        let made := b.made - (start.after (Act.untilReset past)).made
        b.unrecorded = (fresh regs bus).after past ∧
          b.processor.tick b.bus = script.run b.bus ∧
          ((b.processor.refusal = none ∧ script.count b.bus = 1 ∧
              (∃ access, (b.act .tick).bus.accesses = b.bus.accesses.push access) ∧
              (b.act .tick).processor.cycles = b.processor.cycles + 1) ∨
            ∃ e, b.processor.refusal = some e ∧ b.turn.outcome = .refused e ∧
              script.count b.bus = 0 ∧
              (b.act .tick).bus = b.bus ∧
              (b.act .tick).processor.cycles = b.processor.cycles) ∧
          b.processor.cycles.toNat = made % UInt64.size ∧
          (made < UInt64.size → b.processor.cycles.toNat = made) := by
  intro start
  refine ⟨start.calls_eq_after, fun past => ?_⟩
  intro b script made
  obtain ⟨n, hn, hp⟩ := (start.after (Act.untilReset past)).after_counts
    (Act.ne_reset_of_mem_sinceReset past)
  rw [← after_append, Act.untilReset_append_sinceReset] at hn hp
  have hmade : made = n := by
    show b.made - _ = n
    rw [hn, Nat.add_sub_cancel_left]
  have hcycles : b.processor.cycles.toNat = made % UInt64.size := by
    rw [hp, cycles_after_untilReset, UInt64.zero_add, hmade]
    exact UInt64.toNat_ofNat'
  refine ⟨unrecorded_after start past, (Clock.run_tick _ _).symm, b.tick_counts, hcycles,
    fun h => ?_⟩
  rw [hcycles, Nat.mod_eq_of_lt h]

end Board

end Mos6502
