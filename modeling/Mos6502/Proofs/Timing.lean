import Mathlib.Algebra.GroupWithZero.Nat
import Mos6502.Proofs.Accesses
import Mos6502.Proofs.Duration
import Mos6502.Proofs.Refinement

/-!
# Timing

The cycles of every instruction, as they are documented: a number for each opcode, one more where a
read carries its index into the high byte of an address, and for a branch what its course makes of
it.  A step spends what its course has accesses (`step_of_fetch`, `step_of_inFlight`), so the
numbers of the table are those of the courses (`count_course`), and the cycles of a run are the sum
over its instructions, but for an opcode that a branch has fetched ahead (`cycles_stepped`).
-/

universe u

namespace Mos6502

/-! ## Accesses to an address -/

namespace Sequence

section Locating

variable {β : Type u} [Bus β] (r : Registers) (bus : β)

theorem count_correcting_always (hi lo index : Byte) :
    (correcting .always hi lo index r).count bus = 1 := by
  rw [correcting, if_pos (.inr rfl)]
  rfl

theorem count_correcting_ifCrossed (hi lo index : Byte) :
    (correcting .ifCrossed hi lo index r).count bus =
      (decide (255 < lo.toNat + index.toNat)).toNat := by
  by_cases h : 255 < lo.toNat + index.toNat
  · rw [correcting, if_pos (.inl h), decide_eq_true h]
    rfl
  · rw [correcting, if_neg (by simpa using h), decide_eq_false h]
    rfl

theorem count_locating_always (mode : Mode) :
    (locating .always r mode).count bus = mode.cycles := by
  cases mode with
  | absoluteIndexed =>
      rw [locating, Script.count_read, Script.count_read, count_correcting_always]
      rfl
  | indirectIndexed =>
      rw [locating, Script.count_read, Script.count_read, Script.count_read,
        count_correcting_always]
      rfl
  | _ => rfl

end Locating

/-- Does it save the cycle that corrects an address where no page is crossed? -/
def saves : Sequence → Bool
  | .data (.absoluteIndexed _) _ | .data .indirectIndexed _ => true
  | _ => false

end Sequence

namespace InstructionSet

/-- Does the index carry out of the low byte of the address that is read at? -/
def crosses (i : Sequence) (s : State) : Bool :=
  match i with
  | .data (.absoluteIndexed i) _ => decide (255 < s.code 1 + index i s.regs)
  | .data .indirectIndexed _ => decide (255 < s.peek (s.code 1) + s.regs.y.toNat)
  | _ => false

theorem count_locating_ifCrossed (mode : Mode) (op : DataOp) (s : State) :
    (Sequence.locating .ifCrossed s.regs.advancePc mode).count s.memory +
        (Sequence.data mode op).saves.toNat =
      mode.cycles + (crosses (.data mode op) s).toNat := by
  cases mode with
  | absoluteIndexed index =>
      rw [crosses, State.code_one, ← toNat_index, ← Index.value_advancePc, Sequence.locating,
        Script.count_read, Script.count_read, Sequence.count_correcting_ifCrossed]
      exact Nat.add_comm _ 3
  | indirectIndexed =>
      rw [crosses, State.code_one, State.peek, ← zeroPage_eq, Sequence.locating, Script.count_read,
        Script.count_read, Script.count_read, Sequence.count_correcting_ifCrossed]
      exact Nat.add_comm _ 4
  | _ => rfl

/-! ## Accesses of a course -/

/-- Every instruction but a branch makes as many accesses behind its opcode as it has cycles, less
the one that it saves. -/
theorem count_course {i : Sequence} (hi : isExecuted i = true) (hb : i.isBranch = false) (s : State) :
    (i.course s.regs.advancePc).count s.memory + i.saves.toNat =
      i.left {} + 1 + (crosses i s).toNat := by
  cases i with
  | data mode op =>
      have h := count_locating_ifCrossed mode op s
      have hleft : (Sequence.data mode op).left {} = mode.cycles := rfl
      rw [Sequence.course, Script.count_bind, hleft]
      simp only [Script.ends, Script.count_read, Script.count_done]
      omega
  | store mode op =>
      rw [Sequence.course, Script.count_bind, Sequence.count_locating_always]
      rfl
  | modify mode op =>
      rw [Sequence.course, Script.count_bind, Sequence.count_locating_always]
      rfl
  | branch c => cases hb
  | entry | reset | jam | unsupported => cases hi
  | _ => rfl

/-- Without the carry, a branch comes upon its target if that is in the page behind its operand. -/
theorem near_eq_iff (w : Word) (offset : Byte) :
    Word.ofBytes w.high (w.low + offset) = w + offset.signExtend 16 ↔
      w.toNat / 256 = (w + offset.signExtend 16).toNat / 256 := by
  have hw := w.isLt
  have hoffset := offset.isLt
  have htarget : (w + offset.signExtend 16).toNat =
      (w.toNat + (signed offset.toNat % 65536).toNat) % 65536 := by
    rw [signExtend_eq, BitVec.toNat_add, BitVec.toNat_ofInt]
    rfl
  rw [← BitVec.toNat_inj, Word.toNat_ofBytes, Word.toNat_high, BitVec.toNat_add, Word.toNat_low,
    htarget, signed]
  split <;> omega

/-- Does a branch lead to another page than that of the instruction behind it? -/
def leaves (s : State) : Bool :=
  let target := ((s.pc + 2 + signed (s.code 1)) % 65536).toNat
  decide ((s.pc + 2) % 65536 / 256 ≠ target / 256)

/-- A branch fetches the opcode behind it with its last access, the first one at the right address.
-/
theorem count_branch (condition : Condition) (s : State) :
    (Sequence.course (.branch condition) s.regs.advancePc).count s.memory =
      if taken condition s.regs.p then 3 + (leaves s).toNat else 2 := by
  let r : Registers := s.regs.advancePc.advancePc
  let offset : Byte := s.memory.read s.regs.advancePc.pc
  let near : Word := Word.ofBytes r.pc.high (r.pc.low + offset)
  let target : Word := r.pc + offset.signExtend 16
  have hleaves : leaves s = decide (near ≠ target) := by
    have hnext : (s.pc + 2) % 65536 = r.pc.toNat := congrArg BitVec.toNat (pc_add_two s)
    have htarget : ((s.pc + 2 + signed offset.toNat) % 65536).toNat = target.toNat := by
      have hword := congrArg BitVec.toNat (target_eq s offset)
      rw [BitVec.toNat_ofNat] at hword
      exact (Nat.mod_eq_of_lt (by omega)).symm.trans hword
    rw [leaves, State.code_one, hnext]
    show decide (r.pc.toNat / 256 ≠ ((s.pc + 2 + signed offset.toNat) % 65536).toNat / 256) = _
    rw [htarget]
    exact decide_eq_decide.mpr (not_congr (near_eq_iff r.pc offset).symm)
  have hcount : (Sequence.course (.branch condition) s.regs.advancePc).count s.memory =
      (Sequence.branching condition offset r).count s.memory + 1 := rfl
  rw [hcount, Sequence.branching, Script.count_read, hleaves, ← holds_eq]
  by_cases htaken : condition.holds s.regs.p
  · rw [if_pos (by exact htaken), Script.count_read, if_pos htaken]
    by_cases hnear : near = target
    · rw [if_pos (by exact hnear), decide_eq_false (not_not_intro hnear)]
      rfl
    · rw [if_neg (by exact hnear), decide_eq_true hnear]
      rfl
  · rw [if_neg (by exact htaken), if_neg htaken]
    rfl

/-! ## The table -/

/-- Documented cycles of the opcodes in a row, where no page is crossed.  Branches stand as they run
where no flag is set but that which disables interrupts, and what is not executed has none. -/
def cycleRow : Nat → Vector Nat 16
  | 0x0 => #v[7, 6, 0, 8, 3, 3, 5, 5, 3, 2, 2, 2, 4, 4, 6, 6]
  | 0x1 => #v[3, 5, 0, 8, 4, 4, 6, 6, 2, 4, 2, 7, 4, 4, 7, 7]
  | 0x2 => #v[6, 6, 0, 8, 3, 3, 5, 5, 4, 2, 2, 2, 4, 4, 6, 6]
  | 0x3 => #v[2, 5, 0, 8, 4, 4, 6, 6, 2, 4, 2, 7, 4, 4, 7, 7]
  | 0x4 => #v[6, 6, 0, 8, 3, 3, 5, 5, 3, 2, 2, 2, 3, 4, 6, 6]
  | 0x5 => #v[3, 5, 0, 8, 4, 4, 6, 6, 2, 4, 2, 7, 4, 4, 7, 7]
  | 0x6 => #v[6, 6, 0, 8, 3, 3, 5, 5, 4, 2, 2, 2, 5, 4, 6, 6]
  | 0x7 => #v[2, 5, 0, 8, 4, 4, 6, 6, 2, 4, 2, 7, 4, 4, 7, 7]
  | 0x8 => #v[2, 6, 2, 6, 3, 3, 3, 3, 2, 2, 2, 0, 4, 4, 4, 4]
  | 0x9 => #v[3, 6, 0, 0, 4, 4, 4, 4, 2, 5, 2, 0, 0, 5, 0, 0]
  | 0xA => #v[2, 6, 2, 6, 3, 3, 3, 3, 2, 2, 2, 0, 4, 4, 4, 4]
  | 0xB => #v[2, 5, 0, 5, 4, 4, 4, 4, 2, 4, 2, 4, 4, 4, 4, 4]
  | 0xC => #v[2, 6, 2, 8, 3, 3, 5, 5, 2, 2, 2, 2, 4, 4, 6, 6]
  | 0xD => #v[3, 5, 0, 8, 4, 4, 6, 6, 2, 4, 2, 7, 4, 4, 7, 7]
  | 0xE => #v[2, 6, 2, 8, 3, 3, 5, 5, 2, 2, 2, 2, 4, 4, 6, 6]
  | _ => #v[2, 5, 0, 8, 4, 4, 6, 6, 2, 4, 2, 7, 4, 4, 7, 7]

theorem column_lt (opcode : Byte) : opcode.toNat % 16 < 16 := Nat.mod_lt _ (by decide)

/-- Documented cycles of an opcode, its fetch included. -/
def cycleTable (opcode : Byte) : Nat :=
  have h : opcode.toNat % 16 < 16 := column_lt opcode
  (cycleRow (opcode.toNat / 16))[opcode.toNat % 16]

/-- The table holds what the sequences spend. -/
theorem cycleTable_add_saves (opcode : Byte) :
    isExecuted (Opcode.sequence opcode) = true → (Opcode.sequence opcode).isBranch = false →
      cycleTable opcode + (Opcode.sequence opcode).saves.toNat =
        (Opcode.sequence opcode).left {} + 2 := by
  revert opcode
  decide

/-- Documented cycles of the instruction at the program counter. -/
def cost (s : State) : Nat :=
  let opcode := s.memory.read s.regs.pc
  match Opcode.sequence opcode with
  | .branch condition => if taken condition s.regs.p then 3 + (leaves s).toNat else 2
  | i => cycleTable opcode + (crosses i s).toNat

theorem count_add_one {opcode : Byte} (hx : isExecuted (Opcode.sequence opcode) = true)
    (hb : (Opcode.sequence opcode).isBranch = false) (s : State) :
    ((Opcode.sequence opcode).course s.regs.advancePc).count s.memory + 1 =
      cycleTable opcode + (crosses (Opcode.sequence opcode) s).toNat := by
  have htable := cycleTable_add_saves opcode hx hb
  have hcount := count_course hx hb s
  omega

/-- A branch makes one access more than it has cycles, with which it fetches the next opcode. -/
theorem count_eq_cost (s : State)
    (hx : isExecuted (Opcode.sequence (s.memory.read s.regs.pc)) = true) :
    ((Opcode.sequence (s.memory.read s.regs.pc)).course s.regs.advancePc).count s.memory + 1 =
      cost s + (Opcode.sequence (s.memory.read s.regs.pc)).isBranch.toNat := by
  cases hb : (Opcode.sequence (s.memory.read s.regs.pc)).isBranch with
  | true =>
      obtain ⟨condition, hs⟩ := Sequence.isBranch_iff.mp hb
      rw [cost, hs, count_branch]
      rfl
  | false =>
      rw [count_add_one hx hb, cost]
      cases hs : Opcode.sequence (s.memory.read s.regs.pc) with
      | branch condition =>
          rw [hs] at hb
          cases hb
      | _ => rfl

end InstructionSet

namespace Processor

open InstructionSet (State)

/-! ## One step -/

theorem cycles_finish (p : Processor) (cycles : UInt64) (e : Ending) :
    (p.finish cycles e).processor.cycles = cycles :=
  cycles_complete _ _

theorem ahead_finish {p : Processor} (hr : p.refusal = none) (cycles : UInt64) (e : Ending) :
    (p.finish cycles e).processor.ahead = e.prefetched.isSome := by
  obtain ⟨r, prefetched⟩ := e
  cases prefetched with
  | none => exact congrArg Option.isSome hr
  | some opcode =>
      rw [finish]
      rcases ({ p with cycles }.retired r).complete_cases opcode with h | h
      · rw [h]; rfl
      · rw [h]; rfl

variable {p : Processor} {m : Memory}

/-- A step from a boundary runs the course of the instruction there, with one cycle for the fetch of
the opcode unless that has been fetched already. -/
theorem AtBoundary.step_of_executed (h : p.AtBoundary m)
    (hx : InstructionSet.isExecuted (Opcode.sequence (m.read (p.state m).regs.pc)) = true)
    (hd : p.inFlight = none → p.dueInterrupt = none) {e : Ending} {m' : Memory}
    (hrun : ((Opcode.sequence (m.read (p.state m).regs.pc)).course
      (p.state m).regs.advancePc).run m = (some e, m')) :
    ∃ (q : Processor) (n : Nat) (events : List Event), q.refusal = none ∧
      p.step m = ({ q.finish (p.cyclesAfter n) e with events }, m') ∧
      n + p.ahead.toNat = ((Opcode.sequence (m.read (p.state m).regs.pc)).course
        (p.state m).regs.advancePc).count m + 1 := by
  obtain ⟨hj, hu⟩ := (InstructionSet.isExecuted_iff _).mp hx
  cases h with
  | idle hr hi =>
      rw [state_of_idle hr hi] at hj hu hrun ⊢
      obtain ⟨events, hstep⟩ := step_of_fetch m hr hi (hd hi) hj hu hrun
      exact ⟨{ p with opcode := m.read p.regs.pc }, _, events, hr, hstep, by rw [ahead, hr, hi]; rfl⟩
  | @decoded opcode hr hi hm hj' hu' =>
      rw [state_of_ahead (by simp [ahead, hi])] at hrun ⊢
      subst hm
      rw [advancePc_sub] at hrun ⊢
      exact ⟨p, _, _, hr, step_of_inFlight hr hi hj' hu' hrun, by rw [ahead, hi]; rfl⟩
  | @halted i hr hi hj' hm =>
      rw [state_of_ahead (by simp [ahead, hi])] at hj
      exact absurd hm hj
  | @refused opcode hr hi hm hu' =>
      rw [state_of_ahead (by simp [ahead, hr])] at hu
      subst hm
      exact absurd hu' hu

/-- A step from a boundary executes an instruction in its time, and leads to a boundary.  What has
been fetched ahead has been paid for. -/
theorem AtBoundary.step_cycles (h : p.AtBoundary m)
    (hx : InstructionSet.isExecuted (Opcode.sequence (m.read (p.state m).regs.pc)) = true)
    (hd : p.inFlight = none → p.dueInterrupt = none) :
    (p.step m).1.outcome = .completed ∧ (p.step m).1.processor.AtBoundary (p.step m).2 ∧
      (p.step m).1.processor.cycles + UInt64.ofNat p.ahead.toNat =
        p.cycles +
          UInt64.ofNat (InstructionSet.cost (p.state m) + (p.step m).1.processor.ahead.toNat) := by
  obtain ⟨e, hrun, -, hm, hbranch⟩ := InstructionSet.run_course hx (p.state m)
  obtain ⟨q, n, events, hr, hstep, hn⟩ := h.step_of_executed hx hd hrun
  have hcost := InstructionSet.count_eq_cost (p.state m) hx
  have hahead : (q.finish (p.cyclesAfter n) e).processor.ahead =
      (Opcode.sequence (m.read (p.state m).regs.pc)).isBranch := by
    rw [ahead_finish hr]
    exact Bool.eq_iff_iff.mpr (hbranch.trans Sequence.isBranch_iff.symm)
  rw [hstep]
  refine ⟨outcome_complete _ _, atBoundary_finish (p.cyclesAfter n) hr hm, ?_⟩
  rw [hahead, cycles_finish, cyclesAfter, UInt64.add_assoc, ← UInt64.ofNat_add]
  exact congrArg (fun n => p.cycles + UInt64.ofNat n) (hn.trans hcost)

/-- An instruction other than a branch, whose opcode is fetched by the step. -/
theorem cycles_step_of_fetch {opcode : Byte} (hr : p.refusal = none) (hi : p.inFlight = none)
    (hd : p.dueInterrupt = none) (hm : m.read p.regs.pc = opcode)
    (hx : InstructionSet.isExecuted (Opcode.sequence opcode) = true)
    (hb : (Opcode.sequence opcode).isBranch = false) :
    (p.step m).1.outcome = .completed ∧
      (p.step m).1.processor.cycles = p.cyclesAfter (InstructionSet.cycleTable opcode +
        (InstructionSet.crosses (Opcode.sequence opcode) (p.state m)).toNat) := by
  subst hm
  obtain ⟨hj, hu⟩ := (InstructionSet.isExecuted_iff _).mp hx
  obtain ⟨e, hrun, -⟩ := InstructionSet.run_course hx ⟨p.regs, m⟩
  obtain ⟨events, hstep⟩ := step_of_fetch m hr hi hd hj hu hrun
  rw [state_of_idle hr hi, ← InstructionSet.count_add_one hx hb ⟨p.regs, m⟩, hstep]
  exact ⟨outcome_complete _ _, cycles_finish _ _ _⟩

/-- An instruction other than a branch, whose opcode has been fetched already. -/
theorem cycles_step_of_inFlight {opcode : Byte} (hr : p.refusal = none)
    (hi : p.inFlight = some (.decode opcode))
    (hx : InstructionSet.isExecuted (Opcode.sequence opcode) = true)
    (hb : (Opcode.sequence opcode).isBranch = false) :
    (p.step m).1.outcome = .completed ∧
      (p.step m).1.processor.cycles + 1 = p.cyclesAfter (InstructionSet.cycleTable opcode +
        (InstructionSet.crosses (Opcode.sequence opcode) (p.state m)).toNat) := by
  obtain ⟨hj, hu⟩ := (InstructionSet.isExecuted_iff opcode).mp hx
  let s : State := ⟨{ p.regs with pc := p.regs.pc - 1 }, m⟩
  have hregs : s.regs.advancePc = p.regs := advancePc_sub p.regs
  have hcount := InstructionSet.count_add_one hx hb s
  obtain ⟨e, hrun, -⟩ := InstructionSet.run_course hx s
  rw [hregs] at hrun hcount
  rw [state_of_ahead (by simp [ahead, hi]), ← hcount, step_of_inFlight hr hi hj hu hrun]
  refine ⟨outcome_complete _ _, ?_⟩
  rw [cycles_finish, cyclesAfter, cyclesAfter, UInt64.ofNat_add, UInt64.add_assoc]
  rfl

end Processor

namespace Board

open InstructionSet (State)

variable {b : Board Memory}

/-! ## Runs of steps -/

/-- The state of the instruction set between two steps. -/
def state (b : Board Memory) : State := b.processor.state b.bus

/-- The opcode that the next step executes. -/
def nextOpcode (b : Board Memory) : Byte := b.bus.read b.state.regs.pc

/-- The next step is about to execute an instruction: it meets neither a lock-up nor an opcode that
is not executed, and no interrupt is due. -/
structure Executes (b : Board Memory) : Prop where
  not_jam : Opcode.sequence b.nextOpcode ≠ .jam
  not_unsupported : Opcode.sequence b.nextOpcode ≠ .unsupported
  not_due : b.processor.inFlight = none → b.processor.dueInterrupt = none

theorem Executes.isExecuted (h : b.Executes) :
    InstructionSet.isExecuted (Opcode.sequence b.nextOpcode) = true :=
  (InstructionSet.isExecuted_iff b.nextOpcode).mpr ⟨h.not_jam, h.not_unsupported⟩

/-- The documented cycles of so many steps. -/
def costs (b : Board Memory) (n : Nat) : Nat :=
  ((List.range n).map fun k => InstructionSet.cost (b.stepped k).state).sum

theorem costs_succ (b : Board Memory) (n : Nat) :
    b.costs (n + 1) = b.costs n + InstructionSet.cost (b.stepped n).state := by
  rw [costs, List.range_succ, List.map_append, List.sum_append]
  rfl

/-- Steps from a boundary execute one instruction each, in its time. -/
theorem cycles_stepped (h : b.processor.AtBoundary b.bus) {n : Nat}
    (hn : ∀ k < n, (b.stepped k).Executes) :
    (b.stepped n).processor.AtBoundary (b.stepped n).bus ∧
      (∀ k < n, (b.stepped k).reply .step = .outcome .completed) ∧
      (b.stepped n).processor.cycles + UInt64.ofNat b.processor.ahead.toNat =
        b.processor.cycles +
          UInt64.ofNat (b.costs n + (b.stepped n).processor.ahead.toNat) := by
  induction n with
  | zero => exact ⟨h, fun k hk => absurd hk (Nat.not_lt_zero k), congrArg _ (by simp [costs])⟩
  | succ n ih =>
      obtain ⟨hboundary, hcompleted, hcycles⟩ := ih fun k hk => hn k (Nat.lt_succ_of_lt hk)
      have hnext := hn n (Nat.lt_succ_self n)
      obtain ⟨ho, hb, hc⟩ := hboundary.step_cycles hnext.isExecuted hnext.not_due
      rw [← call_stepped, costs_succ]
      refine ⟨hb, fun k hk => ?_, ?_⟩
      · rcases Nat.lt_succ_iff_lt_or_eq.mp hk with hk | rfl
        · exact hcompleted k hk
        · exact congrArg Reply.outcome ho
      · have hlast : ((b.stepped n).call .step).processor.cycles +
            UInt64.ofNat (b.stepped n).processor.ahead.toNat =
              (b.stepped n).processor.cycles +
                UInt64.ofNat (InstructionSet.cost (b.stepped n).state +
                  ((b.stepped n).call .step).processor.ahead.toNat) := hc
        rw [UInt64.ofNat_add] at hcycles hlast
        rw [UInt64.ofNat_add, UInt64.ofNat_add]
        grind

/-- **Instructions take their documented time.**  On flat memory, with no interrupt due and no
refusal waiting, an instruction takes the cycles of the table, and one more if it reads and its
index carries; one less is left if its opcode has been fetched already.  A run of steps takes the
sum over its instructions, with two, three or four cycles for a branch, and one more for an opcode
that the last branch has fetched. -/
theorem documented_cycles {b : Board Memory} (hr : b.processor.refusal = none) :
    let p := b.processor
    (∀ opcode : Byte, Opcode.sequence opcode ≠ .jam → Opcode.sequence opcode ≠ .unsupported →
      (Opcode.sequence opcode).isBranch = false →
      let cycles := InstructionSet.cycleTable opcode +
        (InstructionSet.crosses (Opcode.sequence opcode) b.state).toNat
      (p.inFlight = none → p.dueInterrupt = none → b.bus.read p.regs.pc = opcode →
          b.reply .step = .outcome .completed ∧
            (b.call .step).processor.cycles = p.cycles + UInt64.ofNat cycles) ∧
        (p.inFlight = some (.decode opcode) →
          b.reply .step = .outcome .completed ∧
            (b.call .step).processor.cycles + 1 = p.cycles + UInt64.ofNat cycles)) ∧
      (p.inFlight = none → ∀ n, (∀ k < n, (b.stepped k).Executes) →
        (∀ k < n, (b.stepped k).reply .step = .outcome .completed) ∧
          (b.stepped n).processor.cycles =
            p.cycles + UInt64.ofNat (b.costs n + (b.stepped n).processor.ahead.toNat)) := by
  intro p
  refine ⟨fun opcode hj hu hb => ?_, fun hi n hn => ?_⟩
  · have hx := (InstructionSet.isExecuted_iff opcode).mpr ⟨hj, hu⟩
    refine ⟨fun hi hd hm => ?_, fun hi => ?_⟩
    · obtain ⟨ho, hcycles⟩ := Processor.cycles_step_of_fetch hr hi hd hm hx hb
      exact ⟨congrArg Reply.outcome ho, hcycles⟩
    · obtain ⟨ho, hcycles⟩ := Processor.cycles_step_of_inFlight (m := b.bus) hr hi hx hb
      exact ⟨congrArg Reply.outcome ho, hcycles⟩
  · obtain ⟨-, hcompleted, hcycles⟩ := cycles_stepped (.idle hr hi) hn
    have hahead : p.ahead = false := by rw [Processor.ahead, hi, hr]; rfl
    rw [hahead] at hcycles
    exact ⟨hcompleted, (UInt64.add_zero _).symm.trans hcycles⟩

/-- A load that crosses a page, and behind it a branch that is not taken. -/
def crossingLoad : Board Memory :=
  fresh {} ((((((Memory.zeros.write 0x0000 0xA2).write 0x0001 0x01).write 0x0002 0xBD).write
    0x0003 0xFF).write 0x0005 0xD0).write 0x0007 0xEA)

theorem documented_cycles_crossingLoad :
    (crossingLoad.call .step).processor.cycles = 2 ∧
      crossingLoad.costs 3 = 2 + 5 + 2 ∧
      (crossingLoad.stepped 3).processor.inFlight = some (.decode 0xEA) ∧
      (crossingLoad.stepped 3).processor.cycles = 2 + 5 + 2 + 1 ∧
      ((crossingLoad.stepped 3).call .step).processor.cycles + 1 = 2 + 5 + 2 + 1 + 2 := by
  have hcosts : crossingLoad.costs 3 = 2 + 5 + 2 := by decide +kernel
  have hinFlight : (crossingLoad.stepped 3).processor.inFlight = some (.decode 0xEA) := by
    decide +kernel
  have hrefusal : (crossingLoad.stepped 3).processor.refusal = none := by decide +kernel
  have hexecutes : ∀ k < 3, (crossingLoad.stepped k).Executes := by
    have h : ∀ k < 3,
        Opcode.sequence (crossingLoad.stepped k).nextOpcode ≠ .jam ∧
          Opcode.sequence (crossingLoad.stepped k).nextOpcode ≠ .unsupported ∧
          (crossingLoad.stepped k).processor.dueInterrupt = none := by
      decide +kernel
    intro k hk
    obtain ⟨hj, hu, hd⟩ := h k hk
    exact ⟨hj, hu, fun _ => hd⟩
  obtain ⟨hone, hrun⟩ := documented_cycles (b := crossingLoad) rfl
  obtain ⟨-, hcycles⟩ := hrun rfl 3 hexecutes
  obtain ⟨hone', -⟩ := documented_cycles (b := crossingLoad.stepped 3) hrefusal
  have hthree : (crossingLoad.stepped 3).processor.cycles = 2 + 5 + 2 + 1 := by
    rw [hcycles, hcosts, Processor.ahead, hinFlight]
    rfl
  refine ⟨?_, hcosts, hinFlight, hthree, ?_⟩
  · exact ((hone 0xA2 (by decide) (by decide) (by decide)).1 rfl rfl (by decide +kernel)).2
  · rw [((hone' 0xEA (by decide) (by decide) (by decide)).2 hinFlight).2, hthree]
    rfl

end Board

end Mos6502
