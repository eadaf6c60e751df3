import Mos6502.Bus.Recorder
import Mos6502.Memory
import Mos6502.Proofs.Reachable

/-!
# The decimal flag

The decimal flag is kept, pushed and pulled, and has no other effect.  A cycle on registers that
differ in it does the same, and leaves registers that differ in it again (`cycle_withDecimal`), but
for two kinds: a cycle that pushes the status shows the flag to the bus, and one that sets the flag
or pulls the status leaves no difference (`cycle_of_setsDecimal`).  Two runs that start with such a
difference go on alike as long as no status is pushed (`decimal_has_no_effect`).
-/

universe u

namespace Mos6502

/-! ## Registers that differ in the flag -/

def Registers.withDecimal (r : Registers) (d : Bool) : Registers := { r with p.decimal := d }

def Resolution.withDecimal (d : Bool) : Resolution → Resolution
  | .pending cycle => .pending (cycle.map fun (target, r) => (target, r.withDecimal d))
  | .ready target r => .ready target (r.withDecimal d)

def Stage.withDecimal (d : Bool) : Stage → Stage
  | .more progress r => .more progress (r.withDecimal d)
  | .done progress r => .done progress (r.withDecimal d)
  | .prefetched progress r opcode => .prefetched progress (r.withDecimal d) opcode

theorem DataOp.apply_withDecimal (op : DataOp) (r : Registers) (v : Byte) (d : Bool) :
    op.apply (r.withDecimal d) v = (op.apply r v).withDecimal d := by
  cases op <;> rfl

theorem StoreOp.value_withDecimal (op : StoreOp) (r : Registers) (d : Bool) :
    op.value (r.withDecimal d) = op.value r := by
  cases op <;> rfl

theorem ModifyOp.apply_withDecimal (op : ModifyOp) (r : Registers) (v : Byte) (d : Bool) :
    op.apply (r.withDecimal d) v = ((op.apply r v).1, (op.apply r v).2.withDecimal d) := by
  cases op <;> rfl

theorem Index.value_withDecimal (index : Index) (r : Registers) (d : Bool) :
    index.value (r.withDecimal d) = index.value r := by
  cases index <;> rfl

theorem Target.correct_withDecimal (t : Target) (correction : Correction) (r : Registers)
    (d : Bool) : t.correct correction (r.withDecimal d) = (t.correct correction r).withDecimal d := by
  unfold correct
  split <;> rfl

theorem Target.locate_withDecimal (t : Target) (n : Nat) (mode : Mode) (correction : Correction)
    (r : Registers) (d : Bool) :
    t.locate n mode correction (r.withDecimal d) =
      (t.locate n mode correction r).withDecimal d := by
  unfold locate
  split
  · rfl
  · split <;> first
      | rfl
      | exact correct_withDecimal ..
      | rw [Index.value_withDecimal]; rfl

/-! ## Cycles -/

namespace Sequence

/-- Does it push the status on a cycle? -/
def pushesStatus : Sequence → Nat → Bool
  | .php, cycle => cycle != 1
  | .brk, cycle | .entry _, cycle => cycle == 4
  | _, _ => false

/-- Does it pull the status on a cycle? -/
def pullsStatus : Sequence → Nat → Bool
  | .plp, cycle => cycle != 1 && cycle != 2
  | .rti, cycle => cycle == 3
  | _, _ => false

/-- Does it set the flag or pull the status on a cycle? -/
def setsDecimal : Sequence → Nat → Bool
  | .register (.setFlag .decimal _), _ => true
  | s, cycle => s.pullsStatus cycle

/-- Does it set the flag or pull the status on some cycle? -/
def replacesDecimal : Sequence → Bool
  | .register (.setFlag .decimal _) | .plp | .rti => true
  | _ => false

theorem atTarget_withDecimal {mode : Mode} {correction : Correction}
    {next : Progress → Registers → Cycle Stage} {d : Bool}
    (h : ∀ p r, next p (r.withDecimal d) = (next p r).map (Stage.withDecimal d)) (p : Progress)
    (r : Registers) :
    atTarget mode correction next p (r.withDecimal d) =
      (atTarget mode correction next p r).map (Stage.withDecimal d) := by
  rw [atTarget, atTarget, Target.locate_withDecimal]
  cases p.target.locate p.cycle mode correction r with
  | ready t r' => exact h _ r'
  | pending c => cases c <;> rfl

theorem read_withDecimal (op : DataOp) (p : Progress) (r : Registers) (d : Bool) :
    read op p (r.withDecimal d) = (read op p r).map (Stage.withDecimal d) := by
  unfold read
  simp only [DataOp.apply_withDecimal]
  rfl

theorem write_withDecimal (op : StoreOp) (p : Progress) (r : Registers) (d : Bool) :
    write op p (r.withDecimal d) = (write op p r).map (Stage.withDecimal d) := by
  rw [write, StoreOp.value_withDecimal]
  rfl

theorem readModifyWrite_withDecimal (op : ModifyOp) (p : Progress) (r : Registers) (d : Bool) :
    readModifyWrite op p (r.withDecimal d) =
      (readModifyWrite op p r).map (Stage.withDecimal d) := by
  unfold readModifyWrite
  rw [ModifyOp.apply_withDecimal]
  split <;> rfl

/-- No branch is about the flag. -/
theorem Issued.ne_decimal {s : Sequence} (h : s.Issued) (on : Bool) : s ≠ .branch ⟨.decimal, on⟩ := by
  cases h with
  | reset | entry => exact fun he => by cases he
  | opcode opcode =>
      revert opcode on
      decide

theorem branchOn_withDecimal {condition : Condition} (hc : condition.flag ≠ .decimal) (p : Progress)
    (r : Registers) (d : Bool) :
    branchOn condition p (r.withDecimal d) =
      (branchOn condition p r).map (Stage.withDecimal d) := by
  have hholds : condition.holds (r.withDecimal d).p = condition.holds r.p := by
    obtain ⟨flag, on⟩ := condition
    cases flag with
    | decimal => exact absurd rfl hc
    | _ => rfl
  unfold branchOn
  rw [hholds]
  split
  · rfl
  · cases condition.holds r.p <;> rfl
  · have h := fun opcode => apply_ite (Stage.withDecimal d) (r.pc = p.target.address)
      (.prefetched p r.advancePc opcode) (.more p { r with pc := p.target.address })
    exact congrArg (Cycle.read r.pc) (funext fun opcode => (h opcode).symm)
  · rfl

/-- A cycle that neither pushes the status nor sets the flag leaves what differs as it is. -/
theorem cycle_withDecimal {s : Sequence} (hs : s.Issued) {p : Progress}
    (hpush : s.pushesStatus p.cycle = false) (hset : s.setsDecimal p.cycle = false) (r : Registers)
    (d : Bool) :
    s.cycle p (r.withDecimal d) = (s.cycle p r).map (Stage.withDecimal d) := by
  cases s with
  | data mode op => exact atTarget_withDecimal (fun p r => read_withDecimal op p r d) p r
  | store mode op => exact atTarget_withDecimal (fun p r => write_withDecimal op p r d) p r
  | modify mode op =>
      exact atTarget_withDecimal (fun p r => readModifyWrite_withDecimal op p r d) p r
  | branch condition =>
      refine branchOn_withDecimal (fun h => ?_) p r d
      obtain ⟨flag, on⟩ := condition
      cases h
      exact hs.ne_decimal on rfl
  | accumulator op =>
      refine congrArg (Cycle.read r.pc) (funext fun _ => ?_)
      rw [ModifyOp.apply_withDecimal]
      rfl
  | register op =>
      cases op with
      | setFlag flag on =>
          cases flag with
          | decimal => cases hset
          | _ => rfl
      | _ => rfl
  | php =>
      have h : p.cycle = 1 := by simpa [pushesStatus] using hpush
      rw [cycle, cycle, pushByte, pushByte, h]
      rfl
  | brk | entry =>
      simp only [cycle, forceBreak, interrupt]
      split
      case h_4 h => simp [pushesStatus, h] at hpush
      all_goals rfl
  | plp =>
      simp only [cycle, pullByte]
      split
      case h_3 h h' => simp_all [setsDecimal, pullsStatus]
      all_goals rfl
  | rti =>
      simp only [cycle, returnFromInterrupt]
      split
      case h_3 h => simp [setsDecimal, pullsStatus, h] at hset
      all_goals rfl
  | reset | jsr | rts | jmp | jmpIndirect | pha | pla =>
      simp only [cycle, start, call, returnFromCall, jump, jumpIndirect, pushByte, pullByte]
      split <;> rfl
  | jam | unsupported => rfl

/-- A cycle that sets the flag or pulls the status leaves no difference. -/
theorem cycle_of_setsDecimal {s : Sequence} {p : Progress} (hset : s.setsDecimal p.cycle = true)
    (r : Registers) (d : Bool) : s.cycle p (r.withDecimal d) = s.cycle p r := by
  cases s with
  | register op =>
      cases op with
      | setFlag flag on =>
          cases flag with
          | decimal => rfl
          | _ => cases hset
      | _ => cases hset
  | plp =>
      simp only [cycle, pullByte]
      split
      case h_1 h | h_2 h => simp [setsDecimal, pullsStatus, h] at hset
      all_goals rfl
  | rti =>
      have h : p.cycle = 3 := eq_of_beq hset
      rw [cycle, cycle, returnFromInterrupt, returnFromInterrupt, h]
      rfl
  | _ => cases hset

/-- Such an instruction goes on as long as it has neither set the flag nor pulled the status. -/
theorem always_more {s : Sequence} (hs : s.replacesDecimal = true) {p : Progress}
    (hset : s.setsDecimal p.cycle = false) (hstarted : 1 ≤ p.cycle)
    (hrti : s = .rti → p.cycle ≤ 3) (r : Registers) :
    (s.cycle p r).Always fun stage => ∃ q r', stage = .more q r' := by
  cases s with
  | register op =>
      cases op with
      | setFlag flag on =>
          cases flag with
          | decimal => cases hset
          | _ => cases hs
      | _ => cases hs
  | plp =>
      simp only [cycle, pullByte]
      split
      case h_3 h h' => simp_all [setsDecimal, pullsStatus]
      all_goals exact fun _ => ⟨_, _, rfl⟩
  | rti =>
      have hle := hrti rfl
      have hcycle : p.cycle = 1 ∨ p.cycle = 2 ∨ p.cycle = 3 := by omega
      rw [cycle, returnFromInterrupt]
      rcases hcycle with h | h | h
      all_goals
        rw [h]
        exact fun _ => ⟨_, _, rfl⟩
  | _ => cases hs

end Sequence

/-! ## Ticks -/

namespace Processor

def withDecimal (p : Processor) (d : Bool) : Processor := { p with regs := p.regs.withDecimal d }

/-- A turn that comes to the same and leaves the same, but for the flag.  What it reports may show
the flag. -/
structure Turn.Alike (d : Bool) (t t' : Turn) : Prop where
  outcome : t'.outcome = t.outcome
  processor : t'.processor = t.processor.withDecimal d

variable (p : Processor) (d : Bool)

theorem accept_withDecimal (opcode : Byte) (address : Word) :
    (p.accept opcode address).Alike d ((p.withDecimal d).accept opcode address) := by
  cases h : (Instruction.decode opcode).isUnsupported with
  | true =>
      rw [accept_of_unsupported h, accept_of_unsupported h]
      exact ⟨rfl, rfl⟩
  | false =>
      rw [accept_of_supported h, accept_of_supported h]
      exact ⟨rfl, rfl⟩

theorem complete_withDecimal (prefetched : Option Byte) :
    (p.complete prefetched).Alike d ((p.withDecimal d).complete prefetched) := by
  cases prefetched with
  | none => exact ⟨rfl, rfl⟩
  | some opcode =>
      cases h : (Instruction.decode opcode).isUnsupported with
      | true =>
          rw [complete_of_unsupported h, complete_of_unsupported h]
          exact ⟨rfl, rfl⟩
      | false =>
          rw [complete_of_supported h, complete_of_supported h]
          exact ⟨rfl, rfl⟩

/-- An advanced instruction brings its own registers with it. -/
theorem settle_of_withDecimal (a : Advance) : (p.withDecimal d).settle a = p.settle a := by
  unfold settle
  split <;> rfl

theorem settle_withDecimal (i : Instruction) (stage : Stage) :
    (p.settle (i.after stage)).Alike d (p.settle (i.after (stage.withDecimal d))) := by
  cases stage with
  | more q r => exact ⟨rfl, rfl⟩
  | done q r => exact (p.retired r).complete_withDecimal d i.prefetched
  | prefetched q r opcode => exact (p.retired r).complete_withDecimal d (some opcode)

theorem interrupt_withDecimal :
    (p.withDecimal d).interrupt = (p.interrupt.1, p.interrupt.2.withDecimal d) := by
  unfold interrupt
  rw [show (p.withDecimal d).regs.p.interruptDisable = p.regs.p.interruptDisable from rfl]
  split <;> rfl

variable {β : Type u} [Bus β] {p}

/-- A tick that neither pushes the status nor sets the flag leaves what differs as it is. -/
theorem tick_withDecimal (hs : p.Issues)
    (hpush : ∀ i, p.inFlight = some i → i.sequence.pushesStatus i.progress.cycle = false)
    (hset : ∀ i, p.inFlight = some i → i.sequence.setsDecimal i.progress.cycle = false) (bus : β) :
    (p.tick bus).1.Alike d ((p.withDecimal d).tick bus).1 ∧
      ((p.withDecimal d).tick bus).2 = (p.tick bus).2 := by
  cases hr : p.refusal with
  | some e =>
      rw [tick_of_refusal hr, tick_of_refusal (p := p.withDecimal d) hr]
      exact ⟨⟨rfl, rfl⟩, rfl⟩
  | none =>
      cases hi : p.inFlight with
      | none =>
          cases hd : p.dueInterrupt with
          | some source =>
              rw [tick_of_due hr hi hd, tick_of_due (p := p.withDecimal d) hr hi hd]
              exact ⟨⟨rfl, by cases source <;> rfl⟩, rfl⟩
          | none =>
              rw [tick_of_fetch hr hi hd, tick_of_fetch (p := p.withDecimal d) hr hi hd]
              exact ⟨accept_withDecimal { p.counted with regs := p.regs.advancePc } d _ _, rfl⟩
      | some i =>
          have hcycle := Sequence.cycle_withDecimal (hs i hi) (hpush i hi) (hset i hi) p.regs d
          rw [tick_of_inFlight hr hi, tick_of_inFlight (p := p.withDecimal d) hr hi,
            show (p.withDecimal d).regs = p.regs.withDecimal d from rfl, hcycle, Cycle.run_map]
          refine ⟨?_, rfl⟩
          show Turn.Alike d _ ((p.counted.withDecimal d).settle _)
          rw [settle_of_withDecimal]
          exact settle_withDecimal p.counted d i _

/-- A tick that sets the flag or pulls the status leaves no difference. -/
theorem tick_of_setsDecimal {i : Instruction} (hr : p.refusal = none) (hi : p.inFlight = some i)
    (hset : i.sequence.setsDecimal i.progress.cycle = true) (bus : β) :
    (p.withDecimal d).tick bus = p.tick bus := by
  rw [tick_of_inFlight hr hi, tick_of_inFlight (p := p.withDecimal d) hr hi,
    show (p.withDecimal d).regs = p.regs.withDecimal d from rfl,
    Sequence.cycle_of_setsDecimal hset]
  exact congrArg (·, _) (settle_of_withDecimal p.counted d _)

end Processor

/-! ## Acts -/

namespace Moment

variable {β : Type u}

/-- The instruction that an act advances. -/
def running? (m : Moment β) : Option Instruction :=
  match m.act with
  | .tick => m.board.processor.inFlight
  | _ => none

/-- The act pushes the status: for an instruction, or for the entry of a handler. -/
def pushesStatus (m : Moment β) : Bool :=
  m.running?.any fun i => i.sequence.pushesStatus i.progress.cycle

/-- The act sets the flag or pulls the status. -/
def setsDecimal (m : Moment β) : Bool :=
  m.running?.any fun i => i.sequence.setsDecimal i.progress.cycle

/-- The act completes an instruction that sets the flag or pulls the status. -/
def replacesDecimal [Bus β] (m : Moment β) : Bool :=
  (m.running?.any fun i => i.sequence.replacesDecimal) && m.board.turn.outcome == .completed

theorem setsDecimal_tick {b : Board β} {i : Instruction} (hi : b.processor.inFlight = some i) :
    setsDecimal ⟨b, .tick⟩ = i.sequence.setsDecimal i.progress.cycle := by
  show b.processor.inFlight.any _ = _
  rw [hi]
  rfl

end Moment

namespace Board

variable {β : Type u} {b b' : Board β}

/-- Two boards that differ in the decimal flag at most. -/
def Alike (b b' : Board β) : Prop :=
  ∃ d, b' = { b with processor := b.processor.withDecimal d }

theorem Alike.refl (b : Board β) : b.Alike b := ⟨b.processor.regs.p.decimal, rfl⟩

theorem Alike.bus (h : b.Alike b') : b'.bus = b.bus := by
  obtain ⟨d, rfl⟩ := h
  rfl

theorem Alike.isHalted (h : b.Alike b') : b'.processor.isHalted = b.processor.isHalted := by
  obtain ⟨d, rfl⟩ := h
  rfl

variable [Bus β]

/-- Where the flag is set or the status pulled, the difference ends. -/
theorem Alike.act_of_setsDecimal (h : b.Alike b') (hc : b.processor.Coherent) {a : Act}
    (hset : Moment.setsDecimal ⟨b, a⟩ = true) :
    b'.act a = b.act a ∧ b'.reply (.act a) = b.reply (.act a) := by
  obtain ⟨d, rfl⟩ := h
  cases a with
  | tick =>
      obtain ⟨i, hi, hset⟩ := (Option.any_eq_true _ b.processor.inFlight).mp hset
      have ht := Processor.tick_of_setsDecimal d (hc.refusal_of_inFlight hi) hi hset b.bus
      exact ⟨by rw [act, turn, ht]; rfl, by rw [reply, turn, ht]; rfl⟩
  | interrupt | nmi | reset | setPc => cases hset

/-- An act that does not push the status leaves no other difference than there was. -/
theorem Alike.act (h : b.Alike b') (hc : b.processor.Coherent) (hs : b.processor.Issues) {a : Act}
    (hpush : Moment.pushesStatus ⟨b, a⟩ = false) :
    (b.act a).Alike (b'.act a) ∧ b'.reply (.act a) = b.reply (.act a) := by
  cases hset : Moment.setsDecimal ⟨b, a⟩ with
  | true =>
      obtain ⟨hact, hreply⟩ := h.act_of_setsDecimal hc hset
      exact ⟨hact ▸ .refl _, hreply⟩
  | false =>
      obtain ⟨d, rfl⟩ := h
      cases a with
      | tick =>
          have hpush' : ∀ i, b.processor.inFlight = some i →
              i.sequence.pushesStatus i.progress.cycle = false :=
            (Option.any_eq_false _ b.processor.inFlight).mp hpush
          have hset' : ∀ i, b.processor.inFlight = some i →
              i.sequence.setsDecimal i.progress.cycle = false :=
            (Option.any_eq_false _ b.processor.inFlight).mp hset
          obtain ⟨⟨ho, hp⟩, hb⟩ := Processor.tick_withDecimal d hs hpush' hset' b.bus
          exact ⟨⟨d, Board.ext hp hb⟩, congrArg Reply.outcome ho⟩
      | interrupt =>
          have hi := Processor.interrupt_withDecimal b.processor d
          have htaken : (b.processor.withDecimal d).interrupt.1 = b.processor.interrupt.1 := by rw [hi]
          exact ⟨⟨d, Board.ext (congrArg Prod.snd hi) rfl⟩, congrArg Reply.taken htaken⟩
      | nmi | reset | setPc => exact ⟨⟨d, rfl⟩, rfl⟩

/-! ## Runs -/

theorem Alike.after (h : b.Alike b') (hc : b.processor.Coherent) (hs : b.processor.Issues)
    {acts : List Act} (hpush : ∀ m ∈ b.history acts, m.pushesStatus = false) :
    (b.after acts).Alike (b'.after acts) := by
  induction acts generalizing b b' with
  | nil => exact h
  | cons a acts ih =>
      obtain ⟨hhead, htail⟩ := List.forall_mem_cons.mp hpush
      exact ih (h.act hc hs hhead).1 (coherent_act b a hc) (issues_act b a hs) htail

/-- From where the flag is set or the status pulled on, the runs are the same. -/
theorem Alike.after_of_setsDecimal (h : b.Alike b') (hc : b.processor.Coherent)
    (hs : b.processor.Issues) {acts : List Act}
    (hpush : ∀ m ∈ b.history acts, m.pushesStatus = false)
    (hset : ∃ m ∈ b.history acts, m.setsDecimal = true) : b'.after acts = b.after acts := by
  induction acts generalizing b b' with
  | nil =>
      obtain ⟨m, hm, -⟩ := hset
      exact absurd hm List.not_mem_nil
  | cons a acts ih =>
      obtain ⟨hhead, htail⟩ := List.forall_mem_cons.mp hpush
      cases hset' : Moment.setsDecimal ⟨b, a⟩ with
      | true => rw [after_cons, after_cons, (h.act_of_setsDecimal hc hset').1]
      | false =>
          refine ih (h.act hc hs hhead).1 (coherent_act b a hc) (issues_act b a hs) htail ?_
          obtain ⟨m, hm, hm'⟩ := hset
          rcases List.mem_cons.mp hm with rfl | hm
          · rw [hset'] at hm'
            cases hm'
          · exact ⟨m, hm, hm'⟩

/-- The status has been pulled by a return that is still in flight. -/
def Pulled (b : Board β) : Prop :=
  ∃ i, b.processor.inFlight = some i ∧ i.sequence = .rti ∧ 3 < i.progress.cycle

/-- What has pulled the status did so with this act or before it. -/
theorem setsDecimal_or_pulled (hc : b.processor.Coherent) {a : Act} (h : (b.act a).Pulled) :
    Moment.setsDecimal ⟨b, a⟩ = true ∨ b.Pulled := by
  obtain ⟨i, hi, hs, hcycle⟩ := h
  -- An opcode that has just been decoded is on its first cycle.
  have hfresh : ∀ opcode : Byte, some (Instruction.decode opcode) ≠ some i := by
    rintro opcode ⟨⟩
    exact absurd hcycle (show ¬ 3 < 1 by decide)
  cases a with
  | tick =>
      have ht := b.processor.ticks b.bus
      rw [act, turn] at hi
      generalize b.processor.tick b.bus = t at ht hi
      cases ht with
      | reported => exact .inr ⟨i, hi, hs, hcycle⟩
      | @entered source =>
          have hi' : some (Instruction.interrupt source) = some i := hi
          cases hi'
          cases hs
      | @fetched opcode bus' hr hidle =>
          obtain ⟨events, hf | hf⟩ := b.processor.counted.fetched_cases opcode
          · rw [hf] at hi
            exact absurd (hidle.symm.trans hi) (by simp)
          · rw [hf] at hi
            exact absurd hi (hfresh opcode)
      | @advanced i' q r bus' hr hi' hq =>
          cases hi
          have hle : 3 ≤ i'.progress.cycle := by
            rw [← hq]
            exact Nat.le_of_lt_succ (Nat.lt_of_lt_of_le hcycle (Nat.min_le_left ..))
          rcases Nat.lt_or_eq_of_le hle with hlt | heq
          · exact .inr ⟨i', hi', hs, hlt⟩
          · refine .inl ?_
            rw [Moment.setsDecimal_tick hi', ← heq]
            exact congrArg (Sequence.setsDecimal · 3) hs
      | @ended i' r bus' hr hi' =>
          rw [hc.taken i' hi'] at hi
          cases hi
      | @branched i' c r opcode bus' =>
          rcases (b.processor.counted.retired r).complete_cases opcode with hf | hf
          · rw [hf] at hi
            cases hi
          · rw [hf] at hi
            exact absurd hi (hfresh opcode)
  | interrupt =>
      simp only [act, Processor.interrupt] at hi
      split at hi <;> exact .inr ⟨i, hi, hs, hcycle⟩
  | nmi | setPc => exact .inr ⟨i, hi, hs, hcycle⟩
  | reset =>
      cases hi
      cases hs

/-- What completes such an instruction sets the flag, or has pulled the status before. -/
theorem setsDecimal_or_pulled_of_replaces (hc : b.processor.Coherent) {a : Act}
    (h : Moment.replacesDecimal ⟨b, a⟩ = true) :
    Moment.setsDecimal ⟨b, a⟩ = true ∨ b.Pulled := by
  rw [Moment.replacesDecimal, Bool.and_eq_true, Option.any_eq_true, beq_iff_eq] at h
  obtain ⟨⟨i, hrun, hs⟩, ho⟩ := h
  cases a with
  | tick =>
      have hi : b.processor.inFlight = some i := hrun
      rw [Moment.setsDecimal_tick hi]
      by_contra hnot
      rw [not_or, Bool.not_eq_true] at hnot
      obtain ⟨hset, hpulled⟩ := hnot
      have hmore := Sequence.always_more hs hset (hc.started i hi)
        (fun hrti => Nat.le_of_not_lt fun hlt => hpulled ⟨i, hi, hrti, hlt⟩) b.processor.regs
      obtain ⟨q, r, hstage⟩ := hmore.run b.bus
      rw [turn, Processor.tick_of_inFlight (hc.refusal_of_inFlight hi) hi, hstage] at ho
      cases ho
  | interrupt | nmi | reset | setPc => cases hrun

/-- An instruction that sets the flag or pulls the status does so before it is completed. -/
theorem exists_setsDecimal (hc : b.processor.Coherent) (hb : ¬ b.Pulled) {acts : List Act}
    (h : ∃ m ∈ b.history acts, m.replacesDecimal = true) :
    ∃ m ∈ b.history acts, m.setsDecimal = true := by
  induction acts generalizing b with
  | nil =>
      obtain ⟨m, hm, -⟩ := h
      exact absurd hm List.not_mem_nil
  | cons a acts ih =>
      cases hset : Moment.setsDecimal ⟨b, a⟩ with
      | true => exact ⟨⟨b, a⟩, List.mem_cons_self, hset⟩
      | false =>
          have hnot : ¬ (Moment.setsDecimal ⟨b, a⟩ = true ∨ b.Pulled) := by
            rw [hset]
            exact fun h => h.elim Bool.false_ne_true hb
          obtain ⟨m, hm, hm'⟩ := h
          rcases List.mem_cons.mp hm with rfl | hm
          · exact absurd (setsDecimal_or_pulled_of_replaces hc hm') hnot
          · obtain ⟨m', hmem, hm''⟩ := ih (coherent_act b a hc)
              (fun hp => hnot (setsDecimal_or_pulled hc hp)) ⟨m, hm, hm'⟩
            exact ⟨m', List.mem_cons_of_mem _ hmem, hm''⟩

/-! ## Calls -/

theorem Alike.ends (h : b.Alike b') (hc : b.processor.Coherent) (hs : b.processor.Issues)
    (hpush : Moment.pushesStatus ⟨b, .tick⟩ = false) : b'.turn.ends = b.turn.ends := by
  obtain ⟨hact, hreply⟩ := h.act hc hs hpush
  rw [Processor.Turn.ends, Processor.Turn.ends, Reply.outcome.inj hreply]
  exact congrArg (_ || ·) hact.isHalted

theorem Alike.stepWithin (h : b.Alike b') (hc : b.processor.Coherent) (hs : b.processor.Issues)
    (limit : Nat)
    (hpush : ∀ m ∈ b.history (List.replicate (b.ticksWithin limit) .tick),
      m.pushesStatus = false) :
    b'.ticksWithin limit = b.ticksWithin limit ∧
      (b'.processor.stepWithin limit b'.bus).1.outcome =
        (b.processor.stepWithin limit b.bus).1.outcome := by
  induction limit generalizing b b' with
  | zero => exact ⟨rfl, rfl⟩
  | succ limit ih =>
      have hhead : Moment.pushesStatus ⟨b, .tick⟩ = false := by
        refine hpush _ ?_
        rw [ticksWithin]
        split <;> exact List.mem_cons_self
      have hends := h.ends hc hs hhead
      obtain ⟨hact, hreply⟩ := h.act hc hs hhead
      cases he : b.turn.ends with
      | true =>
          have he' : b'.turn.ends = true := hends.trans he
          rw [ticksWithin, ticksWithin, if_pos he, if_pos he', Processor.stepWithin_of_ends he,
            Processor.stepWithin_of_ends he']
          exact ⟨rfl, Reply.outcome.inj hreply⟩
      | false =>
          have he' : b'.turn.ends = false := hends.trans he
          have hne := Bool.eq_false_iff.mp he
          have hne' := Bool.eq_false_iff.mp he'
          have htail : ∀ m ∈ (b.act .tick).history
              (List.replicate ((b.act .tick).ticksWithin limit) .tick), m.pushesStatus = false := by
            intro m hm
            refine hpush m ?_
            rw [ticksWithin, if_neg hne, List.replicate_succ, history_cons]
            exact List.mem_cons_of_mem _ hm
          obtain ⟨hticks, houtcome⟩ :=
            ih hact (coherent_act b .tick hc) (issues_act b .tick hs) htail
          rw [ticksWithin, ticksWithin, if_neg hne, if_neg hne', hticks,
            Processor.stepWithin_of_not_ends he, Processor.stepWithin_of_not_ends he']
          exact ⟨rfl, houtcome⟩

/-- A call on boards that differ in the flag at most comes to the same acts and the same reply. -/
theorem Alike.call (h : b.Alike b') (hc : b.processor.Coherent) (hs : b.processor.Issues) {c : Call}
    (hpush : ∀ m ∈ b.history (b.actsOf c), m.pushesStatus = false) :
    b'.actsOf c = b.actsOf c ∧ b'.reply c = b.reply c ∧ (b.call c).Alike (b'.call c) := by
  have hcall : b'.actsOf c = b.actsOf c ∧ b'.reply c = b.reply c := by
    cases c with
    | act a => exact ⟨rfl, (h.act hc hs (hpush _ List.mem_cons_self)).2⟩
    | step =>
        obtain ⟨hticks, houtcome⟩ := h.stepWithin hc hs Processor.longest hpush
        exact ⟨congrArg (fun n => List.replicate n Act.tick) hticks, congrArg Reply.outcome houtcome⟩
  refine ⟨hcall.1, hcall.2, ?_⟩
  rw [call_eq_after, call_eq_after, hcall.1]
  exact h.after hc hs hpush

/-- So do all calls. -/
theorem Alike.calls (h : b.Alike b') (hc : b.processor.Coherent) (hs : b.processor.Issues)
    {cs : List Call} (hpush : ∀ m ∈ b.history (b.acts cs), m.pushesStatus = false) :
    b'.acts cs = b.acts cs ∧ b'.replies cs = b.replies cs := by
  induction cs generalizing b b' with
  | nil => exact ⟨rfl, rfl⟩
  | cons c cs ih =>
      rw [acts, history_append, List.forall_mem_append] at hpush
      obtain ⟨hhead, htail⟩ := hpush
      obtain ⟨hacts, hreply, hnext⟩ := h.call hc hs hhead
      rw [← call_eq_after] at htail
      have hc' : (b.call c).processor.Coherent := calls_induction coherent_act hc [c]
      have hs' : (b.call c).processor.Issues := calls_induction issues_act hs [c]
      obtain ⟨hrest, hreplies⟩ := ih hnext hc' hs' htail
      exact ⟨congrArg₂ (· ++ ·) hacts hrest, congrArg₂ List.cons hreply hreplies⟩

/-- **The decimal flag has no effect.**  Two processors that differ in it at most, on equal buses,
make the same accesses with the same values and give the same replies to the same calls, and differ
in it at most behind every call, as long as no status is pushed, for an instruction or for the entry
of a handler.  Once the flag has been set or the status pulled they do not differ at all; that is so
behind every instruction that does either, unless it is a return that had pulled the status before
the run. -/
theorem decimal_has_no_effect {b b' : Board (Recorder β)} (h : b.Alike b')
    (hb : b.processor.Reachable) {cs : List Call}
    (hpush : ∀ m ∈ b.history (b.acts cs), m.pushesStatus = false) :
    (b'.calls cs).bus.accesses = (b.calls cs).bus.accesses ∧
      b'.replies cs = b.replies cs ∧
      (b.calls cs).Alike (b'.calls cs) ∧
      ((∃ m ∈ b.history (b.acts cs), m.setsDecimal = true) → b'.calls cs = b.calls cs) ∧
      ((∃ m ∈ b.history (b.acts cs), m.replacesDecimal = true) → ¬ b.Pulled →
        b'.calls cs = b.calls cs) := by
  obtain ⟨hacts, hreplies⟩ := h.calls hb.coherent hb.issues hpush
  have hafter := h.after hb.coherent hb.issues hpush
  have hset : (∃ m ∈ b.history (b.acts cs), m.setsDecimal = true) →
      b'.after (b.acts cs) = b.after (b.acts cs) :=
    h.after_of_setsDecimal hb.coherent hb.issues hpush
  rw [calls_eq_after, calls_eq_after, hacts]
  exact ⟨congrArg Recorder.accesses hafter.bus, hreplies, hafter, hset, fun hreplaces hp =>
    hset (exists_setsDecimal hb.coherent hp hreplaces)⟩

/-- About to add 15 to 15, and to clear the flag. -/
def adding : Board (Recorder Memory) :=
  fresh { a := 0x15 }
    { bus := ((Memory.zeros.write 0x0000 0x69).write 0x0001 0x15).write 0x0002 0xD8 }

/-- The same with the flag set. -/
def addingDecimal : Board (Recorder Memory) :=
  { adding with processor := adding.processor.withDecimal true }

theorem decimal_has_no_effect_adding :
    addingDecimal.replies [.step, .step] = [.outcome .completed, .outcome .completed] ∧
      (addingDecimal.calls [.step, .step]).bus.accesses =
        #[.read 0x0000 0x69, .read 0x0001 0x15, .read 0x0002 0xD8, .read 0x0003 0x00] ∧
      (addingDecimal.calls [.step, .step]).processor.regs.a = 0x2A ∧
      addingDecimal.calls [.step, .step] = adding.calls [.step, .step] := by
  have hpush : ∀ m ∈ adding.history (adding.acts [.step, .step]), m.pushesStatus = false := by
    decide +kernel
  have hset : ∃ m ∈ adding.history (adding.acts [.step, .step]), m.setsDecimal = true := by
    decide +kernel
  have halike : adding.Alike addingDecimal := ⟨true, rfl⟩
  obtain ⟨haccesses, hreplies, -, hsame, -⟩ := decimal_has_no_effect halike (.created _) hpush
  refine ⟨hreplies.trans (by decide +kernel), haccesses.trans (by decide +kernel), ?_, hsame hset⟩
  rw [hsame hset]
  decide +kernel

end Board

end Mos6502
