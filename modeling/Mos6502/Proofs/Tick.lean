import Mos6502.Processor

/-!
# One tick

What a tick does, said once: it reports a refusal, enters an interrupt, fetches an opcode, or runs
one cycle of the instruction in flight.  Everything about longer runs goes through these equations,
and `tick` is not unfolded again.

The second half is about the cycle of an instruction.  A branch reads at the program counter, and
either goes on or ends with the fetch of the opcode it read (`branchOn_spec`); everything else goes
on or ends without one (`always_cycle`).
-/

universe u v

namespace Mos6502

/-! ## All that a cycle may lead to -/

namespace Cycle

variable {α α' : Type u} {β : Type v}

/-- A property of the result that holds whatever the bus answers. -/
def Always (P : α → Prop) : Cycle α → Prop
  | .read _ next => ∀ value, P (next value)
  | .write _ _ next => P next

theorem Always.run [Bus β] {P : α → Prop} {c : Cycle α} (h : c.Always P) (bus : β) :
    P (c.run bus).1 := by
  cases c with
  | read address next => exact h _
  | write address value next => exact h

@[simp] theorem always_read {P : α → Prop} {address : Word} {next : Byte → α} :
    (Cycle.read address next).Always P ↔ ∀ value, P (next value) := Iff.rfl

@[simp] theorem always_write {P : α → Prop} {address : Word} {value : Byte} {next : α} :
    (Cycle.write address value next).Always P ↔ P next := Iff.rfl

theorem always_map {P : α' → Prop} {f : α → α'} {c : Cycle α} :
    (c.map f).Always P ↔ c.Always fun x => P (f x) := by
  cases c <;> exact Iff.rfl

end Cycle

/-- An instruction is advanced by a cycle of its sequence. -/
theorem Instruction.run_advance {β : Type u} [Bus β] (i : Instruction) (r : Registers) (bus : β) :
    (i.advance r).run bus =
      (i.after ((i.sequence.cycle i.progress r).run bus).1,
        ((i.sequence.cycle i.progress r).run bus).2) := by
  rw [advance, Cycle.run_map]

namespace Processor

variable {β : Type u} [Bus β]

/-! ## The four things a tick may do -/

/-- One more cycle has been counted. -/
def counted (p : Processor) : Processor := { p with cycles := p.cycles + 1 }

theorem tick_of_refusal {p : Processor} {e : UnsupportedOpcode} (h : p.refusal = some e)
    (bus : β) : p.tick bus = (⟨.refused e, { p with refusal := none }, []⟩, bus) := by
  rw [tick, h]

theorem tick_of_none {p : Processor} (h : p.refusal = none) (bus : β) :
    p.tick bus = p.cycle.run bus := by
  rw [tick, h]

theorem cycle_of_idle {p : Processor} (h : p.inFlight = none) : p.cycle = p.counted.fetch := by
  cases p
  cases h
  rfl

theorem cycle_of_inFlight {p : Processor} {i : Instruction} (h : p.inFlight = some i) :
    p.cycle = (i.advance p.regs).map p.counted.settle := by
  cases p
  cases h
  rfl

/-- The turn that enters an interrupt: a byte is read and dropped, and one request is used up. -/
def enter (p : Processor) (source : Interrupt) : Turn :=
  ⟨.unfinished, { p.acknowledge source with inFlight := some (.interrupt source) },
    [.interrupt source.vector p.regs.pc]⟩

theorem fetch_of_due {p : Processor} {source : Interrupt} (h : p.dueInterrupt = some source) :
    p.fetch = .read p.regs.pc fun _ => p.enter source := by
  rw [fetch, h]
  rfl

/-- The turn that follows the fetch of an opcode. -/
def fetched (p : Processor) (opcode : Byte) : Turn :=
  { p with regs := p.regs.advancePc }.accept opcode p.regs.pc

theorem fetch_of_none {p : Processor} (h : p.dueInterrupt = none) :
    p.fetch = .read p.regs.pc p.fetched := by
  rw [fetch, h]
  rfl

theorem tick_of_due {p : Processor} {source : Interrupt} (hr : p.refusal = none)
    (hi : p.inFlight = none) (hd : p.dueInterrupt = some source) (bus : β) :
    p.tick bus = (p.counted.enter source, (Bus.read bus p.regs.pc).2) := by
  rw [tick_of_none hr, cycle_of_idle hi, fetch_of_due (p := p.counted) hd]
  rfl

theorem tick_of_fetch {p : Processor} (hr : p.refusal = none) (hi : p.inFlight = none)
    (hd : p.dueInterrupt = none) (bus : β) :
    p.tick bus =
      (p.counted.fetched (Bus.read bus p.regs.pc).1, (Bus.read bus p.regs.pc).2) := by
  rw [tick_of_none hr, cycle_of_idle hi, fetch_of_none (p := p.counted) hd]
  rfl

theorem tick_of_inFlight {p : Processor} {i : Instruction} (hr : p.refusal = none)
    (hi : p.inFlight = some i) (bus : β) :
    p.tick bus =
      (p.counted.settle (i.after ((i.sequence.cycle i.progress p.regs).run bus).1),
        ((i.sequence.cycle i.progress p.regs).run bus).2) := by
  rw [tick_of_none hr, cycle_of_inFlight hi, Cycle.run_map, Instruction.run_advance]

/-! ## Taking an opcode in flight -/

/-- What is reported when an opcode is decoded. -/
def decodeEvents (p : Processor) (opcode : Byte) (address : Word) : List Event :=
  .decoded address opcode p.regs p.cycles ::
    if (Instruction.decode opcode).isUnsupported then [.unsupported address opcode]
    else if (Instruction.decode opcode).isJam then [.jam address opcode] else []

theorem accept_of_unsupported {opcode : Byte} (h : (Instruction.decode opcode).isUnsupported = true)
    (p : Processor) (address : Word) :
    p.accept opcode address =
      ⟨.refused ⟨address, opcode⟩, { p with opcode }, p.decodeEvents opcode address⟩ := by
  rw [accept, decodeEvents, if_pos h, if_pos h]

theorem accept_of_supported {opcode : Byte} (h : (Instruction.decode opcode).isUnsupported = false)
    (p : Processor) (address : Word) :
    p.accept opcode address =
      ⟨.unfinished, { p with opcode, inFlight := some (.decode opcode) },
        p.decodeEvents opcode address⟩ := by
  rw [accept, decodeEvents, if_neg (Bool.eq_false_iff.mp h), if_neg (Bool.eq_false_iff.mp h)]
  split <;> rfl

/-- An opcode that is fetched is refused or taken in flight. -/
theorem fetched_cases (p : Processor) (opcode : Byte) :
    ∃ events,
      p.fetched opcode =
          ⟨.refused ⟨p.regs.pc, opcode⟩, { p with regs := p.regs.advancePc, opcode }, events⟩ ∨
        p.fetched opcode =
          ⟨.unfinished,
            { p with regs := p.regs.advancePc, opcode, inFlight := some (.decode opcode) },
            events⟩ := by
  cases h : (Instruction.decode opcode).isUnsupported with
  | true => exact ⟨_, .inl (accept_of_unsupported h _ _)⟩
  | false => exact ⟨_, .inr (accept_of_supported h _ _)⟩

/-! ## Putting an advanced instruction back -/

@[simp] theorem settle_more (p : Processor) (i : Instruction) (q : Progress) (r : Registers) :
    p.settle (i.after (.more q r)) =
      ⟨.unfinished, { p with regs := r, inFlight := some { i with progress := q.tick } }, []⟩ :=
  rfl

theorem not_halted_of_idle {p : Processor} (hi : p.inFlight = none) : p.isHalted = false := by
  rw [isHalted, hi]
  rfl

theorem inFlight_of_halted {p : Processor} (h : p.isHalted = true) :
    ∃ i, p.inFlight = some i ∧ i.sequence = .jam := by
  cases hi : p.inFlight with
  | none =>
      rw [not_halted_of_idle hi] at h
      cases h
  | some i =>
      rw [isHalted, hi] at h
      exact ⟨i, rfl, eq_of_beq h⟩

/-- A lock-up reads at the program counter, and stays. -/
theorem tick_of_jam {p : Processor} {i : Instruction} (hr : p.refusal = none)
    (hi : p.inFlight = some i) (hj : i.sequence = .jam) (bus : β) :
    p.tick bus =
      (⟨.unfinished, { p.counted with inFlight := some { i with progress := i.progress.tick } },
          []⟩, (Bus.read bus p.regs.pc).2) := by
  have htick := tick_of_inFlight hr hi bus
  rw [hj] at htick
  exact htick

/-- The instruction in flight is over, and has left these registers. -/
def retired (p : Processor) (r : Registers) : Processor := { p with regs := r, inFlight := none }

theorem settle_done {i : Instruction} (h : i.prefetched = none) (p : Processor) (q : Progress)
    (r : Registers) : p.settle (i.after (.done q r)) = ⟨.completed, p.retired r, []⟩ := by
  show (p.retired r).complete i.prefetched = _
  rw [h]
  rfl

@[simp] theorem settle_prefetched (p : Processor) (i : Instruction) (q : Progress) (r : Registers)
    (opcode : Byte) :
    p.settle (i.after (.prefetched q r opcode)) = (p.retired r).complete (some opcode) :=
  rfl

theorem complete_of_unsupported {opcode : Byte}
    (h : (Instruction.decode opcode).isUnsupported = true) (p : Processor) :
    p.complete (some opcode) =
      ⟨.completed, { p with opcode, refusal := some ⟨p.regs.pc - 1, opcode⟩ },
        p.decodeEvents opcode (p.regs.pc - 1)⟩ := by
  rw [complete, accept_of_unsupported h]

theorem complete_of_supported {opcode : Byte}
    (h : (Instruction.decode opcode).isUnsupported = false) (p : Processor) :
    p.complete (some opcode) =
      ⟨.completed, { p with opcode, inFlight := some (.decode opcode) },
        p.decodeEvents opcode (p.regs.pc - 1)⟩ := by
  rw [complete, accept_of_supported h]

/-- An opcode that was fetched ahead is kept as a refusal or taken in flight. -/
theorem complete_cases (p : Processor) (opcode : Byte) :
    p.complete (some opcode) =
        ⟨.completed, { p with opcode, refusal := some ⟨p.regs.pc - 1, opcode⟩ },
          p.decodeEvents opcode (p.regs.pc - 1)⟩ ∨
      p.complete (some opcode) =
        ⟨.completed, { p with opcode, inFlight := some (.decode opcode) },
          p.decodeEvents opcode (p.regs.pc - 1)⟩ := by
  cases h : (Instruction.decode opcode).isUnsupported with
  | true => exact .inl (complete_of_unsupported h p)
  | false => exact .inr (complete_of_supported h p)

theorem outcome_complete (p : Processor) (prefetched : Option Byte) :
    (p.complete prefetched).outcome = .completed := by
  cases prefetched with
  | none => rfl
  | some opcode =>
      rcases p.complete_cases opcode with h | h
      · rw [h]
      · rw [h]

theorem outcome_settle (p : Processor) (a : Advance) :
    (p.settle a).outcome = if a.done then .completed else .unfinished := by
  rw [settle]
  split
  · exact outcome_complete _ _
  · rfl

end Processor

/-! ## One cycle of an instruction -/

namespace Sequence

/-- Does it fetch the opcode behind it? -/
def isBranch : Sequence → Bool
  | .branch _ => true
  | _ => false

theorem isBranch_iff {s : Sequence} : s.isBranch = true ↔ ∃ c, s = .branch c := by
  cases s <;> simp [isBranch]

/-- A branch reads at the program counter on each of its cycles, and if it ends there, with what it
read as the next opcode. -/
theorem branchOn_spec (condition : Condition) (p : Progress) (r : Registers) :
    ∃ next : Byte → Stage, branchOn condition p r = .read r.pc next ∧
      ∀ opcode, (∃ q r', next opcode = .more q r' ∧ q.cycle = p.cycle) ∨
        next opcode = .prefetched p r.advancePc opcode := by
  unfold branchOn
  split
  · exact ⟨_, rfl, fun _ => .inl ⟨_, _, rfl, rfl⟩⟩
  · refine ⟨_, rfl, fun _ => ?_⟩
    by_cases h : condition.holds r.p
    · exact .inl ⟨_, _, if_pos h, rfl⟩
    · exact .inr (if_neg h)
  · refine ⟨_, rfl, fun _ => ?_⟩
    by_cases h : r.pc = p.target.address
    · exact .inr (if_pos h)
    · exact .inl ⟨_, _, if_neg h, rfl⟩
  · exact ⟨_, rfl, fun _ => .inr rfl⟩

/-- A stage that fetches no opcode, and leaves the count of cycles to the instruction. -/
def Plain (cycle : Nat) : Stage → Prop
  | .more q _ => q.cycle = cycle
  | .done .. => True
  | .prefetched .. => False

/-- What holds when a cycle is spent on the address, and of the instruction's own cycles, holds of
every cycle. -/
theorem always_atTarget {P : Stage → Prop} {mode : Mode} {correction : Correction}
    {next : Progress → Registers → Cycle Stage} {p : Progress} {r : Registers}
    (hmore : ∀ t r', P (.more { p with target := t } r'))
    (hnext : ∀ t r', (next { p with target := t } r').Always P) :
    (atTarget mode correction next p r).Always P := by
  unfold atTarget
  split
  · rw [Cycle.always_map]
    rename_i c _
    cases c with
    | read address next => exact fun _ => hmore _ _
    | write address value next => exact hmore _ _
  · exact hnext _ _

theorem always_readModifyWrite (op : ModifyOp) (p : Progress) (r : Registers) :
    (readModifyWrite op p r).Always (Plain p.cycle) := by
  unfold readModifyWrite
  split
  · exact fun _ => rfl
  · exact rfl
  · exact trivial

/-- Only branches fetch opcodes. -/
theorem always_cycle {s : Sequence} (hs : ∀ c, s ≠ .branch c) (p : Progress) (r : Registers) :
    (s.cycle p r).Always (Plain p.cycle) := by
  cases s with
  | data mode op => exact always_atTarget (fun _ _ => rfl) fun _ _ _ => trivial
  | store mode op => exact always_atTarget (fun _ _ => rfl) fun _ _ => trivial
  | modify mode op => exact always_atTarget (fun _ _ => rfl) fun _ _ => always_readModifyWrite op _ _
  | branch c => exact absurd rfl (hs c)
  | accumulator | register | jam | unsupported => simp [cycle, Plain]
  | _ =>
    simp only [cycle, forceBreak, interrupt, start, call, returnFromCall, returnFromInterrupt, jump,
      jumpIndirect, pushByte, pullByte]
    split <;> simp [push, vectorLow, vectorHigh, Plain, Progress.keep, Progress.setAddress]

/-- A cycle goes on, ends, or ends a branch with the next opcode. -/
theorem run_cases (s : Sequence) (p : Progress) (r : Registers) {β : Type u} [Bus β] (bus : β) :
    (∃ q r', ((s.cycle p r).run bus).1 = .more q r' ∧ q.cycle = p.cycle) ∨
      (∃ q r', ((s.cycle p r).run bus).1 = .done q r' ∧ ∀ c, s ≠ .branch c) ∨
        ∃ q r' opcode c, ((s.cycle p r).run bus).1 = .prefetched q r' opcode ∧ s = .branch c := by
  by_cases hs : ∃ c, s = .branch c
  · obtain ⟨c, rfl⟩ := hs
    obtain ⟨next, hcycle, hnext⟩ := branchOn_spec c p r
    rw [show (branch c).cycle p r = _ from hcycle, Cycle.run_read]
    rcases hnext (Bus.read bus r.pc).1 with ⟨q, r', h, hq⟩ | h
    · exact .inl ⟨q, r', h, hq⟩
    · exact .inr (.inr ⟨p, _, _, c, h, rfl⟩)
  · have hb : ∀ c, s ≠ .branch c := fun c h => hs ⟨c, h⟩
    have hp := (always_cycle hb p r).run bus
    cases h : ((s.cycle p r).run bus).1 with
    | more q r' => exact .inl ⟨q, r', rfl, by rwa [h] at hp⟩
    | done q r' => exact .inr (.inl ⟨q, r', rfl, hb⟩)
    | prefetched q r' opcode =>
        rw [h] at hp
        exact hp.elim

end Sequence

/-! ## All the ways a tick may go -/

namespace Processor

variable {β : Type u} [Bus β]

/-- What a tick may come to, with what it found. -/
inductive Ticks (p : Processor) (bus : β) : Turn × β → Prop
  | reported {e : UnsupportedOpcode} (hr : p.refusal = some e) :
      p.Ticks bus (⟨.refused e, { p with refusal := none }, []⟩, bus)
  | entered {source : Interrupt} (hr : p.refusal = none) (hi : p.inFlight = none)
      (hd : p.dueInterrupt = some source) :
      p.Ticks bus (p.counted.enter source, (Bus.read bus p.regs.pc).2)
  | fetched {opcode : Byte} {bus' : β} (hr : p.refusal = none) (hi : p.inFlight = none)
      (hd : p.dueInterrupt = none) : p.Ticks bus (p.counted.fetched opcode, bus')
  | advanced {i : Instruction} {q : Progress} {r : Registers} {bus' : β} (hr : p.refusal = none)
      (hi : p.inFlight = some i) (hq : q.cycle = i.progress.cycle) :
      p.Ticks bus
        (⟨.unfinished, { p.counted with regs := r, inFlight := some { i with progress := q.tick } },
          []⟩, bus')
  | ended {i : Instruction} {r : Registers} {bus' : β} (hr : p.refusal = none)
      (hi : p.inFlight = some i) (hs : ∀ c, i.sequence ≠ .branch c) :
      p.Ticks bus ((p.counted.retired r).complete i.prefetched, bus')
  | branched {i : Instruction} {c : Condition} {r : Registers} {opcode : Byte} {bus' : β}
      (hr : p.refusal = none) (hi : p.inFlight = some i) (hs : i.sequence = .branch c) :
      p.Ticks bus ((p.counted.retired r).complete (some opcode), bus')

/-- A tick goes one of these ways. -/
theorem ticks (p : Processor) (bus : β) : p.Ticks bus (p.tick bus) := by
  cases hr : p.refusal with
  | some e =>
      rw [tick_of_refusal hr]
      exact .reported hr
  | none =>
      cases hi : p.inFlight with
      | none =>
          cases hd : p.dueInterrupt with
          | some source =>
              rw [tick_of_due hr hi hd]
              exact .entered hr hi hd
          | none =>
              rw [tick_of_fetch hr hi hd]
              exact .fetched hr hi hd
      | some i =>
          rw [tick_of_inFlight hr hi]
          rcases i.sequence.run_cases i.progress p.regs bus with
            ⟨q, r, h, hq⟩ | ⟨q, r, h, hs⟩ | ⟨q, r, opcode, c, h, hs⟩
          · rw [h, settle_more]
            exact .advanced hr hi hq
          · rw [h]
            exact .ended (i := i) hr hi hs
          · rw [h, settle_prefetched]
            exact .branched hr hi hs

end Processor

end Mos6502
