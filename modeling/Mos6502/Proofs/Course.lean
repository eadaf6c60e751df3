import Mos6502.Instruction.Sequence
import Mos6502.Proofs.Script

/-!
# The course of a sequence

Running a sequence cycle after cycle unrolls it into a script (`Sequence.unroll`), and
`Sequence.course` is that script in closed form: the accesses of the whole instruction in their
order, without any state carried between them.  The two are equal (`Sequence.unroll_cycle`), so
nothing else has to look at single cycles.
-/

universe u

namespace Mos6502

/-- How an instruction ends: what it leaves in the registers, and the opcode it has fetched. -/
structure Ending where
  regs : Registers
  prefetched : Option Byte := none
deriving DecidableEq, Repr

/-- The end of an instruction that has fetched no opcode. -/
def Script.ends (r : Registers) : Script (Option Ending) := .done (some { regs := r })

namespace Sequence

/-- Run so many cycles, each of them as `body` has it, or fewer if there is an end before. -/
def unroll (body : Progress → Registers → Cycle Stage) :
    Nat → Progress → Registers → Script (Option Ending)
  | 0, _, _ => .done none
  | limit + 1, p, r =>
    .ofCycle (body p r) fun
      | .more p r => unroll body limit p.tick r
      | .done _ r => .ends r
      | .prefetched _ r opcode => .done (some ⟨r, some opcode⟩)

/-! ## Addresses -/

/-- The last access to an indexed address: a read without the carry, unless it can be left out. -/
def correcting (correction : Correction) (hi lo index : Byte) (r : Registers) :
    Script (Word × Registers) :=
  let address := Word.ofBytes hi lo + index.setWidth 16
  if 0xFF < lo.toNat + index.toNat ∨ correction = .always then
    .read (Word.ofBytes hi (lo + index)) fun _ => .done (address, r)
  else .done (address, r)

/-- The accesses that find an operand's address. -/
def locating (correction : Correction) (r : Registers) : Mode → Script (Word × Registers)
  | .immediate => .done (r.pc, r.advancePc)
  | .zeroPage => .read r.pc fun z => .done (Word.ofBytes 0 z, r.advancePc)
  | .zeroPageIndexed index =>
    .read r.pc fun z =>
      .read (Word.ofBytes 0 z) fun _ => .done (Word.ofBytes 0 (z + index.value r), r.advancePc)
  | .absolute =>
    .read r.pc fun lo =>
      .read (r.pc + 1) fun hi => .done (Word.ofBytes hi lo, r.advancePc.advancePc)
  | .absoluteIndexed index =>
    .read r.pc fun lo =>
      .read (r.pc + 1) fun hi => correcting correction hi lo (index.value r) r.advancePc.advancePc
  | .indexedIndirect =>
    .read r.pc fun z =>
      .read (Word.ofBytes 0 z) fun _ =>
        .read (Word.ofBytes 0 (z + r.x)) fun lo =>
          .read (Word.ofBytes 0 (z + r.x + 1)) fun hi => .done (Word.ofBytes hi lo, r.advancePc)
  | .indirectIndexed =>
    .read r.pc fun z =>
      .read (Word.ofBytes 0 z) fun lo =>
        .read (Word.ofBytes 0 (z + 1)) fun hi => correcting correction hi lo r.y r.advancePc

end Sequence

theorem Index.value_advancePc (index : Index) (r : Registers) :
    index.value r.advancePc = index.value r := by
  cases index <;> rfl

theorem Word.ofBytes_low_ofBytes (hi hi' lo : Byte) :
    ofBytes hi (ofBytes hi' lo).low = ofBytes hi lo :=
  congrArg (ofBytes hi) (low_ofBytes hi' lo)

theorem Word.ofBytes_add (hi lo index : Byte) :
    ofBytes hi lo + index.setWidth 16 =
      if 0xFF < lo.toNat + index.toNat then ofBytes hi (lo + index) + 0x100
      else ofBytes hi (lo + index) := by
  have hhi := hi.isLt
  have hlo := lo.isLt
  have hindex := index.isLt
  split
  all_goals
    apply BitVec.eq_of_toNat_eq
    simp only [BitVec.toNat_add, toNat_ofBytes, BitVec.toNat_setWidth,
      show (0x100 : Word).toNat = 256 from rfl]
    omega

namespace Target

theorem ready_addCarry (t : Target) : t.addCarry.ready = t.ready := by
  unfold addCarry
  split <;> rfl

/-- The carry that waits has reached the high byte. -/
theorem address_addCarry_addIndex {t : Target} {lo : Byte} (h : t.address.low = lo)
    (hi index : Byte) :
    (t.addIndex hi index).addCarry.address = Word.ofBytes hi lo + index.setWidth 16 := by
  rw [Word.ofBytes_add, addCarry]
  simp only [addIndex, h, decide_eq_true_eq]
  split <;> rfl

/-- The correcting cycle is spent. -/
theorem correct_of_crossed {t : Target} {correction : Correction}
    (h : t.crossed = true ∨ correction = .always) (r : Registers) :
    t.correct correction r = peek r t.address fun _ => t.addCarry := by
  rw [correct, if_neg]
  rcases h with h | rfl
  · simp [h]
  · simp

/-- The correcting cycle is left out. -/
theorem correct_of_not_crossed {t : Target} {correction : Correction}
    (h : ¬ (t.crossed = true ∨ correction = .always)) (r : Registers) :
    t.correct correction r = t.settled r := by
  rw [not_or, Bool.not_eq_true] at h
  obtain ⟨hc, ha⟩ := h
  cases correction with
  | ifCrossed => rw [correct, if_pos (by simp [hc])]
  | always => exact absurd rfl ha

end Target

/-! ## Unrolling -/

namespace Sequence

section Operand

variable {mode : Mode} {correction : Correction} {next : Progress → Registers → Cycle Stage}
  {k : Word → Registers → Script (Option Ending)}

theorem atTarget_of_ready {p : Progress} {r r' : Registers} {t : Target}
    (h : p.target.locate p.cycle mode correction r = .ready t r') :
    atTarget mode correction next p r = next { p with target := t } r' := by
  rw [atTarget, h]

/-- Once the address is settled, `k` is the rest of the course. -/
def Continues (mode : Mode) (correction : Correction)
    (next : Progress → Registers → Cycle Stage)
    (k : Word → Registers → Script (Option Ending)) : Prop :=
  ∀ n p r, p.target.ready = true → p.phase = 0 →
    unroll (atTarget mode correction next) (n + 3) p r = k p.target.address r

theorem unroll_settled (hk : Continues mode correction next k) {n : Nat} {p : Progress}
    {r r' : Registers} {t : Target}
    (h : p.target.locate p.cycle mode correction r = .ready t r') (ht : t.ready = true)
    (hp : p.phase = 0) :
    unroll (atTarget mode correction next) (n + 3) p r = k t.address r' := by
  -- The cycle that settles the address goes on as if it had been settled before.
  have hready : unroll (atTarget mode correction next) (n + 3) p r =
      unroll (atTarget mode correction next) (n + 3) { p with target := t } r' := by
    have hlocate : t.locate p.cycle mode correction r' = .ready t r' :=
      Target.locate_of_ready ht ..
    rw [unroll, unroll, atTarget_of_ready h,
      atTarget_of_ready (p := { p with target := t }) hlocate]
  rw [hready]
  exact hk n { p with target := t } r' ht hp

theorem unroll_correcting (hk : Continues mode correction next k) {n : Nat} {p : Progress}
    {r : Registers} {t : Target} {hi lo index : Byte} (hlo : t.address.low = lo)
    (h : p.target.locate p.cycle mode correction r = (t.addIndex hi index).correct correction r)
    (h' : (t.addIndex hi index).addCarry.locate p.tick.cycle mode correction r =
      (t.addIndex hi index).addCarry.settled r)
    (hp : p.phase = 0) :
    unroll (atTarget mode correction next) (n + 4) p r =
      (correcting correction hi lo index r).bind fun x => k x.1 x.2 := by
  have haddress := Target.address_addCarry_addIndex hlo hi index
  have hcrossed : (t.addIndex hi index).crossed = true ↔ 0xFF < lo.toNat + index.toNat := by
    rw [← hlo]
    exact decide_eq_true_iff
  by_cases hc : 0xFF < lo.toNat + index.toNat ∨ correction = .always
  · have hpeek : (t.addIndex hi index).address = Word.ofBytes hi (lo + index) := by
      rw [← hlo]
      rfl
    rw [correcting, if_pos hc, unroll, atTarget, h,
      Target.correct_of_crossed (by rwa [hcrossed]), hpeek]
    refine Script.read_congr fun _ => ?_
    refine (unroll_settled hk (n := n)
      (p := { p.tick with target := (t.addIndex hi index).addCarry }) h' rfl hp).trans ?_
    exact congrArg (k · r) haddress
  · have hsettled := Target.correct_of_not_crossed (t := t.addIndex hi index) (r := r)
      (by rwa [hcrossed])
    have hnone : (t.addIndex hi index).addCarry = t.addIndex hi index := by
      rw [Target.addCarry, if_neg (fun h => hc (.inl (hcrossed.mp h)))]
    rw [hnone] at haddress
    rw [correcting, if_neg hc]
    refine (unroll_settled hk (h.trans hsettled) rfl hp).trans ?_
    exact congrArg (k · r) haddress

/-- The cycles up to the address, followed by the instruction's own. -/
theorem unroll_atTarget (hk : Continues mode correction next k) (n : Nat) (r : Registers) :
    unroll (atTarget mode correction next) (n + 7) {} r =
      (locating correction r mode).bind fun x => k x.1 x.2 := by
  cases mode with
  | immediate => exact unroll_settled hk (n := n + 4) (p := {}) rfl rfl rfl
  | zeroPage =>
      refine Script.read_congr fun z => ?_
      exact unroll_settled hk (n := n + 3) (p := ⟨2, { address := Word.ofBytes 0 z }, 0, 0⟩)
        rfl rfl rfl
  | zeroPageIndexed index =>
      rw [locating, ← Index.value_advancePc]
      refine Script.read_congr fun z => Script.read_congr fun _ => ?_
      let t : Target :=
        { address := Word.ofBytes 0 (z + index.value r.advancePc), pointer := z }
      exact unroll_settled hk (n := n + 2) (p := ⟨3, t, 0, 0⟩) rfl rfl rfl
  | absolute =>
      refine Script.read_congr fun lo => Script.read_congr fun hi => ?_
      let t : Target := { address := Word.ofBytes hi (Word.ofBytes 0 lo).low }
      refine (unroll_settled hk (n := n + 2) (p := ⟨3, t, 0, 0⟩) rfl rfl rfl).trans ?_
      exact congrArg (k · _) (Word.ofBytes_low_ofBytes hi 0 lo)
  | absoluteIndexed index =>
      rw [locating, ← Index.value_advancePc]
      refine Script.read_congr fun lo => Script.read_congr fun hi => ?_
      let t : Target := { address := Word.ofBytes 0 lo }
      refine unroll_correcting hk (n := n + 1)
        (p := ⟨3, t.addIndex hi (index.value r.advancePc), 0, 0⟩) (Word.low_ofBytes 0 lo) rfl ?_ rfl
      refine if_neg ?_
      rw [Target.ready_addCarry]
      exact Bool.false_ne_true
  | indexedIndirect =>
      refine Script.read_congr fun z => Script.read_congr fun _ => Script.read_congr fun lo =>
        Script.read_congr fun hi => ?_
      let t : Target := { address := Word.ofBytes hi (Word.ofBytes 0 lo).low, pointer := z + r.x }
      refine (unroll_settled hk (n := n) (p := ⟨5, t, 0, 0⟩) rfl rfl rfl).trans ?_
      exact congrArg (k · _) (Word.ofBytes_low_ofBytes hi 0 lo)
  | indirectIndexed =>
      refine Script.read_congr fun z => Script.read_congr fun lo => Script.read_congr fun hi => ?_
      let t : Target := { address := Word.ofBytes 0 lo, pointer := z }
      refine unroll_correcting hk (n := n) (p := ⟨4, t.addIndex hi r.y, 0, 0⟩)
        (Word.low_ofBytes 0 lo) rfl ?_ rfl
      refine if_neg ?_
      rw [Target.ready_addCarry]
      exact Bool.false_ne_true

end Operand

theorem continues_read (mode : Mode) (op : DataOp) :
    Continues mode .ifCrossed (read op) fun a r => .read a fun v => .ends (op.apply r v) := by
  intro n p r hready hphase
  rw [unroll, atTarget_of_ready (Target.locate_of_ready hready ..)]
  rfl

theorem continues_write (mode : Mode) (op : StoreOp) :
    Continues mode .always (write op) fun a r => .write a (op.value r) (.ends r) := by
  intro n p r hready hphase
  rw [unroll, atTarget_of_ready (Target.locate_of_ready hready ..)]
  rfl

theorem continues_readModifyWrite (mode : Mode) (op : ModifyOp) :
    Continues mode .always (readModifyWrite op) fun a r =>
      .read a fun v => .write a v (.write a (op.apply r v).1 (.ends (op.apply r v).2)) := by
  intro n p r hready hphase
  obtain ⟨cycle, ⟨address, pointer, crossed, ready⟩, phase, data⟩ := p
  cases hready
  cases hphase
  rfl

/-! ## The whole course -/

/-- Behind its operand, a branch that is not taken has read the next opcode already.  A taken one
reads at the address without the carry, which is the target if there is none. -/
def branching (condition : Condition) (offset : Byte) (r : Registers) : Script (Option Ending) :=
  let near := Word.ofBytes r.pc.high (r.pc.low + offset)
  let target := r.pc + offset.signExtend 16
  .read r.pc fun opcode =>
    if condition.holds r.p then
      .read near fun opcode =>
        if near = target then .done (some ⟨{ r with pc := near + 1 }, some opcode⟩)
        else .read target fun opcode => .done (some ⟨{ r with pc := target + 1 }, some opcode⟩)
    else .done (some ⟨r.advancePc, some opcode⟩)

/-- Push the program counter and a status byte, and jump through a vector with interrupts disabled.
-/
def entering (status : Byte) (vector : Word) (r : Registers) : Script (Option Ending) :=
  .write r.slot r.pc.high <| .write r.pushed.slot r.pc.low <|
    .write r.pushed.pushed.slot status <|
      .read vector fun lo => .read (vector + 1) fun hi =>
        .ends
          { r.pushed.pushed.pushed with p.interruptDisable := true, pc := Word.ofBytes hi lo }

/-- All the accesses of an instruction behind its opcode.  What locks up or is not executed has no
course. -/
def course : Sequence → Registers → Script (Option Ending)
  | .data mode op, r =>
    (locating .ifCrossed r mode).bind fun x => .read x.1 fun v => .ends (op.apply x.2 v)
  | .store mode op, r =>
    (locating .always r mode).bind fun x => .write x.1 (op.value x.2) (.ends x.2)
  | .modify mode op, r =>
    (locating .always r mode).bind fun x =>
      .read x.1 fun v =>
        .write x.1 v (.write x.1 (op.apply x.2 v).1 (.ends (op.apply x.2 v).2))
  | .accumulator op, r =>
    .read r.pc fun _ => .ends { (op.apply r r.a).2 with a := (op.apply r r.a).1 }
  | .register op, r => .read r.pc fun _ => .ends (op.apply r)
  | .branch condition, r => .read r.pc fun offset => branching condition offset r.advancePc
  | .brk, r =>
    .read r.pc fun _ => entering r.p.instructionCopy Interrupt.irq.vector r.advancePc
  | .entry source, r => .read r.pc fun _ => entering r.p.interruptCopy source.vector r
  | .reset, r =>
    .read r.pc fun _ => .read r.pc fun _ =>
      .read r.slot fun _ => .read r.pushed.slot fun _ => .read r.pushed.pushed.slot fun _ =>
        .read resetVector fun lo => .read (resetVector + 1) fun hi =>
          .ends
            { r.pushed.pushed.pushed with p.interruptDisable := true, pc := Word.ofBytes hi lo }
  | .jsr, r =>
    .read r.pc fun lo => .read r.slot fun _ =>
      .write r.slot (r.pc + 1).high <| .write r.pushed.slot (r.pc + 1).low <|
        .read (r.pc + 1) fun hi => .ends { r.pushed.pushed with pc := Word.ofBytes hi lo }
  | .rts, r =>
    .read r.pc fun _ => .read r.slot fun _ =>
      .read r.popped.slot fun lo => .read r.popped.popped.slot fun hi =>
        .read (Word.ofBytes hi lo) fun _ =>
          .ends { r.popped.popped with pc := Word.ofBytes hi lo + 1 }
  | .rti, r =>
    .read r.pc fun _ => .read r.slot fun _ =>
      .read r.popped.slot fun status => .read r.popped.popped.slot fun lo =>
        .read r.popped.popped.popped.slot fun hi =>
          .ends
            { r.popped.popped.popped with p := Status.ofByte status, pc := Word.ofBytes hi lo }
  | .jmp, r =>
    .read r.pc fun lo => .read (r.pc + 1) fun hi => .ends { r with pc := Word.ofBytes hi lo }
  | .jmpIndirect, r =>
    .read r.pc fun lo => .read (r.pc + 1) fun hi =>
      .read (Word.ofBytes hi lo) fun lo' => .read (Word.ofBytes hi (lo + 1)) fun hi' =>
        .ends { r with pc := Word.ofBytes hi' lo' }
  | .pha, r => .read r.pc fun _ => .write r.slot r.a (.ends r.pushed)
  | .php, r => .read r.pc fun _ => .write r.slot r.p.instructionCopy (.ends r.pushed)
  | .pla, r =>
    .read r.pc fun _ => .read r.slot fun _ =>
      .read r.popped.slot fun v => .ends (r.popped.setA v)
  | .plp, r =>
    .read r.pc fun _ => .read r.slot fun _ =>
      .read r.popped.slot fun v => .ends { r.popped with p := Status.ofByte v }
  | .jam, _ | .unsupported, _ => .done none

theorem unroll_branch (condition : Condition) (n : Nat) (r : Registers) :
    unroll (branchOn condition) (n + 7) {} r =
      .read r.pc fun offset => branching condition offset r.advancePc := by
  refine Script.read_congr fun offset => Script.read_congr fun opcode => ?_
  dsimp only
  by_cases htaken : condition.holds r.advancePc.p
  · rw [if_pos htaken, if_pos htaken]
    refine Script.read_congr fun opcode => ?_
    dsimp only
    by_cases hnear : Word.ofBytes r.advancePc.pc.high (r.advancePc.pc.low + offset) =
      r.advancePc.pc + offset.signExtend 16
    · rw [if_pos hnear, if_pos (by exact hnear)]
      rfl
    · rw [if_neg hnear, if_neg (by exact hnear)]
      rfl
  · rw [if_neg htaken, if_neg htaken]

/-- The last two cycles of an indirect jump, once its operand is known. -/
theorem unroll_jumpIndirect (n : Nat) (pointer : Word) (r : Registers) :
    unroll jumpIndirect (n + 2) ⟨3, { address := pointer }, 0, 0⟩ r =
      .read pointer fun lo => .read (Word.ofBytes pointer.high (pointer.low + 1)) fun hi =>
        .ends { r with pc := Word.ofBytes hi lo } :=
  rfl

/-- **A sequence runs its course.**  Seven cycles are enough for every sequence that ends. -/
theorem unroll_cycle {s : Sequence} (hj : s ≠ .jam) (hu : s ≠ .unsupported) (n : Nat)
    (r : Registers) : unroll s.cycle (n + 7) {} r = s.course r := by
  -- Where a word is read byte by byte, the low one is kept as an address in page zero.
  cases s with
  | data mode op => exact unroll_atTarget (continues_read mode op) n r
  | store mode op => exact unroll_atTarget (continues_write mode op) n r
  | modify mode op => exact unroll_atTarget (continues_readModifyWrite mode op) n r
  | jam => exact absurd rfl hj
  | unsupported => exact absurd rfl hu
  | accumulator | register | jmp | pha | php | pla | plp | jsr => rfl
  | branch condition => exact unroll_branch condition n r
  | brk | entry =>
      refine Script.read_congr fun _ => Script.write_congr <| Script.write_congr <|
        Script.write_congr <| Script.read_congr fun lo => Script.read_congr fun hi => ?_
      rw [← Word.ofBytes_low_ofBytes hi 0 lo]
      rfl
  | reset =>
      refine Script.read_congr fun _ => Script.read_congr fun _ => Script.read_congr fun _ =>
        Script.read_congr fun _ => Script.read_congr fun _ => Script.read_congr fun lo =>
          Script.read_congr fun hi => ?_
      rw [← Word.ofBytes_low_ofBytes hi 0 lo]
      rfl
  | rts =>
      refine Script.read_congr fun _ => Script.read_congr fun _ => Script.read_congr fun lo =>
        Script.read_congr fun hi => ?_
      rw [← Word.ofBytes_low_ofBytes hi 0 lo]
      rfl
  | rti =>
      refine Script.read_congr fun _ => Script.read_congr fun _ => Script.read_congr fun status =>
        Script.read_congr fun lo => Script.read_congr fun hi => ?_
      rw [← Word.ofBytes_low_ofBytes hi 0 lo]
      rfl
  | jmpIndirect =>
      refine Script.read_congr fun lo => Script.read_congr fun hi => ?_
      let pointer : Word := Word.ofBytes hi (Word.ofBytes 0 lo).low
      have hpointer : pointer = Word.ofBytes hi lo := Word.ofBytes_low_ofBytes hi 0 lo
      refine (unroll_jumpIndirect (n + 3) pointer r.advancePc.advancePc).trans ?_
      rw [hpointer, Word.high_ofBytes, Word.low_ofBytes]
      rfl

end Sequence

end Mos6502
