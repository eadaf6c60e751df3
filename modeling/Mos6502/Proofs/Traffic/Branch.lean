import Mos6502.Proofs.Traffic.Operand

/-!
# Traffic of branches

A branch reads its operand and the byte behind it, which is the next opcode if it is not taken.  If
it is, which is up to the flag that its opcode tests (`Branches`), the low byte of the program
counter moves first, and the high byte follows a cycle later if it has to; the read in between is at
an address in the page that is left (`BranchReads`).  In all three ways the last read is that of the
opcode at the program counter, and the branch hands it over: it is the only instruction to do so,
and it does so once (`branch_traffic`).
-/

universe u

namespace Mos6502

/-- Where a branch at an address leads if it is taken. -/
def branchTarget (pc : Word) (offset : Byte) : Word := BitVec.ofInt 16 (pc.toNat + 2 + offset.toInt)

/-- The opcodes of the branches, each with the flag that it tests: is it taken with these flags? -/
inductive Branches (p : Status) : Byte → Bool → Prop
  | plus : Branches p 0x10 !p.negative
  | minus : Branches p 0x30 p.negative
  | overflowClear : Branches p 0x50 !p.overflow
  | overflowSet : Branches p 0x70 p.overflow
  | carryClear : Branches p 0x90 !p.carry
  | carrySet : Branches p 0xB0 p.carry
  | notEqual : Branches p 0xD0 !p.zero
  | equal : Branches p 0xF0 p.zero

theorem Branches.exists_sequence {p : Status} {opcode : Byte} {taken : Bool}
    (h : Branches p opcode taken) :
    ∃ c : Condition, Opcode.sequence opcode = .branch c ∧ c.holds p = taken := by
  cases h with
  | plus => exact ⟨⟨.negative, false⟩, rfl, beq_false p.negative⟩
  | minus => exact ⟨⟨.negative, true⟩, rfl, beq_true p.negative⟩
  | overflowClear => exact ⟨⟨.overflow, false⟩, rfl, beq_false p.overflow⟩
  | overflowSet => exact ⟨⟨.overflow, true⟩, rfl, beq_true p.overflow⟩
  | carryClear => exact ⟨⟨.carry, false⟩, rfl, beq_false p.carry⟩
  | carrySet => exact ⟨⟨.carry, true⟩, rfl, beq_true p.carry⟩
  | notEqual => exact ⟨⟨.zero, false⟩, rfl, beq_false p.zero⟩
  | equal => exact ⟨⟨.zero, true⟩, rfl, beq_true p.zero⟩

/-- Those are all the branches. -/
theorem isBranch_iff_branches (opcode : Byte) (p : Status) :
    (Opcode.sequence opcode).isBranch = true ↔ ∃ taken, Branches p opcode taken := by
  have hopcodes : ∀ opcode : Byte, (Opcode.sequence opcode).isBranch = true →
      opcode ∈ [0x10, 0x30, 0x50, 0x70, 0x90, 0xB0, 0xD0, (0xF0 : Byte)] := by
    decide
  constructor
  · intro h
    have hmem := hopcodes opcode h
    simp only [List.mem_cons, List.not_mem_nil, or_false] at hmem
    rcases hmem with rfl | rfl | rfl | rfl | rfl | rfl | rfl | rfl
    · exact ⟨_, .plus⟩
    · exact ⟨_, .minus⟩
    · exact ⟨_, .overflowClear⟩
    · exact ⟨_, .overflowSet⟩
    · exact ⟨_, .carryClear⟩
    · exact ⟨_, .carrySet⟩
    · exact ⟨_, .notEqual⟩
    · exact ⟨_, .equal⟩
  · rintro ⟨taken, h⟩
    obtain ⟨c, hs, -⟩ := h.exists_sequence
    exact Sequence.isBranch_iff.mpr ⟨c, hs⟩

/-- The reads of a branch behind its opcode, if it is not taken or if it is; the last one is at this
address, and reads this opcode.  The registers are those before the opcode of the branch is fetched.
-/
inductive BranchReads (r : Registers) : Bool → List Access → Word → Byte → Prop
  | untaken (d next : Byte) :
      BranchReads r false [.read (r.pc + 1) d, .read (r.pc + 2) next] (r.pc + 2) next
  | taken (d v next : Byte) (hpage : (branchTarget r.pc d).high = (r.pc + 2).high) :
      BranchReads r true
        [.read (r.pc + 1) d, .read (r.pc + 2) v, .read (branchTarget r.pc d) next]
        (branchTarget r.pc d) next
  | takenAcross (d v w next : Byte) (hpage : (branchTarget r.pc d).high ≠ (r.pc + 2).high) :
      BranchReads r true
        [.read (r.pc + 1) d, .read (r.pc + 2) v,
          .read (Word.ofBytes (r.pc + 2).high (branchTarget r.pc d).low) w,
          .read (branchTarget r.pc d) next]
        (branchTarget r.pc d) next

/-! ## Targets -/

theorem branchTarget_eq (pc : Word) (offset : Byte) :
    branchTarget pc offset = pc + 2 + offset.signExtend 16 := by
  have hpc : BitVec.ofInt 16 (pc.toNat + 2) = pc + 2 := by
    rw [BitVec.ofInt_add, BitVec.ofInt_natCast, BitVec.ofNat_toNat, BitVec.setWidth_eq]
    rfl
  rw [branchTarget, BitVec.ofInt_add, hpc]
  rfl

/-- The low byte of the target is that of the address without the carry. -/
theorem Word.low_add_signExtend (w : Word) (offset : Byte) :
    (w + offset.signExtend 16).low = w.low + offset := by
  have hw := w.isLt
  have hoffset := offset.isLt
  refine BitVec.eq_of_toNat_eq ?_
  rw [InstructionSet.signExtend_eq, Word.toNat_low, BitVec.toNat_add, BitVec.toNat_ofInt,
    BitVec.toNat_add, Word.toNat_low, InstructionSet.signed]
  split <;> omega

theorem Word.ofBytes_low_eq_iff (hi : Byte) (w : Word) : ofBytes hi w.low = w ↔ w.high = hi := by
  constructor
  · intro h
    rw [← h, high_ofBytes]
  · rintro rfl
    exact ofBytes_high_low w

theorem Sequence.ends_branch (condition : Condition) (r : Registers) :
    ((Sequence.branch condition).course r.advancePc).Ends fun l e =>
      ∃ last next, BranchReads r (condition.holds r.p) l last next ∧
        e = ⟨{ r with pc := last + 1 }, some next⟩ := by
  intro d v
  have hnext : r.advancePc.advancePc.pc = r.pc + 2 := r.pc_advancePc_add_one
  have hlow := Word.low_add_signExtend (r.pc + 2) d
  have hnear := Word.ofBytes_low_eq_iff (r.pc + 2).high (branchTarget r.pc d)
  rw [← branchTarget_eq] at hlow
  rw [hnext, ← branchTarget_eq, ← hlow]
  dsimp only
  by_cases htaken : condition.holds r.p
  · rw [if_pos (by exact htaken), htaken]
    intro w
    dsimp only
    by_cases hpage : (branchTarget r.pc d).high = (r.pc + 2).high
    · have hsame := hnear.mpr hpage
      rw [if_pos hsame, hsame]
      exact ⟨_, rfl, _, _, .taken d v w hpage, rfl⟩
    · rw [if_neg (mt hnear.mp hpage)]
      intro next
      exact ⟨_, rfl, _, _, .takenAcross d v w next hpage, rfl⟩
  · have hregs : r.advancePc.advancePc.advancePc = { r with pc := r.pc + 2 + 1 } :=
      congrArg Registers.advancePc r.advancePc_advancePc
    rw [if_neg (by exact htaken), hregs, Bool.eq_false_iff.mpr htaken]
    exact ⟨_, rfl, _, _, .untaken d v, rfl⟩

/-! ## What a branch leaves -/

namespace Processor

/-- The next opcode has been fetched ahead, from an address: it is in flight, or waits to be
refused. -/
def withAhead (p : Processor) (address : Word) (opcode : Byte) : Processor :=
  if Opcode.sequence opcode = .unsupported then { p with opcode, refusal := some ⟨address, opcode⟩ }
  else { p with opcode, inFlight := some (.decode opcode) }

theorem processor_complete (p : Processor) (opcode : Byte) :
    (p.complete (some opcode)).processor = p.withAhead (p.regs.pc - 1) opcode := by
  rw [withAhead]
  by_cases hu : Opcode.sequence opcode = .unsupported
  · rw [complete_of_unsupported (beq_of_eq hu), if_pos hu]
  · rw [complete_of_supported (beq_false_of_ne hu), if_neg hu]

theorem finish_of_idle_ahead {p : Processor} (hi : p.inFlight = none) (cycles : UInt64)
    (r : Registers) (address : Word) (opcode : Byte) :
    (p.finish cycles ⟨{ r with pc := address + 1 }, some opcode⟩).processor =
      withAhead { p with regs := { r with pc := address + 1 }, cycles } address opcode := by
  have hpc : address + 1 - 1 = address := BitVec.add_sub_cancel address 1
  have hretired : ({ p with cycles } : Processor).retired { r with pc := address + 1 } =
      { p with regs := { r with pc := address + 1 }, cycles } := by
    cases p
    cases hi
    rfl
  rw [finish, processor_complete, hretired, hpc]

/-- What was fetched last before that does not matter. -/
theorem withAhead_opcode (p : Processor) (address : Word) (opcode opcode' : Byte) :
    withAhead { p with opcode := opcode' } address opcode = p.withAhead address opcode := by
  unfold withAhead
  split <;> rfl

end Processor

/-! ## Handing over an opcode -/

namespace Instruction

/-- What has become of an instruction some cycles later, each of them on any bus and with any
registers, and none of them its last. -/
inductive Later (i : Instruction) : Instruction → Prop
  | now : Later i i
  | cycle {j : Instruction} (h : Later i j) (r : Registers) {β : Type} [Bus β] (bus : β)
      (hd : ((j.advance r).run bus).1.done = false) :
      Later i ((j.advance r).run bus).1.instruction

variable {β : Type u} [Bus β] {i j : Instruction}

/-- A cycle hands over an opcode only if it ends a branch, and then the one it has read. -/
theorem prefetched_advance (h : i.prefetched = none) (r : Registers) (bus : β) :
    ((i.advance r).run bus).1.instruction.prefetched =
      if ((i.advance r).run bus).1.done && i.sequence.isBranch then some (Bus.read bus r.pc).1
      else none := by
  rw [run_advance]
  cases hb : i.sequence.isBranch with
  | true =>
      obtain ⟨c, hs⟩ := Sequence.isBranch_iff.mp hb
      obtain ⟨next, hcycle, hnext⟩ := Sequence.branchOn_spec c i.progress r
      rw [hs, show Sequence.cycle (.branch c) i.progress r = _ from hcycle, Cycle.run_read]
      rcases hnext (Bus.read bus r.pc).1 with ⟨q, r', hmore, -⟩ | hlast
      · rw [hmore]
        exact h
      · rw [hlast]
        rfl
  | false =>
      have hs : ∀ c, i.sequence ≠ .branch c := by
        rintro c hs
        rw [hs] at hb
        cases hb
      have hplain := (Sequence.always_cycle hs i.progress r).run bus
      rw [Bool.and_false]
      cases hstage : ((i.sequence.cycle i.progress r).run bus).1 with
      | more q r' => exact h
      | done q r' => exact h
      | prefetched q r' opcode =>
          rw [hstage] at hplain
          exact hplain.elim

theorem Later.sequence (h : i.Later j) : j.sequence = i.sequence := by
  induction h with
  | now => rfl
  | cycle h r bus hd ih =>
      rw [run_advance, sequence_after]
      exact ih

theorem Later.prefetched (h : i.Later j) (hi : i.prefetched = none) : j.prefetched = none := by
  induction h with
  | now => exact hi
  | cycle h r bus hd ih => rw [prefetched_advance ih r bus, hd]; rfl

end Instruction

namespace Board

variable {β : Type u} [Bus β]

/-- **The traffic of a branch.**  On every bus, where nothing is in flight and neither an interrupt
nor a refusal is due, a step fetches the opcode of a branch, makes the reads of one of the three
ways through it and no other accesses, each with one tick: whether it is taken is up to the flag
that the opcode tests.  It completes with the last one, which is that of the next opcode, and
changes no register but the program counter, which is behind that opcode.  An instruction that has
completed has an opcode to hand over if and only if it is a branch: the one read by its last cycle,
and once. -/
theorem branch_traffic :
    (∀ b : Board β, b.processor.Idle → b.processor.dueInterrupt = none → ∀ taken,
      Branches b.processor.regs.p b.upcoming taken →
      ∃ l last next, BranchReads b.processor.regs taken l last next ∧
        b.Performs (.read b.processor.regs.pc b.upcoming :: l)
          (Processor.withAhead
            { b.processor with
              regs.pc := last + 1
              cycles := b.processor.cyclesAfter (l.length + 1) } last next)) ∧
      (∀ (opcode : Byte) (p : Status),
        (Opcode.sequence opcode).isBranch = true ↔ ∃ taken, Branches p opcode taken) ∧
      ∀ i j : Instruction, i.prefetched = none → i.Later j → ∀ (r : Registers) (bus : β),
        let a := ((j.advance r).run bus).1
        j.takePrefetched.1 = none ∧
          (a.done = true → a.instruction.takePrefetched.1 =
            if i.sequence.isBranch then some (.decode (Bus.read bus r.pc).1) else none) ∧
          a.instruction.takePrefetched.2.takePrefetched.1 = none := by
  refine ⟨fun b hb hd taken hbranch => ?_, isBranch_iff_branches,
    fun i j hi hj r bus => ⟨?_, fun hdone => ?_, rfl⟩⟩
  · obtain ⟨condition, hs, rfl⟩ := hbranch.exists_sequence
    have hends := Sequence.ends_branch condition b.processor.regs
    rw [← hs] at hends
    obtain ⟨l, e, ⟨last, next, hl, rfl⟩, hp⟩ := performs_of_fetch hb hd hends
    let fetched : Processor := { b.processor with opcode := b.upcoming }
    rw [Processor.finish_of_idle_ahead (p := fetched) hb.inFlight] at hp
    refine ⟨l, last, next, hl, ?_⟩
    rw [← Processor.withAhead_opcode _ _ _ b.upcoming]
    exact hp
  · rw [Instruction.takePrefetched, hj.prefetched hi]
    rfl
  · rw [Instruction.takePrefetched, Instruction.prefetched_advance (hj.prefetched hi) r bus, hdone,
      hj.sequence, Bool.true_and]
    split <;> rfl

/-- A branch into the next page, to an opcode that is not executed. -/
def branchingAcrossPage : Board Memory :=
  fresh { pc := 0x00F0 } ((Memory.zeros.put 0x00F0 [0xD0, 0x20]).put 0x0112 [0x8B])

/-- A branch on a clear carry flag, which is set. -/
def passingBranch : Board Memory :=
  fresh { pc := 0x00F0, p := { carry := true } } (Memory.zeros.put 0x00F0 [0x90, 0x20, 0xEA])

theorem branch_traffic_takenAndUntaken :
    (∀ b ∈ [branchingAcrossPage, passingBranch],
      b.processor.Idle ∧ b.processor.dueInterrupt = none) ∧
      Branches branchingAcrossPage.processor.regs.p branchingAcrossPage.upcoming true ∧
      branchingAcrossPage.Performs
        [.read 0x00F0 0xD0, .read 0x00F1 0x20, .read 0x00F2 0x00, .read 0x0012 0x00,
          .read 0x0112 0x8B]
        { branchingAcrossPage.processor with
          regs := { pc := 0x0113 }, opcode := 0x8B, cycles := 5,
          refusal := some ⟨0x0112, 0x8B⟩ } ∧
      Branches passingBranch.processor.regs.p passingBranch.upcoming false ∧
      passingBranch.Performs [.read 0x00F0 0x90, .read 0x00F1 0x20, .read 0x00F2 0xEA]
        { passingBranch.processor with
          regs := { pc := 0x00F3, p := { carry := true } }, opcode := 0xEA, cycles := 3,
          inFlight := some (.decode 0xEA) } := by
  have hidle : ∀ b ∈ [branchingAcrossPage, passingBranch],
      b.processor.Idle ∧ b.processor.dueInterrupt = none := by
    rintro b (_ | ⟨_, _ | ⟨_, hb⟩⟩)
    · exact ⟨⟨rfl, rfl⟩, rfl⟩
    · exact ⟨⟨rfl, rfl⟩, rfl⟩
    · cases hb
  have hopcode : branchingAcrossPage.upcoming = 0xD0 := by decide +kernel
  have hopcode' : passingBranch.upcoming = 0x90 := by decide +kernel
  have htaken : Branches branchingAcrossPage.processor.regs.p branchingAcrossPage.upcoming true :=
    hopcode ▸ .notEqual
  have huntaken : Branches passingBranch.processor.regs.p passingBranch.upcoming false :=
    hopcode' ▸ .carryClear
  refine ⟨hidle, htaken, ?_, huntaken, ?_⟩
  · obtain ⟨l, last, next, hl, hp⟩ := branch_traffic.1 branchingAcrossPage ⟨rfl, rfl⟩ rfl _ htaken
    rw [hopcode] at hp
    obtain rfl : l = [.read 0x00F1 0x20, .read 0x00F2 0x00, .read 0x0012 0x00, .read 0x0112 0x8B] :=
      hp.eq_tail.trans (by decide +kernel)
    cases hl
    exact hp
  · obtain ⟨l, last, next, hl, hp⟩ := branch_traffic.1 passingBranch ⟨rfl, rfl⟩ rfl _ huntaken
    rw [hopcode'] at hp
    obtain rfl : l = [.read 0x00F1 0x20, .read 0x00F2 0xEA] := hp.eq_tail.trans (by decide +kernel)
    cases hl
    exact hp

end Board

end Mos6502
