import Mos6502.Proofs.Course
import Mos6502.Proofs.InstructionSet.Arithmetic

/-!
# Courses on flat memory

On flat memory a read changes nothing, and an access that is only there to fill its cycle is
without effect.  What is left of the course of an instruction is its execution (`run_course`).
-/

namespace Mos6502

/-- The registers at a boundary, where an opcode that was fetched ahead is yet to be fetched. -/
def Ending.boundary (e : Ending) : Registers :=
  match e.prefetched with
  | none => e.regs
  | some _ => { e.regs with pc := e.regs.pc - 1 }

namespace InstructionSet

/-! ## Words as numbers -/

theorem ofNat_toNat_word (w : Word) : BitVec.ofNat 16 w.toNat = w := BitVec.eq_of_toNat_eq (by simp)

theorem ofNat_add (w : Word) (n : Nat) :
    BitVec.ofNat 16 (w.toNat + n) = w + BitVec.ofNat 16 n :=
  BitVec.eq_of_toNat_eq (by simp [BitVec.toNat_add])

theorem ofNat_mod (n : Nat) : BitVec.ofNat 16 (n % 65536) = BitVec.ofNat 16 n :=
  BitVec.eq_of_toNat_eq (by simp)

theorem ofBytes_eq (hi lo : Byte) :
    Word.ofBytes hi lo = BitVec.ofNat 16 (lo.toNat + 256 * hi.toNat) :=
  BitVec.eq_of_toNat_eq (by rw [Word.toNat_ofBytes, BitVec.toNat_ofNat]; omega)

theorem ofBytes_add_eq (hi lo index : Byte) :
    Word.ofBytes hi lo + index.setWidth 16 =
      BitVec.ofNat 16 (lo.toNat + 256 * hi.toNat + index.toNat) := by
  rw [ofBytes_eq]
  exact BitVec.eq_of_toNat_eq (by simp [BitVec.toNat_add])

theorem zeroPage_eq (z : Byte) : Word.ofBytes 0 z = BitVec.ofNat 16 z.toNat := by
  rw [ofBytes_eq]
  rfl

theorem zeroPage_add (z index : Byte) :
    Word.ofBytes 0 (z + index) = BitVec.ofNat 16 ((z.toNat + index.toNat) % 256) := by
  rw [zeroPage_eq, BitVec.toNat_add]

theorem zeroPage_add_succ (z index : Byte) :
    Word.ofBytes 0 (z + index + 1) = BitVec.ofNat 16 ((z.toNat + index.toNat + 1) % 256) := by
  rw [zeroPage_eq, toNat_inc, BitVec.toNat_add, Nat.mod_add_mod]

theorem signExtend_eq (v : Byte) : v.signExtend 16 = BitVec.ofInt 16 (signed v.toNat) := by
  rw [BitVec.signExtend, BitVec.toInt_eq_toNat_cond, signed]
  congr 1
  split <;> split <;> omega

/-! ## Steps of the state -/

namespace State

/-- The program counter a number of bytes on. -/
theorem goto_add (s : State) (n : Nat) :
    s.goto (s.pc + n) = { s with regs.pc := s.regs.pc + BitVec.ofNat 16 n } := by
  rw [goto, pc, ofNat_add]

theorem goto_one (s : State) : s.goto (s.pc + 1) = { s with regs := s.regs.advancePc } :=
  goto_add s 1

theorem advancePc_eq (s : State) :
    s.regs.advancePc = { s.regs with pc := BitVec.ofNat 16 (s.pc + 1) } :=
  (congrArg regs (goto_one s)).symm

theorem goto_two (s : State) :
    s.goto (s.pc + 2) = { s with regs := s.regs.advancePc.advancePc } := by
  rw [goto_add, Registers.advancePc, Registers.advancePc, BitVec.add_assoc]
  rfl

theorem goto_three (s : State) :
    s.goto (s.pc + 3) = { s with regs := s.regs.advancePc.advancePc.advancePc } := by
  rw [goto_add, Registers.advancePc, Registers.advancePc, Registers.advancePc, BitVec.add_assoc,
    BitVec.add_assoc]
  rfl

theorem goto_bytes (s : State) (lo hi : Byte) :
    s.goto (lo.toNat + 256 * hi.toNat) = { s with regs.pc := Word.ofBytes hi lo } := by
  rw [goto, ofBytes_eq]

theorem goto_bytes_succ (s : State) (lo hi : Byte) :
    s.goto (lo.toNat + 256 * hi.toNat + 1) = { s with regs.pc := Word.ofBytes hi lo + 1 } := by
  have h : (Word.ofBytes hi lo).toNat = lo.toNat + 256 * hi.toNat := by
    rw [Word.toNat_ofBytes, Nat.add_comm]
  rw [goto, ← h, ofNat_add]
  rfl

theorem code_zero (s : State) : s.code 0 = (s.memory.read s.regs.pc).toNat := by
  rw [code, peek, pc, Nat.add_zero, ofNat_toNat_word]

theorem code_one (s : State) : s.code 1 = (s.memory.read s.regs.advancePc.pc).toNat := by
  rw [code, peek, pc, ofNat_add]
  rfl

theorem code_two (s : State) : s.code 2 = (s.memory.read (s.regs.advancePc.pc + 1)).toNat := by
  rw [code, peek, pc, ofNat_add, Registers.advancePc, BitVec.add_assoc]
  rfl

theorem push_eq (s : State) (v : Byte) :
    s.push v.toNat = ⟨s.regs.pushed, s.memory.write s.regs.slot v⟩ := by
  have hslot : BitVec.ofNat 16 (256 + s.regs.s.toNat) = s.regs.slot := by
    rw [Registers.slot, ofBytes_eq, Nat.add_comm]
    rfl
  have hs : BitVec.ofNat 8 (s.regs.s.toNat + 255) = s.regs.s - 1 :=
    BitVec.eq_of_toNat_eq (by rw [toNat_dec]; simp)
  rw [push, poke, hslot, ofNat_toNat, hs]
  rfl

theorem pull_eq (s : State) :
    s.pull = ((s.memory.read s.regs.popped.slot).toNat, ⟨s.regs.popped, s.memory⟩) := by
  have hs : BitVec.ofNat 8 ((s.regs.s.toNat + 1) % 256) = s.regs.s + 1 := by
    rw [← toNat_inc, ofNat_toNat]
  have hslot : BitVec.ofNat 16 (256 + (s.regs.s.toNat + 1) % 256) = s.regs.popped.slot := by
    rw [Registers.slot, ofBytes_eq, Nat.add_comm, ← toNat_inc]
    rfl
  simp only [pull, peek]
  rw [hs, hslot]
  rfl

end State

/-! ## Addresses -/

theorem run_correcting (correction : Correction) (hi lo index : Byte) (r : Registers)
    (m : Memory) :
    (Sequence.correcting correction hi lo index r).run m =
      ((BitVec.ofNat 16 ((lo.toNat + 256 * hi.toNat + index.toNat) % 65536), r), m) := by
  rw [Sequence.correcting, ofNat_mod, ← ofBytes_add_eq]
  split <;> rfl

/-- The accesses that find an operand's address leave memory as it is. -/
theorem run_locating (correction : Correction) (mode : Mode) (s : State) :
    (Sequence.locating correction s.regs.advancePc mode).run s.memory =
      ((BitVec.ofNat 16 (address mode s), (s.goto (s.pc + length mode)).regs), s.memory) := by
  cases mode with
  | immediate =>
      rw [address, length, State.goto_two, State.pc, ofNat_add]
      rfl
  | zeroPage =>
      rw [address, length, State.goto_two, State.code_one, ← zeroPage_eq]
      rfl
  | zeroPageIndexed index =>
      rw [address, length, State.goto_two, State.code_one, ← toNat_index, ← zeroPage_add,
        ← Index.value_advancePc]
      rfl
  | absolute =>
      rw [address, length, State.goto_three, State.code_one, State.code_two, ← ofBytes_eq]
      rfl
  | absoluteIndexed index =>
      rw [address, length, State.goto_three, State.code_one, State.code_two, ← toNat_index,
        ← Index.value_advancePc, Sequence.locating]
      exact run_correcting ..
  | indexedIndirect =>
      rw [address, length, State.goto_two, State.code_one, State.peekWord, State.peek, State.peek,
        ← zeroPage_add, ← zeroPage_add_succ, ← ofBytes_eq]
      rfl
  | indirectIndexed =>
      have hsucc : ∀ z : Byte, BitVec.ofNat 16 ((z.toNat + 1) % 256) = Word.ofBytes 0 (z + 1) := by
        intro z
        rw [zeroPage_eq, toNat_inc]
      rw [address, length, State.goto_two, State.code_one, State.peekWord, State.peek, State.peek,
        hsucc, ← zeroPage_eq]
      exact run_correcting ..

/-! ## Operations leave the program counter alone -/

theorem apply_data_pc (op : DataOp) (r : Registers) (v : Byte) (pc : Word) :
    op.apply { r with pc } v = { op.apply r v with pc } := by
  cases op <;> rfl

theorem apply_modify_pc (op : ModifyOp) (r : Registers) (v : Byte) (pc : Word) :
    op.apply { r with pc } v = ((op.apply r v).1, { (op.apply r v).2 with pc }) := by
  cases op <;> rfl

theorem apply_register_pc (op : RegisterOp) (r : Registers) (pc : Word) :
    op.apply { r with pc } = { op.apply r with pc } := by
  cases op <;> rfl

theorem value_pc (op : StoreOp) (r : Registers) (pc : Word) :
    op.value { r with pc } = op.value r := by
  cases op <;> rfl

/-! ## Execution -/

/-- The end of a course that has executed an instruction. -/
def ended (s : State) : Option Ending × Memory := (some { regs := s.regs }, s.memory)

theorem run_data (mode : Mode) (op : DataOp) (s : State) :
    (Sequence.course (.data mode op) s.regs.advancePc).run s.memory =
      ended (execute (.data mode op) s) := by
  rw [Sequence.course, Script.run_bind, run_locating]
  show ended ⟨op.apply { s.regs with pc := BitVec.ofNat 16 (s.pc + length mode) }
    (s.memory.read (BitVec.ofNat 16 (address mode s))), s.memory⟩ = _
  rw [apply_data_pc, apply_data]
  rfl

theorem run_store (mode : Mode) (op : StoreOp) (s : State) :
    (Sequence.course (.store mode op) s.regs.advancePc).run s.memory =
      ended (execute (.store mode op) s) := by
  rw [Sequence.course, Script.run_bind, run_locating]
  show ended ⟨(s.goto (s.pc + length mode)).regs, s.memory.write (BitVec.ofNat 16 (address mode s))
    (op.value { s.regs with pc := BitVec.ofNat 16 (s.pc + length mode) })⟩ = _
  rw [value_pc, execute, State.poke, ← toNat_value, ofNat_toNat]
  rfl

/-- Of two writes to one address the second counts. -/
theorem write_write (m : Memory) (a : Word) (v w : Byte) :
    (m.write a v).write a w = m.write a w := by
  refine Memory.ext_read fun b => ?_
  by_cases h : b = a
  · rw [h, Memory.read_write_self, Memory.read_write_self]
  · rw [Memory.read_write_of_ne _ _ h, Memory.read_write_of_ne _ _ h,
      Memory.read_write_of_ne _ _ h]

theorem run_modify (mode : Mode) (op : ModifyOp) (s : State) :
    (Sequence.course (.modify mode op) s.regs.advancePc).run s.memory =
      ended (execute (.modify mode op) s) := by
  let a : Word := BitVec.ofNat 16 (address mode s)
  let pc : Word := BitVec.ofNat 16 (s.pc + length mode)
  rw [Sequence.course, Script.run_bind, run_locating]
  show ended ⟨(op.apply { s.regs with pc } (s.memory.read a)).2,
    (s.memory.write a (s.memory.read a)).write a
      (op.apply { s.regs with pc } (s.memory.read a)).1⟩ = _
  rw [write_write, apply_modify_pc, apply_modify_eq]
  rfl

theorem run_accumulator (op : ModifyOp) (s : State) :
    (Sequence.course (.accumulator op) s.regs.advancePc).run s.memory =
      ended (execute (.accumulator op) s) := by
  let pc : Word := BitVec.ofNat 16 (s.pc + 1)
  rw [s.advancePc_eq]
  show ended ⟨{ (op.apply { s.regs with pc } s.regs.a).2 with
    a := (op.apply { s.regs with pc } s.regs.a).1 }, s.memory⟩ = _
  rw [apply_modify_pc, apply_modify_eq]
  rfl

theorem run_register (op : RegisterOp) (s : State) :
    (Sequence.course (.register op) s.regs.advancePc).run s.memory =
      ended (execute (.register op) s) := by
  let pc : Word := BitVec.ofNat 16 (s.pc + 1)
  rw [s.advancePc_eq]
  show ended ⟨op.apply { s.regs with pc }, s.memory⟩ = _
  rw [apply_register_pc, apply_register]
  rfl

/-! ### Stack and jumps -/

theorem pc_add_two (s : State) : BitVec.ofNat 16 (s.pc + 2) = s.regs.advancePc.advancePc.pc :=
  congrArg (·.regs.pc) (State.goto_two s)

/-- The address behind an operand of one byte, in its two halves. -/
theorem back_eq (s : State) :
    (s.pc + 2) % 65536 / 256 = s.regs.advancePc.advancePc.pc.high.toNat ∧
      (s.pc + 2) % 65536 % 256 = s.regs.advancePc.advancePc.pc.low.toNat := by
  rw [Word.toNat_high, Word.toNat_low, ← pc_add_two]
  exact ⟨rfl, rfl⟩

theorem run_brk (s : State) :
    (Sequence.course .brk s.regs.advancePc).run s.memory = ended (execute .brk s) := by
  obtain ⟨hhigh, hlow⟩ := back_eq s
  simp only [execute]
  rw [hhigh, hlow, ← toNat_instructionCopy, State.push_eq, State.push_eq, State.push_eq,
    State.peekWord, State.peek, State.peek, State.goto_bytes]
  rfl

theorem run_jsr (s : State) :
    (Sequence.course .jsr s.regs.advancePc).run s.memory = ended (execute .jsr s) := by
  obtain ⟨hhigh, hlow⟩ := back_eq s
  simp only [execute]
  rw [hhigh, hlow, State.push_eq, State.push_eq, State.code_one, State.peek, pc_add_two,
    State.goto_bytes]
  rfl

theorem run_rts (s : State) :
    (Sequence.course .rts s.regs.advancePc).run s.memory = ended (execute .rts s) := by
  simp only [execute, State.pull_eq]
  rw [State.goto_bytes_succ]
  rfl

theorem run_rti (s : State) :
    (Sequence.course .rti s.regs.advancePc).run s.memory = ended (execute .rti s) := by
  simp only [execute, State.pull_eq]
  rw [← ofByte_eq, State.goto_bytes]
  rfl

theorem run_jmp (s : State) :
    (Sequence.course .jmp s.regs.advancePc).run s.memory = ended (execute .jmp s) := by
  rw [execute, State.code_one, State.code_two, State.goto_bytes]
  rfl

theorem run_jmpIndirect (s : State) :
    (Sequence.course .jmpIndirect s.regs.advancePc).run s.memory =
      ended (execute .jmpIndirect s) := by
  simp only [execute]
  rw [State.code_one, State.code_two, ← toNat_inc, State.peekWord, State.peek, State.peek,
    Nat.add_comm (256 * _), Nat.add_comm (256 * _), ← ofBytes_eq, ← ofBytes_eq, State.goto_bytes]
  rfl

theorem run_pha (s : State) :
    (Sequence.course .pha s.regs.advancePc).run s.memory = ended (execute .pha s) := by
  rw [s.advancePc_eq, execute, State.push_eq]
  rfl

theorem run_php (s : State) :
    (Sequence.course .php s.regs.advancePc).run s.memory = ended (execute .php s) := by
  rw [s.advancePc_eq, execute, ← toNat_instructionCopy, State.push_eq]
  rfl

theorem run_pla (s : State) :
    (Sequence.course .pla s.regs.advancePc).run s.memory = ended (execute .pla s) := by
  rw [s.advancePc_eq]
  simp only [execute, State.pull_eq]
  rw [← setA_eq]
  rfl

theorem run_plp (s : State) :
    (Sequence.course .plp s.regs.advancePc).run s.memory = ended (execute .plp s) := by
  rw [s.advancePc_eq]
  simp only [execute, State.pull_eq]
  rw [← ofByte_eq]
  rfl

/-! ### Branches -/

theorem target_eq (s : State) (offset : Byte) :
    BitVec.ofNat 16 ((s.pc + 2 + signed offset.toNat) % 65536).toNat =
      s.regs.advancePc.advancePc.pc + offset.signExtend 16 := by
  rw [signExtend_eq, ← pc_add_two]
  refine BitVec.eq_of_toNat_eq ?_
  rw [BitVec.toNat_add, BitVec.toNat_ofNat, BitVec.toNat_ofNat, BitVec.toNat_ofInt]
  omega

theorem run_branch (condition : Condition) (s : State) :
    ∃ e : Ending, (Sequence.course (.branch condition) s.regs.advancePc).run s.memory =
        (some e, s.memory) ∧
      e.boundary = (execute (.branch condition) s).regs ∧
      e.prefetched = some (s.memory.read e.boundary.pc) := by
  let r : Registers := s.regs.advancePc.advancePc
  let offset : Byte := s.memory.read s.regs.advancePc.pc
  let near : Word := Word.ofBytes r.pc.high (r.pc.low + offset)
  let target : Word := r.pc + offset.signExtend 16
  have hrun : (Sequence.course (.branch condition) s.regs.advancePc).run s.memory =
      (Sequence.branching condition offset r).run s.memory := rfl
  rw [hrun, Sequence.branching, execute, Script.run_read, ← holds_eq]
  by_cases htaken : condition.holds s.regs.p
  · have hexecute : s.goto ((s.pc + 2 + signed (s.code 1)) % 65536).toNat =
        { s with regs.pc := target } := by
      rw [State.code_one, State.goto, target_eq]
    let e : Ending := ⟨{ r with pc := target + 1 }, some (s.memory.read target)⟩
    have hpc : e.boundary = { r with pc := target } := by
      show { r with pc := target + 1 - 1 } = _
      rw [BitVec.add_sub_cancel]
    refine ⟨e, ?_, ?_, ?_⟩
    · rw [if_pos (by exact htaken), Script.run_read]
      by_cases hnear : near = target
      · rw [if_pos (by exact hnear)]
        show (some (⟨{ r with pc := near + 1 }, some (s.memory.read near)⟩ : Ending), s.memory) = _
        rw [hnear]
      · rw [if_neg (by exact hnear)]
        rfl
    · rw [if_pos htaken, hpc, hexecute]
      rfl
    · rw [hpc]
  · let e : Ending := ⟨r.advancePc, some (s.memory.read r.pc)⟩
    have hpc : e.boundary = r := by
      show { r with pc := r.pc + 1 - 1 } = _
      rw [BitVec.add_sub_cancel]
    refine ⟨e, ?_, ?_, ?_⟩
    · rw [if_neg (by exact htaken)]
      rfl
    · rw [if_neg htaken, hpc, State.goto_two]
    · rw [hpc]

/-! ### All instructions -/

/-- Is there anything to execute? -/
def isExecuted : Sequence → Bool
  | .entry _ | .reset | .jam | .unsupported => false
  | _ => true

theorem isExecuted_sequence (opcode : Byte) :
    Opcode.sequence opcode = .jam ∨ Opcode.sequence opcode = .unsupported ∨
      isExecuted (Opcode.sequence opcode) = true := by
  revert opcode
  decide

theorem isExecuted_iff (opcode : Byte) :
    isExecuted (Opcode.sequence opcode) = true ↔
      Opcode.sequence opcode ≠ .jam ∧ Opcode.sequence opcode ≠ .unsupported := by
  revert opcode
  decide

/-- **The course of an instruction is its execution.**  Only a branch fetches an opcode with it. -/
theorem run_course {i : Sequence} (hi : isExecuted i = true) (s : State) :
    ∃ e : Ending,
      (i.course s.regs.advancePc).run s.memory = (some e, (execute i s).memory) ∧
        e.boundary = (execute i s).regs ∧
        (∀ opcode, e.prefetched = some opcode →
          (execute i s).memory.read e.boundary.pc = opcode) ∧
        (e.prefetched.isSome = true ↔ ∃ c, i = .branch c) := by
  by_cases hb : ∃ c, i = .branch c
  · obtain ⟨condition, rfl⟩ := hb
    obtain ⟨e, hrun, hregs, hprefetched⟩ := run_branch condition s
    have hmemory : (execute (.branch condition) s).memory = s.memory := by
      rw [execute]
      split <;> rfl
    refine ⟨e, hmemory ▸ hrun, hregs, fun opcode ho => ?_, ?_⟩
    · rw [hmemory]
      exact Option.some.inj (hprefetched.symm.trans ho)
    · rw [hprefetched]
      exact iff_of_true rfl ⟨condition, rfl⟩
  · have plain : (i.course s.regs.advancePc).run s.memory = ended (execute i s) →
        ∃ e : Ending,
          (i.course s.regs.advancePc).run s.memory = (some e, (execute i s).memory) ∧
            e.boundary = (execute i s).regs ∧
            (∀ opcode, e.prefetched = some opcode →
              (execute i s).memory.read e.boundary.pc = opcode) ∧
            (e.prefetched.isSome = true ↔ ∃ c, i = .branch c) :=
      fun h => ⟨{ regs := (execute i s).regs }, h, rfl, fun opcode ho => (by cases ho),
        iff_of_false Bool.false_ne_true hb⟩
    cases i with
    | data mode op => exact plain (run_data mode op s)
    | store mode op => exact plain (run_store mode op s)
    | modify mode op => exact plain (run_modify mode op s)
    | accumulator op => exact plain (run_accumulator op s)
    | register op => exact plain (run_register op s)
    | branch condition => exact absurd ⟨condition, rfl⟩ hb
    | brk => exact plain (run_brk s)
    | jsr => exact plain (run_jsr s)
    | rts => exact plain (run_rts s)
    | rti => exact plain (run_rti s)
    | jmp => exact plain (run_jmp s)
    | jmpIndirect => exact plain (run_jmpIndirect s)
    | pha => exact plain (run_pha s)
    | php => exact plain (run_php s)
    | pla => exact plain (run_pla s)
    | plp => exact plain (run_plp s)
    | entry | reset | jam | unsupported => cases hi

end InstructionSet

end Mos6502
