import Mos6502.Proofs.InstructionSet

/-!
# Operations on numbers

What the processor computes on bit vectors is what the instruction set says of numbers: one equation
for each of the four kinds of operation, and one for the byte form of the status.
-/

namespace Mos6502.InstructionSet

/-! ## Bits as numbers -/

theorem msb_eq (v : Byte) : v.msb = decide (128 ≤ v.toNat) := BitVec.msb_eq_decide v

theorem beq_zero (v : Byte) : (v == 0) = decide (v.toNat = 0) := by
  rw [Bool.eq_iff_iff, beq_iff_eq, decide_eq_true_iff, ← BitVec.toNat_inj]
  rfl

theorem ofNat_toNat (v : Byte) : BitVec.ofNat 8 v.toNat = v := BitVec.eq_of_toNat_eq (by simp)

/-- Bits of a byte as digits. -/
theorem getLsbD_eq (v : Byte) {i n : Nat} (hn : 1 <<< i = n) :
    v.getLsbD i = decide (v.toNat / n % 2 = 1) := by
  rw [BitVec.getLsbD, Nat.testBit_eq_decide_div_mod_eq, ← hn, Nat.one_shiftLeft]

theorem ofResult_eq (p : Status) (v : Byte) : p.ofResult v = judge p v.toNat := by
  rw [Status.ofResult, judge, msb_eq, beq_zero]

theorem setA_eq (r : Registers) (v : Byte) : r.setA v = putA r v.toNat := by
  rw [Registers.setA, putA, ofResult_eq, ofNat_toNat]

theorem setX_eq (r : Registers) (v : Byte) : r.setX v = putX r v.toNat := by
  rw [Registers.setX, putX, ofResult_eq, ofNat_toNat]

theorem setY_eq (r : Registers) (v : Byte) : r.setY v = putY r v.toNat := by
  rw [Registers.setY, putY, ofResult_eq, ofNat_toNat]

/-! ## Sums and differences -/

theorem toNat_inc (v : Byte) : (v + 1).toNat = (v.toNat + 1) % 256 := BitVec.toNat_add v 1

theorem toNat_dec (v : Byte) : (v - 1).toNat = (v.toNat + 255) % 256 := by
  rw [BitVec.toNat_sub, Nat.add_comm]
  rfl

theorem toNat_sub (a v : Byte) : (a - v).toNat = (a.toNat + 256 - v.toNat) % 256 := by
  have hv := v.isLt
  rw [BitVec.toNat_sub]
  congr 1
  omega

theorem overflow_add (a v : Byte) (c : Bool) :
    (Alu.add a v c).overflow = overflows (signed a.toNat + signed v.toNat + c.toNat) := by
  have hsum := Alu.toNat_add a v c
  have hvalue := (Alu.add a v c).value.isLt
  have ha := a.isLt
  have hv := v.isLt
  have hc := c.toNat_le
  have hcarry := (Alu.add a v c).carry.toNat_le
  have hmsb : (Alu.add a v c).overflow =
      ((a.msb ^^ (Alu.add a v c).value.msb) && (v.msb ^^ (Alu.add a v c).value.msb)) := by
    simp [Alu.add, BitVec.msb_and, BitVec.msb_xor]
  rw [hmsb, msb_eq, msb_eq, msb_eq, overflows, signed, signed]
  by_cases h1 : 128 ≤ a.toNat <;> by_cases h2 : 128 ≤ v.toNat <;>
    by_cases h3 : 128 ≤ (Alu.add a v c).value.toNat <;> simp [h1, h2, h3] <;> omega

theorem overflow_sub (a v : Byte) (c : Bool) :
    (Alu.sub a v c).overflow = overflows (signed a.toNat - signed v.toNat - (1 - c.toNat)) := by
  have hdifference := Alu.toNat_sub a v c
  have hvalue := (Alu.sub a v c).value.isLt
  have ha := a.isLt
  have hv := v.isLt
  have hc : (!c).toNat = 1 - c.toNat := by cases c <;> rfl
  have hc' := c.toNat_le
  have hcarry := (!(Alu.sub a v c).carry).toNat_le
  have hmsb : (Alu.sub a v c).overflow =
      ((a.msb ^^ v.msb) && (a.msb ^^ (Alu.sub a v c).value.msb)) := by
    simp [Alu.sub, BitVec.msb_and, BitVec.msb_xor]
  rw [hmsb, msb_eq, msb_eq, msb_eq, overflows, signed, signed]
  by_cases h1 : 128 ≤ a.toNat <;> by_cases h2 : 128 ≤ v.toNat <;>
    by_cases h3 : 128 ≤ (Alu.sub a v c).value.toNat <;> simp [h1, h2, h3] <;> omega

theorem adc_eq (r : Registers) (v : Byte) : r.adc v = add r v.toNat := by
  have hvalue : (Alu.add r.a v r.p.carry).value.toNat =
      (r.a.toNat + v.toNat + r.p.carry.toNat) % 256 := BitVec.toNat_ofNat ..
  rw [Registers.adc, Registers.takeSum, setA_eq, hvalue, overflow_add]
  rfl

theorem sbc_eq (r : Registers) (v : Byte) : r.sbc v = subtract r v.toNat := by
  have hborrow : ((!r.p.carry).toNat : Int) = 1 - r.p.carry.toNat := by
    cases r.p.carry <;> rfl
  have hvalue : (Alu.sub r.a v r.p.carry).value.toNat =
      ((r.a.toNat - v.toNat - (1 - r.p.carry.toNat) : Int) % 256).toNat := by
    rw [← hborrow]
    exact BitVec.toNat_ofInt ..
  have hcarry : (Alu.sub r.a v r.p.carry).carry =
      decide (0 ≤ (r.a.toNat - v.toNat - (1 - r.p.carry.toNat) : Int)) := by
    rw [← hborrow]
    rfl
  rw [Registers.sbc, Registers.takeSum, setA_eq, hvalue, overflow_sub, hcarry]
  rfl

theorem compare_eq (r : Registers) (register v : Byte) :
    { r with p := r.p.compare register v } = compare r register.toNat v.toNat := by
  rw [Status.compare, ofResult_eq, toNat_sub]
  rfl

/-! ## Shifts -/

theorem toNat_rotateLeft (v : Byte) (c : Bool) :
    (Alu.rotateLeft v c).1.toNat = (2 * v.toNat + c.toNat) % 256 ∧
      (Alu.rotateLeft v c).2 = decide (128 ≤ v.toNat) := by
  have h := Alu.toNat_rotateLeft v c
  have hlt := (Alu.rotateLeft v c).1.isLt
  exact ⟨by omega, msb_eq v⟩

theorem toNat_rotateRight (v : Byte) (c : Bool) :
    (Alu.rotateRight v c).1.toNat = v.toNat / 2 + 128 * c.toNat ∧
      (Alu.rotateRight v c).2 = decide (v.toNat % 2 = 1) := by
  have h := Alu.toNat_rotateRight v c
  have hout : (Alu.rotateRight v c).2 = decide (v.toNat % 2 = 1) := by
    rw [Alu.rotateRight, getLsbD_eq v (n := 1) rfl, Nat.div_one]
  refine ⟨?_, hout⟩
  rw [hout] at h
  by_cases hodd : v.toNat % 2 = 1
  · simp [hodd] at h
    omega
  · simp [hodd] at h
    omega

/-- The same byte and the same registers. -/
def Agrees (x : Byte × Registers) (y : Nat × Registers) : Prop := x.1.toNat = y.1 ∧ x.2 = y.2

theorem agrees_shift (r : Registers) {x : Byte × Bool} {result : Nat} {out : Bool}
    (h : x.1.toNat = result ∧ x.2 = out) : Agrees (r.takeShift x) (shift r result out) := by
  obtain ⟨rfl, rfl⟩ := h
  refine ⟨rfl, ?_⟩
  rw [Registers.takeShift, ofResult_eq]
  rfl

theorem agrees_asl (r : Registers) (v : Byte) : Agrees (r.asl v) (modify .asl r v.toNat) :=
  agrees_shift r (toNat_rotateLeft v false)

theorem agrees_rol (r : Registers) (v : Byte) : Agrees (r.rol v) (modify .rol r v.toNat) :=
  agrees_shift r (toNat_rotateLeft v r.p.carry)

theorem agrees_lsr (r : Registers) (v : Byte) : Agrees (r.lsr v) (modify .lsr r v.toNat) :=
  agrees_shift r (toNat_rotateRight v false)

theorem agrees_ror (r : Registers) (v : Byte) : Agrees (r.ror v) (modify .ror r v.toNat) :=
  agrees_shift r (toNat_rotateRight v r.p.carry)

/-! ## The four kinds of operation -/

theorem apply_bit (r : Registers) (v : Byte) : DataOp.bit.apply r v = data .bit r v.toNat := by
  simp only [DataOp.apply, data]
  rw [beq_zero, BitVec.toNat_and, msb_eq, getLsbD_eq v (n := 64) rfl]

theorem apply_anc (r : Registers) (v : Byte) : DataOp.anc.apply r v = data .anc r v.toNat := by
  simp only [DataOp.apply, data]
  rw [setA_eq, msb_eq, BitVec.toNat_and]

theorem apply_alr (r : Registers) (v : Byte) : DataOp.alr.apply r v = data .alr r v.toNat := by
  obtain ⟨hvalue, hregs⟩ := agrees_lsr r (r.a &&& v)
  simp only [DataOp.apply, data]
  rw [hregs, ← ofNat_toNat (r.lsr (r.a &&& v)).1, hvalue, BitVec.toNat_and]
  rfl

theorem apply_arr (r : Registers) (v : Byte) : DataOp.arr.apply r v = data .arr r v.toNat := by
  obtain ⟨hvalue, -⟩ := toNat_rotateRight (r.a &&& v) r.p.carry
  rw [BitVec.toNat_and] at hvalue
  have hxor : ∀ m n : Nat,
      (decide (m % 2 = 1) ^^ decide (n % 2 = 1)) = decide (m % 2 ≠ n % 2) := by
    intro m n
    rcases Nat.mod_two_eq_zero_or_one m with hm | hm <;>
      rcases Nat.mod_two_eq_zero_or_one n with hn | hn <;> simp [hm, hn]
  simp only [DataOp.apply, data]
  rw [setA_eq, getLsbD_eq _ (n := 64) rfl, getLsbD_eq _ (n := 32) rfl, hxor,
    hvalue]

theorem apply_sbx (r : Registers) (v : Byte) : DataOp.sbx.apply r v = data .sbx r v.toNat := by
  simp only [DataOp.apply, data]
  rw [setX_eq, toNat_sub, BitVec.toNat_and]
  simp only [BitVec.le_def, BitVec.toNat_and]

theorem apply_data (op : DataOp) (r : Registers) (v : Byte) :
    op.apply r v = data op r v.toNat := by
  cases op with
  | lda => exact setA_eq r v
  | ldx => exact setX_eq r v
  | ldy => exact setY_eq r v
  | ora => exact (setA_eq r _).trans (congrArg (putA r) (BitVec.toNat_or ..))
  | and => exact (setA_eq r _).trans (congrArg (putA r) (BitVec.toNat_and ..))
  | eor => exact (setA_eq r _).trans (congrArg (putA r) (BitVec.toNat_xor ..))
  | adc => exact adc_eq r v
  | sbc => exact sbc_eq r v
  | cmp => exact compare_eq r r.a v
  | cpx => exact compare_eq r r.x v
  | cpy => exact compare_eq r r.y v
  | bit => exact apply_bit r v
  | nop => rfl
  | lax =>
      simp only [DataOp.apply, data]
      rw [setA_eq, putX, ofNat_toNat]
      rfl
  | anc => exact apply_anc r v
  | alr => exact apply_alr r v
  | arr => exact apply_arr r v
  | sbx => exact apply_sbx r v
  | las =>
      simp only [DataOp.apply, data]
      rw [setA_eq, putX, ← BitVec.toNat_and, ofNat_toNat]
      rfl

/-- An operation on a byte that has been shifted or counted before. -/
theorem agrees_thenApply (op : DataOp) {x : Byte × Registers} {y : Nat × Registers}
    (h : Agrees x y) : Agrees (ModifyOp.apply.thenApply op x) (y.1, data op y.2 y.1) := by
  obtain ⟨hvalue, hregs⟩ := h
  refine ⟨hvalue, ?_⟩
  rw [ModifyOp.apply.thenApply, apply_data, hvalue, hregs]

theorem apply_modify (op : ModifyOp) (r : Registers) (v : Byte) :
    Agrees (op.apply r v) (modify op r v.toNat) := by
  cases op with
  | asl => exact agrees_asl r v
  | rol => exact agrees_rol r v
  | lsr => exact agrees_lsr r v
  | ror => exact agrees_ror r v
  | inc =>
      refine ⟨toNat_inc v, ?_⟩
      simp only [ModifyOp.apply, modify]
      rw [ofResult_eq, toNat_inc]
  | dec =>
      refine ⟨toNat_dec v, ?_⟩
      simp only [ModifyOp.apply, modify]
      rw [ofResult_eq, toNat_dec]
  | slo => exact agrees_thenApply .ora (agrees_asl r v)
  | rla => exact agrees_thenApply .and (agrees_rol r v)
  | sre => exact agrees_thenApply .eor (agrees_lsr r v)
  | rra => exact agrees_thenApply .adc (agrees_ror r v)
  | dcp => exact agrees_thenApply (x := (v - 1, r)) (y := (_, r)) .cmp ⟨toNat_dec v, rfl⟩
  | isc => exact agrees_thenApply (x := (v + 1, r)) (y := (_, r)) .sbc ⟨toNat_inc v, rfl⟩

theorem apply_modify_eq (op : ModifyOp) (r : Registers) (v : Byte) :
    op.apply r v = (BitVec.ofNat 8 (modify op r v.toNat).1, (modify op r v.toNat).2) := by
  obtain ⟨hvalue, hregs⟩ := apply_modify op r v
  rw [← hvalue, ← hregs, ofNat_toNat]

theorem apply_register (op : RegisterOp) (r : Registers) : op.apply r = register op r := by
  cases op with
  | inx => exact (setX_eq r _).trans (congrArg (putX r) (toNat_inc r.x))
  | iny => exact (setY_eq r _).trans (congrArg (putY r) (toNat_inc r.y))
  | dex => exact (setX_eq r _).trans (congrArg (putX r) (toNat_dec r.x))
  | dey => exact (setY_eq r _).trans (congrArg (putY r) (toNat_dec r.y))
  | tax | tsx => exact setX_eq r _
  | tay => exact setY_eq r _
  | txa | tya => exact setA_eq r _
  | setFlag flag on => cases flag <;> rfl
  | txs | nop => rfl

theorem toNat_value (op : StoreOp) (r : Registers) : (op.value r).toNat = stored op r := by
  cases op with
  | sax => exact BitVec.toNat_and ..
  | sta | stx | sty => rfl

/-! ## Indices and conditions -/

theorem toNat_index (i : Index) (r : Registers) : (i.value r).toNat = index i r := by
  cases i <;> rfl

theorem holds_eq (condition : Condition) (p : Status) : condition.holds p = taken condition p := by
  obtain ⟨flag, on⟩ := condition
  cases flag <;> rfl

/-! ## The byte form of the status -/

theorem toNat_instructionCopy (p : Status) : p.instructionCopy.toNat = statusByte p + 48 := by
  rcases p with ⟨_ | _, _ | _, _ | _, _ | _, _ | _, _ | _⟩ <;> rfl

theorem ofByte_eq (v : Byte) : Status.ofByte v = statusOf v.toNat := by
  rw [Status.ofByte, getLsbD_eq v (n := 1) rfl, getLsbD_eq v (n := 2) rfl,
    getLsbD_eq v (n := 4) rfl, getLsbD_eq v (n := 8) rfl, getLsbD_eq v (n := 64) rfl,
    getLsbD_eq v (n := 128) rfl, Nat.div_one]
  rfl

end Mos6502.InstructionSet
