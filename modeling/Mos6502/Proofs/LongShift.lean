import Mathlib.Data.List.Rotate
import Mos6502.Proofs.LongArithmetic

/-!
# Shifts and rotations of long numbers

A number of several bytes is shifted byte by byte, and the carry takes the bit that leaves one byte
into the next one: from the lowest byte up where the bits move to the left, and from the highest
byte down where they move to the right.  A pass in one direction is the same loop for shifts and for
rotations, which differ in what they do to the byte they begin with (`Registers.sweep`).

There are two views of it.  As numbers, one equation says what a byte does to the carry
(`Alu.toNat_rotateLeft`), and an induction over the bytes says what the pass does.  As bits, the
carry and the number are a ring that a rotation turns by one place (`ring_rotateLeft`,
`ring_rotateRight`); so the two rotations undo each other, and as many of them as there are places
change nothing.
-/

namespace Mos6502

/-! ## Passes over the bytes -/

namespace Registers

/-- Bytes are modified one after the other, the first of them by an operation of its own. -/
def sweep (first next : ModifyOp) (r : Registers) : Long → Long × Registers
  | [] => ([], r)
  | v :: u =>
    let (v', r) := first.apply r v
    let (u', r) := sweep next next r u
    (v' :: u', r)

variable {first next : ModifyOp} (r : Registers) (v : Byte) (u : Long)

@[simp] theorem sweep_nil : r.sweep first next [] = ([], r) := rfl

@[simp] theorem sweep_cons :
    r.sweep first next (v :: u) =
      ((first.apply r v).1 :: ((first.apply r v).2.sweep next next u).1,
        ((first.apply r v).2.sweep next next u).2) :=
  rfl

theorem length_sweep : (r.sweep first next u).1.length = u.length := by
  induction u generalizing first r with
  | nil => rfl
  | cons v u ih => exact congrArg (· + 1) (ih _)

def clearCarry (r : Registers) : Registers := { r with p.carry := false }

/-- A shift begins like a rotation with the carry clear. -/
theorem sweep_asl (hu : u ≠ []) :
    r.sweep .asl .rol u = r.clearCarry.sweep .rol .rol u := by
  cases u with
  | nil => exact absurd rfl hu
  | cons v u => rfl

theorem sweep_lsr (hu : u ≠ []) :
    r.sweep .lsr .ror u = r.clearCarry.sweep .ror .ror u := by
  cases u with
  | nil => exact absurd rfl hu
  | cons v u => rfl

/-! ### What is left alone -/

/-- Carry, zero and negative are all that differs. -/
structure Retains (r r' : Registers) : Prop extends r.Spares r' where
  a : r'.a = r.a
  overflow : r'.p.overflow = r.p.overflow

theorem Retains.refl (r : Registers) : r.Retains r := ⟨⟨rfl, rfl, rfl, rfl, rfl, rfl⟩, rfl, rfl⟩

theorem Retains.trans {r r' r'' : Registers} (h : r.Retains r') (h' : r'.Retains r'') :
    r.Retains r'' :=
  ⟨h.toSpares.trans h'.toSpares, h'.a.trans h.a, h'.overflow.trans h.overflow⟩

theorem retains_clearCarry : r.Retains r.clearCarry := ⟨⟨rfl, rfl, rfl, rfl, rfl, rfl⟩, rfl, rfl⟩

theorem retains_rol : r.Retains (r.rol v).2 := ⟨⟨rfl, rfl, rfl, rfl, rfl, rfl⟩, rfl, rfl⟩

theorem retains_ror : r.Retains (r.ror v).2 := ⟨⟨rfl, rfl, rfl, rfl, rfl, rfl⟩, rfl, rfl⟩

/-- What every byte retains, the whole pass does. -/
theorem retains_sweep {op : ModifyOp} (h : ∀ r v, Retains r (op.apply r v).2) :
    r.Retains (r.sweep op op u).2 := by
  induction u generalizing r with
  | nil => exact .refl r
  | cons v u ih => exact (h r v).trans (ih _)

end Registers

namespace Long

/-- From the lowest byte of a number to the highest one. -/
def upwards (first next : ModifyOp) (s : Long × Registers) : Long × Registers :=
  s.2.sweep first next s.1

/-- From the highest byte of a number to the lowest one. -/
def downwards (first next : ModifyOp) (s : Long × Registers) : Long × Registers :=
  let (u, r) := s.2.sweep first next s.1.reverse
  (u.reverse, r)

def shiftLeft : Long × Registers → Long × Registers := upwards .asl .rol

def rotateLeft : Long × Registers → Long × Registers := upwards .rol .rol

def shiftRight : Long × Registers → Long × Registers := downwards .lsr .ror

def rotateRight : Long × Registers → Long × Registers := downwards .ror .ror

variable {m : Long} {r : Registers}

theorem shiftLeft_eq (hm : m ≠ []) (r : Registers) :
    shiftLeft (m, r) = rotateLeft (m, r.clearCarry) :=
  r.sweep_asl m hm

theorem shiftRight_eq (hm : m ≠ []) (r : Registers) :
    shiftRight (m, r) = rotateRight (m, r.clearCarry) := by
  have hreverse : m.reverse ≠ [] := mt List.reverse_eq_nil_iff.mp hm
  rw [shiftRight, rotateRight, downwards, downwards, r.sweep_lsr m.reverse hreverse]

theorem length_rotateLeft (s : Long × Registers) : (rotateLeft s).1.length = s.1.length :=
  s.2.length_sweep s.1

theorem length_rotateRight (s : Long × Registers) : (rotateRight s).1.length = s.1.length := by
  rw [rotateRight, downwards, List.length_reverse, Registers.length_sweep, List.length_reverse]

theorem retains_rotateLeft (s : Long × Registers) : s.2.Retains (rotateLeft s).2 :=
  s.2.retains_sweep s.1 Registers.retains_rol

theorem retains_rotateRight (s : Long × Registers) : s.2.Retains (rotateRight s).2 :=
  s.2.retains_sweep s.1.reverse Registers.retains_ror

/-! ## As numbers -/

/-- A byte above all others. -/
theorem value_concat (u : Long) (v : Byte) : value (u ++ [v]) = u.value + span u.length * v.toNat := by
  induction u with
  | nil => simp [span]
  | cons w u ih =>
      rw [List.cons_append, value_cons, value_cons, ih, List.length_cons, span_succ, Nat.mul_assoc]
      omega

theorem value_sweep_rol (m : Long) (r : Registers) :
    (r.sweep .rol .rol m).1.value + span m.length * (r.sweep .rol .rol m).2.p.carry.toNat =
      2 * m.value + r.p.carry.toNat := by
  induction m generalizing r with
  | nil => simp [span]
  | cons v u ih =>
      let r' : Registers := (r.rol v).2
      let s : Long × Registers := r'.sweep .rol .rol u
      have hbyte : (r.rol v).1.toNat + 256 * r'.p.carry.toNat = 2 * v.toNat + r.p.carry.toNat :=
        Alu.toNat_rotateLeft v r.p.carry
      have hrest : s.1.value + span u.length * s.2.p.carry.toNat =
          2 * value u + r'.p.carry.toNat := ih r'
      show value ((r.rol v).1 :: s.1) + span (u.length + 1) * s.2.p.carry.toNat = _
      rw [value_cons, value_cons, span_succ, Nat.mul_assoc]
      omega

/-- The bytes come from the highest one down here, so the number is read in reverse. -/
theorem value_sweep_ror (l : Long) (r : Registers) :
    2 * value (r.sweep .ror .ror l).1.reverse + (r.sweep .ror .ror l).2.p.carry.toNat =
      value l.reverse + span l.length * r.p.carry.toNat := by
  induction l generalizing r with
  | nil => simp [span]
  | cons v u ih =>
      let r' : Registers := (r.ror v).2
      let s : Long × Registers := r'.sweep .ror .ror u
      have hbyte : 2 * (r.ror v).1.toNat + r'.p.carry.toNat = v.toNat + 256 * r.p.carry.toNat :=
        Alu.toNat_rotateRight v r.p.carry
      have hrest : 2 * value s.1.reverse + s.2.p.carry.toNat =
          value u.reverse + span u.length * r'.p.carry.toNat := ih r'
      have hlength : s.1.reverse.length = u.length :=
        List.length_reverse.trans (r'.length_sweep u)
      -- The byte stands above all others, so its equation counts as often as they have values.
      have hplace := congrArg (span u.length * ·) hbyte
      simp only [Nat.mul_add, Nat.mul_left_comm (span u.length)] at hplace
      show 2 * value ((r.ror v).1 :: s.1).reverse + s.2.p.carry.toNat =
        value (v :: u).reverse + span (u.length + 1) * r.p.carry.toNat
      rw [List.reverse_cons, List.reverse_cons, value_concat, value_concat, hlength,
        List.length_reverse, span_succ, Nat.mul_assoc]
      omega

/-- The values of a number are twice those below its highest bit. -/
theorem span_length (hm : m ≠ []) : span m.length = 2 * 2 ^ (8 * m.length - 1) := by
  have hpos : 0 < m.length := List.length_pos_iff.mpr hm
  have hbits : 8 * m.length = 8 * m.length - 1 + 1 := by omega
  calc
    span m.length = 2 ^ (8 * m.length) := (pow_mul 2 8 m.length).symm
    _ = 2 * 2 ^ (8 * m.length - 1) := by rw [hbits, pow_succ']; rfl

theorem testBit_top (hm : m ≠ []) :
    m.value.testBit (8 * m.length - 1) = decide (span m.length ≤ 2 * m.value) := by
  have hlt := value_lt m
  rw [span_length hm] at hlt ⊢
  rw [Nat.testBit_eq_decide_div_mod_eq, decide_eq_decide]
  generalize 2 ^ (8 * m.length - 1) = half at hlt ⊢
  by_cases hset : half ≤ m.value
  · have hquotient : m.value / half = 1 := Nat.div_eq_of_lt_le (by omega) (by omega)
    rw [hquotient]
    omega
  · rw [Nat.div_eq_of_lt (Nat.lt_of_not_le hset)]
    omega

theorem rotateLeft_spec (hm : m ≠ []) (r : Registers) :
    (rotateLeft (m, r)).1.value = (2 * m.value + r.p.carry.toNat) % span m.length ∧
      (rotateLeft (m, r)).2.p.carry = m.value.testBit (8 * m.length - 1) := by
  have hpass := value_sweep_rol m r
  have hlt := value_lt (rotateLeft (m, r)).1
  have heven := span_length hm
  have hcarry := r.p.carry.toNat_le
  rw [show (rotateLeft (m, r)).1.length = m.length from length_rotateLeft (m, r)] at hlt
  rw [testBit_top hm]
  change (rotateLeft (m, r)).1.value + span m.length * (rotateLeft (m, r)).2.p.carry.toNat = _
    at hpass
  generalize (rotateLeft (m, r)).2.p.carry = out at hpass ⊢
  cases out with
  | false =>
      rw [Bool.toNat_false] at hpass
      refine ⟨?_, (decide_eq_false ?_).symm⟩
      · rw [← hpass]
        exact (Nat.mod_eq_of_lt hlt).symm
      · omega
  | true =>
      rw [Bool.toNat_true, Nat.mul_one] at hpass
      refine ⟨?_, (decide_eq_true ?_).symm⟩
      · rw [← hpass, Nat.add_mod_right, Nat.mod_eq_of_lt hlt]
      · omega

/-- A rotation to the right halves a number, and the carry counts half of its values. -/
theorem rotateRight_spec (hm : m ≠ []) (r : Registers) :
    (rotateRight (m, r)).1.value =
        m.value / 2 + r.p.carry.toNat * 2 ^ (8 * m.length - 1) ∧
      (rotateRight (m, r)).2.p.carry.toNat = m.value % 2 := by
  have hpass := value_sweep_ror m.reverse r
  rw [List.reverse_reverse, List.length_reverse, span_length hm, Nat.mul_assoc,
    Nat.mul_comm (2 ^ _)] at hpass
  change 2 * (rotateRight (m, r)).1.value + (rotateRight (m, r)).2.p.carry.toNat = _ at hpass
  have hcarry := (rotateRight (m, r)).2.p.carry.toNat_le
  constructor <;> omega

/-! ## As bits -/

/-- The bits of a byte, the lowest one first. -/
def byteBits (v : Byte) : List Bool := (List.range 8).map v.getLsbD

/-- The bits of a number, the lowest one first. -/
def bits (m : Long) : List Bool := m.flatMap byteBits

/-- The carry, and above it the bits of a number. -/
def ring (s : Long × Registers) : List Bool := s.2.p.carry :: bits s.1

theorem byteBits_eq (v : Byte) :
    byteBits v =
      [v.getLsbD 0, v.getLsbD 1, v.getLsbD 2, v.getLsbD 3, v.getLsbD 4, v.getLsbD 5, v.getLsbD 6,
        v.getLsbD 7] :=
  rfl

theorem byteBits_injective : Function.Injective byteBits := by
  intro v w h
  refine BitVec.eq_of_getLsbD_eq fun i hi => ?_
  exact List.map_inj_left.mp h i (List.mem_range.mpr hi)

theorem bits_injective : Function.Injective bits := by
  intro m
  induction m with
  | nil =>
      intro m' h
      cases m' with
      | nil => rfl
      | cons v u => cases h
  | cons v u ih =>
      intro m' h
      cases m' with
      | nil => cases h
      | cons w u' =>
          obtain ⟨hbyte, hrest⟩ := List.append_inj h rfl
          rw [byteBits_injective hbyte, ih hrest]

theorem length_bits (m : Long) : (bits m).length = 8 * m.length := by
  induction m with
  | nil => rfl
  | cons v u ih =>
      rw [bits, List.flatMap_cons, List.length_append, ← bits, ih, List.length_cons, Nat.mul_succ,
        Nat.add_comm]
      rfl

theorem bits_concat (u : Long) (v : Byte) : bits (u ++ [v]) = bits u ++ byteBits v := by
  simp [bits]

theorem eq_of_ring_eq {s s' : Long × Registers} (h : ring s = ring s') :
    s.1 = s'.1 ∧ s.2.p.carry = s'.2.p.carry := by
  obtain ⟨hcarry, hbits⟩ := List.cons.inj h
  exact ⟨bits_injective hbits, hcarry⟩

theorem byteBits_rotateLeft (v : Byte) (c : Bool) :
    byteBits (Alu.rotateLeft v c).1 ++ [(Alu.rotateLeft v c).2] = c :: byteBits v := by
  cases c <;> simp [byteBits_eq, Alu.rotateLeft, BitVec.msb_eq_getLsbD_last]

theorem byteBits_rotateRight (v : Byte) (c : Bool) :
    (Alu.rotateRight v c).2 :: byteBits (Alu.rotateRight v c).1 = byteBits v ++ [c] := by
  cases c <;> simp [byteBits_eq, Alu.rotateRight]

theorem bits_sweep_rol (m : Long) (r : Registers) :
    bits (r.sweep .rol .rol m).1 ++ [(r.sweep .rol .rol m).2.p.carry] = r.p.carry :: bits m := by
  induction m generalizing r with
  | nil => rfl
  | cons v u ih =>
      let r' : Registers := (r.rol v).2
      let s : Long × Registers := r'.sweep .rol .rol u
      calc
        byteBits (r.rol v).1 ++ bits s.1 ++ [s.2.p.carry] =
            byteBits (r.rol v).1 ++ (bits s.1 ++ [s.2.p.carry]) := List.append_assoc ..
        _ = byteBits (r.rol v).1 ++ (r'.p.carry :: bits u) := by rw [ih r']
        _ = byteBits (r.rol v).1 ++ [r'.p.carry] ++ bits u := by simp
        _ = r.p.carry :: (byteBits v ++ bits u) :=
          congrArg (· ++ bits u) (byteBits_rotateLeft v r.p.carry)

theorem bits_sweep_ror (l : Long) (r : Registers) :
    (r.sweep .ror .ror l).2.p.carry :: bits (r.sweep .ror .ror l).1.reverse =
      bits l.reverse ++ [r.p.carry] := by
  induction l generalizing r with
  | nil => rfl
  | cons v u ih =>
      let r' : Registers := (r.ror v).2
      let s : Long × Registers := r'.sweep .ror .ror u
      calc
        s.2.p.carry :: bits ((r.ror v).1 :: s.1).reverse =
            (s.2.p.carry :: bits s.1.reverse) ++ byteBits (r.ror v).1 := by
          rw [List.reverse_cons, bits_concat]
          rfl
        _ = bits u.reverse ++ [r'.p.carry] ++ byteBits (r.ror v).1 := by rw [ih r']
        _ = bits u.reverse ++ (r'.p.carry :: byteBits (r.ror v).1) := by simp
        _ = bits u.reverse ++ (byteBits v ++ [r.p.carry]) :=
          congrArg (bits u.reverse ++ ·) (byteBits_rotateRight v r.p.carry)
        _ = bits (v :: u).reverse ++ [r.p.carry] := by
          rw [List.reverse_cons, bits_concat, List.append_assoc]

/-- A rotation to the left turns the ring back by one place. -/
theorem ring_rotateLeft (s : Long × Registers) : (ring (rotateLeft s)).rotate 1 = ring s := by
  rw [ring, List.rotate_cons_succ, List.rotate_zero]
  exact bits_sweep_rol s.1 s.2

/-- A rotation to the right turns it on. -/
theorem ring_rotateRight (s : Long × Registers) : ring (rotateRight s) = (ring s).rotate 1 := by
  have hpass := bits_sweep_ror s.1.reverse s.2
  rw [List.reverse_reverse] at hpass
  rw [ring, ring, List.rotate_cons_succ, List.rotate_zero, ← hpass]
  rfl

theorem rotateRight_rotateLeft (s : Long × Registers) :
    (rotateRight (rotateLeft s)).1 = s.1 ∧
      (rotateRight (rotateLeft s)).2.p.carry = s.2.p.carry :=
  eq_of_ring_eq ((ring_rotateRight _).trans (ring_rotateLeft s))

theorem rotateLeft_rotateRight (s : Long × Registers) :
    (rotateLeft (rotateRight s)).1 = s.1 ∧
      (rotateLeft (rotateRight s)).2.p.carry = s.2.p.carry :=
  eq_of_ring_eq (List.rotate_injective 1 ((ring_rotateLeft _).trans (ring_rotateRight s)))

theorem ring_iterate_rotateLeft (k : Nat) (s : Long × Registers) :
    (ring (rotateLeft^[k] s)).rotate k = ring s := by
  induction k with
  | zero => exact List.rotate_zero _
  | succ k ih =>
      rw [Function.iterate_succ_apply', Nat.add_comm, ← List.rotate_rotate, ring_rotateLeft, ih]

theorem length_iterate_rotateLeft (k : Nat) (s : Long × Registers) :
    (rotateLeft^[k] s).1.length = s.1.length := by
  induction k with
  | zero => rfl
  | succ k ih => rw [Function.iterate_succ_apply', length_rotateLeft, ih]

/-- As many rotations as the ring has places change nothing. -/
theorem iterate_rotateLeft (s : Long × Registers) :
    (rotateLeft^[8 * s.1.length + 1] s).1 = s.1 ∧
      (rotateLeft^[8 * s.1.length + 1] s).2.p.carry = s.2.p.carry := by
  generalize hk : 8 * s.1.length + 1 = k
  have hplaces : (ring (rotateLeft^[k] s)).length = k := by
    rw [ring, List.length_cons, length_bits, length_iterate_rotateLeft, hk]
  apply eq_of_ring_eq
  calc
    ring (rotateLeft^[k] s) = (ring (rotateLeft^[k] s)).rotate (ring (rotateLeft^[k] s)).length :=
      (List.rotate_length _).symm
    _ = (ring (rotateLeft^[k] s)).rotate k := by rw [hplaces]
    _ = ring s := ring_iterate_rotateLeft k s

/-! ## All passes -/

theorem retains_shiftLeft (hm : m ≠ []) (r : Registers) : r.Retains (shiftLeft (m, r)).2 := by
  rw [shiftLeft_eq hm]
  exact r.retains_clearCarry.trans (retains_rotateLeft (m, r.clearCarry))

theorem retains_shiftRight (hm : m ≠ []) (r : Registers) : r.Retains (shiftRight (m, r)).2 := by
  rw [shiftRight_eq hm]
  exact r.retains_clearCarry.trans (retains_rotateRight (m, r.clearCarry))

theorem retains_iterate_rotateLeft (k : Nat) (s : Long × Registers) :
    s.2.Retains (rotateLeft^[k] s).2 := by
  induction k with
  | zero => exact .refl s.2
  | succ k ih =>
      rw [Function.iterate_succ_apply']
      exact ih.trans (retains_rotateLeft _)

/-- **Shifts and rotations reach through long numbers.**  Of a number of any length, a rotation to
the left from the lowest byte up doubles it and lets the carry in, and the highest bit is the new
carry; a rotation to the right from the highest byte down halves it, with the carry on top, and the
lowest bit is the new carry.  Shifts do the same as if the carry had been clear.  Each of the two
rotations undoes the other, and one rotation more than there are bits changes nothing.  None of them
touches the accumulator, the other registers, or a flag besides carry, zero and negative. -/
theorem shifts_reach_through {m : Long} (hm : m ≠ []) (r : Registers) :
    let n := m.length
    let carry := r.p.carry
    let rolled := rotateLeft (m, r)
    let doubled := shiftLeft (m, r)
    let rored := rotateRight (m, r)
    let halved := shiftRight (m, r)
    let around := rotateLeft^[8 * n + 1] (m, r)
    (rolled.1.length = n ∧ rolled.1.value = (2 * m.value + carry.toNat) % span n ∧
        rolled.2.p.carry = m.value.testBit (8 * n - 1)) ∧
      (doubled.1.length = n ∧ doubled.1.value = 2 * m.value % span n ∧
        doubled.2.p.carry = m.value.testBit (8 * n - 1)) ∧
      (rored.1.length = n ∧ rored.1.value = m.value / 2 + carry.toNat * 2 ^ (8 * n - 1) ∧
        rored.2.p.carry.toNat = m.value % 2) ∧
      (halved.1.length = n ∧ halved.1.value = m.value / 2 ∧
        halved.2.p.carry.toNat = m.value % 2) ∧
      (∀ s ∈ [rotateRight rolled, rotateLeft rored, around], s.1 = m ∧ s.2.p.carry = carry) ∧
      ∀ s ∈ [rolled, doubled, rored, halved, rotateRight rolled, rotateLeft rored, around],
        r.Retains s.2 := by
  intro n carry rolled doubled rored halved around
  have hdoubled : doubled = rotateLeft (m, r.clearCarry) := shiftLeft_eq hm r
  have hhalved : halved = rotateRight (m, r.clearCarry) := shiftRight_eq hm r
  have hzero : 0 * 2 ^ (8 * n - 1) = 0 := Nat.zero_mul _
  have hrolled := retains_rotateLeft (m, r)
  have hrored := retains_rotateRight (m, r)
  refine ⟨⟨length_rotateLeft _, rotateLeft_spec hm r⟩, ?_, ⟨length_rotateRight _,
    rotateRight_spec hm r⟩, ?_, ?_, ?_⟩
  · rw [hdoubled]
    exact ⟨length_rotateLeft _, rotateLeft_spec hm r.clearCarry⟩
  · obtain ⟨hvalue, hcarry⟩ := rotateRight_spec hm r.clearCarry
    rw [hhalved]
    refine ⟨length_rotateRight _, hvalue.trans ?_, hcarry⟩
    exact congrArg (m.value / 2 + ·) hzero
  · simp only [List.forall_mem_cons]
    exact ⟨rotateRight_rotateLeft _, rotateLeft_rotateRight _, iterate_rotateLeft (m, r),
      List.forall_mem_nil _⟩
  · simp only [List.forall_mem_cons]
    exact ⟨hrolled, retains_shiftLeft hm r, hrored, retains_shiftRight hm r,
      hrolled.trans (retains_rotateRight _), hrored.trans (retains_rotateLeft _),
      retains_iterate_rotateLeft _ (m, r), List.forall_mem_nil _⟩

/-- A number of two bytes with its highest and its lowest bit set, and the carry set. -/
theorem shifts_reach_through_bothEnds :
    let m : Long := [0x81, 0xC0]
    let r : Registers := { p := { carry := true } }
    m ≠ [] ∧
      ((rotateLeft (m, r)).1.value = 0x8103 ∧ (rotateLeft (m, r)).2.p.carry = true) ∧
      (shiftLeft (m, r)).1.value = 0x8102 ∧
      ((rotateRight (m, r)).1.value = 0xE040 ∧ (rotateRight (m, r)).2.p.carry.toNat = 1) ∧
      (shiftRight (m, r)).1.value = 0x6040 ∧
      (rotateLeft^[17] (m, r)).1 = m ∧ r.Retains (rotateLeft^[17] (m, r)).2 := by
  intro m r
  have hm : m ≠ [] := List.cons_ne_nil _ _
  obtain ⟨⟨-, hrolled, hout⟩, ⟨-, hdoubled, -⟩, ⟨-, hrored, hout'⟩, ⟨-, hhalved, -⟩, hback,
    hretains⟩ := shifts_reach_through hm r
  refine ⟨hm, ⟨hrolled.trans (by decide), hout.trans (by decide)⟩, hdoubled.trans (by decide),
    ⟨hrored.trans (by decide), hout'.trans (by decide)⟩, hhalved.trans (by decide), ?_, ?_⟩
  · exact (hback _ (by simp [m])).1
  · exact hretains _ (by simp [m])

end Long

end Mos6502
