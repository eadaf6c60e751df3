import Mathlib.Algebra.Group.Nat.Defs
import Mos6502.Proofs.InstructionSet.Arithmetic

/-!
# Arithmetic on long numbers

Numbers of several bytes are added and subtracted place by place from the lowest byte on, with the
carry handed from each place to the next.  One equation says what a place does to the carry
(`Alu.toNat_add`), and an induction over the places says what the whole chain comes to.  Whether the
result is out of the signed range is decided by the highest place alone.  A subtraction is the
addition of the complement, place by place (`sbc_eq_adc`), so what holds of it follows.
-/

namespace Mos6502

/-! ## Long numbers -/

/-- The bytes of a number, the lowest one first. -/
abbrev Long := List Byte

namespace Long

def value : Long → Nat
  | [] => 0
  | v :: u => v.toNat + 256 * value u

/-- How many values so many bytes have. -/
def span (n : Nat) : Nat := 256 ^ n

/-- The value in two's complement. -/
def signed (u : Long) : Int :=
  if 2 * u.value < span u.length then u.value else u.value - span u.length

/-- Is a number out of the range of `signed` for so many bytes? -/
def Overflows (n : Nat) (value : Int) : Prop := 2 * value < -span n ∨ span n ≤ 2 * value

/-- Every bit is inverted. -/
def complement (u : Long) : Long := u.map (~~~ ·)

variable {u w : Long} {v : Byte} {n : Nat}

@[simp] theorem value_nil : value [] = 0 := rfl

@[simp] theorem value_cons : value (v :: u) = v.toNat + 256 * u.value := rfl

theorem span_succ (n : Nat) : span (n + 1) = 256 * span n := pow_succ' 256 n

theorem value_lt (u : Long) : u.value < span u.length := by
  induction u with
  | nil => exact Nat.one_pos
  | cons v u ih =>
      have hv := v.isLt
      rw [value_cons, List.length_cons, span_succ]
      omega

theorem exists_span_eq (h : u ≠ []) : ∃ half, span u.length = 2 * half := by
  cases u with
  | nil => exact absurd rfl h
  | cons v u =>
      refine ⟨128 * span u.length, ?_⟩
      rw [List.length_cons, span_succ]
      omega

/-- The sign is that of the bytes above the lowest one. -/
theorem signed_cons (h : u ≠ []) : signed (v :: u) = v.toNat + 256 * u.signed := by
  obtain ⟨half, hspan⟩ := exists_span_eq h
  have hv := v.isLt
  rw [signed, signed, value_cons, List.length_cons, span_succ, hspan]
  split <;> split <;> omega

theorem overflows_cons (h : u ≠ []) {x : Int} (v : Byte) :
    Overflows (u.length + 1) (v.toNat + 256 * x) ↔ Overflows u.length x := by
  obtain ⟨half, hspan⟩ := exists_span_eq h
  have hv := v.isLt
  rw [Overflows, Overflows, span_succ, hspan]
  omega

theorem signed_singleton : signed [v] = InstructionSet.signed v.toNat := by
  have hspan : span [v].length = 256 := rfl
  rw [signed, InstructionSet.signed, hspan, value_cons, value_nil]
  split <;> split <;> omega

theorem overflows_one {x : Int} : Overflows 1 x ↔ InstructionSet.overflows x = true := by
  have hspan : span 1 = 256 := rfl
  rw [Overflows, InstructionSet.overflows, hspan, decide_eq_true_iff]
  omega

/-! ## The complement -/

theorem value_complement (u : Long) : u.complement.value + u.value + 1 = span u.length := by
  induction u with
  | nil => rfl
  | cons v u ih =>
      have hv := v.isLt
      have hnot : (~~~v).toNat = 255 - v.toNat := BitVec.toNat_not
      rw [complement, List.map_cons, value_cons, value_cons, hnot, List.length_cons, span_succ]
      rw [complement] at ih
      omega

theorem signed_complement (h : u ≠ []) : u.complement.signed = -u.signed - 1 := by
  obtain ⟨half, hspan⟩ := exists_span_eq h
  have hsum := value_complement u
  have hlength : u.complement.length = u.length := List.length_map _
  rw [signed, signed, hlength, hspan]
  split <;> split <;> omega

end Long

/-! ## Subtraction is addition of the complement -/

theorem Alu.sub_eq_add (a v : Byte) (c : Bool) : Alu.sub a v c = Alu.add a (~~~v) c := by
  have hv := v.isLt
  have hnot : (~~~v).toNat = 255 - v.toNat := BitVec.toNat_not
  have hborrow : ((!c).toNat : Int) = 1 - c.toNat := by cases c <;> rfl
  have hsigned : InstructionSet.signed (~~~v).toNat = -InstructionSet.signed v.toNat - 1 := by
    rw [hnot, InstructionSet.signed, InstructionSet.signed]
    split <;> split <;> omega
  have hvalue : (Alu.sub a v c).value = (Alu.add a (~~~v) c).value := by
    apply BitVec.eq_of_toNat_eq
    simp only [Alu.sub, Alu.add, BitVec.toNat_ofInt, BitVec.toNat_ofNat, hnot, hborrow]
    omega
  have hcarry : (Alu.sub a v c).carry = (Alu.add a (~~~v) c).carry := by
    simp only [Alu.sub, Alu.add, hnot, hborrow, decide_eq_decide]
    omega
  have hoverflow : (Alu.sub a v c).overflow = (Alu.add a (~~~v) c).overflow := by
    rw [InstructionSet.overflow_sub, InstructionSet.overflow_add, hsigned]
    congr 1
    omega
  calc
    Alu.sub a v c = ⟨(Alu.sub a v c).value, (Alu.sub a v c).carry, (Alu.sub a v c).overflow⟩ := rfl
    _ = Alu.add a (~~~v) c := by rw [hvalue, hcarry, hoverflow]

theorem Registers.sbc_eq_adc (r : Registers) (v : Byte) : r.sbc v = r.adc (~~~v) :=
  congrArg r.takeSum (Alu.sub_eq_add ..)

/-! ## Chains of places -/

/-- One place of a chain: a byte of each number, and what is done with them. -/
structure Place where
  op : DataOp
  left : Byte
  right : Byte

namespace Place

/-- The byte of the left number is in the accumulator. -/
def loaded (x : Place) (r : Registers) : Registers := DataOp.lda.apply r x.left

/-- The operation has been done on the byte of the right number. -/
def worked (x : Place) (r : Registers) : Registers := x.op.apply (x.loaded r) x.right

variable (a v : Byte) (r : Registers)

theorem a_worked_adc : (worked ⟨.adc, a, v⟩ r).a = (Alu.add a v r.p.carry).value := rfl

theorem carry_worked_adc : (worked ⟨.adc, a, v⟩ r).p.carry = (Alu.add a v r.p.carry).carry := rfl

theorem overflow_worked_adc :
    (worked ⟨.adc, a, v⟩ r).p.overflow = (Alu.add a v r.p.carry).overflow := rfl

theorem carry_worked_cmp : (worked ⟨.cmp, a, v⟩ r).p.carry = decide (v.toNat ≤ a.toNat) := rfl

theorem worked_sbc : worked ⟨.sbc, a, v⟩ r = worked ⟨.adc, a, ~~~v⟩ r :=
  Registers.sbc_eq_adc _ v

end Place

namespace Registers

/-- The registers behind all places of a chain. -/
def behind (r : Registers) (l : List Place) : Registers := l.foldl (fun r x => x.worked r) r

/-- The registers behind the load and the operation of each place on the way. -/
def along (r : Registers) : List Place → List (Registers × Registers)
  | [] => []
  | x :: l => (x.loaded r, x.worked r) :: (x.worked r).along l

/-- The bytes that a chain leaves in the accumulator, one at each place. -/
def results (r : Registers) (l : List Place) : Long := (r.along l).map (·.2.a)

variable (r : Registers) (x : Place) (l : List Place)

@[simp] theorem behind_nil : r.behind [] = r := rfl

@[simp] theorem behind_cons : r.behind (x :: l) = (x.worked r).behind l := rfl

@[simp] theorem along_cons :
    r.along (x :: l) = (x.loaded r, x.worked r) :: (x.worked r).along l := rfl

@[simp] theorem results_nil : r.results [] = [] := rfl

@[simp] theorem results_cons : r.results (x :: l) = (x.worked r).a :: (x.worked r).results l := rfl

end Registers

namespace Long

/-- The same operation at all places of two numbers. -/
def places (op : DataOp) (u w : Long) : List Place := List.zipWith (Place.mk op) u w

/-- The lowest places are compared, and what is above them is subtracted. -/
def comparison : Long → Long → List Place
  | a :: u, v :: w => ⟨.cmp, a, v⟩ :: places .sbc u w
  | _, _ => []

@[simp] theorem places_nil (op : DataOp) (w : Long) : places op [] w = [] := rfl

@[simp] theorem places_cons (op : DataOp) (a v : Byte) (u w : Long) :
    places op (a :: u) (v :: w) = ⟨op, a, v⟩ :: places op u w := rfl

/-- Two numbers of the same length, place by place. -/
@[elab_as_elim]
theorem place_induction {motive : ∀ u w : Long, u.length = w.length → Prop}
    (nil : motive [] [] rfl)
    (cons : ∀ a v u w (h : u.length = w.length), motive u w h →
      motive (a :: u) (v :: w) (congrArg (· + 1) h)) :
    ∀ u w h, motive u w h
  | [], [], _ => nil
  | a :: u, v :: w, h => cons a v u w (Nat.succ.inj h) (place_induction nil cons u w _)

/-! ## Sums -/

variable {op : DataOp} {u w : Long}

theorem length_results (h : u.length = w.length) (r : Registers) :
    (r.results (places op u w)).length = u.length := by
  induction u, w, h using place_induction generalizing r with
  | nil => rfl
  | cons a v u w _ ih => exact congrArg (· + 1) (ih _)

theorem value_results_add (h : u.length = w.length) (r : Registers) :
    (r.results (places .adc u w)).value +
        span u.length * (r.behind (places .adc u w)).p.carry.toNat =
      u.value + w.value + r.p.carry.toNat := by
  induction u, w, h using place_induction generalizing r with
  | nil => simp [span]
  | cons a v u w h ih =>
      have hrest := ih (Place.worked ⟨.adc, a, v⟩ r)
      have hplace := Alu.toNat_add a v r.p.carry
      rw [Place.carry_worked_adc] at hrest
      rw [places_cons, Registers.results_cons, Registers.behind_cons, value_cons, value_cons,
        value_cons, Place.a_worked_adc, List.length_cons, span_succ, Nat.mul_assoc]
      omega

theorem overflow_behind_add (h : u.length = w.length) (hu : u ≠ []) (r : Registers) :
    (r.behind (places .adc u w)).p.overflow = true ↔
      Overflows u.length (u.signed + w.signed + r.p.carry.toNat) := by
  induction u, w, h using place_induction generalizing r with
  | nil => exact absurd rfl hu
  | cons a v u w h ih =>
      rw [places_cons, Registers.behind_cons]
      by_cases hrest : u = []
      · -- The highest place decides.
        subst hrest
        obtain rfl : w = [] := List.eq_nil_of_length_eq_zero h.symm
        rw [places_nil, Registers.behind_nil, Place.overflow_worked_adc,
          InstructionSet.overflow_add, signed_singleton, signed_singleton]
        exact overflows_one.symm
      · have hw : w ≠ [] := by
          rintro rfl
          exact hrest (List.eq_nil_of_length_eq_zero h)
        have hplace := Alu.toNat_add a v r.p.carry
        have hsum : signed (a :: u) + signed (v :: w) + r.p.carry.toNat =
            (Alu.add a v r.p.carry).value.toNat +
              256 * (signed u + signed w + (Alu.add a v r.p.carry).carry.toNat) := by
          rw [signed_cons hrest, signed_cons hw]
          omega
        rw [hsum]
        exact (ih hrest _).trans (overflows_cons hrest _).symm

/-! ## Differences -/

/-- A subtraction is, at every place, the addition of the complement. -/
theorem along_sub (h : u.length = w.length) (r : Registers) :
    r.along (places .sbc u w) = r.along (places .adc u w.complement) ∧
      r.behind (places .sbc u w) = r.behind (places .adc u w.complement) := by
  induction u, w, h using place_induction generalizing r with
  | nil => exact ⟨rfl, rfl⟩
  | cons a v u w _ ih =>
      obtain ⟨halong, hbehind⟩ := ih (Place.worked ⟨.adc, a, ~~~v⟩ r)
      rw [places_cons, Registers.along_cons, Registers.behind_cons, Place.worked_sbc, halong,
        hbehind]
      exact ⟨rfl, rfl⟩

theorem value_results_sub (h : u.length = w.length) (r : Registers) :
    ((r.results (places .sbc u w)).value : Int) =
      u.value - w.value - (1 - r.p.carry.toNat) +
        (1 - (r.behind (places .sbc u w)).p.carry.toNat) * span u.length := by
  obtain ⟨halong, hbehind⟩ := along_sub h r
  have hlength : u.length = w.complement.length := h.trans (List.length_map _).symm
  have hsum := value_results_add hlength r
  have hcomplement := value_complement w
  rw [Registers.results, halong, hbehind, ← Registers.results]
  rw [← h] at hcomplement
  generalize (r.behind (places .adc u w.complement)).p.carry = carry at hsum ⊢
  cases carry <;> simp only [Bool.toNat_true, Bool.toNat_false] at hsum ⊢ <;> omega

theorem overflow_behind_sub (h : u.length = w.length) (hu : u ≠ []) (r : Registers) :
    (r.behind (places .sbc u w)).p.overflow = true ↔
      Overflows u.length (u.signed - w.signed - (1 - r.p.carry.toNat)) := by
  have hw : w ≠ [] := by
    rintro rfl
    exact hu (List.eq_nil_of_length_eq_zero h)
  have hlength : u.length = w.complement.length := h.trans (List.length_map _).symm
  have hexact : u.signed - w.signed - (1 - r.p.carry.toNat) =
      u.signed + w.complement.signed + r.p.carry.toNat := by
    rw [signed_complement hw]
    omega
  rw [(along_sub h r).2, hexact]
  exact overflow_behind_add hlength hu r

/-- The carry tells that nothing was borrowed from above the highest place. -/
theorem carry_behind_sub (h : u.length = w.length) (r : Registers) :
    (r.behind (places .sbc u w)).p.carry = true ↔ w.value + (!r.p.carry).toNat ≤ u.value := by
  have hdifference := value_results_sub h r
  have hlt := value_lt (r.results (places .sbc u w))
  have hborrow : ((!r.p.carry).toNat : Int) = 1 - r.p.carry.toNat := by
    cases r.p.carry <;> rfl
  rw [length_results h] at hlt
  rw [← hborrow] at hdifference
  generalize (r.behind (places .sbc u w)).p.carry = carry at hdifference ⊢
  cases carry with
  | false =>
      rw [Bool.toNat_false] at hdifference
      simp only [Bool.false_eq_true, false_iff]
      omega
  | true =>
      rw [Bool.toNat_true] at hdifference
      simp only [true_iff]
      omega

/-! ## Comparisons -/

theorem carry_behind_comparison (h : u.length = w.length) (hu : u ≠ []) (r : Registers) :
    (r.behind (comparison u w)).p.carry = true ↔ w.value ≤ u.value := by
  cases u, w, h using place_induction with
  | nil => exact absurd rfl hu
  | cons a v u w h _ =>
      have hrest := carry_behind_sub h (Place.worked ⟨.cmp, a, v⟩ r)
      have ha := a.isLt
      have hv := v.isLt
      rw [Place.carry_worked_cmp] at hrest
      refine hrest.trans ?_
      rw [value_cons, value_cons]
      by_cases hle : v.toNat ≤ a.toNat
      · simp only [hle, decide_true, Bool.not_true, Bool.toNat_false]
        omega
      · simp only [hle, decide_false, Bool.not_false, Bool.toNat_true]
        omega

end Long

/-! ## What is left alone -/

/-- The accumulator and the flags that follow a result are all that differs. -/
structure Registers.Spares (r r' : Registers) : Prop where
  x : r'.x = r.x
  y : r'.y = r.y
  s : r'.s = r.s
  pc : r'.pc = r.pc
  decimal : r'.p.decimal = r.p.decimal
  interruptDisable : r'.p.interruptDisable = r.p.interruptDisable

namespace Place

variable {l : List Place}

/-- Is it one of the operations of a chain? -/
def IsArithmetic (x : Place) : Prop := x.op = .adc ∨ x.op = .sbc ∨ x.op = .cmp

theorem spares_loaded (x : Place) (r : Registers) : r.Spares (x.loaded r) :=
  ⟨rfl, rfl, rfl, rfl, rfl, rfl⟩

theorem IsArithmetic.spares_worked {x : Place} (h : x.IsArithmetic) (r : Registers) :
    r.Spares (x.worked r) := by
  obtain ⟨op, left, right⟩ := x
  rcases h with rfl | rfl | rfl <;> exact ⟨rfl, rfl, rfl, rfl, rfl, rfl⟩

end Place

theorem Registers.Spares.trans {r r' r'' : Registers} (h : r.Spares r') (h' : r'.Spares r'') :
    r.Spares r'' :=
  ⟨h'.x.trans h.x, h'.y.trans h.y, h'.s.trans h.s, h'.pc.trans h.pc,
    h'.decimal.trans h.decimal, h'.interruptDisable.trans h.interruptDisable⟩

theorem Registers.spares_along {l : List Place} (h : ∀ x ∈ l, x.IsArithmetic) (r : Registers) :
    ∀ s ∈ r.along l, r.Spares s.1 ∧ r.Spares s.2 := by
  induction l generalizing r with
  | nil =>
      intro s hs
      cases hs
  | cons x l ih =>
      have hx := (h x List.mem_cons_self).spares_worked r
      intro s hs
      rcases List.mem_cons.mp hs with rfl | hs
      · exact ⟨x.spares_loaded r, hx⟩
      · have hrest := ih (fun y hy => h y (List.mem_cons_of_mem x hy)) (x.worked r) s hs
        exact ⟨hx.trans hrest.1, hx.trans hrest.2⟩

namespace Long

theorem op_of_mem_places {op : DataOp} {u w : Long} (h : u.length = w.length) {x : Place}
    (hx : x ∈ places op u w) : x.op = op := by
  induction u, w, h using place_induction with
  | nil => cases hx
  | cons a v u w _ ih =>
      rcases List.mem_cons.mp hx with rfl | hx
      · rfl
      · exact ih hx

theorem isArithmetic_of_mem_comparison {u w : Long} (h : u.length = w.length) {x : Place}
    (hx : x ∈ comparison u w) : x.IsArithmetic := by
  cases u, w, h using place_induction with
  | nil => cases hx
  | cons a v u w h _ =>
      rcases List.mem_cons.mp hx with rfl | hx
      · exact .inr (.inr rfl)
      · exact .inr (.inl (op_of_mem_places h hx))

/-- **Chains of bytes compute on long numbers.**  Two numbers of the same length, place by place
from the lowest on: each byte of the first is loaded, and the byte of the second added to it with
the carry of the place before.  The results and the last carry are the sum, and the overflow is that
of the sum in two's complement.  With subtractions they are the difference and the borrow, by the
same registers at every place as the addition of the complement.  A comparison of the lowest bytes
with subtractions above it leaves the order in the carry.  Nothing but the accumulator and the flags
that follow a result is touched on the way. -/
theorem chains_compute {u w : Long} (h : u.length = w.length) (hu : u ≠ []) (r : Registers) :
    let n := u.length
    let carry : Nat := r.p.carry.toNat
    let sum := places .adc u w
    let difference := places .sbc u w
    ((r.results sum).length = n ∧
        (r.results sum).value + (r.behind sum).p.carry.toNat * span n = u.value + w.value + carry ∧
        ((r.behind sum).p.overflow = true ↔ Overflows n (u.signed + w.signed + carry))) ∧
      ((r.results difference).length = n ∧
        ((r.results difference).value : Int) =
          u.value - w.value - (1 - carry) + (1 - (r.behind difference).p.carry.toNat) * span n ∧
        ((r.behind difference).p.overflow = true ↔
          Overflows n (u.signed - w.signed - (1 - carry)))) ∧
      (r.along difference = r.along (places .adc u w.complement) ∧
        r.behind difference = r.behind (places .adc u w.complement)) ∧
      ((r.behind (comparison u w)).p.carry = true ↔ w.value ≤ u.value) ∧
      ∀ l ∈ [sum, difference, comparison u w], ∀ s ∈ r.along l, r.Spares s.1 ∧ r.Spares s.2 := by
  intro n carry sum difference
  have hsum := value_results_add h r
  rw [Nat.mul_comm] at hsum
  refine ⟨⟨length_results h r, hsum, overflow_behind_add h hu r⟩,
    ⟨length_results h r, value_results_sub h r, overflow_behind_sub h hu r⟩, along_sub h r,
    carry_behind_comparison h hu r, fun l hl => Registers.spares_along (fun x hx => ?_) r⟩
  simp only [List.mem_cons, List.not_mem_nil, or_false] at hl
  rcases hl with rfl | rfl | rfl
  · exact .inl (op_of_mem_places h hx)
  · exact .inr (.inl (op_of_mem_places h hx))
  · exact isArithmetic_of_mem_comparison h hx

/-- One is added to the largest positive number of two bytes, subtracted from it and compared with
it. -/
theorem chains_compute_largestAndOne :
    let u : Long := [0xFF, 0x7F]
    let w : Long := [0x01, 0x00]
    let r : Registers := {}
    (u.length = w.length ∧ u ≠ []) ∧
      ((r.results (places .adc u w)).value + (r.behind (places .adc u w)).p.carry.toNat * span 2 =
          0x8000 ∧
        (r.behind (places .adc u w)).p.overflow = true) ∧
      ((r.results (places .sbc u w)).value : Int) =
        0x7FFD + (1 - (r.behind (places .sbc u w)).p.carry.toNat) * span 2 ∧
      (r.behind (comparison u w)).p.carry = true := by
  intro u w r
  have hu : u ≠ [] := List.cons_ne_nil _ _
  obtain ⟨⟨-, hsum, hoverflow⟩, ⟨-, hdifference, -⟩, -, hcompare, -⟩ :=
    chains_compute (u := u) (w := w) rfl hu r
  have hvalue : u.value + w.value + r.p.carry.toNat = 0x8000 := by decide
  have hvalue' : (u.value : Int) - w.value - (1 - r.p.carry.toNat) = 0x7FFD := by decide
  have hout : Overflows 2 (u.signed + w.signed + 0) := .inr (by decide)
  have hle : w.value ≤ u.value := by decide
  refine ⟨⟨rfl, hu⟩, ⟨hsum.trans hvalue, hoverflow.mpr hout⟩, ?_, hcompare.mpr hle⟩
  rw [← hvalue']
  exact hdifference

end Long

end Mos6502
