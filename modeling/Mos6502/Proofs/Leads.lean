import Mos6502.Memory
import Mos6502.Proofs.Traffic

/-!
# Runs of completed steps

What a piece of code does is said of the steps that execute it: each of them completes an
instruction, and together they lead from one board to another (`Board.Leads`).  Such runs are put
together one behind the other, from single steps whose course on the bus is known.  The code itself
is a list of bytes in flat memory (`Memory.CodeAt`).
-/

universe u

namespace Mos6502

namespace Processor

/-- The processor behind an instruction that has left these registers and hands nothing over, so
many cycles on. -/
def behind (p : Processor) (opcode : Byte) (cycles : Nat) (r : Registers) : Processor :=
  { p with regs := r, opcode, cycles := p.cyclesAfter cycles }

variable (p : Processor) (opcode opcode' : Byte) (m n : Nat) (r r' : Registers)

@[simp] theorem regs_behind : (p.behind opcode n r).regs = r := rfl

theorem cyclesAfter_add : p.cyclesAfter m + UInt64.ofNat n = p.cyclesAfter (m + n) := by
  rw [cyclesAfter, cyclesAfter, UInt64.ofNat_add, UInt64.add_assoc]

@[simp] theorem behind_behind :
    (p.behind opcode m r).behind opcode' n r' = p.behind opcode' (m + n) r' := by
  have hcycles : (p.behind opcode m r).cyclesAfter n = p.cyclesAfter (m + n) :=
    p.cyclesAfter_add m n
  rw [behind, hcycles]
  rfl

variable {p opcode n r}

theorem Idle.behind (h : p.Idle) : (p.behind opcode n r).Idle := ⟨h.refusal, h.inFlight⟩

end Processor

/-- What comes to an end neither locks up nor is refused. -/
theorem Sequence.executed_of_run {β : Type u} [Bus β] {s : Sequence} {r : Registers} {e : Ending}
    {bus bus' : β} (h : (s.course r).run bus = (some e, bus')) : s ≠ .jam ∧ s ≠ .unsupported := by
  constructor <;> (rintro rfl; cases h)

namespace Board

variable {β : Type u} [Bus β]

/-! ## Runs of steps -/

theorem calls_append (b : Board β) (cs cs' : List Call) :
    b.calls (cs ++ cs') = (b.calls cs).calls cs' :=
  List.foldl_append

theorem replies_append (b : Board β) (cs cs' : List Call) :
    b.replies (cs ++ cs') = b.replies cs ++ (b.calls cs).replies cs' := by
  induction cs generalizing b with
  | nil => rfl
  | cons c cs ih => exact congrArg (b.reply c :: ·) (ih (b.call c))

/-- So many steps complete an instruction each, and lead to this board. -/
structure Leads (b : Board β) (n : Nat) (b' : Board β) : Prop where
  stepped : b.stepped n = b'
  completes : b.replies (List.replicate n .step) = List.replicate n (.outcome .completed)

namespace Leads

variable {b b' b'' : Board β} {m n : Nat}

theorem refl (b : Board β) : b.Leads 0 b := ⟨rfl, rfl⟩

theorem one (hcall : b.call .step = b') (hreply : b.reply .step = .outcome .completed) :
    b.Leads 1 b' :=
  ⟨hcall, congrArg (fun reply => [reply]) hreply⟩

theorem trans (h : b.Leads m b') (h' : b'.Leads n b'') : b.Leads (m + n) b'' := by
  have hcalls : b.calls (List.replicate m .step) = b' := h.stepped
  constructor
  · rw [Board.stepped, ← List.replicate_append_replicate, calls_append, hcalls]
    exact h'.stepped
  · rw [← List.replicate_append_replicate, replies_append, hcalls, h.completes, h'.completes,
      List.replicate_append_replicate]

end Leads

/-! ## Single steps -/

/-- The next step fetches this opcode: nothing is in flight or waits to be reported, and no
interrupt is due. -/
structure Fetches (b : Board β) (opcode : Byte) : Prop where
  idle : b.processor.Idle
  not_due : b.processor.dueInterrupt = none
  upcoming : b.upcoming = opcode

variable {b : Board β} {bus' : β} {r : Registers}

/-- A step executes the instruction that it fetches. -/
theorem leads_of_fetch {opcode : Byte} (h : b.Fetches opcode)
    (hrun : ((Opcode.sequence opcode).course b.processor.regs.advancePc).run
      (Bus.read b.bus b.processor.regs.pc).2 = (some { regs := r }, bus')) :
    b.Leads 1
      ⟨b.processor.behind opcode
        (((Opcode.sequence opcode).course b.processor.regs.advancePc).count
          (Bus.read b.bus b.processor.regs.pc).2 + 1) r, bus'⟩ := by
  obtain ⟨hb, hd, rfl⟩ := h
  obtain ⟨hj, hu⟩ := Sequence.executed_of_run hrun
  obtain ⟨events, hstep⟩ := Processor.step_of_fetch b.bus hb.refusal hb.inFlight hd hj hu hrun
  refine .one ?_ ?_
  · rw [call, hstep]
    exact congrArg (Board.mk · bus') (Processor.finish_of_idle
      (p := { b.processor with opcode := b.upcoming }) hb.inFlight _ r)
  · rw [reply, hstep]
    rfl

/-- Where the opcode has been fetched ahead, a step executes the instruction without a fetch. -/
theorem leads_of_decoded {opcode : Byte} (hr : b.processor.refusal = none)
    (hi : b.processor.inFlight = some (.decode opcode))
    (hrun : ((Opcode.sequence opcode).course b.processor.regs).run b.bus =
      (some { regs := r }, bus')) :
    b.Leads 1
      ⟨{ b.processor with
          regs := r
          inFlight := none
          cycles := b.processor.cyclesAfter
            (((Opcode.sequence opcode).course b.processor.regs).count b.bus) }, bus'⟩ := by
  obtain ⟨hj, hu⟩ := Sequence.executed_of_run hrun
  have hstep := Processor.step_of_inFlight hr hi hj hu hrun
  refine .one ?_ ?_
  · rw [call, hstep]
    rfl
  · rw [reply, hstep]
    rfl

/-- Where an interrupt is due, a step enters its handler. -/
theorem leads_of_due {source : Interrupt} (hb : b.processor.Idle)
    (hd : b.processor.dueInterrupt = some source)
    (hrun : ((Sequence.entry source).course b.processor.regs).run
      (Bus.read b.bus b.processor.regs.pc).2 = (some { regs := r }, bus')) :
    b.Leads 1
      ⟨(b.processor.acknowledge source).behind b.processor.opcode
        (((Sequence.entry source).course b.processor.regs).count
          (Bus.read b.bus b.processor.regs.pc).2 + 1) r, bus'⟩ := by
  obtain ⟨events, hstep⟩ := Processor.step_of_due b.bus hb.refusal hb.inFlight hd hrun
  have hi : (b.processor.acknowledge source).inFlight = none := by
    cases source <;> exact hb.inFlight
  refine .one ?_ ?_
  · rw [call, hstep]
    refine congrArg (Board.mk · bus') ((Processor.finish_of_idle hi _ r).trans ?_)
    cases source <;> rfl
  · rw [reply, hstep]
    rfl

end Board

/-! ## Code -/

namespace Memory

/-- These bytes are at an address and behind it. -/
def CodeAt (m : Memory) (a : Word) (l : List Byte) : Prop :=
  ∀ i (h : i < l.length), m.read (a + BitVec.ofNat 16 i) = l[i]

instance (m : Memory) (a : Word) (l : List Byte) : Decidable (m.CodeAt a l) :=
  inferInstanceAs (Decidable (∀ i (h : i < l.length), m.read (a + BitVec.ofNat 16 i) = l[i]))

namespace CodeAt

variable {m : Memory} {a : Word} {v : Byte} {l k : List Byte}

theorem of_append (h : m.CodeAt a (l ++ k)) :
    m.CodeAt a l ∧ m.CodeAt (a + BitVec.ofNat 16 l.length) k := by
  constructor
  · intro i hi
    rw [h i (List.length_append ▸ Nat.lt_add_right _ hi), List.getElem_append_left hi]
  · intro i hi
    rw [BitVec.add_assoc, ← BitVec.ofNat_add,
      h _ (List.length_append ▸ Nat.add_lt_add_left hi l.length),
      List.getElem_append_right (Nat.le_add_right _ _)]
    simp only [Nat.add_sub_cancel_left]

theorem head (h : m.CodeAt a (v :: l)) : m.read a = v := by simpa using h 0 (Nat.succ_pos _)

theorem tail (h : m.CodeAt a (v :: l)) : m.CodeAt (a + 1) l := (of_append (l := [v]) h).2

/-- A write beside the code leaves it alone. -/
theorem write (h : m.CodeAt a l) {b : Word} (hb : ∀ i < l.length, b ≠ a + BitVec.ofNat 16 i)
    (v : Byte) : (m.write b v).CodeAt a l := by
  intro i hi
  rw [read_write_of_ne m v (hb i hi).symm]
  exact h i hi

end CodeAt

end Memory

end Mos6502
