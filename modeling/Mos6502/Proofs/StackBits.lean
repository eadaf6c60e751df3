import Mos6502.Memory
import Mos6502.Proofs.Accesses
import Mos6502.Proofs.Decimal

/-!
# The bits that exist on the stack alone

Bits 4 and 5 of a status byte are never live: whatever byte the status is made from, they are
dropped (`toByte_ofByte`, `toByte_assign`).  They are put in where the status is pushed, which two
instructions and the entry of a handler do on one cycle each (`cycle_of_pushesStatus`), and no other
byte that is written is a status (`writes_of_not_pushesStatus`).  So a copy that is pulled again
restores the flags of the moment it was pushed (`stackBits_only_on_stack`).
-/

universe u

namespace Mos6502

/-! ## The byte form -/

namespace Status

/-- Bits 4 and 5 of a byte are dropped, and the others are live. -/
theorem toByte_ofByte (b : Byte) : (ofByte b).toByte = b &&& 0xCF := by
  revert b
  decide +kernel

/-- No mask makes the two bits live. -/
theorem toByte_assign (p : Status) (mask : Byte) (on : Bool) :
    (p.assign mask on).toByte =
      (if on then p.toByte ||| mask else p.toByte &&& ~~~mask) &&& 0xCF :=
  toByte_ofByte _

theorem toByte_and_stackBits (p : Status) : p.toByte &&& 0x30 = 0 := by
  rcases p with ⟨_ | _, _ | _, _ | _, _ | _, _ | _, _ | _⟩ <;> rfl

/-- The bytes of a status are those without the two bits. -/
theorem exists_toByte_iff {b : Byte} : (∃ p : Status, p.toByte = b) ↔ b &&& 0x30 = 0 := by
  constructor
  · rintro ⟨p, rfl⟩
    exact p.toByte_and_stackBits
  · intro h
    refine ⟨ofByte b, (toByte_ofByte b).trans ?_⟩
    revert b
    decide +kernel

end Status

/-! ## Cycles that push or pull the status -/

/-- What a cycle writes, if it writes, has a property. -/
def Cycle.Puts {α : Type u} (P : Byte → Prop) : Cycle α → Prop
  | .read .. => True
  | .write _ value _ => P value

def Stage.regs : Stage → Registers
  | .more _ r | .done _ r | .prefetched _ r _ => r

/-- A cycle that is spent on an address reads, and one that is not leaves the registers as they are
but for the program counter. -/
def Resolution.Reads (r : Registers) : Resolution → Prop
  | .pending (.read ..) => True
  | .pending (.write ..) => False
  | .ready _ r' => r' = r ∨ r' = r.advancePc

theorem Target.reads_correct (t : Target) (correction : Correction) (r : Registers) :
    (t.correct correction r).Reads r := by
  unfold correct
  split
  · exact .inl rfl
  · trivial

theorem Target.reads_locate (t : Target) (n : Nat) (mode : Mode) (correction : Correction)
    (r : Registers) : (t.locate n mode correction r).Reads r := by
  unfold locate
  split
  · exact .inl rfl
  · split <;> first
      | trivial
      | exact .inl rfl
      | exact .inr rfl
      | exact reads_correct ..

namespace Sequence

/-- Is it an instruction that pushes the status, and not the entry of a handler? -/
def forcesBreak (s : Sequence) : Bool := s == .php || s == .brk

/-- The copy of the status that it pushes. -/
def statusCopy (s : Sequence) (p : Status) : Byte :=
  if s.forcesBreak then p.instructionCopy else p.interruptCopy

/-- A copy has the unused bit, has the break bit if it comes from an instruction, and else is the
live flags. -/
theorem statusCopy_spec (s : Sequence) (p : Status) :
    (s.statusCopy p).getLsbD 5 = true ∧ (s.statusCopy p).getLsbD 4 = s.forcesBreak ∧
      s.statusCopy p &&& 0xCF = p.toByte := by
  unfold statusCopy
  cases s.forcesBreak <;>
    rcases p with ⟨_ | _, _ | _, _ | _, _ | _, _ | _, _ | _⟩ <;> exact ⟨rfl, rfl, rfl⟩

/-- Either copy holds all flags. -/
theorem ofByte_statusCopy (s : Sequence) (p : Status) : Status.ofByte (s.statusCopy p) = p := by
  unfold statusCopy
  split
  · exact p.ofByte_instructionCopy
  · exact p.ofByte_interruptCopy

theorem cycle_of_pushesStatus {s : Sequence} {p : Progress} (h : s.pushesStatus p.cycle = true)
    (r : Registers) : ∃ next, s.cycle p r = .write r.slot (s.statusCopy r.p) next := by
  cases s with
  | php =>
      simp only [cycle, pushByte]
      split
      case h_1 h' => simp [pushesStatus, h'] at h
      case h_2 => exact ⟨_, rfl⟩
  | brk | entry =>
      have hcycle : p.cycle = 4 := eq_of_beq h
      simp only [cycle, forceBreak, interrupt, hcycle]
      exact ⟨_, rfl⟩
  | _ => cases h

/-- The bytes other than a status that an instruction writes. -/
inductive Writes (p : Progress) (r : Registers) : Sequence → Byte → Prop
  | store (mode : Mode) (op : StoreOp) : Writes p r (.store mode op) (op.value r)
  /-- A modification writes the byte it has read, and then what has become of it. -/
  | modify (mode : Mode) (op : ModifyOp) : Writes p r (.modify mode op) p.data
  | accumulator : Writes p r .pha r.a
  /-- A half of the address to return to. -/
  | address {s : Sequence} {v : Byte} (hs : s = .jsr ∨ s = .brk ∨ ∃ source, s = .entry source)
      (hv : v = r.pc.high ∨ v = r.pc.low) : Writes p r s v

theorem puts_atTarget {P : Byte → Prop} {mode : Mode} {correction : Correction}
    {next : Progress → Registers → Cycle Stage} {p : Progress} {r : Registers}
    (h : ∀ t r', r' = r ∨ r' = r.advancePc → (next { p with target := t } r').Puts P) :
    (atTarget mode correction next p r).Puts P := by
  have hread := p.target.reads_locate p.cycle mode correction r
  unfold atTarget
  generalize p.target.locate p.cycle mode correction r = resolution at hread
  cases resolution with
  | pending c =>
      cases c with
      | read => trivial
      | write => exact hread.elim
  | ready t r' => exact h t r' hread

/-- A cycle that does not push the status writes something else, if it writes. -/
theorem writes_of_not_pushesStatus {s : Sequence} {p : Progress}
    (h : s.pushesStatus p.cycle = false) (r : Registers) :
    (s.cycle p r).Puts (s.Writes p r) := by
  cases s with
  | data mode op => exact puts_atTarget fun _ _ _ => trivial
  | store mode op =>
      refine puts_atTarget fun t r' hr => ?_
      have hvalue : op.value r' = op.value r := by
        rcases hr with rfl | rfl
        · rfl
        · cases op <;> rfl
      show Writes p r (.store mode op) (op.value r')
      rw [hvalue]
      exact .store mode op
  | modify mode op =>
      refine puts_atTarget fun t r' _ => ?_
      unfold readModifyWrite
      split
      · trivial
      · exact .modify mode op
      · exact .modify mode op
  | branch condition =>
      obtain ⟨next, hnext, -⟩ := branchOn_spec condition p r
      rw [cycle, hnext]
      trivial
  | php =>
      have hcycle : p.cycle = 1 := by simpa [pushesStatus] using h
      rw [cycle, pushByte, hcycle]
      trivial
  | pha =>
      simp only [cycle, pushByte]
      split
      · trivial
      · exact .accumulator
  | brk =>
      simp only [cycle, forceBreak]
      split
      case h_2 => exact .address (.inr (.inl rfl)) (.inl rfl)
      case h_3 => exact .address (.inr (.inl rfl)) (.inr rfl)
      case h_4 h' => simp [pushesStatus, h'] at h
      all_goals trivial
  | entry source =>
      simp only [cycle, interrupt]
      split
      case h_2 => exact .address (.inr (.inr ⟨source, rfl⟩)) (.inl rfl)
      case h_3 => exact .address (.inr (.inr ⟨source, rfl⟩)) (.inr rfl)
      case h_4 h' => simp [pushesStatus, h'] at h
      all_goals trivial
  | jsr =>
      simp only [cycle, call]
      split
      case h_3 => exact .address (.inl rfl) (.inl rfl)
      case h_4 => exact .address (.inl rfl) (.inr rfl)
      all_goals trivial
  | reset | rts | rti | jmp | jmpIndirect | pla | plp =>
      simp only [cycle, start, returnFromCall, returnFromInterrupt, jump, jumpIndirect, pullByte]
      split <;> trivial
  | accumulator | register | jam | unsupported => trivial

theorem cycle_of_pullsStatus {s : Sequence} {p : Progress} (h : s.pullsStatus p.cycle = true)
    (r : Registers) :
    ∃ next, s.cycle p r = .read r.popped.slot next ∧
      ∀ v, (next v).regs = { r.popped with p := Status.ofByte v } := by
  cases s with
  | plp =>
      simp only [cycle, pullByte]
      split
      case h_1 h' | h_2 h' => simp [pullsStatus, h'] at h
      case h_3 => exact ⟨_, rfl, fun _ => rfl⟩
  | rti =>
      have hcycle : p.cycle = 3 := eq_of_beq h
      rw [cycle, returnFromInterrupt, hcycle]
      exact ⟨_, rfl, fun _ => rfl⟩
  | _ => cases h

end Sequence

/-! ## Ticks -/

namespace Processor

theorem regs_complete (p : Processor) (prefetched : Option Byte) :
    (p.complete prefetched).processor.regs = p.regs := by
  cases prefetched with
  | none => rfl
  | some opcode =>
      rcases p.complete_cases opcode with h | h
      · rw [h]
      · rw [h]

theorem regs_settle (p : Processor) (i : Instruction) (stage : Stage) :
    (p.settle (i.after stage)).processor.regs = stage.regs := by
  cases stage with
  | more q r => rfl
  | done q r => exact regs_complete (p.retired r) i.prefetched
  | prefetched q r opcode => exact regs_complete (p.retired r) (some opcode)

/-- With nothing in flight, a cycle is a read. -/
theorem exists_read_of_idle {p : Processor} (hi : p.inFlight = none) :
    ∃ next, p.cycle = .read p.regs.pc next := by
  rw [cycle_of_idle hi]
  cases hd : p.dueInterrupt with
  | none => exact ⟨_, fetch_of_none (p := p.counted) hd⟩
  | some source => exact ⟨_, fetch_of_due (p := p.counted) hd⟩

end Processor

/-! ## Moments -/

namespace Moment

variable {β : Type u}

/-- The act pulls the status. -/
def pullsStatus (m : Moment β) : Bool :=
  m.running?.any fun i => i.sequence.pullsStatus i.progress.cycle

theorem running?_eq_some {m : Moment β} {i : Instruction} :
    m.running? = some i ↔ m.act = .tick ∧ m.board.processor.inFlight = some i := by
  obtain ⟨b, a⟩ := m
  cases a <;> simp [running?]

variable [Bus β]

/-- The board behind the act. -/
def next (m : Moment β) : Board β := m.board.act m.act

/-- The act makes this one access. -/
def Makes (m : Moment (Recorder β)) (access : Access) : Prop :=
  m.next.bus.accesses = m.board.bus.accesses.push access

variable {m : Moment (Recorder β)} {i : Instruction}

instance (access : Access) : Decidable (m.Makes access) :=
  inferInstanceAs (Decidable (_ = _))

theorem Makes.unique {access access' : Access} (h : m.Makes access) (h' : m.Makes access') :
    access = access' :=
  Array.push_inj_right.mp (h.symm.trans h')

/-- An act that advances an instruction makes the access of its cycle, and leaves the registers as
that does. -/
theorem makes_of_running (hc : m.board.processor.Coherent) (hi : m.running? = some i) :
    let cycle := i.sequence.cycle i.progress m.board.processor.regs
    m.Makes (cycle.access m.board.bus.bus) ∧
      m.next.processor.regs = (cycle.run m.board.bus).1.regs := by
  obtain ⟨b, a⟩ := m
  obtain ⟨rfl, hi⟩ := running?_eq_some.mp hi
  have hr := hc.refusal_of_inFlight hi
  constructor
  · have hcycle : b.processor.cycle.access b.bus.bus =
        (i.sequence.cycle i.progress b.processor.regs).access b.bus.bus := by
      rw [Processor.cycle_of_inFlight hi, Cycle.access_map, Instruction.advance, Cycle.access_map]
    rw [Makes, next, Board.act, Processor.tick_recorder hr, hcycle]
  · rw [next, Board.act, Board.turn, Processor.tick_of_inFlight hr hi]
    exact Processor.regs_settle _ _ _

/-- Only an instruction writes. -/
theorem exists_running_of_write {address : Word} {value : Byte}
    (h : m.Makes (.write address value)) : ∃ i, m.running? = some i := by
  obtain ⟨b, a⟩ := m
  -- An act that makes no access leaves the record as long as it was.
  have hquiet : (Moment.mk b a).next.bus ≠ b.bus := by
    intro he
    have hsize := congrArg Array.size h
    rw [he, Array.size_push] at hsize
    exact absurd hsize (Nat.ne_of_lt (Nat.lt_succ_self _))
  cases a with
  | tick =>
      cases hi : b.processor.inFlight with
      | some i => exact ⟨i, hi⟩
      | none =>
          cases hr : b.processor.refusal with
          | some e =>
              refine absurd ?_ hquiet
              rw [next, Board.act, Processor.tick_of_refusal hr]
          | none =>
              obtain ⟨k, hread⟩ := Processor.exists_read_of_idle hi
              have hmakes : Makes ⟨b, .tick⟩ (b.processor.cycle.access b.bus.bus) := by
                rw [Makes, next, Board.act, Processor.tick_recorder hr]
              rw [hread] at hmakes
              cases h.unique hmakes
  | interrupt | nmi | reset | setPc => exact absurd rfl hquiet

/-- What is pushed as the status is the copy of the live flags. -/
theorem makes_of_pushesStatus (hc : m.board.processor.Coherent) (h : m.pushesStatus = true) :
    ∃ i, m.running? = some i ∧
      m.Makes (.write m.board.processor.regs.slot
        (i.sequence.statusCopy m.board.processor.regs.p)) := by
  obtain ⟨i, hi, hpush⟩ := (Option.any_eq_true _ m.running?).mp h
  obtain ⟨next, hcycle⟩ := Sequence.cycle_of_pushesStatus hpush m.board.processor.regs
  have hmakes := (makes_of_running hc hi).1
  rw [hcycle] at hmakes
  exact ⟨i, hi, hmakes⟩

/-- What is written at any other time is not a status. -/
theorem writes_of_not_pushesStatus (hc : m.board.processor.Coherent) (h : m.pushesStatus = false)
    {address : Word} {value : Byte} (hw : m.Makes (.write address value)) :
    ∃ i, m.running? = some i ∧
      Sequence.Writes i.progress m.board.processor.regs i.sequence value := by
  obtain ⟨i, hi⟩ := exists_running_of_write hw
  have hpush := (Option.any_eq_false _ m.running?).mp h i hi
  have hputs := Sequence.writes_of_not_pushesStatus hpush m.board.processor.regs
  have hmakes := (makes_of_running hc hi).1
  refine ⟨i, hi, ?_⟩
  cases hcycle : i.sequence.cycle i.progress m.board.processor.regs with
  | read =>
      rw [hcycle] at hmakes
      cases hmakes.unique hw
  | write =>
      rw [hcycle] at hmakes hputs
      cases hmakes.unique hw
      exact hputs

/-- What is pulled as the status becomes the live flags. -/
theorem makes_of_pullsStatus (hc : m.board.processor.Coherent) (h : m.pullsStatus = true) :
    ∃ v, m.Makes (.read m.board.processor.regs.popped.slot v) ∧
      m.next.processor.regs.p = Status.ofByte v := by
  obtain ⟨i, hi, hpull⟩ := (Option.any_eq_true _ m.running?).mp h
  obtain ⟨next, hcycle, hnext⟩ := Sequence.cycle_of_pullsStatus hpull m.board.processor.regs
  obtain ⟨hmakes, hregs⟩ := makes_of_running hc hi
  rw [hcycle] at hmakes hregs
  refine ⟨_, hmakes, ?_⟩
  rw [hregs, Cycle.run_read, hnext]
  rfl

end Moment

namespace Board

variable {β : Type u} [Bus β]

/-- **Bits 4 and 5 exist on the stack alone.**  They are dropped from every byte that a status is
made from, and from every mask that is put into one state, so the bytes of a status are those
without them.  On every run from a fresh processor, the two bits are clear in the live status behind
every act.  An act that pushes the status writes a byte in which bit 5 is set, bit 4 is set if it
belongs to one of the two instructions and not to the entry of a handler, and the rest is the live
flags; no other act writes a status.  An act that pulls the status leaves the byte that it reads
without the two bits, and if that is a byte that was pushed, the flags of the moment it was pushed.
-/
theorem stackBits_only_on_stack (regs : Registers) (bus : β) (cs : List Call) :
    let start : Board (Recorder β) := fresh regs ⟨bus, #[]⟩
    let moments := start.history (start.acts cs)
    (∀ b, (Status.ofByte b).toByte = b &&& 0xCF) ∧
      (∀ (p : Status) (mask : Byte) (on : Bool), (p.assign mask on).toByte =
        (if on then p.toByte ||| mask else p.toByte &&& ~~~mask) &&& 0xCF) ∧
      (∀ b, (∃ p : Status, p.toByte = b) ↔ b &&& 0x30 = 0) ∧
      ∀ m ∈ moments,
        let r := m.board.processor.regs
        let r' := m.next.processor.regs
        r'.p.toByte &&& 0x30 = 0 ∧
          (m.pushesStatus = true → ∃ i v, m.running? = some i ∧ m.Makes (.write r.slot v) ∧
            v.getLsbD 5 = true ∧
            (v.getLsbD 4 = true ↔ i.sequence = .php ∨ i.sequence = .brk) ∧
            v &&& 0xCF = r.p.toByte ∧
            ∀ m' ∈ moments, m'.pullsStatus = true →
              m'.Makes (.read m'.board.processor.regs.popped.slot v) →
              m'.next.processor.regs.p = r.p) ∧
          (m.pushesStatus = false → ∀ address v, m.Makes (.write address v) →
            ∃ i, m.running? = some i ∧ Sequence.Writes i.progress r i.sequence v) ∧
          (m.pullsStatus = true → ∃ v, m.Makes (.read r.popped.slot v) ∧
            r'.p.toByte = v &&& 0xCF) := by
  intro start moments
  have hcoherent : ∀ m ∈ moments, m.board.processor.Coherent :=
    history_induction coherent_act (Processor.coherent_of_idle rfl) _
  refine ⟨Status.toByte_ofByte, Status.toByte_assign, fun b => Status.exists_toByte_iff, ?_⟩
  intro m hm r r'
  refine ⟨r'.p.toByte_and_stackBits, fun hpush => ?_, fun hpush address v hw => ?_, fun hpull => ?_⟩
  · obtain ⟨i, hi, hmakes⟩ := Moment.makes_of_pushesStatus (hcoherent m hm) hpush
    obtain ⟨hunused, hbreak, hlive⟩ := i.sequence.statusCopy_spec r.p
    refine ⟨i, _, hi, hmakes, hunused, ?_, hlive, fun m' hm' hpull hread => ?_⟩
    · rw [hbreak, Sequence.forcesBreak, Bool.or_eq_true, beq_iff_eq, beq_iff_eq]
    · obtain ⟨v, hmakes', hp⟩ := Moment.makes_of_pullsStatus (hcoherent m' hm') hpull
      cases hmakes'.unique hread
      rw [hp, Sequence.ofByte_statusCopy]
  · exact Moment.writes_of_not_pushesStatus (hcoherent m hm) hpush hw
  · obtain ⟨v, hmakes, hp⟩ := Moment.makes_of_pullsStatus (hcoherent m hm) hpull
    refine ⟨v, hmakes, ?_⟩
    rw [show r'.p = _ from hp, Status.toByte_ofByte]

/-- The status is pushed, the carry flag cleared, and the status pulled again. -/
def savingStatus : Board (Recorder Memory) :=
  fresh { p := .ofByte 0xFF }
    ⟨((Memory.zeros.write 0x0000 0x08).write 0x0001 0x18).write 0x0002 0x28, #[]⟩

/-- The run of the three instructions. -/
def savingStatusMoments : List (Moment (Recorder Memory)) :=
  savingStatus.history (savingStatus.acts [.step, .step, .step])

theorem stackBits_only_on_stack_saving :
    ∃ m ∈ savingStatusMoments, ∃ m' ∈ savingStatusMoments,
      m.Makes (.write 0x01FD 0xFF) ∧ m'.Makes (.read 0x01FD 0xFF) ∧
        m.board.processor.regs.p.toByte = 0xCF ∧ m'.board.processor.regs.p.toByte = 0xCE ∧
        m'.next.processor.regs.p = m.board.processor.regs.p := by
  obtain ⟨m, hm, hpushes, hwrite, hlive⟩ : ∃ m ∈ savingStatusMoments, m.pushesStatus = true ∧
      m.Makes (.write 0x01FD 0xFF) ∧ m.board.processor.regs.p.toByte = 0xCF := by
    decide +kernel
  obtain ⟨m', hm', hpulls, hread, hslot, hlive'⟩ : ∃ m ∈ savingStatusMoments,
      m.pullsStatus = true ∧ m.Makes (.read 0x01FD 0xFF) ∧
        m.board.processor.regs.popped.slot = 0x01FD ∧
        m.board.processor.regs.p.toByte = 0xCE := by
    decide +kernel
  obtain ⟨-, -, -, hmoments⟩ :=
    stackBits_only_on_stack { p := .ofByte 0xFF } savingStatus.bus.bus [.step, .step, .step]
  obtain ⟨-, hpush, -, -⟩ := hmoments m hm
  obtain ⟨i, v, -, hmakes, -, -, -, hrestores⟩ := hpush hpushes
  obtain ⟨-, rfl⟩ := Access.write.inj (hmakes.unique hwrite)
  refine ⟨m, hm, m', hm', hwrite, hread, hlive, hlive', hrestores m' hm' hpulls ?_⟩
  rw [hslot]
  exact hread

end Board

end Mos6502
