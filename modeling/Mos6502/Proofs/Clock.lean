import Mos6502.Proofs.Script
import Mos6502.Proofs.Tick

/-!
# A clock as a script

A `Cycle` cannot but make one access.  Here a tick is written down as a script, in which accesses
may stand one behind the other or be missing: what looks for the address of an operand says whether
the address is final (`resolve`), and the accesses of the instruction follow on the same cycle if it
is.

A cycle that looks for an address makes an access if and only if it does not find the address final
(`spends_resolve`).  So every cycle of every sequence makes one (`once_cycle`), and so does every
tick but one that reports a refusal, which makes none (`always_tick`).  The ticks of the processor
are these scripts (`run_tick`).
-/

universe u

namespace Mos6502.Clock

/-! ## Accesses -/

def read (address : Word) : Script Byte := .read address .done

def write (address : Word) (value : Byte) : Script Unit := .write address value (.done ())

/-- Read the byte at the program counter, which moves on. -/
def next (r : Registers) : Script (Byte × Registers) := do
  let value ← read r.pc
  return (value, r.advancePc)

def push (value : Byte) (r : Registers) : Script Registers := do
  write r.slot value
  return r.pushed

def pull (r : Registers) : Script (Byte × Registers) := do
  let value ← read r.popped.slot
  return (value, r.popped)

/-! ## Addresses -/

/-- The cycle that corrects the high byte of an address.  Where it is left out, the address is final
and the bus is free. -/
def correct (t : Target) (correction : Correction) : Script (Bool × Target) :=
  if !t.crossed && correction == .ifCrossed then return (true, t)
  else do
    let _ ← read t.address
    return (false, if t.crossed then { t with address := t.address + 0x100 } else t)

/-- What a cycle does for an address that is not known to be final: whether it is by now, what is
known of it, and the registers. -/
def search (t : Target) (cycle : Nat) (mode : Mode) (correction : Correction) (r : Registers) :
    Script (Bool × Target × Registers) :=
  match mode, cycle with
  | .immediate, _ => return (true, { t with address := r.pc }, r.advancePc)
  | .zeroPage, 1 => do
    let (z, r) ← next r
    return (false, { t with address := Word.ofBytes 0 z }, r)
  | .zeroPage, _ => return (true, t, r)
  | .zeroPageIndexed _, 1 => do
    let (z, r) ← next r
    return (false, { t with pointer := z }, r)
  | .zeroPageIndexed index, 2 => do
    let _ ← read (Word.ofBytes 0 t.pointer)
    return (false, { t with address := Word.ofBytes 0 (t.pointer + index.value r) }, r)
  | .zeroPageIndexed _, _ => return (true, t, r)
  | .absolute, 1 => do
    let (lo, r) ← next r
    return (false, { t with address := Word.ofBytes 0 lo }, r)
  | .absolute, 2 => do
    let (hi, r) ← next r
    return (false, { t with address := Word.ofBytes hi t.address.low }, r)
  | .absolute, _ => return (true, t, r)
  | .absoluteIndexed _, 1 => do
    let (lo, r) ← next r
    return (false, { t with address := Word.ofBytes 0 lo }, r)
  | .absoluteIndexed index, 2 => do
    let (hi, r) ← next r
    return (false, t.addIndex hi (index.value r), r)
  | .absoluteIndexed _, 3 => do
    let (ready, t) ← correct t correction
    return (ready, t, r)
  | .absoluteIndexed _, _ => return (true, t, r)
  | .indexedIndirect, 1 => do
    let (z, r) ← next r
    return (false, { t with pointer := z }, r)
  | .indexedIndirect, 2 => do
    let _ ← read (Word.ofBytes 0 t.pointer)
    return (false, { t with pointer := t.pointer + r.x }, r)
  | .indexedIndirect, 3 => do
    let lo ← read (Word.ofBytes 0 t.pointer)
    return (false, { t with address := Word.ofBytes 0 lo }, r)
  | .indexedIndirect, 4 => do
    let hi ← read (Word.ofBytes 0 (t.pointer + 1))
    return (false, { t with address := Word.ofBytes hi t.address.low }, r)
  | .indexedIndirect, _ => return (true, t, r)
  | .indirectIndexed, 1 => do
    let (z, r) ← next r
    return (false, { t with pointer := z }, r)
  | .indirectIndexed, 2 => do
    let lo ← read (Word.ofBytes 0 t.pointer)
    return (false, { t with address := Word.ofBytes 0 lo }, r)
  | .indirectIndexed, 3 => do
    let hi ← read (Word.ofBytes 0 (t.pointer + 1))
    return (false, t.addIndex hi r.y, r)
  | .indirectIndexed, 4 => do
    let (ready, t) ← correct t correction
    return (ready, t, r)
  | .indirectIndexed, _ => return (true, t, r)

/-- The same, where an address that has been found final before stays so. -/
def resolve (t : Target) (cycle : Nat) (mode : Mode) (correction : Correction) (r : Registers) :
    Script (Bool × Target × Registers) :=
  if t.ready then return (true, t, r)
  else do
    let (ready, t, r) ← search t cycle mode correction r
    return (ready, { t with ready }, r)

/-! ## Instructions with an operand in memory -/

/-- Go on with the instruction's own accesses as soon as the address is final. -/
def atTarget (mode : Mode) (correction : Correction)
    (go : Progress → Registers → Script Stage) (p : Progress) (r : Registers) : Script Stage := do
  let (ready, target, r) ← resolve p.target p.cycle mode correction r
  if ready then go { p with target } r else return .more { p with target } r

def data (op : DataOp) (p : Progress) (r : Registers) : Script Stage := do
  let value ← read p.target.address
  return .done p (op.apply r value)

def store (op : StoreOp) (p : Progress) (r : Registers) : Script Stage := do
  write p.target.address (op.value r)
  return .done p r

def modify (op : ModifyOp) (p : Progress) (r : Registers) : Script Stage :=
  let address := p.target.address
  let phase := p.phase + 1
  match phase with
  | 1 => do
    let data ← read address
    return .more { p with phase, data } r
  | 2 => do
    write address p.data
    let (data, r) := op.apply r p.data
    return .more { p with phase, data } r
  | _ => do
    write address p.data
    return .done { p with phase } r

/-! ## Sequences of their own -/

/-- Read a byte and drop it. -/
def skip (address : Word) (p : Progress) (r : Registers) : Script Stage := do
  let _ ← read address
  return .more p r

def branch (condition : Condition) (p : Progress) (r : Registers) : Script Stage :=
  match p.cycle with
  | 1 => do
    let (offset, r) ← next r
    return .more (p.keep offset) r
  | 2 => do
    let opcode ← read r.pc
    if condition.holds r.p then
      return .more (p.setAddress (r.pc + p.data.signExtend 16))
        { r with pc := Word.ofBytes r.pc.high (r.pc.low + p.data) }
    else return .prefetched p r.advancePc opcode
  | 3 => do
    let opcode ← read r.pc
    if r.pc = p.target.address then return .prefetched p r.advancePc opcode
    else return .more p { r with pc := p.target.address }
  | _ => do
    let opcode ← read r.pc
    return .prefetched p r.advancePc opcode

/-- Read the low byte of a vector. -/
def vectorLow (vector : Word) (p : Progress) (r : Registers) : Script Stage := do
  let lo ← read vector
  return .more (p.setAddress (Word.ofBytes 0 lo)) r

/-- Read the high byte of a vector, and continue where it points. -/
def vectorHigh (vector : Word) (p : Progress) (r : Registers) : Script Stage := do
  let hi ← read (vector + 1)
  return .done p { r with pc := Word.ofBytes hi p.target.address.low }

def brk (p : Progress) (r : Registers) : Script Stage :=
  match p.cycle with
  | 1 => do
    let (_, r) ← next r
    return .more p r
  | 2 => return .more p (← push r.pc.high r)
  | 3 => return .more p (← push r.pc.low r)
  | 4 => return .more p (← push r.p.instructionCopy r)
  | 5 => vectorLow Interrupt.irq.vector p { r with p.interruptDisable := true }
  | _ => vectorHigh Interrupt.irq.vector p r

def entry (source : Interrupt) (p : Progress) (r : Registers) : Script Stage :=
  match p.cycle with
  | 1 => skip r.pc p r
  | 2 => return .more p (← push r.pc.high r)
  | 3 => return .more p (← push r.pc.low r)
  | 4 => do
    let r ← push r.p.interruptCopy r
    return .more p { r with p.interruptDisable := true }
  | 5 => vectorLow source.vector p r
  | _ => vectorHigh source.vector p r

def reset (p : Progress) (r : Registers) : Script Stage :=
  match p.cycle with
  | 1 | 2 => skip r.pc p r
  | 3 | 4 | 5 => skip r.slot p r.pushed
  | 6 => vectorLow resetVector p r
  | _ => vectorHigh resetVector p { r with p.interruptDisable := true }

def jsr (p : Progress) (r : Registers) : Script Stage :=
  match p.cycle with
  | 1 => do
    let (lo, r) ← next r
    return .more (p.keep lo) r
  | 2 => skip r.slot p r
  | 3 => return .more p (← push r.pc.high r)
  | 4 => return .more p (← push r.pc.low r)
  | _ => do
    let hi ← read r.pc
    return .done p { r with pc := Word.ofBytes hi p.data }

def rts (p : Progress) (r : Registers) : Script Stage :=
  match p.cycle with
  | 1 => skip r.pc p r
  | 2 => skip r.slot p r
  | 3 => do
    let (lo, r) ← pull r
    return .more (p.setAddress (Word.ofBytes 0 lo)) r
  | 4 => do
    let (hi, r) ← pull r
    let address := Word.ofBytes hi p.target.address.low
    return .more (p.setAddress address) { r with pc := address }
  | _ => do
    let (_, r) ← next r
    return .done p r

def rti (p : Progress) (r : Registers) : Script Stage :=
  match p.cycle with
  | 1 => skip r.pc p r
  | 2 => skip r.slot p r
  | 3 => do
    let (status, r) ← pull r
    return .more p { r with p := Status.ofByte status }
  | 4 => do
    let (lo, r) ← pull r
    return .more (p.setAddress (Word.ofBytes 0 lo)) r
  | _ => do
    let (hi, r) ← pull r
    return .done p { r with pc := Word.ofBytes hi p.target.address.low }

def jmp (p : Progress) (r : Registers) : Script Stage :=
  match p.cycle with
  | 1 => do
    let (lo, r) ← next r
    return .more (p.keep lo) r
  | _ => do
    let hi ← read r.pc
    return .done p { r with pc := Word.ofBytes hi p.data }

def jmpIndirect (p : Progress) (r : Registers) : Script Stage :=
  let pointer := p.target.address
  match p.cycle with
  | 1 => do
    let (lo, r) ← next r
    return .more (p.setAddress (Word.ofBytes 0 lo)) r
  | 2 => do
    let (hi, r) ← next r
    return .more (p.setAddress (Word.ofBytes hi pointer.low)) r
  | 3 => do
    let lo ← read pointer
    return .more (p.keep lo) r
  | _ => do
    let hi ← read (Word.ofBytes pointer.high (pointer.low + 1))
    return .done p { r with pc := Word.ofBytes hi p.data }

def pushByte (value : Byte) (p : Progress) (r : Registers) : Script Stage :=
  match p.cycle with
  | 1 => skip r.pc p r
  | _ => return .done p (← push value r)

/-- The byte is there on the last cycle. -/
def pullByte (p : Progress) (r : Registers) : Script (Option Byte × Registers) :=
  match p.cycle with
  | 1 => do
    let _ ← read r.pc
    return (none, r)
  | 2 => do
    let _ ← read r.slot
    return (none, r)
  | _ => do
    let (value, r) ← pull r
    return (some value, r)

/-! ## Ticks -/

/-- One cycle of a sequence. -/
def cycle (s : Sequence) (p : Progress) (r : Registers) : Script Stage :=
  match s with
  | .data mode op => atTarget mode .ifCrossed (data op) p r
  | .store mode op => atTarget mode .always (store op) p r
  | .modify mode op => atTarget mode .always (modify op) p r
  | .accumulator op => do
    let _ ← read r.pc
    let (value, r) := op.apply r r.a
    return .done p { r with a := value }
  | .register op => do
    let _ ← read r.pc
    return .done p (op.apply r)
  | .branch condition => branch condition p r
  | .brk => brk p r
  | .entry source => entry source p r
  | .reset => reset p r
  | .jsr => jsr p r
  | .rts => rts p r
  | .rti => rti p r
  | .jmp => jmp p r
  | .jmpIndirect => jmpIndirect p r
  | .pha => pushByte r.a p r
  | .php => pushByte r.p.instructionCopy p r
  | .pla => do
    match ← pullByte p r with
    | (some value, r) => return .done p (r.setA value)
    | (none, r) => return .more p r
  | .plp => do
    match ← pullByte p r with
    | (some value, r) => return .done p { r with p := Status.ofByte value }
    | (none, r) => return .more p r
  | .jam | .unsupported => skip r.pc p r

/-- Where nothing is in flight, an opcode is fetched, or read and dropped for an interrupt. -/
def fetch (p : Processor) : Script Processor.Turn :=
  match p.dueInterrupt with
  | some source => do
    let _ ← read p.regs.pc
    return p.enter source
  | none => do
    let opcode ← read p.regs.pc
    return p.fetched opcode

/-- A tick.  A refusal that was put off is reported first. -/
def tick (p : Processor) : Script Processor.Turn :=
  match p.refusal with
  | some e => return ⟨.refused e, { p with refusal := none }, []⟩
  | none =>
    match p.inFlight with
    | none => fetch p.counted
    | some i => do
      let stage ← cycle i.sequence i.progress p.regs
      return p.counted.settle (i.after stage)

/-! ## One access on every cycle -/

/-- What spends a cycle on the address makes an access, and what leaves the bus free makes none. -/
def Spends {α : Type} (s : Script (Bool × α)) : Prop :=
  s.Always fun l x => l.length = if x.1 then 0 else 1

/-- Exactly one access is made, whatever is answered. -/
def Once {α : Type} (s : Script α) : Prop := s.Always fun l _ => l.length = 1

theorem spends_correct (t : Target) (correction : Correction) : Spends (correct t correction) := by
  unfold correct
  split
  · exact rfl
  · exact fun _ => rfl

theorem spends_search (t : Target) (n : Nat) (mode : Mode) (correction : Correction)
    (r : Registers) : Spends (search t n mode correction r) := by
  have hcorrect : Spends (do
      let (ready, t) ← correct t correction
      return (ready, t, r)) := by
    refine (spends_correct t correction).bind ?_
    rintro l ⟨ready, t⟩ h
    simpa using h
  unfold search
  split <;> first
    | exact rfl
    | exact fun _ => rfl
    | exact hcorrect

/-- A cycle that looks for an address makes an access if and only if it does not find it final. -/
theorem spends_resolve (t : Target) (n : Nat) (mode : Mode) (correction : Correction)
    (r : Registers) : Spends (resolve t n mode correction r) := by
  unfold resolve
  split
  · exact rfl
  · refine (spends_search t n mode correction r).bind ?_
    rintro l ⟨ready, t, r⟩ h
    simpa using h

/-- The accesses of the instruction begin on the cycle that finds the address final. -/
theorem once_atTarget {go : Progress → Registers → Script Stage} (h : ∀ p r, Once (go p r))
    (mode : Mode) (correction : Correction) (p : Progress) (r : Registers) :
    Once (atTarget mode correction go p r) := by
  refine (spends_resolve ..).bind ?_
  rintro l ⟨ready, t, r'⟩ hl
  cases ready with
  | true =>
      obtain rfl : l = [] := List.eq_nil_of_length_eq_zero hl
      exact h _ _
  | false => simpa using hl

theorem once_data (op : DataOp) (p : Progress) (r : Registers) : Once (data op p r) := fun _ => rfl

theorem once_store (op : StoreOp) (p : Progress) (r : Registers) : Once (store op p r) := rfl

theorem once_modify (op : ModifyOp) (p : Progress) (r : Registers) : Once (modify op p r) := by
  unfold modify
  dsimp only
  split
  · exact fun _ => rfl
  · exact rfl
  · exact rfl

/-- Whether it is taken or not, a branch reads once on each of its cycles. -/
theorem once_branch (condition : Condition) (p : Progress) (r : Registers) :
    Once (branch condition p r) := by
  unfold branch
  split
  · exact fun _ => rfl
  · intro opcode
    dsimp only
    split <;> exact rfl
  · intro opcode
    dsimp only
    split <;> exact rfl
  · exact fun _ => rfl

theorem once_pullByte (p : Progress) (r : Registers) : Once (pullByte p r) := by
  unfold pullByte
  split <;> exact fun _ => rfl

theorem once_cycle (s : Sequence) (p : Progress) (r : Registers) : Once (cycle s p r) := by
  cases s with
  | data mode op => exact once_atTarget (once_data op) mode .ifCrossed p r
  | store mode op => exact once_atTarget (once_store op) mode .always p r
  | modify mode op => exact once_atTarget (once_modify op) mode .always p r
  | branch condition => exact once_branch condition p r
  | pla | plp =>
      refine (once_pullByte p r).bind ?_
      rintro l ⟨_ | value, r⟩ hl <;> simpa using hl
  | accumulator | register | jam | unsupported => exact fun _ => rfl
  | _ =>
      simp only [cycle, brk, entry, reset, jsr, rts, rti, jmp, jmpIndirect, pushByte]
      split <;> first
        | exact rfl
        | exact fun _ => rfl

theorem once_fetch (p : Processor) : Once (fetch p) := by
  unfold fetch
  split <;> exact fun _ => rfl

/-- A tick makes no access if it reports a refusal, and one in all other cases. -/
theorem always_tick (p : Processor) :
    (tick p).Always fun l _ => l.length = if p.refusal.isSome then 0 else 1 := by
  unfold tick
  cases hr : p.refusal with
  | some e => exact rfl
  | none =>
      cases hi : p.inFlight with
      | none => exact once_fetch p.counted
      | some i =>
          refine (once_cycle i.sequence i.progress p.regs).bind ?_
          intro l stage hl
          simpa using hl

/-! ## The clock of the processor -/

theorem resolve_eq (t : Target) (n : Nat) (mode : Mode) (correction : Correction) (r : Registers) :
    resolve t n mode correction r =
      match t.locate n mode correction r with
      | .pending c => .ofCycle c fun x => .done (false, x)
      | .ready t r => .done (true, t, r) := by
  obtain ⟨address, pointer, crossed, ready⟩ := t
  cases ready with
  | true => rfl
  | false =>
      -- Only the cycle that corrects an address depends on what has been found before.
      cases mode <;> rcases n with _ | _ | _ | _ | _ | n
      case absoluteIndexed.succ.succ.succ.zero | indirectIndexed.succ.succ.succ.succ.zero =>
        cases crossed <;> cases correction <;> rfl
      case absoluteIndexed.succ.succ.zero index => cases index <;> rfl
      all_goals rfl

theorem atTarget_eq {go : Progress → Registers → Script Stage}
    {next : Progress → Registers → Cycle Stage}
    (h : ∀ p r, go p r = .ofCycle (next p r) .done) (mode : Mode) (correction : Correction)
    (p : Progress) (r : Registers) :
    atTarget mode correction go p r =
      .ofCycle (Sequence.atTarget mode correction next p r) .done := by
  rw [atTarget, Sequence.atTarget, resolve_eq]
  cases p.target.locate p.cycle mode correction r with
  | pending c => cases c <;> rfl
  | ready t r => exact h _ _

theorem data_eq (op : DataOp) (p : Progress) (r : Registers) :
    data op p r = .ofCycle (Sequence.read op p r) .done :=
  rfl

theorem store_eq (op : StoreOp) (p : Progress) (r : Registers) :
    store op p r = .ofCycle (Sequence.write op p r) .done :=
  rfl

theorem modify_eq (op : ModifyOp) (p : Progress) (r : Registers) :
    modify op p r = .ofCycle (Sequence.readModifyWrite op p r) .done := by
  obtain ⟨cycle, target, phase, data⟩ := p
  rcases phase with _ | _ | phase <;> rfl

theorem branch_eq (condition : Condition) (p : Progress) (r : Registers) :
    branch condition p r = .ofCycle (Sequence.branchOn condition p r) .done := by
  obtain ⟨n, target, phase, data⟩ := p
  rcases n with _ | _ | _ | _ | n
  case succ.succ.zero | succ.succ.succ.zero =>
    -- The test is made on what has been read.
    refine Script.read_congr fun opcode => ?_
    dsimp only
    split <;> rfl
  all_goals rfl

/-- A cycle of a sequence is that script. -/
theorem cycle_eq (s : Sequence) (p : Progress) (r : Registers) :
    cycle s p r = .ofCycle (s.cycle p r) .done := by
  cases s with
  | data mode op => exact atTarget_eq (data_eq op) mode .ifCrossed p r
  | store mode op => exact atTarget_eq (store_eq op) mode .always p r
  | modify mode op => exact atTarget_eq (modify_eq op) mode .always p r
  | branch condition => exact branch_eq condition p r
  | accumulator | register | jam | unsupported => rfl
  | _ =>
      obtain ⟨n, target, phase, data⟩ := p
      rcases n with _ | _ | _ | _ | _ | _ | _ | n <;> rfl

theorem fetch_eq (p : Processor) : fetch p = .ofCycle p.fetch .done := by
  cases hd : p.dueInterrupt with
  | some source =>
      rw [fetch, hd, Processor.fetch_of_due hd]
      rfl
  | none =>
      rw [fetch, hd, Processor.fetch_of_none hd]
      rfl

theorem tick_eq {p : Processor} (h : p.refusal = none) : tick p = .ofCycle p.cycle .done := by
  cases hi : p.inFlight with
  | none =>
      rw [tick, h, hi, Processor.cycle_of_idle hi]
      exact fetch_eq p.counted
  | some i =>
      rw [tick, h, hi, Processor.cycle_of_inFlight hi, Instruction.advance]
      dsimp only
      rw [cycle_eq]
      cases i.sequence.cycle i.progress p.regs <;> rfl

/-- **A tick is that script.** -/
theorem run_tick {β : Type u} [Bus β] (p : Processor) (bus : β) :
    (tick p).run bus = p.tick bus := by
  cases h : p.refusal with
  | some e =>
      rw [tick, h, Processor.tick_of_refusal h]
      rfl
  | none =>
      rw [tick_eq h, Script.run_ofCycle, Processor.tick_of_none h]
      rfl

/-- How many accesses a tick makes on a bus. -/
theorem length_trace_tick {β : Type u} [Bus β] (p : Processor) (bus : β) :
    ((tick p).trace bus).length = if p.refusal.isSome then 0 else 1 :=
  (always_tick p).run bus

end Mos6502.Clock
