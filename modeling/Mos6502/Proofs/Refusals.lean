import Mathlib.Data.List.Basic
import Mos6502.Memory
import Mos6502.Proofs.Prefetch
import Mos6502.Proofs.Requests

/-!
# Unsupported opcodes

An opcode that is not executed is decoded by a fetch, which reports it at once, or by the last tick
of a branch, which leaves the report to the next tick.  Here every such opcode is accounted for:
what waits before an act and what the act decodes is, in this order, what the act settles and what
waits behind it (`refusal_act`).  Only a report settles a refusal, or a reset, which drops it; so on
a run without a reset the refusals that are returned are those decoded, in their order, up to one
that still waits.
-/

universe u

namespace Mos6502

/-- The refusal in a reply, if it is one. -/
def Reply.refusal? : Reply → Option UnsupportedOpcode
  | .outcome o => o.refusal?
  | .taken _ | .nothing => none

namespace Board

variable {β : Type u} [Bus β]

/-- The refusals that a run of calls returns. -/
def refusals (b : Board β) (cs : List Call) : List UnsupportedOpcode :=
  (b.replies cs).filterMap Reply.refusal?

/-- A tick would decode an opcode: it fetches one, or it is the last of a branch. -/
def decodes (b : Board β) : Bool :=
  b.processor.refusal.isNone &&
    match b.processor.inFlight with
    | none => b.processor.dueInterrupt.isNone
    | some i => i.sequence.isBranch && b.turn.outcome == .completed

/-- The opcode that a tick would decode and that is not executed. -/
def unsupported? (b : Board β) : Option UnsupportedOpcode :=
  let opcode := (Bus.read b.bus b.processor.regs.pc).1
  if b.decodes && Opcode.sequence opcode == .unsupported then some ⟨b.processor.regs.pc, opcode⟩
  else none

end Board

namespace Moment

variable {β : Type u} [Bus β]

/-- The opcode that the act decodes and that is not executed. -/
def decoded (m : Moment β) : Option UnsupportedOpcode :=
  match m.act with
  | .tick => m.board.unsupported?
  | _ => none

/-- The refusal that the act returns. -/
def reported (m : Moment β) : Option UnsupportedOpcode :=
  match m.act with
  | .tick => m.board.turn.outcome.refusal?
  | _ => none

/-- The refusal that the act does away with: it returns it, or it is a reset and drops it. -/
def settled (m : Moment β) : Option UnsupportedOpcode :=
  match m.act with
  | .reset => m.board.processor.refusal
  | _ => m.reported

end Moment

namespace Board

variable {β : Type u} [Bus β] {b : Board β}

/-! ## One tick -/

/-- What decodes an opcode is a fetch or the end of a branch, and reads it at the program counter.
-/
theorem tick_of_decodes (h : b.decodes = true) :
    b.processor.refusal = none ∧
      (b.processor.inFlight = none ∧
          b.processor.tick b.bus =
            (b.processor.counted.fetched (Bus.read b.bus b.processor.regs.pc).1,
              (Bus.read b.bus b.processor.regs.pc).2) ∨
        b.processor.tick b.bus =
          ({ b.processor.counted.dropped with regs := b.processor.regs.advancePc }.complete
            (some (Bus.read b.bus b.processor.regs.pc).1),
            (Bus.read b.bus b.processor.regs.pc).2)) := by
  rw [decodes, Bool.and_eq_true, Option.isNone_iff_eq_none] at h
  obtain ⟨hr, h⟩ := h
  refine ⟨hr, ?_⟩
  cases hi : b.processor.inFlight with
  | none =>
      rw [hi] at h
      exact .inl ⟨rfl, Processor.tick_of_fetch hr hi (Option.isNone_iff_eq_none.mp h) b.bus⟩
  | some i =>
      rw [hi, Bool.and_eq_true, Sequence.isBranch_iff, beq_iff_eq] at h
      obtain ⟨⟨c, hs⟩, hc⟩ := h
      exact .inr (Processor.tick_branch hi hs hc)

/-- An unsupported opcode is reported by the fetch that reads it, and kept by a branch. -/
theorem tick_of_unsupported {e : UnsupportedOpcode} (h : b.unsupported? = some e) :
    b.processor.refusal = none ∧
      e = ⟨b.processor.regs.pc, (Bus.read b.bus b.processor.regs.pc).1⟩ ∧
      (b.act .tick).bus = (Bus.read b.bus b.processor.regs.pc).2 ∧
      let p : Processor :=
        { b.processor.counted.dropped with regs := b.processor.regs.advancePc, opcode := e.opcode }
      (b.processor.inFlight = none ∧ b.turn.outcome = .refused e ∧ (b.act .tick).processor = p ∨
        b.turn.outcome = .completed ∧ (b.act .tick).processor = { p with refusal := some e }) := by
  rw [unsupported?] at h
  split at h
  · next hd =>
      rw [Bool.and_eq_true] at hd
      obtain ⟨hd, hu⟩ := hd
      cases h
      obtain ⟨hr, ⟨hi, ht⟩ | ht⟩ := tick_of_decodes hd
      · rw [Processor.fetched, Processor.accept_of_unsupported hu] at ht
        refine ⟨hr, rfl, congrArg Prod.snd ht, .inl ⟨hi, congrArg (·.1.outcome) ht, ?_⟩⟩
        rw [act, turn, ht, Processor.dropped, ← hi]
        rfl
      · have hpc : b.processor.regs.advancePc.pc - 1 = b.processor.regs.pc :=
          BitVec.add_sub_cancel b.processor.regs.pc 1
        rw [Processor.complete_of_unsupported hu] at ht
        refine ⟨hr, rfl, congrArg Prod.snd ht, .inr ⟨congrArg (·.1.outcome) ht, ?_⟩⟩
        rw [act, turn, ht]
        simp only [hpc]
  · cases h

/-- Without one, and with nothing to report, a tick returns no refusal and keeps none. -/
theorem tick_of_no_unsupported (hc : b.processor.Coherent) (hr : b.processor.refusal = none)
    (h : b.unsupported? = none) :
    b.turn.outcome.refusal? = none ∧ (b.act .tick).processor.refusal = none := by
  cases hd : b.decodes with
  | true =>
      have hu : (Instruction.decode (Bus.read b.bus b.processor.regs.pc).1).isUnsupported =
          false := by
        rw [unsupported?, hd, Bool.true_and] at h
        split at h
        · cases h
        · next hu => exact Bool.eq_false_iff.mpr hu
      obtain ⟨-, ⟨-, ht⟩ | ht⟩ := tick_of_decodes hd
      · rw [Processor.fetched, Processor.accept_of_supported hu] at ht
        rw [act, turn, ht]
        exact ⟨rfl, hr⟩
      · rw [Processor.complete_of_supported hu] at ht
        rw [act, turn, ht]
        exact ⟨rfl, hr⟩
  | false =>
      have ht := b.processor.ticks b.bus
      rw [decodes, hr, Option.isNone_none, Bool.true_and] at hd
      rw [turn] at hd
      rw [act, turn]
      generalize b.processor.tick b.bus = t at ht hd ⊢
      cases ht with
      | reported hr' =>
          rw [hr] at hr'
          cases hr'
      | @entered source => exact ⟨rfl, by cases source <;> exact hr⟩
      | fetched hr' hi hdue =>
          rw [hi, hdue] at hd
          cases hd
      | advanced => exact ⟨rfl, hr⟩
      | @ended i r bus' hr' hi hs =>
          rw [hc.taken i hi]
          exact ⟨rfl, hr⟩
      | @branched i c r opcode bus' hr' hi hs =>
          rw [hi, Bool.and_eq_false_iff, hs] at hd
          rcases hd with hd | hd
          · cases hd
          · rw [beq_eq_false_iff_ne] at hd
            rcases (b.processor.counted.retired r).complete_cases opcode with hc | hc
            · rw [hc] at hd
              exact absurd rfl hd
            · rw [hc] at hd
              exact absurd rfl hd

/-! ## The account -/

/-- What waits and what an act decodes is what the act settles and what waits behind it. -/
theorem refusal_act (hc : b.processor.Coherent) (a : Act) :
    b.processor.refusal.toList ++ (Moment.decoded ⟨b, a⟩).toList =
      (Moment.settled ⟨b, a⟩).toList ++ (b.act a).processor.refusal.toList := by
  cases a with
  | tick =>
      show _ ++ b.unsupported?.toList = b.turn.outcome.refusal?.toList ++ _
      cases hr : b.processor.refusal with
      | some e =>
          have hu : b.unsupported? = none := by
            rw [unsupported?, decodes, hr]
            rfl
          rw [hu, act, turn, Processor.tick_of_refusal hr]
          rfl
      | none =>
          cases hu : b.unsupported? with
          | none =>
              obtain ⟨ho, hr'⟩ := tick_of_no_unsupported hc hr hu
              rw [ho, hr']
          | some e =>
              obtain ⟨-, -, -, ⟨-, ho, hp⟩ | ⟨ho, hp⟩⟩ := tick_of_unsupported hu
              · rw [ho, hp]
                show _ = _ ++ b.processor.refusal.toList
                rw [hr]
                rfl
              · rw [ho, hp]
                rfl
  | interrupt =>
      simp only [act, Processor.interrupt]
      split <;> exact List.append_nil _
  | nmi | setPc => exact List.append_nil _
  | reset => rfl

/-- The account over a run. -/
theorem refusal_after (hc : b.processor.Coherent) (acts : List Act) :
    b.processor.refusal.toList ++ (b.history acts).filterMap Moment.decoded =
      (b.history acts).filterMap Moment.settled ++ (b.after acts).processor.refusal.toList := by
  induction acts generalizing b with
  | nil => exact List.append_nil _
  | cons a acts ih =>
      have hstep := refusal_act hc a
      have hrest := ih (coherent_act b a hc)
      rw [List.filterMap_eq_flatMap_toList, List.filterMap_eq_flatMap_toList] at hrest ⊢
      rw [history_cons, List.flatMap_cons, List.flatMap_cons, ← List.append_assoc, hstep,
        List.append_assoc, hrest, List.append_assoc]
      rfl

/-! ## Refusals that are returned -/

/-- A step returns the one refusal that its ticks report, if there is one. -/
theorem reported_stepWithin (limit : Nat) (b : Board β) :
    (b.history (List.replicate (b.ticksWithin limit) .tick)).filterMap Moment.reported =
      (b.processor.stepWithin limit b.bus).1.outcome.refusal?.toList := by
  induction limit generalizing b with
  | zero => rfl
  | succ limit ih =>
      cases h : b.turn.ends with
      | true =>
          rw [Processor.stepWithin_of_ends h, ticksWithin, if_pos h]
          show [_].filterMap Moment.reported = _
          rw [List.filterMap_eq_flatMap_toList, List.flatMap_singleton]
          rfl
      | false =>
          have hnone : Moment.reported ⟨b, .tick⟩ = none := by
            have hends := h
            rw [Processor.Turn.ends, Bool.or_eq_false_iff, bne_eq_false_iff_eq] at hends
            show b.turn.outcome.refusal? = none
            rw [hends.1]
            rfl
          rw [Processor.stepWithin_of_not_ends h, ticksWithin, if_neg (Bool.eq_false_iff.mp h),
            List.replicate_succ, history_cons, List.filterMap_cons_none hnone]
          exact ih (b.act .tick)

theorem refusals_cons (b : Board β) (c : Call) (cs : List Call) :
    b.refusals (c :: cs) = (b.reply c).refusal?.toList ++ (b.call c).refusals cs := by
  rw [refusals, refusals, replies, List.filterMap_eq_flatMap_toList,
    List.filterMap_eq_flatMap_toList, List.flatMap_cons]

/-- The refusals that calls return are those that their acts report. -/
theorem refusals_eq_reported (b : Board β) (cs : List Call) :
    b.refusals cs = (b.history (b.acts cs)).filterMap Moment.reported := by
  have hcall : ∀ (b : Board β) (c : Call),
      (b.history (b.actsOf c)).filterMap Moment.reported = (b.reply c).refusal?.toList := by
    intro b c
    cases c with
    | step => exact reported_stepWithin Processor.longest b
    | act a =>
        show [_].filterMap Moment.reported = _
        rw [List.filterMap_eq_flatMap_toList, List.flatMap_singleton]
        cases a <;> rfl
  induction cs generalizing b with
  | nil => rfl
  | cons c cs ih =>
      rw [refusals_cons, acts, history_append, List.filterMap_append, hcall, ← call_eq_after,
        ← ih (b.call c)]

/-- The acts of calls are ticks, and the acts called. -/
theorem mem_acts {a : Act} {cs : List Call} (b : Board β) (h : a ∈ b.acts cs) :
    a = .tick ∨ .act a ∈ cs := by
  induction cs generalizing b with
  | nil => exact absurd h List.not_mem_nil
  | cons c cs ih =>
      rcases List.mem_append.mp h with h | h
      · cases c with
        | act a' => exact .inr (List.mem_singleton.mp h ▸ List.mem_cons_self)
        | step => exact .inl (List.eq_of_mem_replicate h)
      · rcases ih (b.call c) h with h | h
        · exact .inl h
        · exact .inr (List.mem_cons_of_mem _ h)

theorem act_mem_of_mem_history {m : Moment β} {acts : List Act} (b : Board β)
    (h : m ∈ b.history acts) : m.act ∈ acts := by
  induction acts generalizing b with
  | nil => exact absurd h List.not_mem_nil
  | cons a acts ih =>
      rcases List.mem_cons.mp h with rfl | h
      · exact List.mem_cons_self
      · exact List.mem_cons_of_mem a (ih (b.act a) h)

/-- Without a reset, a refusal is only settled by being reported. -/
theorem settled_eq_reported (b : Board β) {acts : List Act} (h : ∀ a ∈ acts, a ≠ .reset) :
    (b.history acts).filterMap Moment.settled = (b.history acts).filterMap Moment.reported := by
  refine List.filterMap_congr fun m hm => ?_
  have hm' := h m.act (act_mem_of_mem_history b hm)
  obtain ⟨b', a⟩ := m
  cases a with
  | reset => exact absurd rfl hm'
  | tick | interrupt | nmi | setPc => rfl

/-! ## Behind a refusal -/

/-- The next tick enters the interrupt that is due, or fetches the opcode at an address. -/
def ResumesAt (b : Board β) (address : Word) : Prop :=
  b.processor.inFlight = none ∧ b.processor.refusal = none ∧
    ((∃ source, b.processor.dueInterrupt = some source ∧ b.turn.Enters source) ∨
      b.processor.dueInterrupt = none ∧ (b.act .tick).bus = (Bus.read b.bus address).2 ∧
        (b.act .tick).processor.opcode = (Bus.read b.bus address).1 ∧
        (b.act .tick).processor.regs.pc = address + 1)

theorem resumesAt_of_idle (hr : b.processor.refusal = none) (hi : b.processor.inFlight = none) :
    b.ResumesAt b.processor.regs.pc := by
  refine ⟨hi, hr, ?_⟩
  cases hd : b.processor.dueInterrupt with
  | some source =>
      refine .inl ⟨source, rfl, ?_⟩
      rw [turn, Processor.tick_of_due hr hi hd]
      rfl
  | none =>
      have ht := Processor.tick_of_fetch hr hi hd b.bus
      refine .inr ⟨rfl, congrArg Prod.snd ht, ?_⟩
      rw [act, turn, ht]
      obtain ⟨events, hf | hf⟩ :=
        b.processor.counted.fetched_cases (Bus.read b.bus b.processor.regs.pc).1
      · rw [hf]
        exact ⟨rfl, rfl⟩
      · rw [hf]
        exact ⟨rfl, rfl⟩

/-- Requests leave everything but the requests as it is. -/
theorem after_requests (b : Board β) {acts : List Act} (h : ∀ a ∈ acts, a = .interrupt ∨ a = .nmi) :
    (b.after acts).processor.regs = b.processor.regs ∧
      (b.after acts).processor.inFlight = b.processor.inFlight ∧
      (b.after acts).processor.refusal = b.processor.refusal := by
  induction acts generalizing b with
  | nil => exact ⟨rfl, rfl, rfl⟩
  | cons a acts ih =>
      obtain ⟨hregs, hi, hr⟩ := ih (b.act a) fun a' h' => h a' (List.mem_cons_of_mem a h')
      rw [after_cons, hregs, hi, hr]
      rcases h a List.mem_cons_self with rfl | rfl
      · simp only [act, Processor.interrupt]
        split <;> exact ⟨rfl, rfl, rfl⟩
      · exact ⟨rfl, rfl, rfl⟩

theorem resumesAt_after_requests {address : Word} (hr : b.processor.refusal = none)
    (hi : b.processor.inFlight = none) (hpc : b.processor.regs.pc = address) {acts : List Act}
    (h : ∀ a ∈ acts, a = .interrupt ∨ a = .nmi) : (b.after acts).ResumesAt address := by
  obtain ⟨hregs, hi', hr'⟩ := b.after_requests h
  have hidle := resumesAt_of_idle (hr'.trans hr) (hi'.trans hi)
  rwa [hregs, hpc] at hidle

/-- An unsupported opcode is passed over: it is reported at once or by the next tick, and unless the
program counter is moved, execution goes on with the byte behind it. -/
theorem resumes_of_unsupported {e : UnsupportedOpcode} (h : b.unsupported? = some e)
    {between : List Act} (hb : ∀ a ∈ between, a = .interrupt ∨ a = .nmi) :
    let c := (b.act .tick).after between
    b.turn.outcome = .refused e ∧ c.ResumesAt (e.address + 1) ∨
      b.turn.outcome = .completed ∧ c.turn.outcome = .refused e ∧
        ∀ between' : List Act, (∀ a ∈ between', a = .interrupt ∨ a = .nmi) →
          ((c.act .tick).after between').ResumesAt (e.address + 1) := by
  intro c
  obtain ⟨hr, he, -, ⟨-, ho, hp⟩ | ⟨ho, hp⟩⟩ := tick_of_unsupported h
  · have hpc : (b.act .tick).processor.regs.pc = e.address + 1 := by
      rw [hp, he]
      rfl
    exact .inl ⟨ho, resumesAt_after_requests (by rw [hp]; exact hr) (by rw [hp]; rfl) hpc hb⟩
  · obtain ⟨hregs, hi, hwaits⟩ := (b.act .tick).after_requests hb
    rw [hp] at hregs hi hwaits
    have ht := Processor.tick_of_refusal hwaits c.bus
    refine .inr ⟨ho, congrArg (·.1.outcome) ht, fun between' hb' => ?_⟩
    refine resumesAt_after_requests ?_ ?_ ?_ hb'
    · rw [act, turn, ht]
    · rw [act, turn, ht]
      exact hi
    · rw [act, turn, ht]
      show c.processor.regs.pc = _
      rw [hregs, he]
      rfl

/-! ## Runs -/

/-- A board with a processor that has just been created or reset. -/
inductive Begins : Board β → Prop
  | created (regs : Registers) (bus : β) : Begins (fresh regs bus)
  | reset (b : Board β) : Begins (b.act .reset)

theorem Begins.coherent {start : Board β} (h : start.Begins) : start.processor.Coherent := by
  cases h with
  | created regs bus => exact coherent_after regs bus []
  | reset b => exact Processor.coherent_of_inFlight (i := .reset) rfl rfl (Nat.le_refl 1) rfl

theorem Begins.refusal {start : Board β} (h : start.Begins) : start.processor.refusal = none := by
  cases h with
  | created | reset => rfl

/-- A tick that returns a refusal for what it has fetched does nothing else than to fetch it. -/
theorem tick_of_refused (hc : b.processor.Coherent) (hr : b.processor.refusal = none)
    {e : UnsupportedOpcode} (h : b.turn.outcome = .refused e) :
    b.processor.inFlight = none ∧
      e = ⟨b.processor.regs.pc, (Bus.read b.bus b.processor.regs.pc).1⟩ ∧
      b.act .tick =
        ⟨{ b.processor with
            regs.pc := b.processor.regs.pc + 1
            cycles := b.processor.cycles + 1
            opcode := e.opcode }, (Bus.read b.bus b.processor.regs.pc).2⟩ := by
  cases hu : b.unsupported? with
  | none =>
      obtain ⟨ho, -⟩ := tick_of_no_unsupported hc hr hu
      rw [h] at ho
      cases ho
  | some e' =>
      obtain ⟨-, he, hbus, ⟨hi, ho, hp⟩ | ⟨ho, -⟩⟩ := tick_of_unsupported hu
      · obtain rfl : e = e' := Processor.Outcome.refused.inj (h.symm.trans ho)
        refine ⟨hi, he, Board.ext (hp.trans ?_) hbus⟩
        rw [Processor.dropped, ← hi]
        rfl
      · rw [h] at ho
        cases ho

/-- Behind a refusal nothing is in flight, and nothing waits. -/
theorem idle_of_refused (hc : b.processor.Coherent) {e : UnsupportedOpcode}
    (h : b.turn.outcome = .refused e) :
    (b.act .tick).processor.inFlight = none ∧ (b.act .tick).processor.refusal = none := by
  cases hr : b.processor.refusal with
  | some e' =>
      rw [act, turn, Processor.tick_of_refusal hr]
      exact ⟨hc.waiting e' hr, rfl⟩
  | none =>
      obtain ⟨hi, -, ht⟩ := tick_of_refused hc hr h
      rw [ht]
      exact ⟨hi, hr⟩

/-- On flat memory, what returns a refusal leaves memory as it is. -/
theorem memory_of_refused {b : Board Memory} {e : UnsupportedOpcode}
    (h : b.turn.outcome = .refused e) : (b.act .tick).bus = b.bus := by
  have ht := b.processor.ticks b.bus
  rw [turn] at h
  rw [act]
  generalize htick : b.processor.tick b.bus = t at ht h ⊢
  cases ht with
  | reported => rfl
  | fetched hr hi hd =>
      rw [Processor.tick_of_fetch hr hi hd] at htick
      exact (congrArg Prod.snd htick).symm
  | entered | advanced => cases h
  | ended | branched =>
      rw [Processor.outcome_complete] at h
      cases h

/-- **Every unsupported opcode is reported once, and changes nothing.**  From creation or a reset
on, and without a further reset, the refusals that calls return are the unsupported opcodes that
were decoded, in their order and each with its address, but for one that may still wait.  A tick
that returns a refusal only fetches the opcode, or only reports; nothing is in flight behind it, and
execution goes on behind the opcode.  A reset is what drops a refusal that waits. -/
theorem unsupported_reported_once {start : Board β} (hs : start.Begins) :
    (∀ cs : List Call, (∀ c ∈ cs, c ≠ .act .reset) →
      (start.history (start.acts cs)).filterMap Moment.decoded =
        start.refusals cs ++ (start.calls cs).processor.refusal.toList) ∧
      (∀ cs : List Call,
        let b := start.calls cs
        let p := b.processor
        (∀ e, p.refusal = none → b.turn.outcome = .refused e →
            e = ⟨p.regs.pc, (Bus.read b.bus p.regs.pc).1⟩ ∧
              b.act .tick =
                ⟨{ p with
                    regs.pc := p.regs.pc + 1
                    cycles := p.cycles + 1
                    opcode := e.opcode }, (Bus.read b.bus p.regs.pc).2⟩) ∧
          (∀ e, p.refusal = some e →
            b.turn.outcome = .refused e ∧ b.act .tick = ⟨{ p with refusal := none }, b.bus⟩) ∧
          (∀ e, b.turn.outcome = .refused e →
            (b.act .tick).processor.inFlight = none ∧ (b.act .tick).processor.refusal = none) ∧
          (∀ e, b.unsupported? = some e → ∀ between : List Act,
            (∀ a ∈ between, a = .interrupt ∨ a = .nmi) →
            let c := (b.act .tick).after between
            b.turn.outcome = .refused e ∧ c.ResumesAt (e.address + 1) ∨
              b.turn.outcome = .completed ∧ c.turn.outcome = .refused e ∧
                ∀ between' : List Act, (∀ a ∈ between', a = .interrupt ∨ a = .nmi) →
                  ((c.act .tick).after between').ResumesAt (e.address + 1)) ∧
          (b.act .reset).processor.refusal = none) ∧
      (∀ acts : List Act,
        (start.history acts).filterMap Moment.decoded =
          (start.history acts).filterMap Moment.settled ++
            (start.after acts).processor.refusal.toList) ∧
      ∀ (b : Board Memory) (e : UnsupportedOpcode),
        b.turn.outcome = .refused e → (b.act .tick).bus = b.bus := by
  have haccount : ∀ acts : List Act,
      (start.history acts).filterMap Moment.decoded =
        (start.history acts).filterMap Moment.settled ++
          (start.after acts).processor.refusal.toList := by
    intro acts
    have h := refusal_after hs.coherent acts
    rwa [hs.refusal] at h
  refine ⟨fun cs hcs => ?_, fun cs => ?_, haccount, fun b e h => ?_⟩
  · have hacts : ∀ a ∈ start.acts cs, a ≠ .reset := by
      rintro a ha rfl
      rcases mem_acts start ha with h | h
      · cases h
      · exact hcs _ h rfl
    rw [haccount, settled_eq_reported start hacts, refusals_eq_reported, calls_eq_after]
  · intro b p
    have hc : p.Coherent := calls_induction coherent_act hs.coherent cs
    refine ⟨fun e hr h => (tick_of_refused hc hr h).2, fun e hr => ?_,
      fun e h => idle_of_refused hc h, fun e h between hb => resumes_of_unsupported h hb, rfl⟩
    have ht := Processor.tick_of_refusal hr b.bus
    exact ⟨congrArg (·.1.outcome) ht, by rw [act, turn, ht]⟩
  · exact memory_of_refused h

/-- An opcode that is refused, and behind it a branch to another one. -/
def twoRefusals : Board Memory :=
  fresh {} (((Memory.zeros.write 0x0000 0x8B).write 0x0001 0xD0).write 0x0003 0x8B)

theorem unsupported_reported_once_twoRefusals :
    twoRefusals.refusals [.step, .step] = [⟨0x0000, 0x8B⟩] ∧
      (twoRefusals.calls [.step, .step]).processor.refusal = some ⟨0x0003, 0x8B⟩ ∧
      (twoRefusals.history (twoRefusals.acts [.step, .step])).filterMap Moment.decoded =
        [⟨0x0000, 0x8B⟩, ⟨0x0003, 0x8B⟩] ∧
      (twoRefusals.calls [.step, .step]).turn.outcome = .refused ⟨0x0003, 0x8B⟩ := by
  have hreturned : twoRefusals.refusals [.step, .step] = [⟨0x0000, 0x8B⟩] := by decide +kernel
  have hwaits : (twoRefusals.calls [.step, .step]).processor.refusal = some ⟨0x0003, 0x8B⟩ := by
    decide +kernel
  obtain ⟨haccount, hticks, -⟩ := unsupported_reported_once (.created {} twoRefusals.bus)
  refine ⟨hreturned, hwaits, ?_, ?_⟩
  · exact (haccount [.step, .step] (by decide)).trans
      (congrArg₂ (· ++ Option.toList ·) hreturned hwaits)
  · exact ((hticks [.step, .step]).2.1 _ hwaits).1

end Board

end Mos6502
