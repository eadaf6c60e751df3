import Mathlib.Data.List.Induction
import Mos6502.Proofs.Board

/-!
# Interrupt requests

A request stands from the moment it is made until the processor enters its handler or is reset.
The two lines are polled where an opcode would be fetched and nowhere else: a tick enters a handler
if nothing is in flight, no refusal waits and a request is due (`enters_iff`), and this settles the
one request it is for (`pending_tick`).

A branch leaves the opcode behind it in flight, or a refusal of it to report, so the boundary behind
a branch is not polled.  Every other instruction leaves nothing in flight.
-/

universe u

namespace Mos6502

namespace Instruction

@[simp] theorem interrupt_inj {source source' : Interrupt} :
    interrupt source = interrupt source' ↔ source = source' := by
  simp [interrupt]

@[simp] theorem decode_ne_interrupt (opcode : Byte) (source : Interrupt) :
    decode opcode ≠ interrupt source := by
  simp [decode, interrupt]

end Instruction

namespace Processor

variable {β : Type u} [Bus β] {p : Processor}

/-! ## Between two ticks -/

/-- An instruction in flight is past its start and has no opcode to hand over, and while a refusal
waits there is none. -/
structure Coherent (p : Processor) : Prop where
  started : ∀ i, p.inFlight = some i → 1 ≤ i.progress.cycle
  taken : ∀ i, p.inFlight = some i → i.prefetched = none
  waiting : ∀ e, p.refusal = some e → p.inFlight = none

theorem coherent_of_idle (hi : p.inFlight = none) : p.Coherent where
  started i h := by rw [hi] at h; cases h
  taken i h := by rw [hi] at h; cases h
  waiting _ _ := hi

theorem coherent_of_inFlight {i : Instruction} (hr : p.refusal = none) (hi : p.inFlight = some i)
    (hs : 1 ≤ i.progress.cycle) (ht : i.prefetched = none) : p.Coherent where
  started j h := by rw [hi] at h; cases h; exact hs
  taken j h := by rw [hi] at h; cases h; exact ht
  waiting e h := by rw [hr] at h; cases h

theorem Coherent.refusal_of_inFlight (h : p.Coherent) {i : Instruction} (hi : p.inFlight = some i) :
    p.refusal = none := by
  cases hr : p.refusal with
  | none => rfl
  | some e =>
      rw [h.waiting e hr] at hi
      cases hi

theorem Coherent.tick (h : p.Coherent) (bus : β) : (p.tick bus).1.processor.Coherent := by
  have ht := p.ticks bus
  generalize p.tick bus = t at ht ⊢
  cases ht with
  | reported hr => exact coherent_of_idle (h.waiting _ hr)
  | @entered source hr hi hd =>
      exact coherent_of_inFlight (i := .interrupt source) (by cases source <;> exact hr) rfl
        (Nat.le_refl 1) rfl
  | @fetched opcode bus' hr hi hd =>
      obtain ⟨events, hf | hf⟩ := p.counted.fetched_cases opcode
      · rw [hf]
        exact coherent_of_idle hi
      · rw [hf]
        exact coherent_of_inFlight hr rfl (Nat.le_refl 1) rfl
  | @advanced i q r bus' hr hi hq =>
      refine coherent_of_inFlight hr rfl ?_ (h.taken i hi)
      show 1 ≤ min (q.cycle + 1) 0xFF
      omega
  | @ended i r bus' hr hi hs =>
      rw [h.taken i hi]
      exact coherent_of_idle rfl
  | @branched i c r opcode bus' hr hi hs =>
      rcases (p.counted.retired r).complete_cases opcode with hc | hc
      · rw [hc]
        exact coherent_of_idle rfl
      · rw [hc]
        exact coherent_of_inFlight hr rfl (Nat.le_refl 1) rfl

/-! ## Entering a handler -/

/-- Is a request of this kind waiting? -/
def pending (p : Processor) : Interrupt → Bool
  | .nmi => p.nmiLatched
  | .irq => p.irqRequested

/-- The turn begins the entry into a handler. -/
def Turn.Enters (t : Turn) (source : Interrupt) : Prop :=
  t.processor.inFlight = some (.interrupt source)

theorem dueInterrupt_eq_nmi_iff : p.dueInterrupt = some .nmi ↔ p.nmiLatched = true := by
  cases h : p.nmiLatched <;> cases h' : p.irqRequested && !p.regs.p.interruptDisable <;>
    simp [dueInterrupt, h, h']

theorem dueInterrupt_eq_irq_iff :
    p.dueInterrupt = some .irq ↔
      p.nmiLatched = false ∧ p.irqRequested = true ∧ p.regs.p.interruptDisable = false := by
  cases h : p.nmiLatched <;> cases h' : p.irqRequested <;>
    cases h'' : p.regs.p.interruptDisable <;> simp [dueInterrupt, h, h', h'']

/-- A handler is entered where an opcode would be fetched, and only there. -/
theorem Coherent.enters_iff (h : p.Coherent) (bus : β) (source : Interrupt) :
    (p.tick bus).1.Enters source ↔
      p.inFlight = none ∧ p.refusal = none ∧ p.dueInterrupt = some source := by
  have ht := p.ticks bus
  generalize p.tick bus = t at ht ⊢
  unfold Turn.Enters
  cases ht with
  | @reported e hr => simp [h.waiting e hr, hr]
  | @entered source' hr hi hd => simp [enter, hr, hi, hd]
  | @fetched opcode bus' hr hi hd =>
      obtain ⟨events, hf | hf⟩ := p.counted.fetched_cases opcode
      · rw [hf]
        simp [hd, hi, counted]
      · rw [hf]
        simp [hd]
  | @advanced i q r bus' hr hi hq =>
      have hs := h.started i hi
      refine ⟨fun he => ?_, fun he => ?_⟩
      · have hcycle : q.tick.cycle = 1 := congrArg (fun i => i.progress.cycle) (Option.some.inj he)
        have htick : q.tick.cycle = min (q.cycle + 1) 0xFF := rfl
        omega
      · rw [hi] at he
        cases he.1
  | @ended i r bus' hr hi hs => simp [h.taken i hi, complete, retired, hi]
  | @branched i c r opcode bus' hr hi hs =>
      rcases (p.counted.retired r).complete_cases opcode with hc | hc
      · rw [hc]
        simp [retired, hi]
      · rw [hc]
        simp [hi]

/-- A tick settles the one request whose handler it enters. -/
theorem Coherent.pending_tick (h : p.Coherent) (bus : β) (source : Interrupt) :
    (p.tick bus).1.processor.pending source = true ↔
      p.pending source = true ∧ ¬ (p.tick bus).1.Enters source := by
  rw [h.enters_iff]
  have ht := p.ticks bus
  generalize p.tick bus = t at ht ⊢
  cases ht with
  | @reported e hr => cases source <;> simp [pending, hr]
  | @entered source' hr hi hd =>
      cases source <;> cases source' <;> simp [enter, acknowledge, pending, hr, hi, hd, counted]
  | @fetched opcode bus' hr hi hd =>
      obtain ⟨events, hf | hf⟩ := p.counted.fetched_cases opcode <;> rw [hf] <;>
        cases source <;> simp [pending, hd, counted]
  | @advanced i q r bus' hr hi hq => cases source <;> simp [pending, hi, counted]
  | @ended i r bus' hr hi hs =>
      cases source <;> simp [h.taken i hi, complete, retired, pending, hi, counted]
  | @branched i c r opcode bus' hr hi hs =>
      rcases (p.counted.retired r).complete_cases opcode with hc | hc <;> rw [hc] <;>
        cases source <;> simp [retired, pending, hi, counted]

/-- The turn that enters a handler, in full. -/
theorem Coherent.tick_of_enters (h : p.Coherent) {bus : β} {source : Interrupt}
    (he : (p.tick bus).1.Enters source) :
    p.tick bus = (p.counted.enter source, (Bus.read bus p.regs.pc).2) := by
  obtain ⟨hi, hr, hd⟩ := (h.enters_iff bus source).mp he
  exact tick_of_due hr hi hd bus

@[simp] theorem regs_enter (p : Processor) (source : Interrupt) :
    (p.enter source).processor.regs = p.regs := by
  cases source <;> rfl

@[simp] theorem opcode_enter (p : Processor) (source : Interrupt) :
    (p.enter source).processor.opcode = p.opcode := by
  cases source <;> rfl

theorem pending_enter (p : Processor) (source other : Interrupt) :
    (p.enter source).processor.pending other = (p.pending other && other != source) := by
  cases source <;> cases other <;> simp [enter, acknowledge, pending]

/-! ## Boundaries -/

/-- What completes was in flight, and only a branch leaves something to do before the next poll. -/
theorem Coherent.tick_of_completed (h : p.Coherent) {bus : β}
    (hc : (p.tick bus).1.outcome = .completed) :
    ∃ i, p.inFlight = some i ∧
      ((∀ c, i.sequence ≠ .branch c) ∧ (p.tick bus).1.processor.inFlight = none ∧
          (p.tick bus).1.processor.refusal = none ∨
        (∃ c, i.sequence = .branch c) ∧
          ((∃ opcode, (p.tick bus).1.processor.inFlight = some (.decode opcode)) ∨
            (p.tick bus).1.processor.inFlight = none ∧
              ∃ e, (p.tick bus).1.processor.refusal = some e)) := by
  have ht := p.ticks bus
  generalize p.tick bus = t at ht hc ⊢
  cases ht with
  | reported | entered | advanced => cases hc
  | @fetched opcode bus' hr hi hd =>
      obtain ⟨events, hf | hf⟩ := p.counted.fetched_cases opcode
      · rw [hf] at hc
        cases hc
      · rw [hf] at hc
        cases hc
  | @ended i r bus' hr hi hs =>
      refine ⟨i, hi, .inl ⟨hs, ?_⟩⟩
      rw [h.taken i hi]
      exact ⟨rfl, hr⟩
  | @branched i c r opcode bus' hr hi hs =>
      refine ⟨i, hi, .inr ⟨⟨c, hs⟩, ?_⟩⟩
      rcases (p.counted.retired r).complete_cases opcode with hc | hc
      · rw [hc]
        exact .inr ⟨rfl, _, rfl⟩
      · rw [hc]
        exact .inl ⟨opcode, rfl⟩

end Processor

/-! ## Requests over a run -/

/-- Neither a tick nor a reset. -/
def Act.Outside (a : Act) : Prop := a ≠ .tick ∧ a ≠ .reset

namespace Moment

variable {β : Type u} [Bus β]

/-- A request of this kind is made, and taken. -/
def requests (m : Moment β) : Interrupt → Prop
  | .nmi => m.act = .nmi
  | .irq => m.act = .interrupt ∧ m.board.processor.interrupt.1 = true

/-- All requests of this kind are settled: the handler is entered, or the processor is reset. -/
def settles (m : Moment β) (source : Interrupt) : Prop :=
  m.act = .reset ∨ m.act = .tick ∧ m.board.turn.Enters source

/-- A request was made, and none was settled since. -/
def Standing (source : Interrupt) (past : List (Moment β)) : Prop :=
  ∃ older m newer, past = older ++ m :: newer ∧ m.requests source ∧
    ∀ later ∈ newer, ¬ later.settles source

theorem standing_concat {source : Interrupt} {past : List (Moment β)} {m : Moment β} :
    Standing source (past ++ [m]) ↔
      m.requests source ∨ Standing source past ∧ ¬ m.settles source := by
  constructor
  · rintro ⟨older, m', newer, heq, hm, hnewer⟩
    rcases List.eq_nil_or_concat newer with rfl | ⟨newer, last, rfl⟩
    · obtain ⟨-, h⟩ := List.append_inj' heq rfl
      cases h
      exact .inl hm
    · rw [List.concat_eq_append, ← List.cons_append, ← List.append_assoc] at heq
      obtain ⟨rfl, h⟩ := List.append_inj' heq rfl
      cases h
      refine .inr ⟨⟨older, m', newer, rfl, hm, fun later h => ?_⟩, ?_⟩
      · exact hnewer later (by simp [h])
      · exact hnewer m (by simp)
  · rintro (hm | ⟨⟨older, m', newer, rfl, hm', hnewer⟩, hs⟩)
    · exact ⟨past, m, [], rfl, hm, fun later h => absurd h List.not_mem_nil⟩
    · refine ⟨older, m', newer ++ [m], by simp, hm', fun later h => ?_⟩
      rcases List.mem_append.mp h with h | h
      · exact hnewer later h
      · rwa [List.mem_singleton.mp h]

end Moment

namespace Board

variable {β : Type u} [Bus β] {b : Board β}

theorem coherent_act (b : Board β) (a : Act) (h : b.processor.Coherent) :
    (b.act a).processor.Coherent := by
  cases a with
  | tick => exact h.tick b.bus
  | interrupt =>
      simp only [act, Processor.interrupt]
      split
      · exact h
      · exact ⟨h.started, h.taken, h.waiting⟩
  | nmi | setPc => exact ⟨h.started, h.taken, h.waiting⟩
  | reset => exact Processor.coherent_of_inFlight (i := .reset) rfl rfl (Nat.le_refl 1) rfl

theorem coherent_after (regs : Registers) (bus : β) (past : List Act) :
    ((fresh regs bus).after past).processor.Coherent :=
  after_induction coherent_act (Processor.coherent_of_idle rfl) past

/-- How one act bears on the requests that stand. -/
theorem pending_act (h : b.processor.Coherent) (a : Act) (source : Interrupt) :
    (b.act a).processor.pending source = true ↔
      Moment.requests ⟨b, a⟩ source ∨
        b.processor.pending source = true ∧ ¬ Moment.settles ⟨b, a⟩ source := by
  cases a with
  | tick =>
      have hp := h.pending_tick b.bus source
      cases source <;> simpa [Moment.requests, Moment.settles, act, turn] using hp
  | interrupt =>
      cases hd : b.processor.regs.p.interruptDisable <;> cases source <;>
        simp [act, Processor.interrupt, Processor.pending, Moment.requests, Moment.settles, hd]
  | nmi | reset | setPc =>
      cases source <;> simp [act, Processor.nmi, Processor.reset, Processor.setPc,
        Processor.pending, Moment.requests, Moment.settles]

/-- A request is pending while it stands. -/
theorem pending_after (regs : Registers) (bus : β) (past : List Act) (source : Interrupt) :
    ((fresh regs bus).after past).processor.pending source = true ↔
      Moment.Standing source ((fresh regs bus).history past) := by
  -- From the newest act backwards: whether a request stands is decided by what came after it.
  induction past using List.reverseRecOn with
  | nil =>
      refine ⟨fun h => ?_, ?_⟩
      · cases source <;> cases h
      · rintro ⟨older, m, newer, h, -⟩
        cases older <;> cases h
  | append_singleton past a ih =>
      rw [after_append, history_append, history_cons, history_nil, Moment.standing_concat, ← ih]
      exact pending_act (coherent_after regs bus past) a source

/-- A request stays pending until it is settled. -/
theorem pending_of_not_settled (h : b.processor.Coherent) {source : Interrupt}
    (hp : b.processor.pending source = true) {acts : List Act}
    (hs : ∀ m ∈ b.history acts, ¬ m.settles source) :
    (b.after acts).processor.pending source = true := by
  induction acts generalizing b with
  | nil => exact hp
  | cons a acts ih =>
      obtain ⟨ha, hs⟩ := List.forall_mem_cons.mp hs
      exact ih (coherent_act b a h) ((pending_act h a source).mpr (.inr ⟨hp, ha⟩)) hs

theorem not_settles_of_outside (b : Board β) {acts : List Act} (h : ∀ a ∈ acts, a.Outside)
    (source : Interrupt) : ∀ m ∈ b.history acts, ¬ m.settles source := by
  induction acts generalizing b with
  | nil => exact fun m hm => absurd hm List.not_mem_nil
  | cons a acts ih =>
      obtain ⟨⟨htick, hreset⟩, h⟩ := List.forall_mem_cons.mp h
      refine List.forall_mem_cons.mpr ⟨?_, ih (b.act a) h⟩
      rintro (hs | ⟨hs, -⟩)
      · exact hreset hs
      · exact htick hs

theorem exists_mem_history (b : Board β) {acts : List Act} {a : Act} (h : a ∈ acts) :
    ∃ m ∈ b.history acts, m.act = a := by
  induction acts generalizing b with
  | nil => exact absurd h List.not_mem_nil
  | cons a' acts ih =>
      rcases List.mem_cons.mp h with rfl | h
      · exact ⟨⟨b, a⟩, List.mem_cons_self, rfl⟩
      · obtain ⟨m, hm, ha⟩ := ih (b.act a') h
        exact ⟨m, List.mem_cons_of_mem _ hm, ha⟩

/-- What only asks something of the processor from outside leaves its work as it is. -/
theorem after_outside (b : Board β) {acts : List Act} (h : ∀ a ∈ acts, a.Outside) :
    (b.after acts).processor.inFlight = b.processor.inFlight ∧
      (b.after acts).processor.refusal = b.processor.refusal := by
  induction acts generalizing b with
  | nil => exact ⟨rfl, rfl⟩
  | cons a acts ih =>
      obtain ⟨hi, hr⟩ := ih (b.act a) fun a' h' => h a' (List.mem_cons_of_mem a h')
      have ha := h a List.mem_cons_self
      rw [after_cons, hi, hr]
      cases a with
      | tick => exact absurd rfl ha.1
      | reset => exact absurd rfl ha.2
      | interrupt =>
          simp only [act, Processor.interrupt]
          split <;> exact ⟨rfl, rfl⟩
      | nmi | setPc => exact ⟨rfl, rfl⟩

/-- With nothing in flight and no refusal waiting, a latched request is served by the next tick. -/
theorem enters_of_idle (h : b.processor.Coherent) (hi : b.processor.inFlight = none)
    (hr : b.processor.refusal = none) (hn : b.processor.nmiLatched = true) :
    b.turn.Enters .nmi :=
  (h.enters_iff b.bus .nmi).mpr ⟨hi, hr, Processor.dueInterrupt_eq_nmi_iff.mpr hn⟩

/-- What happens at the first tick behind an instruction that completed, if a non-maskable interrupt
is latched by then. -/
theorem enters_after_completed (h : b.processor.Coherent) (hc : b.turn.outcome = .completed)
    {between : List Act} (ho : ∀ a ∈ between, a.Outside)
    (hn : ((b.act .tick).after between).processor.nmiLatched = true) :
    ∃ i, b.processor.inFlight = some i ∧
      ((∀ c, i.sequence ≠ .branch c) ∧ ((b.act .tick).after between).turn.Enters .nmi ∨
        (∃ c, i.sequence = .branch c) ∧ ¬ ((b.act .tick).after between).turn.Enters .nmi ∧
          ((∃ opcode,
              ((b.act .tick).after between).processor.inFlight = some (.decode opcode)) ∨
            ∃ e, ((b.act .tick).after between).turn.outcome = .refused e ∧
              ∀ between' : List Act, (∀ a ∈ between', a.Outside) →
                ((((b.act .tick).after between).act .tick).after between').turn.Enters .nmi)) := by
  have hcoh : ((b.act .tick).after between).processor.Coherent :=
    after_induction coherent_act (coherent_act b .tick h) between
  obtain ⟨hinFlight, hrefusal⟩ := (b.act .tick).after_outside ho
  obtain ⟨i, hi, ⟨hs, hidle, hnone⟩ | ⟨hs, ⟨opcode, hnext⟩ | ⟨hidle, e, he⟩⟩⟩ :=
    h.tick_of_completed hc
  · refine ⟨i, hi, .inl ⟨hs, ?_⟩⟩
    exact enters_of_idle hcoh (hinFlight.trans hidle) (hrefusal.trans hnone) hn
  · have hdecoded := hinFlight.trans hnext
    refine ⟨i, hi, .inr ⟨hs, fun hent => ?_, .inl ⟨opcode, hdecoded⟩⟩⟩
    obtain ⟨hempty, -⟩ := (hcoh.enters_iff _ _).mp hent
    rw [hdecoded] at hempty
    cases hempty
  · have hwait := hrefusal.trans he
    have hreport := Processor.tick_of_refusal hwait ((b.act .tick).after between).bus
    refine ⟨i, hi, .inr ⟨hs, fun hent => ?_, .inr ⟨e, congrArg (·.1.outcome) hreport, ?_⟩⟩⟩
    · obtain ⟨-, hempty, -⟩ := (hcoh.enters_iff _ _).mp hent
      rw [hwait] at hempty
      cases hempty
    · intro between' ho'
      have hcoh' := coherent_act _ .tick hcoh
      have hp' : (((b.act .tick).after between).act .tick).processor.pending .nmi = true := by
        rw [act, turn, hreport]
        exact hn
      obtain ⟨hinFlight', hrefusal'⟩ := (((b.act .tick).after between).act .tick).after_outside ho'
      refine enters_of_idle (after_induction coherent_act hcoh' between') (hinFlight'.trans ?_)
        (hrefusal'.trans ?_) (pending_of_not_settled hcoh' hp' (not_settles_of_outside _ ho' _))
      · rw [act, turn, hreport]
        exact hinFlight.trans hidle
      · rw [act, turn, hreport]

/-- While a non-maskable interrupt waits, every instruction that completes is a branch, but for one
behind which nothing is run any more. -/
theorem branch_of_completed (h : b.processor.Coherent) (hn : b.processor.nmiLatched = true)
    {before since : List Act}
    (hs : ∀ m ∈ b.history (before ++ .tick :: since), ¬ m.settles .nmi)
    (hc : (b.after before).turn.outcome = .completed) (hmore : .tick ∈ since) :
    ∃ i k, (b.after before).processor.inFlight = some i ∧ i.sequence = .branch k := by
  obtain ⟨between, rest, rfl, hfirst⟩ := List.eq_append_cons_of_mem hmore
  rw [history_append, history_cons, history_append, history_cons] at hs
  have hbefore : (b.after before).processor.Coherent := after_induction coherent_act h before
  have hafter := coherent_act _ .tick hbefore
  -- Until the next tick there is no reset, as that would settle the request.
  have ho : ∀ a ∈ between, a.Outside := by
    intro a ha
    refine ⟨fun ht => hfirst (ht ▸ ha), fun hr => ?_⟩
    obtain ⟨m, hm, rfl⟩ := exists_mem_history ((b.after before).act .tick) ha
    exact hs m (by simp [hm]) (.inl hr)
  have hlatched : (b.after before).processor.pending .nmi = true :=
    pending_of_not_settled h (show b.processor.pending .nmi = true from hn)
      fun m hm => hs m (by simp [hm])
  have hlatched' : ((b.after before).act .tick).processor.pending .nmi = true :=
    (pending_act hbefore .tick .nmi).mpr (.inr ⟨hlatched, hs _ (by simp)⟩)
  have hn' := pending_of_not_settled hafter hlatched' (not_settles_of_outside _ ho .nmi)
  obtain ⟨i, hi, ⟨-, hent⟩ | ⟨⟨k, hk⟩, -⟩⟩ := enters_after_completed hbefore hc ho hn'
  · have hlast := hs ⟨((b.after before).act .tick).after between, .tick⟩ (by simp)
    exact absurd (.inr ⟨rfl, hent⟩) hlast
  · exact ⟨i, k, hi, hk⟩

/-- **No request is lost, served twice or out of turn.**  On every run from a fresh processor a
handler is entered exactly where nothing is in flight, no refusal waits and a request is due, a
non-maskable one before any other; the tick reads and drops one byte and settles this one request.
A request is pending exactly while it stands.  With a non-maskable one latched, every instruction
that completes is followed by its entry, except a branch, behind which the opcode it fetched comes
first; so until the entry all but the last instruction to complete are branches. -/
theorem requests_served_in_turn (regs : Registers) (bus : β) :
    let start : Board β := fresh regs bus
    (∀ cs, start.calls cs = start.after (start.acts cs)) ∧
      (∀ past : List Act,
        let b := start.after past
        let p := b.processor
        (b.turn.Enters .nmi ↔ p.inFlight = none ∧ p.refusal = none ∧ p.nmiLatched = true) ∧
          (b.turn.Enters .irq ↔ p.inFlight = none ∧ p.refusal = none ∧ p.nmiLatched = false ∧
            p.irqRequested = true ∧ p.regs.p.interruptDisable = false) ∧
          ∀ source, b.turn.Enters source →
            let p' := (b.act .tick).processor
            (b.act .tick).bus = (Bus.read b.bus p.regs.pc).2 ∧
              b.turn.outcome = .unfinished ∧
              b.turn.events =
                [.interrupt (match source with | .nmi => 0xFFFA | .irq => 0xFFFE) p.regs.pc] ∧
              p'.regs = p.regs ∧ p'.opcode = p.opcode ∧
              ∀ other, p'.pending other = (p.pending other && other != source)) ∧
      (∀ past source, (start.after past).processor.pending source = true ↔
        Moment.Standing source (start.history past)) ∧
      (∀ past between : List Act, (∀ a ∈ between, a.Outside) →
        let b := start.after past
        let c := (b.act .tick).after between
        b.turn.outcome = .completed → c.processor.nmiLatched = true →
        ∃ i, b.processor.inFlight = some i ∧
          ((∀ k, i.sequence ≠ .branch k) ∧ c.turn.Enters .nmi ∨
            (∃ k, i.sequence = .branch k) ∧ ¬ c.turn.Enters .nmi ∧
              ((∃ opcode, c.processor.inFlight = some (.decode opcode)) ∨
                ∃ e, c.turn.outcome = .refused e ∧
                  ∀ between' : List Act, (∀ a ∈ between', a.Outside) →
                    ((c.act .tick).after between').turn.Enters .nmi))) ∧
      ∀ past before since : List Act,
        let b := start.after past
        b.processor.nmiLatched = true →
        (∀ m ∈ b.history (before ++ .tick :: since), ¬ m.settles .nmi) →
        (b.after before).turn.outcome = .completed → .tick ∈ since →
        ∃ i k, (b.after before).processor.inFlight = some i ∧ i.sequence = .branch k := by
  intro start
  refine ⟨start.calls_eq_after, fun past => ?_, pending_after regs bus, ?_, ?_⟩
  · intro b p
    have h : p.Coherent := coherent_after regs bus past
    refine ⟨?_, ?_, fun source he => ?_⟩
    · rw [← Processor.dueInterrupt_eq_nmi_iff]
      exact h.enters_iff b.bus .nmi
    · rw [← Processor.dueInterrupt_eq_irq_iff]
      exact h.enters_iff b.bus .irq
    · have ht := h.tick_of_enters he
      intro p'
      have hp' : p' = (p.counted.enter source).processor := congrArg (·.1.processor) ht
      refine ⟨congrArg Prod.snd ht, congrArg (·.1.outcome) ht, ?_, ?_, ?_, fun other => ?_⟩
      · rw [turn, ht]
        cases source <;> rfl
      · rw [hp', Processor.regs_enter]
        rfl
      · rw [hp', Processor.opcode_enter]
        rfl
      · rw [hp', Processor.pending_enter]
        cases other <;> rfl
  · intro past between ho b c hc hn
    exact enters_after_completed (coherent_after regs bus past) hc ho hn
  · intro past before since b hn hs hc hmore
    exact branch_of_completed (coherent_after regs bus past) hn hs hc hmore

end Board

end Mos6502
