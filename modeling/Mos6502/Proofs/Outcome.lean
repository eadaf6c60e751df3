import Mos6502.Proofs.InFlight
import Mos6502.Proofs.Refusals

/-!
# What a step comes to

A step is a loop without a limit of its own: it ticks on until a tick ends it
(`Processor.StepsTo`).  That it ends is `exists_lasts`; here is what it ends with, which is what
its last tick comes to.  A tick that ends a step completes what is in flight (`completed_iff`),
reports a refusal (`refused_iff`), or leaves the processor locked up (`unfinished_iff`), and which
of these it is can be told from what is in flight before and behind it (`step_ends`).
-/

universe u

namespace Mos6502

/-! ## The loop -/

namespace Processor

variable {β : Type u} [Bus β] {p : Processor} {bus : β}

/-- A step, without a limit: it ticks on until a tick ends it, and keeps what is reported. -/
inductive StepsTo : Processor → β → Turn × β → Prop
  | last {p : Processor} {bus : β} (h : (p.tick bus).1.ends = true) : StepsTo p bus (p.tick bus)
  | again {p : Processor} {bus bus' : β} {t : Turn} (h : (p.tick bus).1.ends = false)
      (rest : StepsTo (p.tick bus).1.processor (p.tick bus).2 (t, bus')) :
      StepsTo p bus ({ t with events := (p.tick bus).1.events ++ t.events }, bus')

end Processor

namespace Board

variable {β : Type u} [Bus β] {b : Board β} {e : UnsupportedOpcode}

/-- A limit that is not reached does not show. -/
theorem Lasts.stepsTo_iff {n limit : Nat} (h : b.Lasts n) (hn : n < limit)
    (result : Processor.Turn × β) :
    b.processor.StepsTo b.bus result ↔ result = b.processor.stepWithin limit b.bus := by
  -- The induction is on the ticks before the last, each of which takes one from the limit.
  induction n generalizing b limit result with
  | zero =>
      obtain ⟨limit, rfl⟩ := Nat.exists_eq_succ_of_ne_zero (Nat.ne_of_gt hn)
      have hends : b.turn.ends = true := h.ends
      rw [Processor.stepWithin_of_ends hends]
      constructor
      · rintro (_ | ⟨hgoes, -⟩)
        · rfl
        · exact absurd (hgoes.symm.trans hends) Bool.false_ne_true
      · rintro rfl
        exact .last hends
  | succ n ih =>
      obtain ⟨limit, rfl⟩ := Nat.exists_eq_succ_of_ne_zero (Nat.ne_of_gt (Nat.zero_lt_of_lt hn))
      obtain ⟨hgoes, hrest⟩ := h.of_succ
      have ih := ih hrest (Nat.lt_of_succ_lt_succ hn)
      constructor
      · rintro (hends | ⟨-, hrest'⟩)
        · exact absurd (hgoes.symm.trans hends) Bool.false_ne_true
        · exact (Processor.stepWithin_of_rest hgoes ((ih _).mp hrest').symm).symm
      · rintro rfl
        rw [Processor.stepWithin_of_not_ends hgoes]
        exact .again hgoes ((ih _).mpr rfl)

/-- Only the first tick of a step can find a refusal that waits. -/
theorem Lasts.refusal_eq {n : Nat} (h : b.Lasts n) :
    (b.ticked n).processor.refusal = b.processor.refusal := by
  cases n with
  | zero => rfl
  | succ n =>
      have hlast := (inFlight_of_not_ends (h.goes_on n (Nat.lt_succ_self n))).1
      rw [act_ticked] at hlast
      rw [hlast]
      cases hr : b.processor.refusal with
      | none => rfl
      | some e =>
          have hgoes := h.goes_on 0 (Nat.succ_pos n)
          rw [ticked_zero, turn, Processor.tick_of_refusal hr] at hgoes
          cases hgoes

/-! ## The last tick -/

/-- The next tick is the last cycle of what is in flight: of an instruction as it was decoded, of
the entry of a handler, or of the reset sequence. -/
structure Completes (b : Board β) (i : Instruction) : Prop where
  inFlight : b.processor.inFlight = some i
  begun : i.Begun b.processor.opcode
  done : ((i.advance b.processor.regs).run b.bus).1.done = true

/-- The next tick fetches an opcode that is not executed, with nothing in flight. -/
structure FetchesUnsupported (b : Board β) (e : UnsupportedOpcode) : Prop where
  refusal : b.processor.refusal = none
  inFlight : b.processor.inFlight = none
  dueInterrupt : b.processor.dueInterrupt = none
  eq : e = ⟨b.processor.regs.pc, (Bus.read b.bus b.processor.regs.pc).1⟩
  unsupported : Opcode.sequence (Bus.read b.bus b.processor.regs.pc).1 = .unsupported

theorem outcome_of_inFlight {i : Instruction} (hr : b.processor.refusal = none)
    (hi : b.processor.inFlight = some i) :
    b.turn.outcome =
      if ((i.advance b.processor.regs).run b.bus).1.done then .completed else .unfinished := by
  rw [turn, Processor.tick_of_inFlight hr hi, Processor.outcome_settle, Instruction.run_advance]

/-- A tick completes what it finds on its last cycle, and nothing else. -/
theorem completed_iff (h : b.processor.WellFormed) (hc : b.processor.Coherent) :
    b.turn.outcome = .completed ↔ ∃ i, b.Completes i := by
  constructor
  · intro ho
    obtain ⟨i, hi, -⟩ := hc.tick_of_completed ho
    refine ⟨i, hi, h.begun i hi, ?_⟩
    by_contra hgoes
    rw [outcome_of_inFlight (h.refusal_of_inFlight hi) hi, if_neg hgoes] at ho
    cases ho
  · rintro ⟨i, hi, -, hdone⟩
    rw [outcome_of_inFlight (h.refusal_of_inFlight hi) hi, if_pos hdone]

/-- A tick reports a refusal that waits, or that of the opcode it fetches with nothing in flight. -/
theorem refused_iff (hc : b.processor.Coherent) :
    b.turn.outcome = .refused e ↔ b.processor.refusal = some e ∨ b.FetchesUnsupported e := by
  constructor
  · intro ho
    cases hr : b.processor.refusal with
    | some e' =>
        rw [turn, Processor.tick_of_refusal hr] at ho
        cases ho
        exact .inl rfl
    | none =>
        obtain ⟨hi, he, -⟩ := tick_of_refused hc hr ho
        cases hd : b.processor.dueInterrupt with
        | some source =>
            rw [turn, Processor.tick_of_due hr hi hd] at ho
            cases ho
        | none =>
            refine .inr ⟨hr, hi, hd, he, ?_⟩
            by_contra hu
            rw [turn, Processor.tick_of_fetch hr hi hd, Processor.fetched,
              Processor.accept_of_supported (beq_false_of_ne hu)] at ho
            cases ho
  · rintro (hr | h)
    · rw [turn, Processor.tick_of_refusal hr]
    · rw [turn, Processor.tick_of_fetch h.refusal h.inFlight h.dueInterrupt, Processor.fetched,
        Processor.accept_of_unsupported (beq_of_eq h.unsupported), h.eq]
      rfl

/-- A tick that ends a step leaves something unfinished if that is a lock-up, and only then. -/
theorem unfinished_iff (hc : b.processor.Coherent) (hends : b.turn.ends = true) :
    b.turn.outcome = .unfinished ↔
      (b.act .tick).processor.isHalted = true ∧ b.turn.outcome ≠ .completed := by
  constructor
  · intro ho
    rw [Processor.Turn.ends, ho] at hends
    exact ⟨hends, by rw [ho]; exact fun h => by cases h⟩
  · -- Behind a refusal nothing is in flight, and so no lock-up either.
    rintro ⟨hhalted, hnot⟩
    cases ho : b.turn.outcome with
    | unfinished => rfl
    | completed => exact absurd ho hnot
    | refused e =>
        rw [Processor.not_halted_of_idle (idle_of_refused hc ho).1] at hhalted
        cases hhalted

/-- An unsupported opcode that is fetched while something is in flight waits: it is a branch that
fetches it, and completes. -/
theorem completed_of_unsupported {i : Instruction} (hi : b.processor.inFlight = some i)
    (h : b.unsupported? = some e) :
    b.turn.outcome = .completed ∧ (b.act .tick).processor.refusal = some e := by
  obtain ⟨-, -, -, ⟨hidle, -⟩ | ⟨ho, hp⟩⟩ := tick_of_unsupported h
  · rw [hi] at hidle
    cases hidle
  · exact ⟨ho, by rw [hp]⟩

/-! ## Steps -/

/-- **Every step ends, in one of three ways.**  On a reachable processor, whatever its bus answers,
a step without a limit comes to an end, and the limit of eight ticks does not show.  The step comes
to what its last tick comes to.  It leaves something unfinished if it leaves a lock-up in flight and
its last tick completes nothing; it is refused if a refusal was waiting, or the last tick fetches an
opcode that is not executed with nothing in flight, and not for an opcode that a branch fetches; and
otherwise its last tick completes an instruction, the entry of a handler or the reset sequence, and
no other tick of it completes anything. -/
theorem step_ends {b : Board β} (h : b.processor.Reachable) :
    (∀ result, b.processor.StepsTo b.bus result ↔ result = b.processor.step b.bus) ∧
      ∃ n < 8,
        let last := b.ticked n
        b.call .step = last.act .tick ∧ b.actsOf .step = List.replicate (n + 1) .tick ∧
          b.reply .step = .outcome last.turn.outcome ∧
          (∀ k < n, ∀ i, ¬(b.ticked k).Completes i) ∧
          (b.reply .step = .outcome .unfinished ↔
            (b.call .step).processor.isHalted = true ∧ ∀ i, ¬last.Completes i) ∧
          (∀ e, b.reply .step = .outcome (.refused e) ↔
            b.processor.refusal = some e ∨ last.FetchesUnsupported e) ∧
          (∀ i e, last.processor.inFlight = some i → last.unsupported? = some e →
            b.reply .step = .outcome .completed ∧
              (b.call .step).processor.refusal = some e) ∧
          (b.reply .step = .outcome .completed ↔
            ¬((b.call .step).processor.isHalted = true ∧ ∀ i, ¬last.Completes i) ∧
              ∀ e, ¬(b.processor.refusal = some e ∨ last.FetchesUnsupported e)) ∧
          (b.reply .step = .outcome .completed ↔ ∃ i, last.Completes i) := by
  obtain ⟨n, hn, hlasts⟩ := exists_lasts h.coherent h.issues
  refine ⟨hlasts.stepsTo_iff hn, n, hn, ?_⟩
  intro last
  have hc : ∀ k, (b.ticked k).processor.Coherent := fun k =>
    after_induction coherent_act h.coherent _
  have hw : ∀ k, (b.ticked k).processor.WellFormed := fun k =>
    after_induction wellFormed_act h.wellFormed _
  obtain ⟨hcall, hacts, hreply⟩ := step_of_lasts hlasts hn
  rw [← act_ticked] at hcall
  have hreply_iff : ∀ o, b.reply .step = .outcome o ↔ last.turn.outcome = o := by
    intro o
    rw [hreply, Reply.outcome.injEq]
  have hcompleted : b.reply .step = .outcome .completed ↔ ∃ i, last.Completes i :=
    (hreply_iff _).trans (completed_iff (hw n) (hc n))
  have hunfinished : b.reply .step = .outcome .unfinished ↔
      (b.call .step).processor.isHalted = true ∧ ∀ i, ¬last.Completes i := by
    rw [hreply_iff, unfinished_iff (hc n) hlasts.ends, hcall, Ne, ← hreply_iff, hcompleted,
      not_exists]
  have hrefused : ∀ e, b.reply .step = .outcome (.refused e) ↔
      b.processor.refusal = some e ∨ last.FetchesUnsupported e := by
    intro e
    rw [hreply_iff, refused_iff (hc n), hlasts.refusal_eq]
  refine ⟨hcall, hacts, hreply, fun k hk i hi => ?_, hunfinished, hrefused, fun i e hi he => ?_,
    ?_, hcompleted⟩
  · have hgoes := hlasts.goes_on k hk
    rw [Processor.Turn.ends, (completed_iff (hw k) (hc k)).mpr ⟨i, hi⟩] at hgoes
    cases hgoes
  · rw [hreply_iff, hcall]
    exact completed_of_unsupported hi he
  · simp only [← hunfinished, ← hrefused, hreply_iff]
    cases last.turn.outcome <;> simp

/-- A branch, with a lock-up behind it. -/
def jamBehindBranch : Board Memory :=
  fresh {} ((Memory.zeros.write 0x0000 0xD0).write 0x0002 0x02)

/-- The branch completes although it leaves a lock-up in flight, and the step behind it does not. -/
theorem step_ends_jamBehindBranch :
    let jammed := jamBehindBranch.call .step
    jamBehindBranch.processor.Reachable ∧ jammed.processor.Reachable ∧
      jamBehindBranch.processor.StepsTo jamBehindBranch.bus
        (jamBehindBranch.processor.step jamBehindBranch.bus) ∧
      jammed.processor.isHalted = true ∧ jamBehindBranch.reply .step = .outcome .completed ∧
      (∃ i, (jamBehindBranch.ticked 3).Completes i) ∧
      (jammed.call .step).processor.isHalted = true ∧
      jammed.reply .step = .outcome .unfinished ∧ ∀ i, ¬jammed.Completes i := by
  intro jammed
  have hp : jamBehindBranch.processor.Reachable := .created {}
  have hp' : jammed.processor.Reachable := hp.calls [.step]
  have hticks : jamBehindBranch.actsOf .step = List.replicate 4 .tick := by decide +kernel
  have hticks' : jammed.actsOf .step = List.replicate 1 .tick := by decide +kernel
  have ho : jamBehindBranch.reply .step = .outcome .completed := by decide +kernel
  have ho' : jammed.reply .step = .outcome .unfinished := by decide +kernel
  obtain ⟨hsteps, n, -, -, hacts, -, -, -, -, -, -, hcompleted⟩ := step_ends hp
  obtain ⟨-, n', -, -, hacts', -, -, hunfinished, -⟩ := step_ends hp'
  obtain rfl : n = 3 := by simpa using congrArg List.length (hacts.symm.trans hticks)
  obtain rfl : n' = 0 := by simpa using congrArg List.length (hacts'.symm.trans hticks')
  obtain ⟨hhalted', hnone⟩ := hunfinished.mp ho'
  exact ⟨hp, hp', (hsteps _).mpr rfl, by decide +kernel, ho, hcompleted.mp ho, hhalted', ho', hnone⟩

end Board

end Mos6502
