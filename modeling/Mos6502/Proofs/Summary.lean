import Mos6502.Proofs.Outcome
import Mos6502.Proofs.RunModes

/-!
# The summary of a run

A run for a number of instructions makes one step after another, and ends early behind a step that
comes to nothing (`Board.Runs`).  Its summary counts each of these steps once: as completed, as
refused, or as the one that came to nothing (`execute_runs`).  A run that was not ended early
can be gone on with, and is then the first part of a longer one (`execute_add`).

A processor can be locked up although no step has come to nothing yet.  Then the last step has
completed a branch that has fetched the lock-up (`EndsBeforeJam`).
-/

universe u

namespace Mos6502

namespace Board

variable {β : Type u} [Bus β] {b b' : Board β} {count : Nat} {outcomes : List Processor.Outcome}

/-! ## The steps of a run -/

/-- Steps up to a number, or to the first that comes to nothing, with what each of them comes to. -/
inductive Runs : Board β → Nat → List Processor.Outcome → Board β → Prop
  | finished (b : Board β) : Runs b 0 [] b
  | stalled {b : Board β} {count : Nat} (h : b.reply .step = .outcome .unfinished) :
      Runs b (count + 1) [.unfinished] (b.call .step)
  | step {b b' : Board β} {count : Nat} {o : Processor.Outcome} {outcomes : List Processor.Outcome}
      (h : b.reply .step = .outcome o) (ho : o ≠ .unfinished)
      (rest : Runs (b.call .step) count outcomes b') : Runs b (count + 1) (o :: outcomes) b'

namespace Runs

theorem length_le (h : b.Runs count outcomes b') : outcomes.length ≤ count := by
  induction h with
  | finished => exact Nat.le_refl 0
  | stalled => exact Nat.succ_le_succ (Nat.zero_le _)
  | step h ho rest ih => exact Nat.succ_le_succ ih

theorem stepped_eq (h : b.Runs count outcomes b') : b.stepped outcomes.length = b' := by
  induction h with
  | finished | stalled => rfl
  | step h ho rest ih => exact ih

/-- The outcomes are what the calls reply. -/
theorem replies_eq (h : b.Runs count outcomes b') :
    b.replies (List.replicate outcomes.length .step) = outcomes.map .outcome := by
  induction h with
  | finished => rfl
  | stalled h => exact congrArg (· :: []) h
  | step h ho rest ih => exact congr (congrArg List.cons h) ih

/-- Each step completes something, is refused, or is the one that comes to nothing. -/
theorem length_eq (h : b.Runs count outcomes b') :
    outcomes.length =
      outcomes.count .completed + (outcomes.filterMap Processor.Outcome.refusal?).length +
        (outcomes.contains .unfinished).toNat := by
  induction h with
  | finished => rfl
  | stalled => rfl
  | @step _ _ _ o _ h ho rest ih =>
      rw [List.length_cons, ih]
      cases o with
      | unfinished => exact absurd rfl ho
      | completed | refused e => simp [Processor.Outcome.refusal?, List.filterMap_cons]; omega

/-- A step that comes to nothing is the last one. -/
theorem stallsAt (h : b.Runs count outcomes b') (hu : .unfinished ∈ outcomes) :
    ∃ k, outcomes.length = k + 1 ∧ b.StallsAt k := by
  induction h with
  | finished => cases hu
  | stalled h => exact ⟨0, rfl, .zero h⟩
  | step h ho rest ih =>
      obtain ⟨k, hk, hstalls⟩ := ih ((List.mem_cons.mp hu).resolve_left ho.symm)
      refine ⟨k + 1, congrArg (· + 1) hk, .succ (fun he => ho ?_) hstalls⟩
      exact Reply.outcome.inj (h.symm.trans he)

/-- Without one all steps are made. -/
theorem goes_on (h : b.Runs count outcomes b') (hu : .unfinished ∉ outcomes) :
    outcomes.length = count ∧ ∀ k < count, (b.stepped k).reply .step ≠ .outcome .unfinished := by
  induction h with
  | finished => exact ⟨rfl, fun k hk => absurd hk (Nat.not_lt_zero k)⟩
  | stalled => exact absurd List.mem_cons_self hu
  | step h ho rest ih =>
      obtain ⟨hlength, hgoes⟩ := ih fun hrest => hu (List.mem_cons_of_mem _ hrest)
      refine ⟨congrArg (· + 1) hlength, fun k hk he => ?_⟩
      cases k with
      | zero => exact ho (Reply.outcome.inj (h.symm.trans he))
      | succ k => exact hgoes k (Nat.lt_of_succ_lt_succ hk) he

end Runs

/-! ## Lock-ups behind steps -/

/-- The next tick completes a branch, and takes in flight as a lock-up what the branch has fetched.
-/
structure EndsBeforeJam (b : Board β) : Prop where
  completes : ∃ i c, b.Completes i ∧ i.sequence = .branch c
  jam : Opcode.sequence (Bus.read b.bus b.processor.regs.pc).1 = .jam
  inFlight : (b.act .tick).processor.inFlight =
    some (.decode (Bus.read b.bus b.processor.regs.pc).1)

theorem endsBeforeJam_of_prefetchesJam (hw : b.processor.WellFormed)
    (hc : b.processor.Coherent) (h : b.prefetchesJam = true) : b.EndsBeforeJam := by
  rw [prefetchesJam, Bool.and_eq_true, Bool.and_eq_true, beq_iff_eq] at h
  obtain ⟨⟨hbranch, ho⟩, hhalted⟩ := h
  obtain ⟨i, hi⟩ := (completed_iff hw hc).mp ho
  rw [hi.inFlight, Option.any_some, Sequence.isBranch_iff] at hbranch
  obtain ⟨c, hs⟩ := hbranch
  have ht := Processor.tick_branch hi.inFlight hs ho
  generalize hopcode : (Bus.read b.bus b.processor.regs.pc).1 = opcode at ht
  have hp : (b.act .tick).processor = _ := congrArg (·.1.processor) ht
  rcases Processor.complete_cases _ opcode with hcomplete | hcomplete
  · -- Behind a refusal nothing is in flight.
    rw [hcomplete] at hp
    rw [hp] at hhalted
    cases hhalted
  · rw [hcomplete] at hp
    have hin : (b.act .tick).processor.inFlight = some (.decode opcode) := by rw [hp]
    rw [Processor.isHalted, hin] at hhalted
    exact ⟨⟨i, c, hi, hs⟩, hopcode ▸ eq_of_beq hhalted, hopcode ▸ hin⟩

/-- A step that comes to nothing leaves the processor locked up. -/
theorem halted_of_unfinished (hc : b.processor.Coherent) (hs : b.processor.Issues)
    (h : b.reply .step = .outcome .unfinished) : (b.call .step).processor.isHalted = true := by
  obtain ⟨n, hn, hl⟩ := exists_lasts hc hs
  obtain ⟨hcall, -, hreply⟩ := step_of_lasts hl hn
  have hcoherent : (b.ticked n).processor.Coherent := after_induction coherent_act hc _
  rw [hcall, ← act_ticked]
  exact ((unfinished_iff hcoherent hl.ends).mp (Reply.outcome.inj (hreply.symm.trans h))).1

/-- A step that comes to something and leaves the processor locked up has completed a branch. -/
theorem endsBeforeJam_of_halted (hw : b.processor.WellFormed) (hc : b.processor.Coherent)
    (hs : b.processor.Issues) (h : b.reply .step ≠ .outcome .unfinished)
    (hh : (b.call .step).processor.isHalted = true) :
    b.reply .step = .outcome .completed ∧
      ∃ n, b.actsOf .step = List.replicate (n + 1) .tick ∧ (b.ticked n).EndsBeforeJam := by
  obtain ⟨n, hn, hl⟩ := exists_lasts hc hs
  obtain ⟨hcall, hacts, hreply⟩ := step_of_lasts hl hn
  have hcoherent : (b.ticked n).processor.Coherent := after_induction coherent_act hc _
  have hwellFormed : (b.ticked n).processor.WellFormed := after_induction wellFormed_act hw _
  rw [hcall, ← act_ticked] at hh
  rcases turn_of_halted hcoherent hh with ⟨ho, -⟩ | ⟨ho, hjam⟩
  · exact absurd (hreply.trans (congrArg _ ho)) h
  · exact ⟨hreply.trans (congrArg _ ho), n, hacts,
      endsBeforeJam_of_prefetchesJam hwellFormed hcoherent hjam⟩

end Board

namespace Machine

variable {m : Machine} {r : Run} {s : Summary} {count : Nat}

/-! ## What is counted -/

/-- All the steps that a summary counts. -/
def Summary.steps (s : Summary) : Nat := s.instructions + s.unsupported + s.halted.toNat

theorem Summary.append_assoc (s t u : Summary) : (s.append t).append u = s.append (t.append u) := by
  simp only [Summary.append, Nat.add_assoc]

theorem Summary.count_append (hs : s.halted = false) (o : Processor.Outcome) :
    s.count o = s.append (Summary.count {} o) := by
  cases o <;> simp [Summary.count, Summary.append, hs]

/-- Outcomes are counted by what they are. -/
theorem Summary.foldl_count (s : Summary) (outcomes : List Processor.Outcome) :
    outcomes.foldl Summary.count s =
      { instructions := s.instructions + outcomes.count .completed
        unsupported := s.unsupported + (outcomes.filterMap Processor.Outcome.refusal?).length
        halted := s.halted || outcomes.contains .unfinished } := by
  induction outcomes generalizing s with
  | nil => simp
  | cons o outcomes ih =>
      rw [List.foldl_cons, ih]
      cases o <;> simp [Summary.count, Processor.Outcome.refusal?, List.filterMap_cons, Nat.add_assoc,
        Nat.add_comm 1]

/-- The loop makes the steps of a run, and counts what they come to. -/
theorem Run.exists_runs (count : Nat) (r : Run) (hs : r.summary.halted = false) :
    ∃ outcomes, r.machine.board.Runs count outcomes (Run.go count r).machine.board ∧
      (Run.go count r).summary = outcomes.foldl Summary.count r.summary := by
  induction count generalizing r with
  | zero => exact ⟨[], .finished _, rfl⟩
  | succ count ih =>
      let o := (r.machine.processor.step r.machine.memory).1.outcome
      have hreply : r.machine.board.reply .step = .outcome o := rfl
      have hcount : r.next.summary = r.summary.count o := rfl
      have hiff : r.next.summary.halted = true ↔ o = .unfinished := (r.summary.count_spec hs o).1
      rw [r.go_succ]
      by_cases ho : o = .unfinished
      · rw [if_pos (hiff.mpr ho)]
        refine ⟨[.unfinished], .stalled (hreply.trans (congrArg _ ho)), ?_⟩
        exact hcount.trans (congrArg _ ho)
      · have hnot : ¬ r.next.summary.halted = true := mt hiff.mp ho
        obtain ⟨outcomes, hruns, hsummary⟩ := ih r.next (Bool.eq_false_iff.mpr hnot)
        rw [if_neg hnot]
        exact ⟨o :: outcomes, .step hreply ho hruns, hsummary⟩

/-- Every step of a run is counted once, as what it comes to. -/
theorem execute_runs (m : Machine) (count : Nat) :
    let s := (m.execute count).summary
    ∃ outcomes, m.board.Runs count outcomes (m.execute count).machine.board ∧
      outcomes.length = s.steps ∧ outcomes.count .completed = s.instructions ∧
      (outcomes.filterMap Processor.Outcome.refusal?).length = s.unsupported ∧
      (s.halted = true ↔ .unfinished ∈ outcomes) := by
  intro s
  obtain ⟨outcomes, hruns, hsummary⟩ := Run.exists_runs count { machine := m } rfl
  have hs : s = _ := hsummary.trans (Summary.foldl_count _ outcomes)
  refine ⟨outcomes, hruns, ?_, ?_, ?_, ?_⟩
  · rw [hruns.length_eq, hs]
    simp [Summary.steps]
  · rw [hs]
    exact (Nat.zero_add _).symm
  · rw [hs]
    exact (Nat.zero_add _).symm
  · rw [hs, Bool.false_or, List.contains_iff_mem]

/-! ## One run behind another -/

/-- A run, and behind it one that goes on from its machine. -/
def Run.append (first second : Run) : Run where
  machine := second.machine
  summary := first.summary.append second.summary
  events := first.events ++ second.events

theorem Run.append_assoc (r t u : Run) : (r.append t).append u = r.append (t.append u) := by
  simp only [Run.append, Summary.append_assoc, Array.append_assoc]

theorem Run.append_jammed (r t : Run) : (r.append t).jammed = r.append t.jammed := by
  simp only [Run.append, Run.jammed, Array.append_push]

theorem Run.next_eq_append (hs : r.summary.halted = false) :
    r.next = r.append (Run.next { machine := r.machine }) := by
  have hevents (events : List Event) :
      r.events ++ events = r.events ++ ((#[] : Array Event) ++ events) := Array.ext' (by simp)
  rw [Run.next, hevents, Summary.count_append hs]
  rfl

/-- What a run has counted and reported before makes no difference to how it goes on. -/
theorem Run.go_eq_append (count : Nat) (hs : r.summary.halted = false) :
    Run.go count r = r.append (r.machine.execute count) := by
  -- Both loops make the same steps, so what was there before stays in front.
  induction count generalizing r with
  | zero => simp [Run.go, Run.append, execute, Summary.append, ← hs]
  | succ count ih =>
      let fresh : Run := { machine := r.machine }
      have hnext : r.next = r.append fresh.next := Run.next_eq_append hs
      have hsame : r.next.summary.halted = fresh.next.summary.halted := by rw [hnext]; rfl
      rw [execute, r.go_succ, fresh.go_succ, hsame]
      by_cases hhalted : fresh.next.summary.halted = true
      · rw [if_pos hhalted, if_pos hhalted, hnext, Run.append_jammed]
      · have hfresh : fresh.next.summary.halted = false := Bool.eq_false_iff.mpr hhalted
        rw [if_neg hhalted, if_neg hhalted, ih hfresh, ih (hsame.trans hfresh), hnext,
          Run.append_assoc]
        rfl

/-- A run can be cut behind any number of steps. -/
theorem Run.go_add (j k : Nat) (r : Run) (h : (Run.go j r).summary.halted = false) :
    Run.go (j + k) r = Run.go k (Run.go j r) := by
  induction j generalizing r with
  | zero => rw [Nat.zero_add, Run.go]
  | succ j ih =>
      rw [r.go_succ] at h
      rw [Nat.add_right_comm, r.go_succ, r.go_succ]
      by_cases hhalted : r.next.summary.halted = true
      · rw [if_pos hhalted] at h
        exact absurd hhalted (Bool.eq_false_iff.mp h)
      · rw [if_neg hhalted] at h
        rw [if_neg hhalted, if_neg hhalted, ih r.next h]

/-- A run that was not ended early is the first part of every longer one. -/
theorem execute_add (m : Machine) (j k : Nat) (h : (m.execute j).summary.halted = false) :
    m.execute (j + k) = (m.execute j).append ((m.execute j).machine.execute k) := by
  rw [execute, Run.go_add j k _ h]
  exact Run.go_eq_append k h

/-- **A run by instructions accounts for every step, and can be cut anywhere.**  What it counts as
completed and as refused, and the step that ended it early if there was one, are all the steps that
it made, by what they reply, and they leave the machine as it is.  There are as many as asked for
unless one came to nothing.  A run that was not ended early and another one behind it are one run,
which adds up what they count, and ends early if the second does.  On a machine whose processor has
been created and used in whatever way, a run ends early with the processor locked up; and if the
processor is locked up although the run was not ended early, its last step has completed a branch
that had fetched the lock-up. -/
theorem runs_account_and_compose (m : Machine) (count : Nat) :
    let run := m.execute count
    let s := run.summary
    let last := m.board.stepped (count - 1)
    (∃ outcomes, m.board.Runs count outcomes run.machine.board ∧ outcomes.length = s.steps ∧
        m.board.replies (List.replicate s.steps .step) = outcomes.map .outcome ∧
        outcomes.count .completed = s.instructions ∧
        (outcomes.filterMap Processor.Outcome.refusal?).length = s.unsupported ∧
        (s.halted = true ↔ .unfinished ∈ outcomes)) ∧
      s.steps ≤ count ∧ (s.halted = false → s.steps = count) ∧
      run.machine.board = m.board.stepped s.steps ∧
      (s.halted = false → ∀ more,
        let second := run.machine.execute more
        let whole := m.execute (count + more)
        whole.machine = second.machine ∧
          whole.summary.instructions = s.instructions + second.summary.instructions ∧
          whole.summary.unsupported = s.unsupported + second.summary.unsupported ∧
          whole.summary.halted = second.summary.halted ∧
          whole.events = run.events ++ second.events) ∧
      (m.processor.Reachable →
        (s.halted = true → run.machine.processor.isHalted = true) ∧
          (0 < count → s.halted = false → run.machine.processor.isHalted = true →
            last.call .step = run.machine.board ∧ last.reply .step = .outcome .completed ∧
              ∃ n, last.actsOf .step = List.replicate (n + 1) .tick ∧
                (last.ticked n).EndsBeforeJam)) := by
  intro run s last
  obtain ⟨outcomes, hruns, hsteps, hcompleted, hrefused, hhalted⟩ := m.execute_runs count
  have hboard : m.board.stepped s.steps = run.machine.board := hsteps ▸ hruns.stepped_eq
  have hgoes (h : s.halted = false) : outcomes.length = count ∧ _ :=
    hruns.goes_on (mt hhalted.mpr (Bool.eq_false_iff.mp h))
  refine ⟨⟨outcomes, hruns, hsteps, hsteps ▸ hruns.replies_eq, hcompleted, hrefused, hhalted⟩,
    hsteps ▸ hruns.length_le, fun h => hsteps ▸ (hgoes h).1, hboard.symm, fun h more => ?_,
    fun hm => ?_⟩
  · intro second whole
    have hwhole : whole = run.append second := m.execute_add count more h
    rw [hwhole]
    exact ⟨rfl, rfl, rfl, rfl, rfl⟩
  · have hreachable (k : Nat) : (m.board.stepped k).processor.Reachable :=
      Processor.Reachable.calls (b := m.board) hm _
    refine ⟨fun h => ?_, fun hpos h hlocked => ?_⟩
    · obtain ⟨k, hk, hstalls⟩ := hruns.stallsAt (hhalted.mp h)
      have hend : (m.board.stepped k).call .step = run.machine.board := by
        rw [Board.call_stepped, ← hk, hsteps, hboard]
      have hlocked := Board.halted_of_unfinished (hreachable k).coherent (hreachable k).issues
        hstalls.stalls
      rwa [hend] at hlocked
    · obtain ⟨hlength, hnot⟩ := hgoes h
      have hend : last.call .step = run.machine.board := by
        rw [Board.call_stepped, Nat.sub_add_cancel hpos, ← hlength, hsteps, hboard]
      have hr := hreachable (count - 1)
      exact ⟨hend, Board.endsBeforeJam_of_halted hr.wellFormed hr.coherent hr.issues
        (hnot _ (Nat.sub_one_lt_of_lt hpos)) (hend ▸ hlocked)⟩

/-- Cut between the branch and the lock-up it has fetched, the run was not ended early, although the
processor is locked up; the step behind it finds that. -/
theorem runs_account_and_compose_branchToJam :
    let run := branchToJam.execute 2
    branchToJam.processor.Reachable ∧
      (run.summary.halted = false ∧ run.summary.steps = 2 ∧
        run.machine.processor.isHalted = true) ∧
      (∃ n, (branchToJam.board.stepped 1).actsOf .step = List.replicate (n + 1) .tick ∧
        ((branchToJam.board.stepped 1).ticked n).EndsBeforeJam) ∧
      let whole := branchToJam.execute (2 + 1)
      whole.summary.halted = true ∧ whole.summary.instructions = 1 ∧
        whole.summary.unsupported = 1 ∧ whole.machine.processor.isHalted = true := by
  intro run
  have hm : branchToJam.processor.Reachable := .created {}
  have hrun : run.summary.halted = false := by decide +kernel
  have hlocked : run.machine.processor.isHalted = true := by decide +kernel
  obtain ⟨-, -, hall, -, hmore, hlocks⟩ := runs_account_and_compose branchToJam 2
  obtain ⟨-, -, hends⟩ := (hlocks hm).2 (by decide) hrun hlocked
  obtain ⟨-, hinstructions, hunsupported, hhalted, -⟩ := hmore hrun 1
  obtain ⟨-, -, -, -, -, hlocks'⟩ := runs_account_and_compose branchToJam (2 + 1)
  have hwhole : (branchToJam.execute (2 + 1)).summary.halted = true :=
    hhalted.trans (by decide +kernel)
  exact ⟨hm, ⟨hrun, hall hrun, hlocked⟩, hends, hwhole,
    hinstructions.trans (by decide +kernel), hunsupported.trans (by decide +kernel),
    (hlocks' hm).1 hwhole⟩

end Machine

end Mos6502
