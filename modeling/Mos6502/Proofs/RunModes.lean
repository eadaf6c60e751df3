import Mos6502.Machine.Run
import Mos6502.Proofs.Duration
import Mos6502.Proofs.Refusals

/-!
# The two ways to run

A machine can be run tick by tick in batches, or step by step, and both ways end where the processor
is locked up.  The first looks at the processor after every tick, so it ends with the first tick
that leaves a lock-up in flight, wherever the batches are cut (`go_of_haltsAfter`).  The second only
sees a lock-up when a step comes to nothing (`go_of_stallsAt`).  A lock-up that was fetched as such
ends its step at once; one that a branch has prefetched is met by the step behind the branch, and
that step spends a cycle on it (`exists_stallsAt`).
-/

universe u

namespace Mos6502

namespace Board

variable {β : Type u} [Bus β] {b : Board β}

/-! ## Where a run ends -/

/-- So many ticks lock the processor up, and fewer do not. -/
structure HaltsAfter (b : Board β) (n : Nat) : Prop where
  positive : 0 < n
  halted : (b.ticked n).processor.isHalted = true
  first : ∀ k, 0 < k → k < n → (b.ticked k).processor.isHalted = false

theorem HaltsAfter.rest {n k : Nat} (h : b.HaltsAfter n) (hk : k < n) :
    (b.ticked k).HaltsAfter (n - k) where
  positive := Nat.sub_pos_of_lt hk
  halted := by
    rw [← ticked_add, Nat.add_sub_cancel' (Nat.le_of_lt hk)]
    exact h.halted
  first j hj hjn := by
    rw [← ticked_add]
    exact h.first (k + j) (by omega) (by omega)

/-- The step behind so many others is the first that comes to nothing. -/
structure StallsAt (b : Board β) (k : Nat) : Prop where
  stalls : (b.stepped k).reply .step = .outcome .unfinished
  goes_on : ∀ j < k, (b.stepped j).reply .step ≠ .outcome .unfinished

theorem StallsAt.zero (h : b.reply .step = .outcome .unfinished) : b.StallsAt 0 :=
  ⟨h, fun j hj => absurd hj (Nat.not_lt_zero j)⟩

theorem StallsAt.succ {k : Nat} (h : b.reply .step ≠ .outcome .unfinished)
    (hk : (b.call .step).StallsAt k) : b.StallsAt (k + 1) where
  stalls := hk.stalls
  goes_on
    | 0, _ => h
    | j + 1, hj => hk.goes_on j (Nat.lt_of_succ_lt_succ hj)

theorem StallsAt.of_succ {k : Nat} (h : b.StallsAt (k + 1)) :
    b.reply .step ≠ .outcome .unfinished ∧ (b.call .step).StallsAt k :=
  ⟨h.goes_on 0 (Nat.succ_pos k), h.stalls, fun j hj => h.goes_on (j + 1) (Nat.succ_lt_succ hj)⟩

/-! ## Steps to a lock-up -/

/-- A tick completes a branch, and with it takes a lock-up in flight. -/
def prefetchesJam (b : Board β) : Bool :=
  (b.processor.inFlight.any fun i => i.sequence.isBranch) && b.turn.outcome == .completed &&
    (b.act .tick).processor.isHalted

/-- A tick on a lock-up that is in flight only counts a cycle. -/
theorem act_of_halted (hc : b.processor.Coherent) (h : b.processor.isHalted = true) :
    b.turn.outcome = .unfinished ∧ b.turn.ends = true ∧
      ∃ i, b.act .tick =
        ⟨{ b.processor.counted with inFlight := some i }, (Bus.read b.bus b.processor.regs.pc).2⟩ := by
  obtain ⟨i, hi, hj⟩ := Processor.inFlight_of_halted h
  have ht := Processor.tick_of_jam (hc.refusal_of_inFlight hi) hi hj b.bus
  refine ⟨?_, ?_, { i with progress := i.progress.tick }, ?_⟩
  · rw [turn, ht]
  · rw [turn, ht]
    exact beq_of_eq hj
  · rw [act, turn, ht]

/-- The tick that locks the processor up leaves a step unfinished, or completes a branch. -/
theorem turn_of_halted (hc : b.processor.Coherent) (h : (b.act .tick).processor.isHalted = true) :
    b.turn.outcome = .unfinished ∧ b.prefetchesJam = false ∨
      b.turn.outcome = .completed ∧ b.prefetchesJam = true := by
  cases ho : b.turn.outcome with
  | unfinished => exact .inl ⟨rfl, by rw [prefetchesJam, ho]; simp⟩
  | refused e =>
      rw [Processor.not_halted_of_idle (idle_of_refused hc ho).1] at h
      cases h
  | completed =>
      obtain ⟨i, hi, ⟨-, hidle, -⟩ | ⟨⟨c, hs⟩, -⟩⟩ := hc.tick_of_completed ho
      · have hnot : (b.act .tick).processor.isHalted = false :=
          Processor.not_halted_of_idle hidle
        rw [hnot] at h
        cases h
      · refine .inr ⟨rfl, ?_⟩
        rw [prefetchesJam, hi, ho, h, Option.any_some, hs]
        rfl

/-- **Steps to a lock-up** take the ticks that lead to it, and one more if a branch ends with it. -/
theorem exists_stallsAt (hc : b.processor.Coherent) (hs : b.processor.Issues) {n : Nat}
    (h : b.HaltsAfter n) :
    ∃ k, b.StallsAt k ∧ b.acts (List.replicate (k + 1) .step) =
      List.replicate (n + (b.ticked (n - 1)).prefetchesJam.toNat) .tick := by
  -- One step leaves fewer ticks to the lock-up, so the induction is on their number.
  induction n using Nat.strongRecOn generalizing b with
  | _ n ih =>
      obtain ⟨d, hd, hl⟩ := exists_lasts hc hs
      obtain ⟨hcall, hacts, hreply⟩ := step_of_lasts hl hd
      have hcoherent : ∀ k, (b.ticked k).processor.Coherent := fun k =>
        after_induction coherent_act hc _
      by_cases hlt : d + 1 < n
      · have hgoes : b.reply .step ≠ .outcome .unfinished := by
          intro he
          have ho : (b.ticked d).turn.outcome = .unfinished :=
            Reply.outcome.inj (hreply.symm.trans he)
          have hends := hl.ends
          have hnot : (b.ticked (d + 1)).processor.isHalted = false := h.first _ (Nat.succ_pos d) hlt
          rw [Processor.Turn.ends, ho] at hends
          rw [ticked_add] at hnot
          exact absurd hends (Bool.eq_false_iff.mp hnot)
        have hissues : (b.ticked (d + 1)).processor.Issues := after_induction issues_act hs _
        obtain ⟨k, hk, hrest⟩ := ih (n - (d + 1)) (by omega) (hcoherent (d + 1)) hissues (h.rest hlt)
        refine ⟨k + 1, .succ hgoes (hcall ▸ hk), ?_⟩
        have hlast : d + 1 + (n - (d + 1) - 1) = n - 1 := by omega
        rw [← ticked_add, hlast] at hrest
        rw [List.replicate_succ, acts, hacts, hcall, hrest, List.replicate_append_replicate,
          ← Nat.add_assoc, Nat.add_sub_cancel' (Nat.le_of_lt hlt)]
      · -- The step cannot go on behind the lock-up, so it ends with it.
        have hhalted : ((b.ticked (n - 1)).act .tick).processor.isHalted = true := by
          have hh := h.halted
          rwa [← Nat.sub_add_cancel h.positive, ticked_add] at hh
        have hn : d = n - 1 := by
          by_contra hne
          have hpos := h.positive
          have hnot := hl.goes_on (n - 1) (by omega)
          rw [Processor.Turn.ends, Bool.or_eq_false_iff] at hnot
          exact absurd hhalted (Bool.eq_false_iff.mp hnot.2)
        have hsucc : d + 1 = n := by
          rw [hn]
          exact Nat.sub_add_cancel h.positive
        rw [hn] at hreply
        rw [hsucc] at hcall hacts
        rcases turn_of_halted (hcoherent (n - 1)) hhalted with ⟨ho, hj⟩ | ⟨ho, hj⟩
        · refine ⟨0, .zero (hreply.trans (congrArg _ ho)), ?_⟩
          rw [hj]
          exact (List.append_nil _).trans hacts
        · -- A branch ends its step, and the next one finds the lock-up.
          obtain ⟨ho', hends, -⟩ := act_of_halted (hcoherent n) h.halted
          obtain ⟨-, hacts', hreply'⟩ := step_of_lasts (.zero hends) (Nat.succ_pos 7)
          have hgoes : b.reply .step ≠ .outcome .unfinished := by
            rw [hreply, ho]
            exact fun he => by cases he
          refine ⟨1, .succ hgoes (.zero ?_), ?_⟩
          · rw [hcall]
            exact hreply'.trans (congrArg _ ho')
          · rw [hj, List.replicate_succ, acts, hacts, hcall]
            exact (congrArg (_ ++ ·) ((List.append_nil _).trans hacts')).trans
              List.replicate_append_replicate

/-- Only the last tick to a lock-up can have prefetched it. -/
theorem HaltsAfter.prefetchesJam_iff {n : Nat} (h : b.HaltsAfter n) :
    (∃ j < n, (b.ticked j).prefetchesJam = true) ↔ (b.ticked (n - 1)).prefetchesJam = true := by
  have hpos := h.positive
  refine ⟨fun ⟨j, hj, hpre⟩ => ?_, fun hpre => ⟨n - 1, Nat.sub_one_lt_of_lt hpos, hpre⟩⟩
  have hhalted : ((b.ticked j).act .tick).processor.isHalted = true :=
    (Bool.and_eq_true _ _ ▸ hpre).2
  rw [act_ticked] at hhalted
  have hlast : n - 1 = j := by
    by_contra hne
    exact absurd hhalted (Bool.eq_false_iff.mp (h.first (j + 1) (Nat.succ_pos j) (by omega)))
  rwa [hlast]

/-- On flat memory, a tick more on a lock-up that is in flight makes no other difference than a
cycle more, and returns nothing. -/
theorem ticked_of_halted {b : Board Memory} (hc : b.processor.Coherent)
    (h : b.processor.isHalted = true) (more : Bool) :
    (b.ticked more.toNat).bus = b.bus ∧
      (b.history (List.replicate more.toNat .tick)).filterMap Moment.reported = [] ∧
      ∃ i, (b.ticked more.toNat).processor =
        { b.processor with
          cycles := b.processor.cycles + (if more then 1 else 0)
          inFlight := some i } := by
  cases more with
  | false =>
      obtain ⟨i, hi, -⟩ := Processor.inFlight_of_halted h
      refine ⟨rfl, rfl, i, ?_⟩
      rw [← hi]
      exact congrArg (fun n => ({ b.processor with cycles := n } : Processor)) (by simp)
  | true =>
      obtain ⟨ho, -, i, ht⟩ := act_of_halted hc h
      have hnone : Moment.reported ⟨b, .tick⟩ = none := by
        show b.turn.outcome.refusal? = none
        rw [ho]
        rfl
      refine ⟨?_, List.filterMap_cons_none hnone, i, ?_⟩
      · show (b.act .tick).bus = b.bus
        rw [ht]
        rfl
      · show (b.act .tick).processor = _
        rw [ht]
        rfl

/-! ## The refusals of ticks -/

theorem acts_replicate_tick (b : Board β) (n : Nat) :
    b.acts (List.replicate n (.act .tick)) = List.replicate n .tick := by
  induction n generalizing b with
  | zero => rfl
  | succ n ih => exact congrArg (Act.tick :: ·) (ih (b.act .tick))

theorem refusals_replicate_tick (b : Board β) (n : Nat) :
    b.refusals (List.replicate n (.act .tick)) =
      (b.history (List.replicate n .tick)).filterMap Moment.reported := by
  rw [refusals_eq_reported, acts_replicate_tick]

end Board

namespace Machine

def board (m : Machine) : Board Memory := ⟨m.processor, m.memory⟩

/-! ## By cycles -/

/-- A burst one cycle later. -/
def Burst.next (burst : Burst) : Burst :=
  let b := burst.machine.board.act .tick
  { burst with
    machine := ⟨b.processor, b.bus⟩
    events := burst.events ++ eventsOf burst.machine.board.turn }

theorem Burst.batch_succ (size : Nat) (burst : Burst) :
    ∃ events, burst.batch (size + 1) =
      if burst.next.machine.processor.isHalted then { burst.next with events, halted := true }
      else burst.next.batch size :=
  ⟨_, rfl⟩

/-- A batch ends with the tick that locks the processor up, or is run to its end. -/
theorem batch_of_haltsAfter (size : Nat) {n : Nat} {b : Burst} (h : b.machine.board.HaltsAfter n)
    (hb : b.halted = false) :
    (n ≤ size → (b.batch size).halted = true ∧
        (b.batch size).machine.board = b.machine.board.ticked n) ∧
      (size < n → (b.batch size).halted = false ∧
        (b.batch size).machine.board = b.machine.board.ticked size) := by
  induction size generalizing n b with
  | zero => exact ⟨fun hn => absurd h.positive (Nat.not_lt.mpr hn), fun _ => ⟨hb, rfl⟩⟩
  | succ size ih =>
      obtain ⟨events, hbatch⟩ := b.batch_succ size
      rw [hbatch]
      by_cases hn : 1 < n
      · have hnot : b.next.machine.processor.isHalted = false := h.first 1 Nat.one_pos hn
        obtain ⟨hin, hout⟩ := ih (n := n - 1) (b := b.next) (h.rest hn) hb
        rw [if_neg (Bool.eq_false_iff.mp hnot)]
        refine ⟨fun hle => ?_, fun hlt => hout (by omega)⟩
        obtain ⟨hhalted, hboard⟩ := hin (by omega)
        refine ⟨hhalted, hboard.trans ?_⟩
        rw [← Nat.sub_add_cancel h.positive]
        rfl
      · obtain rfl : n = 1 := Nat.le_antisymm (Nat.le_of_not_lt hn) h.positive
        have hhalted : b.next.machine.processor.isHalted = true := h.halted
        rw [if_pos hhalted]
        exact ⟨fun _ => ⟨rfl, rfl⟩, fun hlt => by omega⟩

/-- So do batches, and where they are cut makes no difference. -/
theorem go_of_haltsAfter (size : Nat) {batches n : Nat} {b : Burst}
    (h : b.machine.board.HaltsAfter n) (hb : b.halted = false) :
    ((Burst.go size batches b).halted = true ↔ n ≤ batches * size) ∧
      ((Burst.go size batches b).halted = true →
        (Burst.go size batches b).machine.board = b.machine.board.ticked n) := by
  induction batches generalizing n b with
  | zero =>
      have hpos := h.positive
      have hnot : ¬ (Burst.go size 0 b).halted = true := Bool.eq_false_iff.mp hb
      exact ⟨⟨fun he => absurd he hnot, fun hn => by omega⟩, fun he => absurd he hnot⟩
  | succ batches ih =>
      obtain ⟨hin, hout⟩ := batch_of_haltsAfter size h hb
      rw [Burst.go, Nat.succ_mul]
      by_cases hn : n ≤ size
      · obtain ⟨hhalted, hboard⟩ := hin hn
        rw [if_pos hhalted]
        exact ⟨⟨fun _ => Nat.le_add_left_of_le hn, fun _ => hhalted⟩, fun _ => hboard⟩
      · have hlt : size < n := Nat.lt_of_not_le hn
        obtain ⟨hhalted, hboard⟩ := hout hlt
        have hrest := h.rest hlt
        rw [← hboard] at hrest
        obtain ⟨hiff, hend⟩ := ih hrest hhalted
        rw [if_neg (Bool.eq_false_iff.mp hhalted)]
        refine ⟨hiff.trans (by omega), fun he => (hend he).trans ?_⟩
        rw [hboard, ← Board.ticked_add, Nat.add_sub_cancel' (Nat.le_of_lt hlt)]

/-! ## By instructions -/

/-- A run one step later. -/
def Run.next (run : Run) : Run :=
  let b := run.machine.board.call .step
  let turn := (run.machine.processor.step run.machine.memory).1
  { machine := ⟨b.processor, b.bus⟩
    summary := run.summary.count turn.outcome
    events := run.events ++ eventsOf turn }

/-- A run that has come upon a processor that is locked up. -/
def Run.jammed (run : Run) : Run :=
  { run with events := run.events.push (.jammed run.machine.processor.regs.pc) }

theorem Run.go_succ (count : Nat) (run : Run) :
    Run.go (count + 1) run =
      if run.next.summary.halted then run.next.jammed else Run.go count run.next :=
  rfl

theorem Summary.count_spec (s : Summary) (hs : s.halted = false) (o : Processor.Outcome) :
    ((s.count o).halted = true ↔ o = .unfinished) ∧
      (s.count o).unsupported = s.unsupported + o.refusal?.toList.length := by
  cases o <;> simp [Summary.count, Processor.Outcome.refusal?, hs]

/-- A step that returns a refusal is counted as such, and one that comes to nothing ends the run. -/
theorem Run.next_spec (run : Run) (hs : run.summary.halted = false) :
    (run.next.summary.halted = true ↔ run.machine.board.reply .step = .outcome .unfinished) ∧
      run.next.summary.unsupported = run.summary.unsupported +
        (run.machine.board.reply .step).refusal?.toList.length := by
  obtain ⟨hhalted, hcount⟩ := run.summary.count_spec hs
    (run.machine.processor.step run.machine.memory).1.outcome
  exact ⟨hhalted.trans ⟨congrArg Reply.outcome, Reply.outcome.inj⟩, hcount⟩

/-- A run for enough instructions ends with the first step that comes to nothing. -/
theorem go_of_stallsAt {k count : Nat} {r : Run} (h : r.machine.board.StallsAt k)
    (hs : r.summary.halted = false) (hk : k < count) :
    (Run.go count r).summary.halted = true ∧
      (Run.go count r).machine.board = r.machine.board.stepped (k + 1) ∧
      (Run.go count r).summary.unsupported = r.summary.unsupported +
        (r.machine.board.refusals (List.replicate (k + 1) .step)).length := by
  -- A run looks at what a step comes to just as `StallsAt` does.
  induction k generalizing count r with
  | zero =>
      obtain ⟨count, rfl⟩ := Nat.exists_eq_succ_of_ne_zero (Nat.ne_of_gt hk)
      obtain ⟨hhalted, hcount⟩ := r.next_spec hs
      rw [r.go_succ, if_pos (hhalted.mpr h.stalls), List.replicate_succ, Board.refusals_cons]
      refine ⟨hhalted.mpr h.stalls, rfl, hcount.trans ?_⟩
      rw [List.length_append]
      rfl
  | succ k ih =>
      obtain ⟨count, rfl⟩ := Nat.exists_eq_succ_of_ne_zero (Nat.ne_of_gt (Nat.zero_lt_of_lt hk))
      obtain ⟨hhalted, hcount⟩ := r.next_spec hs
      obtain ⟨hgoes, hrest⟩ := h.of_succ
      have hnot : ¬ r.next.summary.halted = true := mt hhalted.mp hgoes
      obtain ⟨hend, hboard, hunsupported⟩ := ih (r := r.next) hrest (Bool.eq_false_iff.mpr hnot)
        (Nat.lt_of_succ_lt_succ hk)
      rw [r.go_succ, if_neg hnot, List.replicate_succ, Board.refusals_cons, List.length_append,
        ← Nat.add_assoc, ← hcount]
      exact ⟨hend, hboard, hunsupported⟩

/-! ## Both -/

/-- **The two ways to run agree.**  Let so many ticks be the least that lock a machine up.  Run by
cycles it ends behind them, however the batches are cut.  Run by instructions it ends as well, with
the same registers, memory, last opcode and requests, and counts as many refusals as the ticks
return; and its cycles are the same, or one more if a branch has prefetched the lock-up. -/
theorem run_modes_agree {m : Machine} (hm : m.processor.Reachable) {n : Nat}
    (hn : m.board.HaltsAfter n) :
    (∀ batches size : Nat,
      let burst := m.tickBatches batches size
      (burst.halted = true ↔ n ≤ batches * size) ∧
        (burst.halted = true → burst.machine.board = m.board.ticked n)) ∧
      ∃ k, m.board.StallsAt k ∧ ∀ count > k,
        let run := m.execute count
        let p := run.machine.processor
        let q := (m.board.ticked n).processor
        run.summary.halted = true ∧
          run.machine.memory = (m.board.ticked n).bus ∧
          p.regs = q.regs ∧ p.opcode = q.opcode ∧
          p.nmiLatched = q.nmiLatched ∧ p.irqRequested = q.irqRequested ∧
          run.summary.unsupported = (m.board.refusals (List.replicate n (.act .tick))).length ∧
          ((∃ j < n, (m.board.ticked j).prefetchesJam = true) → p.cycles = q.cycles + 1) ∧
          ((∀ j < n, (m.board.ticked j).prefetchesJam = false) → p.cycles = q.cycles) := by
  refine ⟨fun batches size => go_of_haltsAfter size hn rfl, ?_⟩
  obtain ⟨k, hk, hacts⟩ := Board.exists_stallsAt hm.coherent hm.issues hn
  refine ⟨k, hk, fun count hcount => ?_⟩
  obtain ⟨hhalted, hboard, hunsupported⟩ :=
    go_of_stallsAt (r := { machine := m }) hk rfl hcount
  let more := (m.board.ticked (n - 1)).prefetchesJam
  have hcoherent : (m.board.ticked n).processor.Coherent :=
    Board.after_induction Board.coherent_act hm.coherent _
  obtain ⟨hbus, hnone, i, hprocessor⟩ := Board.ticked_of_halted hcoherent hn.halted more
  have hend : m.board.stepped (k + 1) = (m.board.ticked n).ticked more.toNat := by
    rw [Board.stepped, Board.calls_eq_after, hacts, ← Board.ticked_add]
    rfl
  have hrefusals : m.board.refusals (List.replicate (k + 1) .step) =
      m.board.refusals (List.replicate n (.act .tick)) := by
    rw [Board.refusals_eq_reported, hacts, ← List.replicate_append_replicate,
      Board.history_append, List.filterMap_append, Board.refusals_replicate_tick]
    exact (congrArg (_ ++ ·) hnone).trans (List.append_nil _)
  rw [hend] at hboard
  rw [hrefusals] at hunsupported
  intro run p q
  have hp : p = _ := (congrArg Board.processor hboard).trans hprocessor
  refine ⟨hhalted, (congrArg Board.bus hboard).trans hbus, by rw [hp], by rw [hp], by rw [hp],
    by rw [hp], hunsupported.trans (Nat.zero_add _), fun hpre => ?_, fun hnot => ?_⟩
  · have hmore : more = true := hn.prefetchesJam_iff.mp hpre
    rw [hp, hmore]
    rfl
  · have hmore : more = false := hnot (n - 1) (Nat.sub_one_lt_of_lt hn.positive)
    rw [hp, hmore]
    exact UInt64.add_zero q.cycles

/-- An opcode that is refused, and a branch to a lock-up. -/
def branchToJam : Machine where
  memory :=
    ((Memory.zeros.write 0x0000 0x8B).write 0x0001 0xD0).write 0x0003 0x02

theorem run_modes_agree_branchToJam :
    branchToJam.board.HaltsAfter 5 ∧
      ((branchToJam.tickBatches 2 3).halted = true ∧
        (branchToJam.tickBatches 2 3).machine.processor.cycles = 5) ∧
      ∃ k, branchToJam.board.StallsAt k ∧
        (branchToJam.execute (k + 1)).summary.halted = true ∧
        (branchToJam.execute (k + 1)).summary.unsupported = 1 ∧
        (branchToJam.execute (k + 1)).machine.processor.cycles = 6 := by
  have hfirst : ∀ k < 5, 0 < k → (branchToJam.board.ticked k).processor.isHalted = false := by
    decide +kernel
  have hn : branchToJam.board.HaltsAfter 5 :=
    ⟨by decide, by decide +kernel, fun k hk hlt => hfirst k hlt hk⟩
  have hcycles : (branchToJam.board.ticked 5).processor.cycles = 5 := by decide +kernel
  have hrefusals : (branchToJam.board.refusals (List.replicate 5 (.act .tick))).length = 1 := by
    decide +kernel
  have hjam : (branchToJam.board.ticked 4).prefetchesJam = true := by decide +kernel
  obtain ⟨hbatches, k, hk, hsteps⟩ := run_modes_agree (m := branchToJam) (.created {}) hn
  obtain ⟨hhalts, hends⟩ := hbatches 2 3
  have hburst := hhalts.mpr (by decide)
  obtain ⟨hhalted, -, -, -, -, -, hunsupported, hmore, -⟩ := hsteps (k + 1) (Nat.lt_succ_self k)
  refine ⟨hn, ⟨hburst, ?_⟩, k, hk, hhalted, hunsupported.trans hrefusals, ?_⟩
  · exact (congrArg (·.processor.cycles) (hends hburst)).trans hcycles
  · rw [hmore ⟨4, by decide, hjam⟩, hcycles]
    rfl

end Machine

end Mos6502
