import Mos6502.Proofs.Completion
import Mos6502.Proofs.Reachable

/-!
# How long a step takes

Every cycle that does not end an instruction brings its end nearer: `Sequence.left` bounds the
cycles that follow, and falls with each of them.  No sequence but the lock-up has more than six
behind its first, so a step comes to an end of its own (`exists_lasts`), and never because its limit
of ticks is used up.  It is then the ticks up to the first that ends it (`step_of_lasts`).
-/

universe u

namespace Mos6502

/-! ## Cycles left -/

/-- Cycles that are spent on an address at most. -/
def Mode.cycles : Mode → Nat
  | .immediate => 0
  | .zeroPage => 1
  | .zeroPageIndexed _ | .absolute => 2
  | .absoluteIndexed _ => 3
  | .indexedIndirect | .indirectIndexed => 4

theorem Mode.cycles_le (mode : Mode) : mode.cycles ≤ 4 := by
  cases mode <;> exact Nat.le_of_ble_eq_true rfl

/-- A cycle that is spent on an address is one of those, and otherwise the address is settled. -/
def Resolution.Within (mode : Mode) (n : Nat) : Resolution → Prop
  | .pending _ => n ≤ mode.cycles
  | .ready t _ => t.ready = true

theorem Target.within_correct {mode : Mode} {n : Nat} (hn : n ≤ mode.cycles) (t : Target)
    (correction : Correction) (r : Registers) : (t.correct correction r).Within mode n := by
  unfold correct
  split
  · exact rfl
  · exact hn

theorem Target.within_locate {t : Target} (h : t.ready = false) (n : Nat) (mode : Mode)
    (correction : Correction) (r : Registers) :
    (t.locate n mode correction r).Within mode n := by
  unfold locate
  rw [if_neg (Bool.eq_false_iff.mp h)]
  split <;> first
    | exact rfl
    | exact Nat.le_of_ble_eq_true rfl
    | exact within_correct (Nat.le_of_ble_eq_true rfl) ..

namespace Sequence

/-- Cycles that will be spent on an address, at most. -/
def locatingLeft (mode : Mode) (p : Progress) : Nat :=
  if p.target.ready then 0 else mode.cycles + 1 - p.cycle

theorem locatingLeft_of_not_ready {p : Progress} (h : p.target.ready = false) (mode : Mode) :
    locatingLeft mode p = mode.cycles + 1 - p.cycle := by
  rw [locatingLeft, if_neg (Bool.eq_false_iff.mp h)]

theorem locatingLeft_le (mode : Mode) (p : Progress) :
    locatingLeft mode p ≤ mode.cycles + 1 - p.cycle := by
  unfold locatingLeft
  split <;> omega

/-- How many more cycles will follow the one about to run, at most. -/
def left (s : Sequence) (p : Progress) : Nat :=
  match s with
  | .data mode _ | .store mode _ => locatingLeft mode p
  | .modify mode _ => locatingLeft mode p + (2 - p.phase)
  | .accumulator _ | .register _ => 0
  | .jmp | .pha | .php => 2 - p.cycle
  | .pla | .plp => 3 - p.cycle
  | .branch _ | .jmpIndirect => 4 - p.cycle
  | .jsr | .rts | .rti => 5 - p.cycle
  | .brk | .entry _ => 6 - p.cycle
  | .reset => 7 - p.cycle
  | .jam | .unsupported => 0

theorem left_le (s : Sequence) {p : Progress} (hp : 1 ≤ p.cycle) : s.left p ≤ 6 := by
  have hmode : ∀ mode : Mode, locatingLeft mode p ≤ 4 := by
    intro mode
    have h := locatingLeft_le mode p
    have hcycles := mode.cycles_le
    omega
  cases s with
  | data mode _ | store mode _ | modify mode _ =>
      have := hmode mode
      simp only [left]
      omega
  | _ =>
      simp only [left]
      omega

/-- A stage that is over, or nearer to its end than before. -/
def Nearer (s : Sequence) (p : Progress) : Stage → Prop
  | .more q _ => s.left q.tick < s.left p
  | .done .. | .prefetched .. => True

theorem nearer_atTarget {s : Sequence} {mode : Mode} {correction : Correction}
    {next : Progress → Registers → Cycle Stage} {p : Progress} {r : Registers}
    (hleft : ∀ t, p.target.ready = false → p.cycle ≤ mode.cycles →
      s.left ({ p with target := t } : Progress).tick < s.left p)
    (hnext : ∀ t r, t.ready = true → (next { p with target := t } r).Always (s.Nearer p)) :
    (atTarget mode correction next p r).Always (s.Nearer p) := by
  cases hready : p.target.ready with
  | true =>
      rw [atTarget, Target.locate_of_ready hready]
      exact hnext p.target r hready
  | false =>
      have h := Target.within_locate hready p.cycle mode correction r
      rw [atTarget]
      cases hl : p.target.locate p.cycle mode correction r with
      | ready t r' =>
          rw [hl] at h
          exact hnext t r' h
      | pending c =>
          rw [hl] at h
          refine Cycle.always_map.mpr ?_
          cases c with
          | read address next => exact fun _ => hleft _ hready h
          | write address value next => exact hleft _ hready h

/-- A cycle ends the sequence or brings its end nearer. -/
theorem nearer_cycle {s : Sequence} (hj : s ≠ .jam) (hu : s ≠ .unsupported) (p : Progress)
    (r : Registers) : (s.cycle p r).Always (s.Nearer p) := by
  have hlocating : ∀ (mode : Mode) (t : Target), p.target.ready = false → p.cycle ≤ mode.cycles →
      locatingLeft mode ({ p with target := t } : Progress).tick < locatingLeft mode p := by
    intro mode t hready hcycle
    have hle := locatingLeft_le mode ({ p with target := t } : Progress).tick
    have htick : ({ p with target := t } : Progress).tick.cycle = min (p.cycle + 1) 0xFF := rfl
    have hcycles := mode.cycles_le
    rw [locatingLeft_of_not_ready hready]
    omega
  cases s with
  | data mode op => exact nearer_atTarget (hlocating mode) fun t r h _ => trivial
  | store mode op => exact nearer_atTarget (hlocating mode) fun t r h => trivial
  | modify mode op =>
      refine nearer_atTarget (fun t hready hcycle => ?_) fun t r h => ?_
      · exact Nat.add_lt_add_right (hlocating mode t hready hcycle) _
      · unfold readModifyWrite
        split
        · next h0 =>
            intro _
            simp_all [Nearer, left, locatingLeft, Progress.tick, Progress.keep]
        · next h1 => simp_all [Nearer, left, locatingLeft, Progress.tick, Progress.keep]
        · trivial
  | jam => exact absurd rfl hj
  | unsupported => exact absurd rfl hu
  | accumulator | register => exact fun _ => trivial
  | branch condition =>
      simp only [cycle, branchOn]
      split
      · next h => exact fun _ => by simp [Nearer, left, Progress.tick, Progress.keep, h]
      · next h =>
          intro _
          split
          · simp [Nearer, left, Progress.tick, Progress.setAddress, h]
          · trivial
      · next h =>
          intro _
          split
          · trivial
          · simp [Nearer, left, Progress.tick, h]
      · exact fun _ => trivial
  | _ =>
      simp only [cycle, forceBreak, interrupt, start, call, returnFromCall, returnFromInterrupt, jump,
        jumpIndirect, pushByte, pullByte]
      split <;> simp_all [push, vectorLow, vectorHigh, Nearer, left, Progress.tick, Progress.keep,
        Progress.setAddress]

end Sequence

/-! ## The ticks of a step -/

namespace Board

variable {β : Type u} [Bus β]

/-- A step from here takes so many ticks and one more, which is the first to end it. -/
structure Lasts (b : Board β) (n : Nat) : Prop where
  ends : (b.ticked n).turn.ends = true
  goes_on : ∀ k < n, (b.ticked k).turn.ends = false

theorem Lasts.zero {b : Board β} (h : b.turn.ends = true) : b.Lasts 0 :=
  ⟨h, fun k hk => absurd hk (Nat.not_lt_zero k)⟩

theorem Lasts.succ {b : Board β} {n : Nat} (h : b.turn.ends = false) (hn : (b.act .tick).Lasts n) :
    b.Lasts (n + 1) where
  ends := hn.ends
  goes_on
    | 0, _ => h
    | k + 1, hk => hn.goes_on k (Nat.lt_of_succ_lt_succ hk)

theorem Lasts.of_succ {b : Board β} {n : Nat} (h : b.Lasts (n + 1)) :
    b.turn.ends = false ∧ (b.act .tick).Lasts n :=
  ⟨h.goes_on 0 (Nat.succ_pos n), h.ends, fun k hk => h.goes_on (k + 1) (Nat.succ_lt_succ hk)⟩

/-- A step is the ticks up to the first that ends it, and comes to what that one comes to. -/
theorem stepWithin_of_lasts {n limit : Nat} {b : Board β} (h : b.Lasts n) (hn : n < limit) :
    b.ticksWithin limit = n + 1 ∧
      (b.processor.stepWithin limit b.bus).1.outcome = (b.ticked n).turn.outcome := by
  induction n generalizing b limit with
  | zero =>
      obtain ⟨limit, rfl⟩ := Nat.exists_eq_succ_of_ne_zero (Nat.ne_of_gt hn)
      have hends : b.turn.ends = true := h.ends
      exact ⟨if_pos hends, by rw [Processor.stepWithin_of_ends hends]; rfl⟩
  | succ n ih =>
      obtain ⟨limit, rfl⟩ := Nat.exists_eq_succ_of_ne_zero (Nat.ne_of_gt (Nat.zero_lt_of_lt hn))
      obtain ⟨hgoes, hrest⟩ := h.of_succ
      obtain ⟨hticks, houtcome⟩ := ih hrest (Nat.lt_of_succ_lt_succ hn)
      refine ⟨?_, ?_⟩
      · rw [ticksWithin, if_neg (Bool.eq_false_iff.mp hgoes), hticks]
      · rw [Processor.stepWithin_of_not_ends hgoes]
        exact houtcome

theorem step_of_lasts {n : Nat} {b : Board β} (h : b.Lasts n) (hn : n < Processor.longest) :
    b.call .step = b.ticked (n + 1) ∧ b.actsOf .step = List.replicate (n + 1) .tick ∧
      b.reply .step = .outcome (b.ticked n).turn.outcome := by
  obtain ⟨hticks, houtcome⟩ := stepWithin_of_lasts h hn
  refine ⟨?_, ?_, congrArg Reply.outcome houtcome⟩
  · rw [call_eq_after, actsOf, hticks]
    rfl
  · rw [actsOf, hticks]

/-- A tick ends the step, or leaves the same instruction in flight and nearer to its end. -/
theorem tick_nearer {b : Board β} {i : Instruction} (hs : i.sequence ≠ .unsupported)
    (hr : b.processor.refusal = none) (hi : b.processor.inFlight = some i) :
    b.turn.ends = true ∨
      b.turn.ends = false ∧ (b.act .tick).processor.refusal = none ∧
        ∃ q, (b.act .tick).processor.inFlight = some { i with progress := q } ∧
          i.sequence.left q < i.sequence.left i.progress := by
  by_cases hj : i.sequence = .jam
  · refine .inl ?_
    rw [turn, Processor.tick_of_jam hr hi hj]
    exact beq_of_eq hj
  · have hnear := (Sequence.nearer_cycle hj hs i.progress b.processor.regs).run b.bus
    rw [act, turn, Processor.tick_of_inFlight hr hi b.bus]
    cases hstage : ((i.sequence.cycle i.progress b.processor.regs).run b.bus).1 with
    | more q r =>
        rw [hstage] at hnear
        exact .inr ⟨beq_false_of_ne hj, hr, q.tick, rfl, hnear⟩
    | done q r => exact .inl (Processor.ends_complete _ _)
    | prefetched q r opcode =>
        rw [Processor.settle_prefetched]
        exact .inl (Processor.ends_complete _ _)

/-- An instruction in flight ends the step by its last cycle. -/
theorem exists_lasts_of_inFlight {limit : Nat} {b : Board β} {i : Instruction}
    (hs : i.sequence ≠ .unsupported) (hr : b.processor.refusal = none)
    (hi : b.processor.inFlight = some i) (hleft : i.sequence.left i.progress ≤ limit) :
    ∃ n ≤ limit, b.Lasts n := by
  -- The induction is on the bound, which each tick that does not end the step lowers.
  induction limit generalizing b i with
  | zero =>
      rcases tick_nearer hs hr hi with hends | ⟨-, -, q, -, hlt⟩
      · exact ⟨0, Nat.le_refl 0, .zero hends⟩
      · omega
  | succ limit ih =>
      rcases tick_nearer hs hr hi with hends | ⟨hgoes, hr', q, hi', hlt⟩
      · exact ⟨0, Nat.zero_le _, .zero hends⟩
      · obtain ⟨n, hn, hlasts⟩ := ih (i := { i with progress := q }) hs hr' hi'
          (Nat.le_of_lt_succ (Nat.lt_of_lt_of_le hlt hleft))
        exact ⟨n + 1, Nat.succ_le_succ hn, .succ hgoes hlasts⟩

/-- A tick that does not end a step leaves an instruction in flight and nothing to report. -/
theorem inFlight_of_not_ends {b : Board β} (h : b.turn.ends = false) :
    (b.act .tick).processor.refusal = none ∧ ∃ i, (b.act .tick).processor.inFlight = some i := by
  have ht := b.processor.ticks b.bus
  rw [act, turn]
  rw [turn] at h
  generalize b.processor.tick b.bus = t at ht h ⊢
  cases ht with
  | reported => cases h
  | @entered source hr => exact ⟨by cases source <;> exact hr, _, rfl⟩
  | @fetched opcode bus' hr =>
      obtain ⟨events, hf | hf⟩ := b.processor.counted.fetched_cases opcode
      · rw [hf] at h
        cases h
      · rw [hf]
        exact ⟨hr, _, rfl⟩
  | advanced hr => exact ⟨hr, _, rfl⟩
  | ended | branched =>
      rw [Processor.ends_complete] at h
      cases h

/-- **A step comes to an end**, and never because its limit of ticks is used up. -/
theorem exists_lasts {b : Board β} (h : b.processor.Coherent) (hs : b.processor.Issues) :
    ∃ n < Processor.longest, b.Lasts n := by
  cases hends : b.turn.ends with
  | true => exact ⟨0, Nat.succ_pos 7, .zero hends⟩
  | false =>
      obtain ⟨hr, i, hi⟩ := inFlight_of_not_ends hends
      have hstarted := (coherent_act b .tick h).started i hi
      obtain ⟨n, hn, hlasts⟩ := exists_lasts_of_inFlight
        (issues_act b .tick hs i hi).ne_unsupported hr hi (i.sequence.left_le hstarted)
      exact ⟨n + 1, Nat.succ_lt_succ (Nat.lt_succ_of_le hn), .succ hends hlasts⟩

end Board

end Mos6502
