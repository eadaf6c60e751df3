import Mos6502.Proofs.Leads
import Mos6502.Proofs.Traffic.Branch

/-!
# Delay loops

A loop that counts the X register down to zero passes the time, and how much of it can be told
exactly.  The branch at its end fetches the decrement at its beginning, so each round but the first
finds that opcode in flight, and spends a cycle less on it than it would by itself
(`leads_of_round`).  Where the branch leaves a page, each round takes one cycle more.
-/

namespace Mos6502

theorem Bus.Serves.of_read {m m' : Memory} {a : Word} {v : Byte} {l : List Access}
    (h : Bus.Serves m (.read a v :: l) m') : Bus.Serves m l m' := by
  cases h with
  | read h => exact h

/-- On flat memory accesses without a write read what is there, and leave it there. -/
theorem Memory.of_serves {m m' : Memory} {l : List Access} (h : Bus.Serves m l m')
    (hl : ∀ a v, Access.write a v ∉ l) :
    m' = m ∧ ∀ a v, Access.read a v ∈ l → v = m.read a := by
  induction h with
  | nil => exact ⟨rfl, fun a v hv => absurd hv List.not_mem_nil⟩
  | @read m m' a l h ih =>
      obtain ⟨hm, hreads⟩ := ih fun a v hv => hl a v (List.mem_cons_of_mem _ hv)
      refine ⟨hm, fun a' v' hv' => ?_⟩
      rcases List.mem_cons.mp hv' with heq | hv'
      · cases heq
        rfl
      · exact hreads a' v' hv'
  | write => exact absurd List.mem_cons_self (hl _ _)

/-- `LDX #k`, `DEX`, a branch back to it while it has not come to zero, and a `NOP`. -/
structure Memory.DelayLoop (m : Memory) (o : Word) (k : Byte) : Prop where
  load : m.read o = 0xA2
  counter : m.read (o + 1) = k
  decrement : m.read (o + 2) = 0xCA
  branch : m.read (o + 3) = 0xD0
  offset : m.read (o + 4) = 0xFD
  exit : m.read (o + 5) = 0xEA

namespace Board

variable {b : Board Memory} {opcode : Byte}

/-! ## Branches -/

/-- On flat memory the reads of a branch tell where it has led. -/
theorem eq_of_branchReads {m m' : Memory} {r : Registers} {taken : Bool} {l : List Access}
    {last : Word} {next : Byte} (hl : BranchReads r taken l last next) (hm : Bus.Serves m l m') :
    let target := branchTarget r.pc (m.read (r.pc + 1))
    m' = m ∧ last = (if taken then target else r.pc + 2) ∧ next = m.read last ∧
      l.length = if taken then if target.high = (r.pc + 2).high then 3 else 4 else 2 := by
  intro target
  have hnot : ∀ a v, Access.write a v ∉ l := by cases hl <;> simp
  obtain ⟨hsame, hreads⟩ := Memory.of_serves hm hnot
  refine ⟨hsame, ?_⟩
  cases hl with
  | untaken d next => exact ⟨rfl, hreads _ _ (by simp), rfl⟩
  | taken d v next hpage =>
      obtain rfl : d = m.read (r.pc + 1) := hreads _ _ (by simp)
      rw [if_pos rfl, if_pos rfl, if_pos hpage]
      exact ⟨rfl, hreads _ _ (by simp), rfl⟩
  | takenAcross d v w next hpage =>
      obtain rfl : d = m.read (r.pc + 1) := hreads _ _ (by simp)
      rw [if_pos rfl, if_pos rfl, if_neg hpage]
      exact ⟨rfl, hreads _ _ (by simp), rfl⟩

/-- A branch leads to its target or behind itself, with the opcode there in flight if it is one that
is executed. -/
theorem leads_of_branch {c : Condition} {last : Word} {next : Byte} {reads : Nat}
    (h : b.Fetches opcode) (hs : Opcode.sequence opcode = .branch c)
    (hlast : (if c.holds b.processor.regs.p then
      branchTarget b.processor.regs.pc (b.bus.read (b.processor.regs.pc + 1))
      else b.processor.regs.pc + 2) = last)
    (hreads : (if c.holds b.processor.regs.p then
      if last.high = (b.processor.regs.pc + 2).high then 3 else 4 else 2) = reads)
    (hnext : b.bus.read last = next) (hu : Opcode.sequence next ≠ .unsupported) :
    b.Leads 1
      ⟨{ b.processor with
          regs.pc := last + 1
          opcode := next
          inFlight := some (.decode next)
          cycles := b.processor.cyclesAfter (reads + 1) }, b.bus⟩ := by
  obtain ⟨hb, hd, rfl⟩ := h
  have hends := Sequence.ends_branch c b.processor.regs
  rw [← hs] at hends
  obtain ⟨l, e, ⟨a, v, hl, rfl⟩, hp⟩ := performs_of_fetch hb hd hends
  let fetched : Processor := { b.processor with opcode := b.upcoming }
  rw [Processor.finish_of_idle_ahead (p := fetched) hb.inFlight] at hp
  obtain ⟨hsame, ha, hv, hlength⟩ := eq_of_branchReads hl hp.served.of_read
  obtain rfl : a = last := ha.trans hlast
  obtain rfl : v = next := hv.trans hnext
  have hcount : l.length = reads := by
    rw [hlength, ← hreads, ha]
    split <;> rfl
  have hprocessor := hp.processor
  rw [Processor.withAhead, if_neg hu, hcount] at hprocessor
  exact .one (Board.ext hprocessor hsame) hp.completes

/-! ## The loop -/

/-- The board in the loop, which begins at the program counter of this board: the program counter is
behind the decrement, and this is in flight. -/
def counting (b : Board Memory) (inFlight : Option Instruction) (x : Byte) (cycles : Nat) :
    Board Memory :=
  ⟨{ b.processor with
      regs := { b.processor.regs with pc := b.processor.regs.pc + 3 }.setX x
      opcode := 0xCA
      inFlight
      cycles := b.processor.cyclesAfter cycles }, b.bus⟩

/-- The board behind the loop, with the opcode there fetched ahead. -/
def countedDown (b : Board Memory) (cycles : Nat) : Board Memory :=
  ⟨{ b.processor with
      regs := { b.processor.regs with pc := b.processor.regs.pc + 6 }.setX 0
      opcode := 0xEA
      inFlight := some (.decode 0xEA)
      cycles := b.processor.cyclesAfter cycles }, b.bus⟩

/-- What a round takes longer where the branch leaves its page. -/
def crossing (b : Board Memory) : Nat :=
  if (b.processor.regs.pc + 2).high = (b.processor.regs.pc + 5).high then 0 else 1

theorem cyclesAfter_counting (inFlight : Option Instruction) (x : Byte) (m n : Nat) :
    (b.counting inFlight x m).processor.cyclesAfter n = b.processor.cyclesAfter (m + n) :=
  b.processor.cyclesAfter_add m n

theorem counting_none (hb : b.processor.Idle) (x : Byte) (n : Nat) :
    b.counting none x n =
      ⟨b.processor.behind 0xCA n
        ({ b.processor.regs with pc := b.processor.regs.pc + 3 }.setX x), b.bus⟩ := by
  rw [counting, ← hb.inFlight]
  rfl

/-- A decrement in flight takes one cycle. -/
theorem leads_of_decrement (hb : b.processor.Idle) (x : Byte) (n : Nat) :
    (b.counting (some (.decode 0xCA)) x n).Leads 1 (b.counting none (x - 1) (n + 1)) := by
  let board : Board Memory := b.counting (some (.decode 0xCA)) x n
  have hleads : board.Leads 1
      ⟨{ board.processor with
          regs := { b.processor.regs with pc := b.processor.regs.pc + 3 }.setX (x - 1)
          inFlight := none
          cycles := board.processor.cyclesAfter 1 }, b.bus⟩ :=
    leads_of_decoded (b := board) hb.refusal rfl rfl
  rw [cyclesAfter_counting] at hleads
  exact hleads

section Loop

variable {k : Byte} (hb : b.processor.Idle) (hd : b.processor.dueInterrupt = none)
  (hloop : b.bus.DelayLoop b.processor.regs.pc k)

include hb hd hloop

/-- The counter is loaded, and counted down for the first time. -/
theorem leads_of_enter : b.Leads 2 (b.counting none (k - 1) 4) := by
  let r : Registers := b.processor.regs
  let loaded : Board Memory :=
    ⟨b.processor.behind 0xA2 2 ({ r with pc := r.pc + 2 }.setX k), b.bus⟩
  have hload : b.Leads 1 loaded := by
    refine leads_of_fetch ⟨hb, hd, hloop.load⟩ ?_
    show (some (Ending.mk (r.advancePc.advancePc.setX (b.bus.read (r.pc + 1))) none), b.bus) = _
    rw [hloop.counter, r.advancePc_advancePc]
  have hpc : r.pc + 2 + 1 = r.pc + 3 := BitVec.add_assoc r.pc 2 1
  have hdecrement : loaded.Leads 1
      ⟨loaded.processor.behind 0xCA 2 ({ r with pc := r.pc + 2 + 1 }.setX (k - 1)), b.bus⟩ :=
    leads_of_fetch ⟨hb.behind, hd, hloop.decrement⟩ rfl
  rw [hpc, Processor.behind_behind] at hdecrement
  rw [counting_none hb]
  exact hload.trans hdecrement

/-- The branch leads back to the decrement. -/
theorem leads_of_taken {x : Byte} (hx : x ≠ 0) (n : Nat) :
    (b.counting none x n).Leads 1
      (b.counting (some (.decode 0xCA)) x (n + (4 + b.crossing))) := by
  let o : Word := b.processor.regs.pc
  let board : Board Memory := b.counting none x n
  have hpc : o + 2 + 1 = o + 3 := BitVec.add_assoc o 2 1
  have hoffset : o + 3 + 1 = o + 4 := BitVec.add_assoc o 3 1
  have hbehind : o + 3 + 2 = o + 5 := BitVec.add_assoc o 3 2
  have htaken : Condition.holds ⟨.zero, false⟩ board.processor.regs.p = true := by
    show ((x == 0) == false) = true
    rw [beq_false_of_ne hx]
    rfl
  have htarget : branchTarget (o + 3) (b.bus.read (o + 3 + 1)) = o + 2 := by
    rw [hoffset, hloop.offset, branchTarget_eq, BitVec.add_assoc, BitVec.add_assoc]
    rfl
  have hreads : (if (o + 2).high = (o + 3 + 2).high then 3 else 4) = 3 + b.crossing := by
    rw [hbehind, crossing]
    split <;> rfl
  have hleads := leads_of_branch (b := board) ⟨⟨hb.refusal, rfl⟩, hd, hloop.branch⟩
    rfl ((if_pos htaken).trans htarget) ((if_pos htaken).trans hreads) hloop.decrement (by decide)
  rw [hpc, cyclesAfter_counting, Nat.add_right_comm 3] at hleads
  exact hleads

/-- At zero it does not, and fetches the opcode behind itself. -/
theorem leads_of_untaken (n : Nat) : (b.counting none 0 n).Leads 1 (b.countedDown (n + 3)) := by
  let o : Word := b.processor.regs.pc
  let board : Board Memory := b.counting none 0 n
  have hpc : o + 5 + 1 = o + 6 := BitVec.add_assoc o 5 1
  have hbehind : o + 3 + 2 = o + 5 := BitVec.add_assoc o 3 2
  have huntaken : ¬ Condition.holds ⟨.zero, false⟩ board.processor.regs.p = true :=
    Bool.false_ne_true
  have hleads := leads_of_branch (b := board) ⟨⟨hb.refusal, rfl⟩, hd, hloop.branch⟩
    rfl ((if_neg huntaken).trans hbehind) (if_neg huntaken) hloop.exit (by decide)
  rw [hpc, cyclesAfter_counting] at hleads
  exact hleads

/-- A round takes two steps, and five cycles or six. -/
theorem leads_of_round {x : Byte} (hx : x ≠ 0) (n : Nat) :
    (b.counting none x n).Leads 2 (b.counting none (x - 1) (n + (5 + b.crossing))) := by
  have hround := (leads_of_taken hb hd hloop hx n).trans
    (leads_of_decrement hb x (n + (4 + b.crossing)))
  have hcycles : n + (4 + b.crossing) + 1 = n + (5 + b.crossing) := by omega
  rwa [hcycles] at hround

/-- The rest of the loop. -/
theorem leads_of_counting (x : Byte) (n : Nat) :
    (b.counting none x n).Leads (2 * x.toNat + 1)
      (b.countedDown (n + x.toNat * (5 + b.crossing) + 3)) := by
  -- The induction is on the rounds that are left; the cycles spent so far go along.
  generalize hj : x.toNat = j
  induction j generalizing x n with
  | zero =>
      obtain rfl : x = 0 := BitVec.eq_of_toNat_eq hj
      simpa using leads_of_untaken hb hd hloop n
  | succ j ih =>
      have hx : x ≠ 0 := by
        rintro rfl
        cases hj
      have hpred : (x - 1).toNat = j := by
        rw [InstructionSet.toNat_dec]
        omega
      have hrest := ih (x - 1) (n + (5 + b.crossing)) hpred
      have hsteps : 2 * (j + 1) + 1 = 2 + (2 * j + 1) := by omega
      have hcycles : n + (5 + b.crossing) + j * (5 + b.crossing) =
          n + (j + 1) * (5 + b.crossing) := by
        rw [Nat.succ_mul, Nat.add_assoc, Nat.add_comm (5 + b.crossing)]
      rw [hcycles] at hrest
      rw [hsteps]
      exact (leads_of_round hb hd hloop hx n).trans hrest

end Loop

/-- The loop makes as many rounds as its counter says to begin with, or 256 if that is zero. -/
theorem toNat_counter (k : Byte) : (k - 1).toNat + 1 = if k = 0 then 256 else k.toNat := by
  have hk := k.isLt
  rw [InstructionSet.toNat_dec]
  split
  · next hzero =>
      rw [hzero]
      rfl
  · next hnot =>
      have hpos : k.toNat ≠ 0 := fun he => hnot (BitVec.eq_of_toNat_eq he)
      omega

/-- **A delay loop takes its exact time.**  Where nothing is in flight or due, a loop that begins
with so many in its counter, or 256 if that is zero, completes one step for its first instruction
and two for each round, wherever it stands.  Each round but the first takes five cycles, and one
more if the branch leads to another page.  The counter is zero then, with the flags that follow it,
and the instruction behind the loop is in flight on its first cycle; nothing else has changed. -/
theorem delay_loop_exact {k : Byte} (hb : b.processor.Idle) (hd : b.processor.dueInterrupt = none)
    (hloop : b.bus.DelayLoop b.processor.regs.pc k) :
    let r := b.processor.regs
    let m := if k = 0 then 256 else k.toNat
    let e := if (r.pc + 2).high ≠ (r.pc + 5).high then 1 else 0
    let nop : Instruction := .decode 0xEA
    nop.sequence = .register .nop ∧ nop.cycle = 1 ∧
      b.Leads (2 * m + 1)
        ⟨{ b.processor with
            regs :=
              { r with x := 0, p := { r.p with zero := true, negative := false }, pc := r.pc + 6 }
            opcode := 0xEA
            inFlight := some nop
            cycles := b.processor.cyclesAfter (7 + (m - 1) * (5 + e)) }, b.bus⟩ := by
  intro r m e nop
  have hm : (k - 1).toNat + 1 = m := toNat_counter k
  have hrounds : (k - 1).toNat = m - 1 := Nat.eq_sub_of_add_eq hm
  have he : b.crossing = e := (ite_not ..).symm
  have hleads := (leads_of_enter hb hd hloop).trans (leads_of_counting hb hd hloop (k - 1) 4)
  -- The first round is the one that is entered, so one fewer is left.
  have hsteps : 2 + (2 * (m - 1) + 1) = 2 * m + 1 := by omega
  have hcycles : 4 + (m - 1) * (5 + e) + 3 = 7 + (m - 1) * (5 + e) := by omega
  rw [hrounds, he, hsteps, hcycles] at hleads
  exact ⟨rfl, rfl, hleads⟩

/-- A loop of two rounds, with a page ending in front of its last byte. -/
def delayAcrossPage : Board Memory :=
  fresh { pc := 0x00FB } (Memory.zeros.put 0x00FB [0xA2, 0x02, 0xCA, 0xD0, 0xFD, 0xEA])

theorem delay_loop_exact_delayAcrossPage :
    (delayAcrossPage.processor.Idle ∧ delayAcrossPage.processor.dueInterrupt = none ∧
      delayAcrossPage.bus.DelayLoop 0x00FB 0x02) ∧
      delayAcrossPage.Leads 5
        ⟨{ delayAcrossPage.processor with
            regs := { pc := 0x0101, p := { interruptDisable := true, zero := true } }
            opcode := 0xEA
            inFlight := some (.decode 0xEA)
            cycles := 13 }, delayAcrossPage.bus⟩ := by
  have hb : delayAcrossPage.processor.Idle := ⟨rfl, rfl⟩
  have hloop : delayAcrossPage.bus.DelayLoop 0x00FB 0x02 := by
    constructor <;> decide +kernel
  exact ⟨⟨hb, rfl, hloop⟩, (delay_loop_exact hb rfl hloop).2.2⟩

end Board

end Mos6502
