import Mos6502.Main
import Mos6502.Proofs.Script
import Mos6502.Proofs.Clock
import Mos6502.Proofs.Accesses
import Mos6502.Proofs.Prefetch
import Mos6502.Proofs.Refinement
import Mos6502.Proofs.Requests
import Mos6502.Proofs.Duration
import Mos6502.Proofs.Refusals
import Mos6502.Proofs.RunModes
import Mos6502.Proofs.Course
import Mos6502.Proofs.InstructionSet
import Mos6502.Proofs.InstructionSet.Arithmetic
import Mos6502.Proofs.Timing
import Mos6502.Proofs.Decimal
import Mos6502.Proofs.InFlight
import Mos6502.Proofs.LockUp
import Mos6502.Proofs.StackBits
import Mos6502.Proofs.Jump
import Mos6502.Proofs.Traffic
import Mos6502.Proofs.Traffic.Operand
import Mos6502.Proofs.Traffic.Branch
import Mos6502.Proofs.Traffic.Control
import Mos6502.Proofs.Outcome
import Mos6502.Proofs.Reset
import Mos6502.Proofs.Leads
import Mos6502.Proofs.Stack
import Mos6502.Proofs.Subroutine
import Mos6502.Proofs.Interruption
import Mos6502.Proofs.LongArithmetic
import Mos6502.Proofs.LongShift
import Mos6502.Proofs.Summary
import Mos6502.Proofs.Fusion
import Mos6502.Proofs.DelayLoop
import Mos6502.Proofs.WrittenAddress
import Mos6502.Proofs.Loading
