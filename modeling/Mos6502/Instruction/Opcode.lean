import Mos6502.Instruction.Sequence

/-!
# The opcode matrix

The sequence of every opcode: the documented instructions, the undocumented ones that always behave
the same, the opcodes that lock the processor up, and those that are not executed because what they
do depends on the chip at hand.
-/

namespace Mos6502.Opcode

abbrev imm : Mode := .immediate

abbrev zp : Mode := .zeroPage

abbrev zpx : Mode := .zeroPageIndexed .x

abbrev zpy : Mode := .zeroPageIndexed .y

abbrev abs : Mode := .absolute

abbrev absx : Mode := .absoluteIndexed .x

abbrev absy : Mode := .absoluteIndexed .y

abbrev izx : Mode := .indexedIndirect

abbrev izy : Mode := .indirectIndexed

/-- The row of a high digit, with a column for each low digit. -/
def row : Nat → Vector Sequence 16
  | 0x0 => #v[
      .brk, .data izx .ora, .jam, .modify izx .slo, .data zp .nop, .data zp .ora, .modify zp .asl,
      .modify zp .slo, .php, .data imm .ora, .accumulator .asl, .data imm .anc, .data abs .nop,
      .data abs .ora, .modify abs .asl, .modify abs .slo]
  | 0x1 => #v[
      .branch ⟨.negative, false⟩, .data izy .ora, .jam, .modify izy .slo, .data zpx .nop,
      .data zpx .ora, .modify zpx .asl, .modify zpx .slo, .register (.setFlag .carry false),
      .data absy .ora, .register .nop, .modify absy .slo, .data absx .nop, .data absx .ora,
      .modify absx .asl, .modify absx .slo]
  | 0x2 => #v[
      .jsr, .data izx .and, .jam, .modify izx .rla, .data zp .bit, .data zp .and, .modify zp .rol,
      .modify zp .rla, .plp, .data imm .and, .accumulator .rol, .data imm .anc, .data abs .bit,
      .data abs .and, .modify abs .rol, .modify abs .rla]
  | 0x3 => #v[
      .branch ⟨.negative, true⟩, .data izy .and, .jam, .modify izy .rla, .data zpx .nop,
      .data zpx .and, .modify zpx .rol, .modify zpx .rla, .register (.setFlag .carry true),
      .data absy .and, .register .nop, .modify absy .rla, .data absx .nop, .data absx .and,
      .modify absx .rol, .modify absx .rla]
  | 0x4 => #v[
      .rti, .data izx .eor, .jam, .modify izx .sre, .data zp .nop, .data zp .eor, .modify zp .lsr,
      .modify zp .sre, .pha, .data imm .eor, .accumulator .lsr, .data imm .alr, .jmp,
      .data abs .eor, .modify abs .lsr, .modify abs .sre]
  | 0x5 => #v[
      .branch ⟨.overflow, false⟩, .data izy .eor, .jam, .modify izy .sre, .data zpx .nop,
      .data zpx .eor, .modify zpx .lsr, .modify zpx .sre,
      .register (.setFlag .interruptDisable false), .data absy .eor, .register .nop,
      .modify absy .sre, .data absx .nop, .data absx .eor, .modify absx .lsr, .modify absx .sre]
  | 0x6 => #v[
      .rts, .data izx .adc, .jam, .modify izx .rra, .data zp .nop, .data zp .adc, .modify zp .ror,
      .modify zp .rra, .pla, .data imm .adc, .accumulator .ror, .data imm .arr, .jmpIndirect,
      .data abs .adc, .modify abs .ror, .modify abs .rra]
  | 0x7 => #v[
      .branch ⟨.overflow, true⟩, .data izy .adc, .jam, .modify izy .rra, .data zpx .nop,
      .data zpx .adc, .modify zpx .ror, .modify zpx .rra,
      .register (.setFlag .interruptDisable true), .data absy .adc, .register .nop,
      .modify absy .rra, .data absx .nop, .data absx .adc, .modify absx .ror, .modify absx .rra]
  | 0x8 => #v[
      .data imm .nop, .store izx .sta, .data imm .nop, .store izx .sax, .store zp .sty,
      .store zp .sta, .store zp .stx, .store zp .sax, .register .dey, .data imm .nop,
      .register .txa, .unsupported, .store abs .sty, .store abs .sta, .store abs .stx,
      .store abs .sax]
  | 0x9 => #v[
      .branch ⟨.carry, false⟩, .store izy .sta, .jam, .unsupported, .store zpx .sty,
      .store zpx .sta, .store zpy .stx, .store zpy .sax, .register .tya, .store absy .sta,
      .register .txs, .unsupported, .unsupported, .store absx .sta, .unsupported, .unsupported]
  | 0xA => #v[
      .data imm .ldy, .data izx .lda, .data imm .ldx, .data izx .lax, .data zp .ldy,
      .data zp .lda, .data zp .ldx, .data zp .lax, .register .tay, .data imm .lda, .register .tax,
      .unsupported, .data abs .ldy, .data abs .lda, .data abs .ldx, .data abs .lax]
  | 0xB => #v[
      .branch ⟨.carry, true⟩, .data izy .lda, .jam, .data izy .lax, .data zpx .ldy,
      .data zpx .lda, .data zpy .ldx, .data zpy .lax, .register (.setFlag .overflow false),
      .data absy .lda, .register .tsx, .data absy .las, .data absx .ldy, .data absx .lda,
      .data absy .ldx, .data absy .lax]
  | 0xC => #v[
      .data imm .cpy, .data izx .cmp, .data imm .nop, .modify izx .dcp, .data zp .cpy,
      .data zp .cmp, .modify zp .dec, .modify zp .dcp, .register .iny, .data imm .cmp,
      .register .dex, .data imm .sbx, .data abs .cpy, .data abs .cmp, .modify abs .dec,
      .modify abs .dcp]
  | 0xD => #v[
      .branch ⟨.zero, false⟩, .data izy .cmp, .jam, .modify izy .dcp, .data zpx .nop,
      .data zpx .cmp, .modify zpx .dec, .modify zpx .dcp, .register (.setFlag .decimal false),
      .data absy .cmp, .register .nop, .modify absy .dcp, .data absx .nop, .data absx .cmp,
      .modify absx .dec, .modify absx .dcp]
  | 0xE => #v[
      .data imm .cpx, .data izx .sbc, .data imm .nop, .modify izx .isc, .data zp .cpx,
      .data zp .sbc, .modify zp .inc, .modify zp .isc, .register .inx, .data imm .sbc,
      .register .nop, .data imm .sbc, .data abs .cpx, .data abs .sbc, .modify abs .inc,
      .modify abs .isc]
  | _ => #v[
      .branch ⟨.zero, true⟩, .data izy .sbc, .jam, .modify izy .isc, .data zpx .nop,
      .data zpx .sbc, .modify zpx .inc, .modify zpx .isc, .register (.setFlag .decimal true),
      .data absy .sbc, .register .nop, .modify absy .isc, .data absx .nop, .data absx .sbc,
      .modify absx .inc, .modify absx .isc]

def sequence (opcode : Byte) : Sequence :=
  have h : opcode.toNat % 16 < 16 := Nat.mod_lt _ (by decide)
  (row (opcode.toNat / 16))[opcode.toNat % 16]

end Mos6502.Opcode
