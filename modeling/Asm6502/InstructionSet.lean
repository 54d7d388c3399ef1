import Asm6502.Text.Blank

/-!
The documented instruction set of the 6502: thirteen addressing modes, fifty-six mnemonics, and one
opcode for every mode that a mnemonic supports.
-/

namespace Asm6502

/-! ## Addressing modes -/

inductive Mode where
  | implied
  | accumulator
  | immediate
  | zeroPage
  | zeroPageX
  | zeroPageY
  | absolute
  | absoluteX
  | absoluteY
  | indirect
  | indirectX
  | indirectY
  | relative
  deriving DecidableEq, Repr

namespace Mode

def all : List Mode :=
  [implied, accumulator, immediate, zeroPage, zeroPageX, zeroPageY, absolute, absoluteX, absoluteY,
   indirect, indirectX, indirectY, relative]

def name : Mode → Text
  | implied => "Implied".toList
  | accumulator => "Accumulator".toList
  | immediate => "Immediate".toList
  | zeroPage => "ZeroPage".toList
  | zeroPageX => "ZeroPageX".toList
  | zeroPageY => "ZeroPageY".toList
  | absolute => "Absolute".toList
  | absoluteX => "AbsoluteX".toList
  | absoluteY => "AbsoluteY".toList
  | indirect => "Indirect".toList
  | indirectX => "IndirectX".toList
  | indirectY => "IndirectY".toList
  | relative => "Relative".toList

def ofName? (t : Text) : Option Mode :=
  all.find? fun m => m.name = t

theorem ofName?_name (m : Mode) : ofName? m.name = some m := by
  cases m <;> decide

/-- The bytes that follow the opcode. -/
def operandSize : Mode → Nat
  | implied | accumulator => 0
  | absolute | absoluteX | absoluteY | indirect => 2
  | immediate | zeroPage | zeroPageX | zeroPageY | indirectX | indirectY | relative => 1

end Mode

/-! ## Mnemonics -/

inductive Mnemonic where
  | adc | and | asl | bcc | bcs | beq | bit | bmi
  | bne | bpl | brk | bvc | bvs | clc | cld | cli
  | clv | cmp | cpx | cpy | dec | dex | dey | eor
  | inc | inx | iny | jmp | jsr | lda | ldx | ldy
  | lsr | nop | ora | pha | php | pla | plp | rol
  | ror | rti | rts | sbc | sec | sed | sei | sta
  | stx | sty | tax | tay | tsx | txa | txs | tya
  deriving DecidableEq, Repr

namespace Mnemonic

def all : List Mnemonic :=
  [adc, and, asl, bcc, bcs, beq, bit, bmi, bne, bpl, brk, bvc, bvs, clc, cld, cli, clv, cmp, cpx,
   cpy, dec, dex, dey, eor, inc, inx, iny, jmp, jsr, lda, ldx, ldy, lsr, nop, ora, pha, php, pla,
   plp, rol, ror, rti, rts, sbc, sec, sed, sei, sta, stx, sty, tax, tay, tsx, txa, txs, tya]

def name : Mnemonic → Text
  | adc => "ADC".toList
  | and => "AND".toList
  | asl => "ASL".toList
  | bcc => "BCC".toList
  | bcs => "BCS".toList
  | beq => "BEQ".toList
  | bit => "BIT".toList
  | bmi => "BMI".toList
  | bne => "BNE".toList
  | bpl => "BPL".toList
  | brk => "BRK".toList
  | bvc => "BVC".toList
  | bvs => "BVS".toList
  | clc => "CLC".toList
  | cld => "CLD".toList
  | cli => "CLI".toList
  | clv => "CLV".toList
  | cmp => "CMP".toList
  | cpx => "CPX".toList
  | cpy => "CPY".toList
  | dec => "DEC".toList
  | dex => "DEX".toList
  | dey => "DEY".toList
  | eor => "EOR".toList
  | inc => "INC".toList
  | inx => "INX".toList
  | iny => "INY".toList
  | jmp => "JMP".toList
  | jsr => "JSR".toList
  | lda => "LDA".toList
  | ldx => "LDX".toList
  | ldy => "LDY".toList
  | lsr => "LSR".toList
  | nop => "NOP".toList
  | ora => "ORA".toList
  | pha => "PHA".toList
  | php => "PHP".toList
  | pla => "PLA".toList
  | plp => "PLP".toList
  | rol => "ROL".toList
  | ror => "ROR".toList
  | rti => "RTI".toList
  | rts => "RTS".toList
  | sbc => "SBC".toList
  | sec => "SEC".toList
  | sed => "SED".toList
  | sei => "SEI".toList
  | sta => "STA".toList
  | stx => "STX".toList
  | sty => "STY".toList
  | tax => "TAX".toList
  | tay => "TAY".toList
  | tsx => "TSX".toList
  | txa => "TXA".toList
  | txs => "TXS".toList
  | tya => "TYA".toList

def ofName? (t : Text) : Option Mnemonic :=
  all.find? fun m => m.name = t

theorem ofName?_name (m : Mnemonic) : ofName? m.name = some m := by
  cases m <;> decide

/-- The conditional branches, whose operand is a target and not a place in memory. -/
def isBranch : Mnemonic → Bool
  | bcc | bcs | beq | bmi | bne | bpl | bvc | bvs => true
  | _ => false

end Mnemonic

/-! ## Opcodes -/

namespace Mnemonic

def opcodes : Mnemonic → List (Mode × UInt8)
  | adc =>
    [(.immediate, 0x69), (.zeroPage, 0x65), (.zeroPageX, 0x75), (.absolute, 0x6D),
     (.absoluteX, 0x7D), (.absoluteY, 0x79), (.indirectX, 0x61), (.indirectY, 0x71)]
  | and =>
    [(.immediate, 0x29), (.zeroPage, 0x25), (.zeroPageX, 0x35), (.absolute, 0x2D),
     (.absoluteX, 0x3D), (.absoluteY, 0x39), (.indirectX, 0x21), (.indirectY, 0x31)]
  | asl =>
    [(.accumulator, 0x0A), (.zeroPage, 0x06), (.zeroPageX, 0x16), (.absolute, 0x0E),
     (.absoluteX, 0x1E)]
  | bcc => [(.relative, 0x90)]
  | bcs => [(.relative, 0xB0)]
  | beq => [(.relative, 0xF0)]
  | bit => [(.zeroPage, 0x24), (.absolute, 0x2C)]
  | bmi => [(.relative, 0x30)]
  | bne => [(.relative, 0xD0)]
  | bpl => [(.relative, 0x10)]
  | brk => [(.implied, 0x00)]
  | bvc => [(.relative, 0x50)]
  | bvs => [(.relative, 0x70)]
  | clc => [(.implied, 0x18)]
  | cld => [(.implied, 0xD8)]
  | cli => [(.implied, 0x58)]
  | clv => [(.implied, 0xB8)]
  | cmp =>
    [(.immediate, 0xC9), (.zeroPage, 0xC5), (.zeroPageX, 0xD5), (.absolute, 0xCD),
     (.absoluteX, 0xDD), (.absoluteY, 0xD9), (.indirectX, 0xC1), (.indirectY, 0xD1)]
  | cpx => [(.immediate, 0xE0), (.zeroPage, 0xE4), (.absolute, 0xEC)]
  | cpy => [(.immediate, 0xC0), (.zeroPage, 0xC4), (.absolute, 0xCC)]
  | dec => [(.zeroPage, 0xC6), (.zeroPageX, 0xD6), (.absolute, 0xCE), (.absoluteX, 0xDE)]
  | dex => [(.implied, 0xCA)]
  | dey => [(.implied, 0x88)]
  | eor =>
    [(.immediate, 0x49), (.zeroPage, 0x45), (.zeroPageX, 0x55), (.absolute, 0x4D),
     (.absoluteX, 0x5D), (.absoluteY, 0x59), (.indirectX, 0x41), (.indirectY, 0x51)]
  | inc => [(.zeroPage, 0xE6), (.zeroPageX, 0xF6), (.absolute, 0xEE), (.absoluteX, 0xFE)]
  | inx => [(.implied, 0xE8)]
  | iny => [(.implied, 0xC8)]
  | jmp => [(.absolute, 0x4C), (.indirect, 0x6C)]
  | jsr => [(.absolute, 0x20)]
  | lda =>
    [(.immediate, 0xA9), (.zeroPage, 0xA5), (.zeroPageX, 0xB5), (.absolute, 0xAD),
     (.absoluteX, 0xBD), (.absoluteY, 0xB9), (.indirectX, 0xA1), (.indirectY, 0xB1)]
  | ldx =>
    [(.immediate, 0xA2), (.zeroPage, 0xA6), (.zeroPageY, 0xB6), (.absolute, 0xAE),
     (.absoluteY, 0xBE)]
  | ldy =>
    [(.immediate, 0xA0), (.zeroPage, 0xA4), (.zeroPageX, 0xB4), (.absolute, 0xAC),
     (.absoluteX, 0xBC)]
  | lsr =>
    [(.accumulator, 0x4A), (.zeroPage, 0x46), (.zeroPageX, 0x56), (.absolute, 0x4E),
     (.absoluteX, 0x5E)]
  | nop => [(.implied, 0xEA)]
  | ora =>
    [(.immediate, 0x09), (.zeroPage, 0x05), (.zeroPageX, 0x15), (.absolute, 0x0D),
     (.absoluteX, 0x1D), (.absoluteY, 0x19), (.indirectX, 0x01), (.indirectY, 0x11)]
  | pha => [(.implied, 0x48)]
  | php => [(.implied, 0x08)]
  | pla => [(.implied, 0x68)]
  | plp => [(.implied, 0x28)]
  | rol =>
    [(.accumulator, 0x2A), (.zeroPage, 0x26), (.zeroPageX, 0x36), (.absolute, 0x2E),
     (.absoluteX, 0x3E)]
  | ror =>
    [(.accumulator, 0x6A), (.zeroPage, 0x66), (.zeroPageX, 0x76), (.absolute, 0x6E),
     (.absoluteX, 0x7E)]
  | rti => [(.implied, 0x40)]
  | rts => [(.implied, 0x60)]
  | sbc =>
    [(.immediate, 0xE9), (.zeroPage, 0xE5), (.zeroPageX, 0xF5), (.absolute, 0xED),
     (.absoluteX, 0xFD), (.absoluteY, 0xF9), (.indirectX, 0xE1), (.indirectY, 0xF1)]
  | sec => [(.implied, 0x38)]
  | sed => [(.implied, 0xF8)]
  | sei => [(.implied, 0x78)]
  | sta =>
    [(.zeroPage, 0x85), (.zeroPageX, 0x95), (.absolute, 0x8D), (.absoluteX, 0x9D),
     (.absoluteY, 0x99), (.indirectX, 0x81), (.indirectY, 0x91)]
  | stx => [(.zeroPage, 0x86), (.zeroPageY, 0x96), (.absolute, 0x8E)]
  | sty => [(.zeroPage, 0x84), (.zeroPageX, 0x94), (.absolute, 0x8C)]
  | tax => [(.implied, 0xAA)]
  | tay => [(.implied, 0xA8)]
  | tsx => [(.implied, 0xBA)]
  | txa => [(.implied, 0x8A)]
  | txs => [(.implied, 0x9A)]
  | tya => [(.implied, 0x98)]

def opcode? (m : Mnemonic) (mode : Mode) : Option UInt8 :=
  m.opcodes.lookup mode

def supports (m : Mnemonic) (mode : Mode) : Bool :=
  (m.opcode? mode).isSome

end Mnemonic

/-! ## The whole set -/

/-- Every documented instruction, by `Mnemonic` and then by `Mode`. -/
def instructionSet : List (Mnemonic × Mode × UInt8) :=
  Mnemonic.all.flatMap fun m => m.opcodes.map fun (mode, code) => (m, mode, code)

def Mode.instructionSize (mode : Mode) : Nat :=
  1 + mode.operandSize

end Asm6502
