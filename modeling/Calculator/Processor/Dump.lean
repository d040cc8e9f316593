/-
# Dumps

The text in which a processor is shown: its eight registers, one a line, and a last line with the
program counter, the pointers and the flags.  A trace shows the same text before each instruction.
-/
import Calculator.Processor

namespace Calculator

/-- The letter of a pointer. -/
def Pointer.text : Pointer → String
  | .p => "P"
  | .q => "Q"

namespace Processor

/-- The end of the last line, which shows what the family has beside the common parts. -/
def dumpTail (cpu : Processor) : String :=
  match cpu.hardware.family with
  | .nut =>
    "  q = " ++ Text.decimal 2 cpu.q ++ "  pt = " ++ cpu.active.text ++ "  g = "
      ++ Text.hex 1 cpu.g.2 ++ Text.hex 1 cpu.g.1
  | _ => "  f = " ++ Text.hex 1 cpu.f

/-- The text of a processor. -/
def dump (cpu : Processor) : String :=
  String.join (RegisterName.all.map fun r => (RegisterLabel.named r).describe (cpu.register r) ++ "\n")
    ++ "pc = " ++ Address.text cpu.pc
    ++ "  p = " ++ Text.decimal 2 cpu.p
    ++ "  sp = " ++ Text.decimal 1 cpu.stack.next
    ++ "  base = " ++ Text.decimal 1 cpu.base.radix
    ++ "  carry = " ++ Text.decimal 1 cpu.flags.carry.toNat
    ++ "  prev = " ++ Text.decimal 1 cpu.flags.prevCarry.toNat
    ++ "  s = " ++ Text.hex 4 cpu.statusWord
    ++ cpu.dumpTail

end Processor

end Calculator
