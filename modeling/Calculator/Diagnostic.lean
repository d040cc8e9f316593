/-
# Faults and warnings

A *fault* stops the instruction that raised it.  A *warning* tells that an operand was clamped or
an access dropped, and execution goes on.  An *input error* means that what the host handed in
could not be read.  Each is a cause; the wording stands in one `message` function per kind.
-/
import Calculator.Address
import Calculator.Model

namespace Calculator

/-- Why an instruction stopped. -/
inductive Fault where
  /-- The word at the address is no instruction of this calculator. -/
  | unexpectedOpcode (place : Address) (opcode : Nat)
  /-- A span or digit was asked for through a pointer past the register. -/
  | pointerOutOfRange (place : Address) (pointer : Nat)
  /-- There is no word at the address to be fetched. -/
  | outsideRom (address : Address)
  /-- A word wider than ten bits selected past a table, or a pointer counted past eight bits. -/
  | outOfBounds (place : Address)
  deriving DecidableEq, Repr

namespace Fault

/-- The text of a fault. -/
def message : Fault → String
  | unexpectedOpcode a op => "unexpected opcode " ++ Text.octal 4 op ++ " at " ++ Address.text a
  | pointerOutOfRange a p =>
    "pointer " ++ Text.decimal 1 p ++ " out of range at " ++ Address.text a
  | outsideRom a => "program counter " ++ Address.text a ++ " is outside the rom"
  | outOfBounds a => "operand out of bounds at " ++ Address.text a

end Fault

/-- What went wrong while execution or loading went on. -/
inductive Warning where
  /-- A data address past the last data register was pulled back to it. -/
  | invalidRegister (place : Address) (register clamped : Nat)
  /-- An access or jump to a place that does not exist was dropped. -/
  | invalidAddress (place : Address) (target : Nat)
  /-- A pointer past the register was taken for its last digit. -/
  | pointerClamped (place : Address) (pointer : Nat)
  /-- A status bit that the part does not have was named. -/
  | invalidStatusBit (place : Address) (bit : Nat)
  /-- A line of a listing lies beyond the image. -/
  | patchOutOfRange (line target : Nat)
  /-- A character found no room on the printed line. -/
  | printerOverflow (place : Address)
  deriving DecidableEq, Repr

namespace Warning

/-- The text of a warning. -/
def message : Warning → String
  | invalidRegister a r clamped =>
    "invalid register " ++ Text.decimal 1 r ++ " at " ++ Address.text a ++ ", using "
      ++ Text.decimal 1 clamped
  | invalidAddress a target => "invalid address 0o" ++ Text.octal 1 target ++ " at " ++ Address.text a
  | pointerClamped a p => "pointer " ++ Text.decimal 1 p ++ " out of range at " ++ Address.text a
  | invalidStatusBit a bit =>
    "status bit " ++ Text.decimal 1 bit ++ " does not exist at " ++ Address.text a
  | patchOutOfRange line target =>
    "rom patch line " ++ Text.decimal 1 line ++ ": address 0o" ++ Text.octal 1 target
      ++ " beyond end of rom"
  | printerOverflow a => "print buffer full at " ++ Address.text a

end Warning

/-- What the host handed in and could not be read. -/
inductive InputError where
  /-- No model has the name. -/
  | unknownModel (name : String)
  /-- A line of a listing is not UTF-8. -/
  | invalidText
  deriving DecidableEq, Repr

namespace InputError

/-- The text of an input error. -/
def message : InputError → String
  | unknownModel name => "unknown calculator model '" ++ name ++ "'"
  | invalidText => "i/o error: stream did not contain valid UTF-8"

end InputError

/-- The model that a text names, or the text itself as the error. -/
def Model.parse (s : String) : Except InputError Model :=
  match Model.ofName? s with
  | some m => .ok m
  | none => .error (.unknownModel s)

end Calculator
