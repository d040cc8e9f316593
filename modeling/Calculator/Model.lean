/-
# Models

The twenty-six calculators by name, and the hardware of each.  A name may be written with or
without the leading `hp` and a hyphen, in either case, with blanks around it (`Model.ofName?`).
-/
import Calculator.Hardware
import Calculator.Text.Blank

namespace Calculator

/-- The calculators. -/
inductive Model where
  | hp35 | hp45 | hp55 | hp70 | hp80
  | hp10
  | hp21 | hp22 | hp25 | hp25c | hp27 | hp29c
  | hp31e | hp32e | hp33e | hp33c | hp34c | hp37e | hp38e | hp38c
  | hp67
  | hp10c | hp11c | hp12c | hp15c | hp16c
  deriving DecidableEq, Repr

namespace Model

/-- Every model. -/
def all : List Model :=
  [hp35, hp45, hp55, hp70, hp80, hp10, hp21, hp22, hp25, hp25c, hp27, hp29c, hp31e, hp32e, hp33e,
    hp33c, hp34c, hp37e, hp38e, hp38c, hp67, hp10c, hp11c, hp12c, hp15c, hp16c]

/-- The name of a model after the `hp`. -/
def number : Model → String
  | hp35 => "35" | hp45 => "45" | hp55 => "55" | hp70 => "70" | hp80 => "80"
  | hp10 => "10"
  | hp21 => "21" | hp22 => "22" | hp25 => "25" | hp25c => "25c" | hp27 => "27" | hp29c => "29c"
  | hp31e => "31e" | hp32e => "32e" | hp33e => "33e" | hp33c => "33c" | hp34c => "34c"
  | hp37e => "37e" | hp38e => "38e" | hp38c => "38c"
  | hp67 => "67"
  | hp10c => "10c" | hp11c => "11c" | hp12c => "12c" | hp15c => "15c" | hp16c => "16c"

/-- The name of a model. -/
def name (m : Model) : String := "hp" ++ m.number

/-- The hardware of a model. -/
def hardware : Model → Hardware
  | hp35 => .classic 1
  | hp45 => .classic 10
  | hp55 => .classic 30
  | hp70 => .classic 10
  | hp80 => .classic 10
  | hp10 =>
    { Hardware.woodstock 0o4000 16 false with
      inputs := .none, pointer := .previousOpcode, peripheral := .printer }
  | hp21 => .woodstock 0o4000 1 false
  | hp22 => .woodstock 0o10000 16 false
  | hp25 => .woodstock 0o10000 16 false
  | hp25c => { Hardware.woodstock 0o10000 16 true with clearData := .ignore }
  | hp27 => .woodstock 0o10000 16 false
  | hp29c => .woodstock 0o20000 48 true
  | hp31e => .spice 0o10000 16 false
  | hp32e => .spice 0o10000 32 false
  | hp33e => .spice 0o10000 32 false
  | hp33c => .spice 0o10000 32 true
  | hp34c => .spice 0o20000 64 true
  | hp37e => .spice 0o20000 48 false
  | hp38e => .spice 0o20000 48 false
  | hp38c => .spice 0o20000 48 true
  | hp67 =>
    { Hardware.woodstock 0o20000 64 true with
      inputs := .hp67, pointer := .previousOpcode, clearData := .afterPowerOn
      peripheral := .cardReader }
  | hp10c => .nut 0o10000
  | hp11c => .nut 0o14000
  | hp12c => .nut 0o10000
  | hp15c => .nut 0o20000
  | hp16c => .nut 0o20000

/-! ## Reading a name -/

/-- The text without a given beginning, if it begins so. -/
def dropLead (lead cs : List Char) : List Char :=
  if lead.isPrefixOf cs then cs.drop lead.length else cs

/-- The model that a text names. -/
def ofName? (s : String) : Option Model :=
  let lower := (Text.trim s.toList).map Char.toLower
  let number := dropLead ['-'] (dropLead ['h', 'p'] lower)
  all.find? fun m => m.number.toList == number

end Model

end Calculator
