/-
# ROM addresses

An address has sixteen bits.  The low eight are the offset within a page, the low twelve the
offset within a bank, and listings write the bank and the offset within it.
-/
import Calculator.Text.Numeral

namespace Calculator

/-- A place in the program image. -/
abbrev Address := Nat

namespace Address

/-- The bit that tells the two banks of a banked part apart. -/
def bankBit : Address := 0x1000

/-- Below this address the first bank answers whatever the bank bit says. -/
def firstChipEnd : Address := 0x1400

/-- The first address of the page that holds `a`. -/
def page (a : Address) : Address := a / 0x100 * 0x100

/-- The first address of the bank that holds `a`. -/
def bank (a : Address) : Address := a / 0x1000 * 0x1000

/-- The octal text of an address: its bank, a hyphen and four digits within the bank. -/
def text (a : Address) : String :=
  Text.octal 1 (a / 0x1000) ++ "-" ++ Text.octal 4 (a % 0x1000)

end Address

end Calculator
