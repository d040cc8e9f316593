/-
# Numerals

Numbers are read and written in the radix of their context: octal and hexadecimal in listings and
addresses, hexadecimal in state records, decimal elsewhere.  `numeral?` is the reader and
`octal`, `hex` and `decimal` are the writers.
-/
namespace Calculator.Text

/-! ## 1. Reading -/

/-- The value of a digit of the radix.  Letters of either case follow the ten figures. -/
def digitValue? (radix : Nat) (c : Char) : Option Nat :=
  let value :=
    if '0' ≤ c ∧ c ≤ '9' then some (c.toNat - '0'.toNat)
    else if 'a' ≤ c ∧ c ≤ 'z' then some (c.toNat - 'a'.toNat + 10)
    else if 'A' ≤ c ∧ c ≤ 'Z' then some (c.toNat - 'A'.toNat + 10)
    else none
  value.filter (· < radix)

/-- The value of a list of digits, the most significant first. -/
def valueOf (radix : Nat) (digits : List Nat) : Nat :=
  digits.foldl (fun n d => n * radix + d) 0

/-- The text without one leading plus sign. -/
def unsigned : List Char → List Char
  | '+' :: cs => cs
  | cs => cs

/-- Reads a whole text as a number below `limit`: an optional plus sign, then at least one digit
and nothing else. -/
def numeral? (radix limit : Nat) (cs : List Char) : Option Nat :=
  match unsigned cs with
  | [] => none
  | digits => ((digits.mapM (digitValue? radix)).map (valueOf radix)).filter (· < limit)

example : numeral? 8 0x100 ['+', '0', '1', '7'] = some 15 := by decide
example : numeral? 16 0x100 ['1', '0', '0'] = none := by decide
example : numeral? 8 0x100 ['8'] = none ∧ numeral? 8 0x100 ['+'] = none := by decide

/-! ## 2. Writing -/

/-- Digits in the radix, filled with leading zeros up to the width. -/
def padded (radix width n : Nat) : List Char :=
  (Nat.toDigits radix n).leftpad width '0'

/-- Octal text of at least `width` digits. -/
def octal (width n : Nat) : String := String.ofList (padded 8 width n)

/-- Lower case hexadecimal text of at least `width` digits. -/
def hex (width n : Nat) : String := String.ofList (padded 16 width n)

/-- Decimal text of at least `width` digits. -/
def decimal (width n : Nat) : String := String.ofList (padded 10 width n)

end Calculator.Text
