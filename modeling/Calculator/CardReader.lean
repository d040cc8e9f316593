/-
# The card reader

No card is ever inserted.  What is left of the card reader are the flags in which the firmware
remembers keyboard and display state from one instruction to another, and the count of the
start-up clears that must not reach continuous memory.
-/
namespace Calculator

/-- The flags that an instruction sets and another one reads and clears. -/
inductive CardFlag where
  | anyKey
  | function
  | merge
  | pause
  | display
  deriving DecidableEq, Repr

/-- The state of the card reader controller. -/
structure CardReader where
  /-- Counts up to zero while the clears of the start-up are being skipped. -/
  ready : Int
  card : Bool
  anyKey : Bool
  function : Bool
  merge : Bool
  pause : Bool
  display : Bool
  deriving DecidableEq, Repr

namespace CardReader

/-- A reader with no flag set and nothing to skip. -/
def idle : CardReader := ⟨0, false, false, false, false, false, false⟩

/-- A reader after power on.  With continuous memory the first four clears are skipped. -/
def poweredOn (continuous : Bool) : CardReader :=
  { idle with ready := if continuous then -4 else 0 }

/-- Counts one clear of the data registers, and tells whether it goes ahead. -/
def allowClear (r : CardReader) : Bool × CardReader :=
  if r.ready = 0 then (true, r) else (false, { r with ready := r.ready + 1 })

/-- The value of a flag. -/
def get (r : CardReader) : CardFlag → Bool
  | .anyKey => r.anyKey
  | .function => r.function
  | .merge => r.merge
  | .pause => r.pause
  | .display => r.display

/-- The reader with a flag set or cleared. -/
def set (r : CardReader) (v : Bool) : CardFlag → CardReader
  | .anyKey => { r with anyKey := v }
  | .function => { r with function := v }
  | .merge => { r with merge := v }
  | .pause => { r with pause := v }
  | .display => { r with display := v }

end CardReader

end Calculator
