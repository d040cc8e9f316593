/-
# The text of a record

What a record looks like byte by byte, said without the writer: `recordBytes` puts numbers into
fields of two hexadecimal digits and a comma, and ends every line with a line feed.  The writer
writes just this of the values of the slots (`bytes_write`), and the reader gets the numbers back
(`readsAs_recordBytes`).
-/
import Calculator.Proofs.RecordField
import Mathlib.Data.List.Forall2

namespace Calculator

namespace Record

/-! ## 1. The format -/

/-- The byte of a lower case hexadecimal digit. -/
def hexByte (d : Nat) : UInt8 := if d < 10 then .ofNat (0x30 + d) else .ofNat (0x57 + d)

/-- The bytes of a number in two digits. -/
def numberBytes (v : Nat) : List UInt8 := [hexByte (v / 0x10), hexByte (v % 0x10)]

/-- The bytes of a line: its numbers, a comma after each, and a line feed. -/
def lineBytes (line : List Nat) : List UInt8 :=
  line.flatMap (fun v => numberBytes v ++ [comma]) ++ [Text.lineFeed]

/-- The bytes of a record with these numbers on its lines. -/
def recordBytes (lines : List (List Nat)) : List UInt8 := lines.flatMap lineBytes

/-! ## 2. The writer -/

/-- The numbers that a processor has in the slots of its record, line by line. -/
def numbers (cpu : Processor) : List (List Nat) :=
  (Slot.layout cpu.hardware).map fun line => line.map (·.value cpu)

theorem flatten_numbers (cpu : Processor) :
    (numbers cpu).flatten = (Slot.layout cpu.hardware).flatten.map (·.value cpu) :=
  List.map_flatten.symm

/-- The record of a processor is its numbers, and nothing else. -/
theorem write_eq_numbers (cpu : Processor) :
    write cpu
      = String.join ((numbers cpu).map fun line => String.join (line.map field) ++ "\n") := by
  unfold write numbers
  rw [List.map_map]
  simp only [Function.comp_def, List.map_map]

theorem bytes_hex : ∀ v : Fin 0x100, Text.bytes (Text.hex 2 v) = numberBytes v := by
  have hdigits : ∀ v : Fin 0x100,
      (Text.padded 16 2 v).flatMap String.utf8EncodeChar = numberBytes v := by
    decide +kernel
  intro v
  unfold Text.hex
  rw [Text.bytes_ofList]
  exact hdigits v

theorem bytes_join (texts : List String) :
    Text.bytes (String.join texts) = texts.flatMap Text.bytes := by
  induction texts with
  | nil => rfl
  | cons text texts ih => rw [String.join_cons, Text.bytes_append, ih, List.flatMap_cons]

theorem bytes_field {v : Nat} (h : v < 0x100) :
    Text.bytes (field v) = numberBytes v ++ [comma] := by
  unfold field
  rw [Text.bytes_append]
  exact congrArg (· ++ [comma]) (bytes_hex ⟨v, h⟩)

/-- The writer writes the numbers in their format. -/
theorem bytes_write {cpu : Processor} (h : ∀ v ∈ (numbers cpu).flatten, v < 0x100) :
    Text.bytes (write cpu) = recordBytes (numbers cpu) := by
  rw [write_eq_numbers, bytes_join, List.flatMap_map]
  unfold recordBytes
  refine List.flatMap_congr ?_
  intro line hline
  have hfields : line.flatMap (fun v => Text.bytes (field v))
      = line.flatMap fun v => numberBytes v ++ [comma] :=
    List.flatMap_congr fun v hv => bytes_field (h v (List.mem_flatten_of_mem hline hv))
  rw [Text.bytes_append, bytes_join, List.flatMap_map, hfields]
  rfl

/-! ## 3. The reader -/

theorem readsAs_numberBytes {v : Nat} (h : v < 0x100) : ReadsAs (numberBytes v) v := by
  have hdigits : ∀ v : Fin 0x100,
      Text.numeral? 16 0x100 (Text.trim (Text.padded 16 2 v)) = some v.val := by
    decide +kernel
  have hdecode : Text.decode? (numberBytes v) = some (Text.padded 16 2 v) := by
    rw [← bytes_hex ⟨v, h⟩, Text.decode?_bytes]
    exact congrArg some String.toList_ofList
  refine fieldValue?_eq_some.mp ?_
  unfold fieldValue?
  rw [hdecode]
  exact hdigits ⟨v, h⟩

/-- White space ahead of a field does not change what it stands for. -/
theorem readsAs_gap_append {gap field : List UInt8} {v : Nat} (h : ReadsAs field v)
    (hgap : ∀ b ∈ gap, isGap b = true) : ReadsAs (gap ++ field) v := by
  refine fieldValue?_eq_some.mp ?_
  rw [fieldValue?_gap_append hgap]
  exact fieldValue?_eq_some.mpr h

theorem comma_not_mem_numberBytes {v : Nat} (h : v < 0x100) : comma ∉ numberBytes v := by
  have hbytes : ∀ v : Fin 0x100, comma ∉ numberBytes v := by decide +kernel
  exact hbytes ⟨v, h⟩

theorem comma_not_mem_gap {gap : List UInt8} (h : ∀ b ∈ gap, isGap b = true) : comma ∉ gap :=
  fun hmem => absurd (h comma hmem) (by decide)

theorem recordBytes_nil_cons (lines : List (List Nat)) :
    recordBytes ([] :: lines) = Text.lineFeed :: recordBytes lines := rfl

theorem recordBytes_cons_cons (v : Nat) (vs : List Nat) (lines : List (List Nat)) :
    recordBytes ((v :: vs) :: lines) = numberBytes v ++ comma :: recordBytes (vs :: lines) := rfl

/-- **The numbers of a record are read back from its bytes**, whatever white space is ahead. -/
theorem readsAs_recordBytes {gap : List UInt8} (hgap : ∀ b ∈ gap, isGap b = true)
    {lines : List (List Nat)} (h : ∀ v ∈ lines.flatten, v < 0x100) :
    List.Forall₂ ReadsAs (fields (gap ++ recordBytes lines)) lines.flatten := by
  induction lines generalizing gap with
  | nil =>
    have hempty : gap ++ recordBytes [] = gap := List.append_nil gap
    rw [hempty, fields_of_not_mem (comma_not_mem_gap hgap)]
    exact .nil
  | cons line lines ih =>
    induction line generalizing gap with
    | nil =>
      -- the line feed joins the white space ahead of the next line
      have hfeed : ∀ b ∈ gap ++ [Text.lineFeed], isGap b = true := by
        intro b hb
        rcases List.mem_append.mp hb with hb | hb
        · exact hgap b hb
        · rw [List.mem_singleton.mp hb]
          rfl
      rw [recordBytes_nil_cons, List.append_cons]
      exact ih hfeed h
    | cons v vs ihline =>
      have hv : v < 0x100 := h v List.mem_cons_self
      have hcomma : comma ∉ gap ++ numberBytes v := by
        rw [List.mem_append, not_or]
        exact ⟨comma_not_mem_gap hgap, comma_not_mem_numberBytes hv⟩
      have hrest := ihline (fun _ hb => absurd hb List.not_mem_nil)
        fun w hw => h w (List.mem_cons_of_mem v hw)
      rw [recordBytes_cons_cons, ← List.append_assoc, fields_append hcomma]
      exact .cons (readsAs_gap_append (readsAs_numberBytes hv) hgap) hrest

end Record

end Calculator
