/-
# The operands of ten bit words

A word of a program has ten bits, so the operands of an instruction that was decoded from one are
small numbers.  `Instruction.Fits` says how small, kind by kind and as far as the hardware matters,
and `fits_of_decode` that decoding yields nothing else.
-/
import Calculator.Instruction.Decode

namespace Calculator

/-! ## 1. Operands -/

/-- How many pages a select can name. -/
def Hardware.pages (hw : Hardware) : Nat :=
  match hw.family with
  | .classic => 8
  | _ => 0x10

/-- The furthest position that a pointer can be set to. -/
def Hardware.furthest (hw : Hardware) : Nat :=
  match hw.family with
  | .classic => 15
  | .woodstock => 14
  | .nut => 13

namespace Instruction

/-- The operands of an instruction are in range for the hardware, and the hardware has it. -/
def Fits (hw : Hardware) : Instruction → Prop
  | .digit (.loadConstant d) => d < 0x10
  | .status (.set bit _) | .status (.test bit) | .status (.branchIf bit _) =>
    bit < 0x10 ∧ (hw.family = .nut → bit < 14)
  | .pointer (.set v) => v ≤ hw.furthest
  | .pointer (.select _) => hw.family = .nut
  | .flow (.call target) | .flow (.branch target) => target < 0x100
  | .flow (.selectRom number) => number < hw.pages
  | .flow (.delayedSelectRom number) => number < hw.pages ∧ hw.family ≠ .nut
  | .flow (.longBranch low) => low < 0x100 ∧ hw.family = .nut
  | .flow (.returnIf _) | .flow (.branchBy _ _) | .flow .goToC | .flow .pushC | .flow .popC =>
    hw.family = .nut
  | .flow .bankSwitch => hw.family = .woodstock
  | .data (.storeAt n) | .data (.loadAt n) => n < 0x10
  | .card _ => hw.peripheral = .cardReader
  | .printer _ => hw.peripheral = .printer
  | _ => True

variable {hw : Hardware} {word n : Nat} {i : Instruction}

/-- An instruction that stands for the value of an operand. -/
theorem map_lookUp_eq_ok {table : Vector Nat 16} {numbered : Nat → Instruction}
    (h : (lookUp table n).map numbered = .ok i) : ∃ v, table[n]? = some v ∧ i = numbered v := by
  unfold lookUp at h
  split at h
  · cases h
    exact ⟨_, ‹_›, rfl⟩
  · cases h

/-- The operand of a ten bit word has four bits. -/
theorem operand_lt (hword : word < 0x400) : operand word < 0x10 := by
  unfold operand
  omega

/-! ## 2. The three instruction sets -/

theorem fits_classic (hc : hw.family = .classic) (hword : word < 0x400)
    (h : Classic.special word = .ok i) : i.Fits hw := by
  have hpages : hw.pages = 8 := by simp only [Hardware.pages, hc]
  have hfurthest : hw.furthest = 15 := by simp only [Hardware.furthest, hc]
  have hn := operand_lt hword
  unfold Classic.special at h
  simp only [Classic.registerClass] at h
  (repeat' split at h) <;> cases h <;>
    first
    | trivial
    | (simp only [Fits, hc, hpages, hfurthest, reduceCtorEq, false_implies, ne_eq,
        not_false_eq_true, and_true]; omega)

theorem operandValues_lt : ∀ n : Fin 16, n ≠ 7 → n ≠ 15 → Nut.operandValues.get n < 14 := by
  decide

/-- The number that a scrambled operand stands for is less than fourteen. -/
theorem scrambled_eq_ok {own : Instruction} {numbered : Nat → Instruction}
    (h : Nut.scrambled n own numbered = .ok i) : i = own ∨ ∃ v < 14, i = numbered v := by
  unfold Nut.scrambled at h
  split at h
  · cases h
  · cases h
    exact .inl rfl
  · rename_i h7 h15
    obtain ⟨v, hv, rfl⟩ := map_lookUp_eq_ok h
    obtain ⟨hlt, rfl⟩ := Vector.getElem?_eq_some_iff.mp hv
    refine .inr ⟨_, operandValues_lt ⟨n, hlt⟩ ?_ ?_, rfl⟩
    · exact fun e => h7 (congrArg Fin.val e)
    · exact fun e => h15 (congrArg Fin.val e)

theorem fits_nut (hc : hw.family = .nut) (hword : word < 0x400)
    (h : Nut.special word = .ok i) : i.Fits hw := by
  have hfurthest : hw.furthest = 13 := by simp only [Hardware.furthest, hc]
  have hn := operand_lt hword
  unfold Nut.special at h
  simp only [Nut.transferClass, Nut.controlClass, Nut.memoryClass] at h
  split at h
  -- the five classes with a scrambled operand
  case h_2 | h_3 | h_4 | h_6 | h_8 =>
    rcases scrambled_eq_ok h with rfl | ⟨v, hv, rfl⟩
    · trivial
    · first | trivial | (simp only [Fits, hfurthest]; omega)
  case h_13 =>
    obtain ⟨v, -, rfl⟩ := map_lookUp_eq_ok h
    trivial
  all_goals
    (repeat' split at h) <;> cases h <;>
      first | trivial | exact hc | exact hn | (simp only [Fits]; omega)

theorem setPointerValues_le : ∀ n : Fin 16, Woodstock.setPointerValues.get n ≤ 14 := by decide

theorem fits_woodstock (hc : hw.family = .woodstock) (hword : word < 0x400)
    (h : Woodstock.special hw.peripheral word = .ok i) : i.Fits hw := by
  have hpages : hw.pages = 16 := by simp only [Hardware.pages, hc]
  have hn := operand_lt hword
  unfold Woodstock.special at h
  simp only [Woodstock.cardClass, Woodstock.registerClass, Woodstock.flowClass,
    Woodstock.printerClass, Woodstock.dataClass, Woodstock.cardDisplayClass] at h
  split at h
  -- the three classes with an operand that is looked up
  case h_10 | h_12 =>
    obtain ⟨v, -, rfl⟩ := map_lookUp_eq_ok h
    trivial
  case h_16 =>
    obtain ⟨v, hv, rfl⟩ := map_lookUp_eq_ok h
    obtain ⟨hlt, rfl⟩ := Vector.getElem?_eq_some_iff.mp hv
    have hfurthest : hw.furthest = 14 := by simp only [Hardware.furthest, hc]
    exact Nat.le_trans (setPointerValues_le ⟨_, hlt⟩) (Nat.le_of_eq hfurthest.symm)
  all_goals
    (repeat' split at h) <;> cases h <;>
      first
      | trivial
      | assumption
      | (simp only [Fits, hpages, hc, reduceCtorEq, false_implies, ne_eq, not_false_eq_true,
          and_true]; omega)

/-! ## 3. Every word -/

/-- **What a ten bit word decodes to fits the hardware.** -/
theorem fits_of_decode (hword : word < 0x400) (h : decode hw word = .ok i) : i.Fits hw := by
  simp only [decode, WordForm.ofWord] at h
  split at h
  case h_1 special hform =>
    have hspecial : special = word := by
      split at hform <;> cases hform
      rfl
    subst hspecial
    split at h
    · exact fits_classic ‹_› hword h
    · exact fits_woodstock ‹_› hword h
    · exact fits_nut ‹_› hword h
  case h_2 jump hform =>
    have hjump : jump = word := by
      split at hform <;> cases hform
      rfl
    subst hjump
    have hlow : jump / 4 < 0x100 := Nat.div_lt_of_lt_mul hword
    split at h <;> cases h
    · exact ⟨hlow, ‹_›⟩
    · exact hlow
  case h_3 =>
    cases h
    trivial
  case h_4 branch hform =>
    have hbranch : branch = word := by
      split at hform <;> cases hform
      rfl
    subst hbranch
    split at h <;> cases h
    · assumption
    · exact Nat.div_lt_of_lt_mul hword

/-- The instructions that move the program counter on a Nut alone. -/
def movesNut : Instruction → Bool
  | .digit .loadImmediate | .control .powerOff => true
  | .flow (.returnIf _) | .flow (.branchBy _ _) | .flow (.longBranch _) | .flow .goToC => true
  | _ => false

/-- They are left to a Nut, whatever the width of the word. -/
theorem family_of_decode (h : decode hw word = .ok i) (hmoves : i.movesNut = true) :
    hw.family = .nut := by
  simp only [decode] at h
  split at h
  · split at h
    · unfold Classic.special at h
      simp only [Classic.registerClass] at h
      (repeat' split at h) <;> cases h <;> cases hmoves
    · unfold Woodstock.special at h
      simp only [Woodstock.cardClass, Woodstock.registerClass, Woodstock.flowClass,
        Woodstock.printerClass, Woodstock.dataClass, Woodstock.cardDisplayClass] at h
      split at h
      -- the three classes with an operand that is looked up
      case h_10 | h_12 | h_16 =>
        obtain ⟨v, -, rfl⟩ := map_lookUp_eq_ok h
        cases hmoves
      all_goals (repeat' split at h) <;> cases h <;> cases hmoves
    · assumption
  all_goals (repeat' split at h) <;> cases h <;> first | assumption | cases hmoves

theorem family_of_decode_powerOff (h : decode hw word = .ok (.control .powerOff)) :
    hw.family = .nut :=
  family_of_decode h rfl

/-- Whether the family has what the instruction selects: a Nut has two pointers, and the others have
delayed selects. -/
def Suits (hw : Hardware) : Instruction → Prop
  | .pointer (.select _) => hw.family = .nut
  | .flow (.delayedSelectRom _) => hw.family ≠ .nut
  | _ => True

/-- A family has what its words select, whatever their width. -/
theorem suits_of_decode (h : decode hw word = .ok i) : i.Suits hw := by
  simp only [decode] at h
  split at h
  · split at h
    · have hother : hw.family ≠ .nut := by simp_all
      unfold Classic.special at h
      simp only [Classic.registerClass] at h
      (repeat' split at h) <;> cases h <;> trivial
    · have hother : hw.family ≠ .nut := by simp_all
      unfold Woodstock.special at h
      simp only [Woodstock.cardClass, Woodstock.registerClass, Woodstock.flowClass,
        Woodstock.printerClass, Woodstock.dataClass, Woodstock.cardDisplayClass] at h
      split at h
      -- the three classes with an operand that is looked up
      case h_10 | h_12 | h_16 =>
        obtain ⟨v, -, rfl⟩ := map_lookUp_eq_ok h
        trivial
      all_goals (repeat' split at h) <;> cases h <;> trivial
    · unfold Nut.special at h
      simp only [Nut.transferClass, Nut.controlClass, Nut.memoryClass] at h
      split at h
      -- the five classes with a scrambled operand
      case h_2 | h_3 | h_4 | h_6 | h_8 =>
        rcases scrambled_eq_ok h with rfl | ⟨v, -, rfl⟩
        · trivial
        · trivial
      case h_13 =>
        obtain ⟨v, -, rfl⟩ := map_lookUp_eq_ok h
        trivial
      all_goals (repeat' split at h) <;> cases h <;> trivial
  all_goals (repeat' split at h) <;> cases h <;> trivial

/-! ## 4. Tables -/

/-- An operand of four bits is found in every table. -/
theorem lookUp_eq_ok (table : Vector Nat 16) (h : n < 0x10) : lookUp table n = .ok table[n] := by
  unfold lookUp
  rw [Vector.getElem?_eq_getElem h]

theorem scrambled_ne_operandTooWide (hn : n < 0x10) (own : Instruction) (numbered : Nat → Instruction) :
    Nut.scrambled n own numbered ≠ .error .operandTooWide := by
  intro h
  unfold Nut.scrambled at h
  rw [lookUp_eq_ok _ hn] at h
  split at h <;> cases h

theorem nut_ne_operandTooWide (hword : word < 0x400) : Nut.special word ≠ .error .operandTooWide := by
  have hn := operand_lt hword
  intro h
  unfold Nut.special at h
  simp only [Nut.transferClass, Nut.controlClass, Nut.memoryClass, lookUp_eq_ok _ hn] at h
  split at h
  case h_2 | h_3 | h_4 | h_6 | h_8 => exact scrambled_ne_operandTooWide hn _ _ h
  all_goals (repeat' split at h) <;> cases h

theorem woodstock_ne_operandTooWide (hword : word < 0x400) (peripheral : Peripheral) :
    Woodstock.special peripheral word ≠ .error .operandTooWide := by
  have hn := operand_lt hword
  intro h
  unfold Woodstock.special at h
  simp only [Woodstock.cardClass, Woodstock.registerClass, Woodstock.flowClass,
    Woodstock.printerClass, Woodstock.dataClass, Woodstock.cardDisplayClass,
    lookUp_eq_ok _ hn] at h
  split at h
  all_goals (repeat' split at h) <;> cases h

theorem classic_ne_operandTooWide (word : Nat) : Classic.special word ≠ .error .operandTooWide := by
  intro h
  unfold Classic.special at h
  simp only [Classic.registerClass] at h
  (repeat' split at h) <;> cases h

/-- **No ten bit word names an entry past a table.** -/
theorem decode_ne_operandTooWide (hword : word < 0x400) : decode hw word ≠ .error .operandTooWide := by
  intro h
  simp only [decode, WordForm.ofWord] at h
  split at h
  case h_1 special hform =>
    have hspecial : special = word := by
      split at hform <;> cases hform
      rfl
    subst hspecial
    split at h
    · exact classic_ne_operandTooWide _ h
    · exact woodstock_ne_operandTooWide hword _ h
    · exact nut_ne_operandTooWide hword h
  all_goals (repeat' split at h) <;> cases h

end Instruction

end Calculator
