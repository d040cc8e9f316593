/-
# Pages and banks

The jumps put addresses together from a bank, a page and an offset with bit operations.  The
statements here say what comes out as a number.
-/
import Calculator.Execution.Flow

namespace Calculator

/-- A page laid over an address without one. -/
theorem Address.or_page {bank page offset : Nat} (hpage : page < 0x10) (hoffset : offset < 0x100) :
    page * 0x100 ||| (bank * 0x1000 + offset) = bank * 0x1000 + page * 0x100 + offset := by
  have hlow : 2 ^ 8 * page + offset = 2 ^ 8 * page ||| offset :=
    Nat.two_pow_add_eq_or_of_lt hoffset page
  have hbank : 2 ^ 12 * bank + offset = 2 ^ 12 * bank ||| offset :=
    Nat.two_pow_add_eq_or_of_lt (by omega) bank
  have hall : 2 ^ 12 * bank + (2 ^ 8 * page + offset) = 2 ^ 12 * bank ||| (2 ^ 8 * page + offset) :=
    Nat.two_pow_add_eq_or_of_lt (by omega) bank
  calc
    page * 0x100 ||| (bank * 0x1000 + offset) = 2 ^ 8 * page ||| (2 ^ 12 * bank ||| offset) := by
      rw [← hbank]
      congr 1 <;> omega
    _ = 2 ^ 12 * bank ||| (2 ^ 8 * page ||| offset) := by
      rw [← Nat.or_assoc, Nat.or_comm (2 ^ 8 * page), Nat.or_assoc]
    _ = 2 ^ 12 * bank + (2 ^ 8 * page + offset) := by rw [hall, hlow]
    _ = bank * 0x1000 + page * 0x100 + offset := by omega

/-- An offset laid over a page. -/
theorem Address.page_or (a : Address) {offset : Nat} (hoffset : offset < 0x100) :
    a.page ||| offset = a.page + offset := by
  have hlow : 2 ^ 8 * (a / 0x100) + offset = 2 ^ 8 * (a / 0x100) ||| offset :=
    Nat.two_pow_add_eq_or_of_lt hoffset _
  have hpage : a.page = 2 ^ 8 * (a / 0x100) := Nat.mul_comm _ _
  rw [hpage, ← hlow]

theorem Address.page_add (a : Address) {offset : Nat} (hoffset : offset < 0x100) :
    (a.page + offset) / 0x100 = a / 0x100 := by
  unfold Address.page
  unfold Address at *
  omega

/-- A Classic part goes round within its page. -/
theorem Hardware.next_page {hw : Hardware} (hclassic : hw.family = .classic) (pc : Address) :
    hw.next pc / 0x100 = pc / 0x100 := by
  simp only [next, hclassic, Address.page]
  unfold Address at *
  omega

/-- A part with two banks at most counts straight on, save at the end of the first bank and at the end
of the image, from where it starts again. -/
theorem Hardware.next_of_banked {hw : Hardware} (hother : hw.family ≠ .classic)
    (hsize : hw.romSize ≤ 0x2000) (pc : Address) :
    hw.next pc = if pc = 0xfff ∨ hw.romSize - 1 ≤ pc then 0 else pc + 1 := by
  unfold next Address.bank
  unfold Address at *
  split
  · contradiction
  · split <;> split <;> omega

/-- An image of whole pages holds the address after each of its own. -/
theorem Hardware.next_lt_romSize {hw : Hardware} (hsize : hw.romSize % 0x100 = 0) {pc : Address}
    (hpc : pc < hw.romSize) : hw.next pc < hw.romSize := by
  unfold Hardware.next Address.page Address.bank
  unfold Address at *
  split
  · omega
  · split <;> omega

/-- The image of every model is made of whole pages, and of two banks at most. -/
theorem Model.romSize_pages (model : Model) :
    model.hardware.romSize % 0x100 = 0 ∧ model.hardware.romSize ≤ 0x2000 := by
  cases model <;> decide

/-- The image of a Classic part has eight pages. -/
theorem Model.romSize_of_classic {model : Model} (h : model.hardware.family = .classic) :
    model.hardware.romSize = 0x800 := by
  cases model <;> first | rfl | cases h

namespace Processor

/-- A pending select replaces the page and keeps the bank and the offset. -/
theorem takeSelect_pc {cpu : Processor} (h : cpu.romNumber < 0x10) :
    cpu.takeSelect.pc =
      if cpu.flags.delayedRom then cpu.pc.bank + cpu.romNumber * 0x100 + cpu.pc % 0x100
      else cpu.pc := by
  unfold takeSelect
  split
  · have hsmall : cpu.romNumber * 0x100 % 0x10000 = cpu.romNumber * 0x100 := by omega
    show cpu.romNumber * 0x100 % 0x10000 ||| (cpu.pc / 0x1000 * 0x1000 + cpu.pc % 0x100) = _
    rw [hsmall, Address.or_page h (Nat.mod_lt _ (by decide))]
    rfl
  · rfl

/-- The first chip is taken back to the first bank. -/
theorem settlePage_pc (cpu : Processor) :
    cpu.settlePage.pc =
      if cpu.takeSelect.pc < Address.firstChipEnd then cpu.takeSelect.pc % 0x1000
      else cpu.takeSelect.pc := by
  unfold settlePage
  dsimp only
  split <;> rfl

/-- Settling the page keeps the offset within it. -/
theorem settlePage_pc_mod {cpu : Processor} (h : cpu.romNumber < 0x10) :
    cpu.settlePage.pc % 0x100 = cpu.pc % 0x100 := by
  have hselect : cpu.takeSelect.pc % 0x100 = cpu.pc % 0x100 := by
    rw [takeSelect_pc h]
    unfold Address.bank
    unfold Address at *
    split <;> omega
  rw [settlePage_pc, ← hselect]
  split
  · exact Nat.mod_mod_of_dvd _ (by decide)
  · rfl

end Processor

end Calculator
