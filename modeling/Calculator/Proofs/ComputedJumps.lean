/-
# The computed jumps

A Woodstock part has two jumps to an offset that it computes: one to the key code, the other to two
digits of `a`.  The one settles the page and then adds the offset.  The other adds the offset and
then settles the page, after a look at whether there is such an address at all.

It makes no difference.  A select replaces the page whatever the offset, and the first chip ends
where a page ends, so that an offset within a page may be added before or after (`settlePage_add`).
With the key code in `a` the two jumps are one (`computed_jumps_agree`).
-/
import Calculator.Proofs.DelayedSelect

namespace Calculator

/-! ## 1. Where pages start -/

namespace Address

/-- The address is the first of a page. -/
structure StartsPage (a : Nat) : Prop where
  lt : a < 0x10000
  mod_eq : a % 0x100 = 0

variable {a b offset : Nat}

theorem startsPage_page (h : a < 0x10000) : StartsPage (page a) := by
  constructor <;> simp only [page] <;> omega

theorem startsPage_bank (h : a < 0x10000) : StartsPage (bank a) := by
  constructor <;> simp only [bank] <;> omega

/-- The page of a number, of which the address has room for eight bits. -/
theorem startsPage_number (number : Nat) : StartsPage (number * 0x100 % 0x10000) := by
  constructor <;> omega

/-- One page laid over another gives a page. -/
theorem StartsPage.or (ha : StartsPage a) (hb : StartsPage b) : StartsPage (a ||| b) := by
  have hmod : (a ||| b) % 0x100 = a % 0x100 ||| b % 0x100 := Nat.or_mod_two_pow (n := 8)
  have hlt : a ||| b < 2 ^ 16 := Nat.or_lt_two_pow ha.lt hb.lt
  rw [ha.mod_eq, hb.mod_eq] at hmod
  exact ⟨hlt, hmod⟩

theorem StartsPage.settled (h : StartsPage a) : StartsPage (settled a) := by
  obtain ⟨hlt, hmod⟩ := h
  unfold Address.settled
  constructor <;> split <;> omega

theorem StartsPage.page_eq (h : StartsPage a) : page a = a :=
  Nat.div_mul_cancel (Nat.dvd_of_mod_eq_zero h.mod_eq)

theorem StartsPage.bank_add (h : StartsPage a) (hoffset : offset < 0x100) :
    bank (a + offset) = bank a := by
  have hmod := h.mod_eq
  show (a + offset) / 0x1000 * 0x1000 = a / 0x1000 * 0x1000
  omega

theorem StartsPage.add_mod (h : StartsPage a) (hoffset : offset < 0x100) :
    (a + offset) % 0x100 = offset := by
  have hmod := h.mod_eq
  omega

/-- An image of whole pages holds all of a page or nothing. -/
theorem page_add_lt {size : Nat} (hsize : size % 0x100 = 0) (h : page a < size)
    (hoffset : offset < 0x100) : page a + offset < size := by
  have hwhole : size / 0x100 * 0x100 = size := Nat.div_mul_cancel (Nat.dvd_of_mod_eq_zero hsize)
  have hpages : a / 0x100 < size / 0x100 :=
    Nat.lt_of_mul_lt_mul_right (Nat.lt_of_lt_of_eq h hwhole.symm)
  calc page a + offset
      < page a + 0x100 := Nat.add_lt_add_left hoffset _
    _ = (a / 0x100 + 1) * 0x100 := (Nat.succ_mul _ _).symm
    _ ≤ size / 0x100 * 0x100 := Nat.mul_le_mul_right _ hpages
    _ = size := hwhole

theorem StartsPage.add_lt (h : StartsPage a) (hoffset : offset < 0x100) : a + offset < 0x10000 := by
  obtain ⟨hlt, hmod⟩ := h
  omega

/-- A page laid over an address leaves the offset as it is. -/
theorem StartsPage.or_add (ha : StartsPage a) (hb : StartsPage b) (hoffset : offset < 0x100) :
    a ||| (b + offset) = (a ||| b) + offset := by
  calc a ||| (b + offset)
      = a ||| (b ||| offset) := by rw [← hb.page_eq, page_or b hoffset]
    _ = (a ||| b) ||| offset := (Nat.or_assoc a b offset).symm
    _ = (a ||| b) + offset := by rw [← (ha.or hb).page_eq, page_or _ hoffset]

end Address

namespace Processor

open Address (StartsPage)

variable {cpu : Processor} {page offset : Nat}

/-! ## 2. Offsets -/

/-- A select leads from the start of a page to the start of a page. -/
theorem takeSelect_startsPage (cpu : Processor) (hpage : StartsPage page) :
    StartsPage (takeSelect { cpu with pc := page }).pc := by
  unfold takeSelect
  dsimp only
  split
  · rw [hpage.mod_eq, Nat.add_zero]
    exact (Address.startsPage_number _).or (Address.startsPage_bank hpage.lt)
  · exact hpage

/-- A select takes the offset along. -/
theorem takeSelect_add (cpu : Processor) (hpage : StartsPage page) (hoffset : offset < 0x100) :
    takeSelect { cpu with pc := page + offset } =
      { takeSelect { cpu with pc := page } with
        pc := (takeSelect { cpu with pc := page }).pc + offset } := by
  unfold takeSelect
  dsimp only
  split
  · rw [hpage.bank_add hoffset, hpage.add_mod hoffset, hpage.mod_eq, Nat.add_zero,
      (Address.startsPage_number _).or_add (Address.startsPage_bank hpage.lt) hoffset]
  · rfl

theorem settlePage_eq_settled (cpu : Processor) :
    cpu.settlePage = { cpu.takeSelect with pc := cpu.takeSelect.pc.settled } := by
  unfold settlePage Address.settled
  dsimp only
  split <;> rfl

theorem settlePage_startsPage (cpu : Processor) (hpage : StartsPage page) :
    StartsPage (settlePage { cpu with pc := page }).pc := by
  rw [settlePage_eq_settled]
  exact (cpu.takeSelect_startsPage hpage).settled

/-- **An offset within a page may be added before the page is settled or after.** -/
theorem settlePage_add (cpu : Processor) (hpage : StartsPage page) (hoffset : offset < 0x100) :
    settlePage { cpu with pc := page + offset } =
      { settlePage { cpu with pc := page } with
        pc := (settlePage { cpu with pc := page }).pc + offset } := by
  rw [settlePage_eq_settled, settlePage_eq_settled, cpu.takeSelect_add hpage hoffset,
    settled_add (cpu.takeSelect_startsPage hpage).mod_eq hoffset]

/-! ## 3. The two jumps -/

/-- Settling the page moves the program counter and leaves no select behind. -/
theorem settlePage_eq (cpu : Processor) (a : Address) :
    settlePage { cpu with pc := a } =
      { cpu with
        pc := (settlePage { cpu with pc := a }).pc
        flags := { cpu.flags with delayedRom := false } } := by
  refine eq_of_agrees fun c => ?_
  have hframe := changesOnly_settlePage { cpu with pc := a } c
  cases c with
  | pc => rfl
  | delayedRom => exact settlePage_delayedRom _
  | _ => exact hframe (by simp)

theorem keysToRomAddress_eq (hpc : cpu.pc < 0x10000) (hcode : cpu.keyboard.code < 0x100) :
    cpu.keysToRomAddress = settlePage { cpu with pc := cpu.pc.page + cpu.keyboard.code } := by
  have hpage : StartsPage cpu.pc.page := Address.startsPage_page hpc
  have hstart := cpu.settlePage_startsPage hpage
  have hkept : (settlePage { cpu with pc := cpu.pc.page }).keyboard.code = cpu.keyboard.code :=
    changesOnly_settlePage _ .keyCode (by simp)
  rw [cpu.settlePage_add hpage hcode, keysToRomAddress, hkept,
    Nat.mod_eq_of_lt (hstart.add_lt hcode)]

theorem aToRomAddress_eq (hpage : cpu.pc.page < cpu.hardware.romSize) (hoffset : offset < 0x100)
    (hdigits : (cpu.register .a).digit 2 * 0x10 + (cpu.register .a).digit 1 = offset) :
    cpu.aToRomAddress = .done (settlePage { cpu with pc := cpu.pc.page + offset }) := by
  have hinside : cpu.pc.page + offset < cpu.hardware.romSize :=
    Address.page_add_lt cpu.model.romSize_pages.1 hpage hoffset
  unfold aToRomAddress
  dsimp only
  rw [Nat.add_assoc, hdigits, if_pos hinside]

/-- **The computed jumps agree.**  In any page of the image, with or without a select of whatever
number, a jump to the key code and a jump to `a[2:1]` are the same where `a` has the key code.  The
offset of the address is the key code, no select is left, and nothing else changes; there is no
warning and no fault. -/
theorem computed_jumps_agree (cpu : Processor) (hwoodstock : cpu.hardware.family = .woodstock)
    (hcode : cpu.keyboard.code < 0x100)
    (hhigh : (cpu.register .a).digit 2 = cpu.keyboard.code / 0x10)
    (hlow : (cpu.register .a).digit 1 = cpu.keyboard.code % 0x10)
    (hpage : cpu.pc.page < cpu.hardware.romSize) :
    cpu.execute 0o220 = cpu.execute 0o20 ∧
    ∃ pc, cpu.execute 0o20 =
        .done { cpu with pc := pc, flags := { cpu.flags with delayedRom := false } } ∧
      pc % 0x100 = cpu.keyboard.code ∧
      (cpu.romNumber < 0x10 → pc = cpu.jumpTarget cpu.keyboard.code) := by
  have hpc : cpu.pc < 0x10000 :=
    calc cpu.pc = cpu.pc.page + cpu.pc % 0x100 := (Nat.div_add_mod' cpu.pc 0x100).symm
      _ < cpu.hardware.romSize :=
        Address.page_add_lt cpu.model.romSize_pages.1 hpage (Nat.mod_lt _ (by decide))
      _ ≤ 0x2000 := cpu.model.romSize_pages.2
      _ ≤ 0x10000 := by decide
  have hdigits : (cpu.register .a).digit 2 * 0x10 + (cpu.register .a).digit 1 =
      cpu.keyboard.code := by
    rw [hhigh, hlow, Nat.div_add_mod']
  have hkeysWord : cpu.execute 0o20 = .done cpu.keysToRomAddress := by
    refine execute_of_decode (i := .flow .keysToRomAddress) ?_
    simp only [Instruction.decode, hwoodstock]
    rfl
  have haWord : cpu.execute 0o220 = cpu.aToRomAddress := by
    refine execute_of_decode (i := .flow .aToRomAddress) ?_
    simp only [Instruction.decode, hwoodstock]
    rfl
  have hstart : StartsPage cpu.pc.page := Address.startsPage_page hpc
  refine ⟨?_, (settlePage { cpu with pc := cpu.pc.page + cpu.keyboard.code }).pc, ?_, ?_, ?_⟩
  · rw [haWord, hkeysWord, keysToRomAddress_eq hpc hcode, aToRomAddress_eq hpage hcode hdigits]
  · rw [hkeysWord, keysToRomAddress_eq hpc hcode, settlePage_eq]
  · rw [cpu.settlePage_add hstart hcode]
    exact (cpu.settlePage_startsPage hstart).add_mod hcode
  · intro hnumber
    exact settlePage_jumpTarget hnumber hcode rfl rfl rfl

/-- A select of page 4, in the second bank. -/
theorem computed_jumps_agree_select :
    let cpu := { (new .hp67 ⟨#[]⟩).setRegister .a (Register.zero.splice ⟨1, 2⟩ [0xc, 0x3]) with
      pc := 0x1a7f, romNumber := 4, flags := { (new .hp67 ⟨#[]⟩).flags with delayedRom := true },
      keyboard := { (new .hp67 ⟨#[]⟩).keyboard with code := 0x3c } }
    cpu.execute 0o220 = cpu.execute 0o20 ∧ (cpu.execute 0o20).cpu.pc = 0x143c := by
  intro cpu
  obtain ⟨hagree, pc, hkeys, -, htarget⟩ :=
    computed_jumps_agree cpu rfl (by decide) (by decide) (by decide) (by decide)
  refine ⟨hagree, ?_⟩
  rw [hkeys]
  exact (htarget (by decide)).trans (by decide)

end Processor

end Calculator
