/-
# Delayed selects

A delayed select names a ROM and waits.  The next jump within a page takes it: the jump goes to its
own offset in the page that was named, and the select is done with.  Everything else leaves it
waiting (`select_waits`), and only another delayed select puts a new number in its place.

There are four such jumps, each with its own way to put the address together: a call, a branch that
is taken, and the computed jumps to the key code and to two digits of `a`.  `run_pageJump` says that
all of them lead to the same place, and `delayed_select` what comes of that in every tick.
-/
import Calculator.Proofs.Digits
import Calculator.Proofs.Paging

namespace Calculator

/-! ## 1. Jumps within a page -/

/-- The offset of a jump within the page, if the instruction is one and the jump is taken. -/
def Instruction.pageJump? (cpu : Processor) : Instruction → Option Nat
  | .flow (.call target) => some target
  | .flow (.branch target) => if cpu.flags.prevCarry then none else some target
  | .flow .keysToRomAddress => some cpu.keyboard.code
  | .flow .aToRomAddress => some ((cpu.register .a).digit 2 * 0x10 + (cpu.register .a).digit 1)
  | _ => none

/-- The first chip answers in the first bank alone. -/
def Address.settled (a : Address) : Address := if a < firstChipEnd then a % 0x1000 else a

/-- The act leaves a select waiting: it takes no jump within the page, it makes no other select, and
it is neither a call nor a reset by the host. -/
def Act.LeavesSelect (cpu : Processor) (a : Act) : Prop :=
  (a = .tick → ∀ word i, cpu.Executes word i →
    i.pageJump? cpu.ready = none ∧ ∀ number, i ≠ .flow (.delayedSelectRom number)) ∧
  a ≠ .reset ∧ ∀ target, a ≠ .call target

namespace Processor

/-- Where a jump to an offset leads: to the page that a pending select has named, or else within the
page of the program counter. -/
def jumpTarget (cpu : Processor) (offset : Nat) : Address :=
  Address.settled <|
    (if cpu.flags.delayedRom then cpu.pc.bank + cpu.romNumber * 0x100 else cpu.pc.page) + offset

/-- What a tick does with a delayed select, when it executes the instruction and succeeds. -/
structure HonoursSelect (cpu : Processor) (i : Instruction) : Prop where
  /-- A select that waits is done with exactly when a jump within the page is taken. -/
  clears : cpu.flags.delayedRom = true →
    (cpu.tick.cpu.flags.delayedRom = false ↔ (i.pageJump? cpu.ready).isSome)
  /-- The jump goes to its own offset in the page that was named.  The bank is that of the address
  after the jump, save for the first chip. -/
  selected : cpu.flags.delayedRom = true → ∀ offset, i.pageJump? cpu.ready = some offset →
    cpu.tick.cpu.pc % 0x100 = offset ∧
    cpu.tick.cpu.pc / 0x100 % 0x10 = cpu.romNumber ∧
    cpu.tick.cpu.pc / 0x1000 =
      if cpu.ready.pc.bank + cpu.romNumber * 0x100 + offset < Address.firstChipEnd then 0
      else cpu.ready.pc / 0x1000
  /-- Another delayed select puts its own number in place of the one that waits. -/
  replaced : ∀ number, i = .flow (.delayedSelectRom number) →
    cpu.tick.cpu.flags.delayedRom = true ∧ cpu.tick.cpu.romNumber = number
  /-- Every other instruction leaves the select as it is, waiting or not. -/
  kept : i.pageJump? cpu.ready = none → (∀ number, i ≠ .flow (.delayedSelectRom number)) →
    cpu.tick.cpu.flags.delayedRom = cpu.flags.delayedRom ∧ cpu.tick.cpu.romNumber = cpu.romNumber
  /-- No jump within the page ends in the part of the second bank that belongs to the first chip,
  whether a select waits or not. -/
  firstChip : ∀ offset, i.pageJump? cpu.ready = some offset →
    ¬(Address.bankBit ≤ cpu.tick.cpu.pc ∧ cpu.tick.cpu.pc < Address.firstChipEnd)

variable {cpu : Processor} {i : Instruction}

/-! ## 2. Where a jump leads -/

theorem settled_firstChip (a : Address) :
    ¬(Address.bankBit ≤ a.settled ∧ a.settled < Address.firstChipEnd) := by
  unfold Address.settled Address.bankBit Address.firstChipEnd
  unfold Address at *
  split <;> omega

/-- An offset within a page may as well be added to a page that is settled already. -/
theorem settled_add {page : Address} (hpage : page % 0x100 = 0) {offset : Nat}
    (hoffset : offset < 0x100) : (page + offset).settled = page.settled + offset := by
  unfold Address.settled Address.firstChipEnd
  unfold Address at *
  split <;> split <;> omega

theorem jumpTarget_add {offset : Nat} (hoffset : offset < 0x100) :
    cpu.jumpTarget offset = cpu.jumpTarget 0 + offset := by
  refine settled_add ?_ hoffset
  unfold Address.bank Address.page
  unfold Address at *
  split <;> omega

/-- The bits of the address that a pending select leads to. -/
theorem jumpTarget_bits (hpending : cpu.flags.delayedRom = true) (hnumber : cpu.romNumber < 0x10)
    {offset : Nat} (hoffset : offset < 0x100) :
    cpu.jumpTarget offset % 0x100 = offset ∧
    cpu.jumpTarget offset / 0x100 % 0x10 = cpu.romNumber ∧
    cpu.jumpTarget offset / 0x1000 =
      if cpu.pc.bank + cpu.romNumber * 0x100 + offset < Address.firstChipEnd then 0
      else cpu.pc / 0x1000 := by
  unfold jumpTarget Address.settled Address.bank Address.firstChipEnd
  unfold Address at *
  rw [if_pos hpending]
  split <;> omega

/-- Settling the page takes an offset within the page to the target of the jump.  A jump may have
done other things on the way. -/
theorem settlePage_jumpTarget {cpu' : Processor} (hnumber : cpu.romNumber < 0x10) {offset : Nat}
    (hoffset : offset < 0x100) (hpc : cpu'.pc = cpu.pc.page + offset)
    (hflags : cpu'.flags = cpu.flags) (hkept : cpu'.romNumber = cpu.romNumber) :
    cpu'.settlePage.pc = cpu.jumpTarget offset := by
  have hselect : cpu'.takeSelect.pc =
      (if cpu.flags.delayedRom then cpu.pc.bank + cpu.romNumber * 0x100 else cpu.pc.page)
        + offset := by
    rw [takeSelect_pc (hkept ▸ hnumber), hpc, hflags, hkept]
    unfold Address.bank Address.page
    unfold Address at *
    split <;> omega
  rw [settlePage_pc, hselect]
  rfl

theorem settlePage_delayedRom (cpu : Processor) : cpu.settlePage.flags.delayedRom = false := by
  have hselect : cpu.takeSelect.flags.delayedRom = false := by
    unfold takeSelect
    split
    · rfl
    · simpa using ‹¬cpu.flags.delayedRom = true›
  unfold settlePage
  dsimp only
  split <;> exact hselect

/-! ## 3. One instruction -/

/-- What the jumps within a page rely on. -/
structure JumpsFit (cpu : Processor) : Prop where
  family_ne : cpu.hardware.family ≠ .nut
  pc_lt : cpu.pc < cpu.hardware.romSize
  romNumber_lt : cpu.romNumber < 0x10
  code_lt : cpu.keyboard.code < 0x100
  digit_lt : ∀ k, (cpu.register .a).digit k < 0x10

theorem jumpTarget_lt (h : cpu.JumpsFit) : cpu.jumpTarget 0 < 0x8000 := by
  have hpc := h.pc_lt
  have hsize := cpu.model.romSize_pages.2
  have hnumber := h.romNumber_lt
  unfold hardware at hpc
  unfold jumpTarget Address.settled Address.bank Address.page
  unfold Address at *
  split <;> split <;> omega

/-- **A jump within the page leads to its target and leaves no select behind.** -/
theorem run_pageJump (h : cpu.JumpsFit) (hfits : i.Fits cpu.hardware) {offset : Nat}
    (hjump : i.pageJump? cpu = some offset) :
    offset < 0x100 ∧ (cpu.run i).cpu.pc = cpu.jumpTarget offset ∧
      (cpu.run i).cpu.flags.delayedRom = false := by
  cases i with
  | flow x =>
    cases x with
    | call target =>
      cases hjump
      have htarget : offset < 0x100 := hfits
      refine ⟨htarget, ?_⟩
      simp only [run, runFlow, Outcome.done, call]
      split
      · exact absurd ‹_› h.family_ne
      · rw [Nat.mod_eq_of_lt htarget]
        exact ⟨settlePage_jumpTarget h.romNumber_lt htarget rfl rfl rfl, settlePage_delayedRom _⟩
    | branch target =>
      have htarget : target < 0x100 := hfits
      simp only [Instruction.pageJump?] at hjump
      split at hjump
      · cases hjump
      · cases hjump
        refine ⟨htarget, ?_⟩
        simp only [run, runFlow, Outcome.done]
        rw [if_neg ‹_›, Address.page_or _ htarget]
        exact ⟨settlePage_jumpTarget h.romNumber_lt htarget rfl rfl rfl, settlePage_delayedRom _⟩
    | keysToRomAddress =>
      cases hjump
      have hcode := h.code_lt
      refine ⟨hcode, ?_⟩
      have hlt := jumpTarget_lt h
      have hstart : (settlePage { cpu with pc := cpu.pc.page }).pc = cpu.jumpTarget 0 :=
        settlePage_jumpTarget h.romNumber_lt (by decide) (Nat.add_zero _).symm rfl rfl
      have hkept : (settlePage { cpu with pc := cpu.pc.page }).keyboard.code = cpu.keyboard.code :=
        changesOnly_settlePage _ .keyCode (by simp)
      simp only [run, runFlow, Outcome.done, keysToRomAddress]
      rw [hstart, hkept, jumpTarget_add hcode]
      refine ⟨?_, settlePage_delayedRom _⟩
      unfold Address at *
      omega
    | aToRomAddress =>
      cases hjump
      have hdigits := h.digit_lt 1
      have hdigits' := h.digit_lt 2
      have hoffset : (cpu.register .a).digit 2 * 0x10 + (cpu.register .a).digit 1 < 0x100 := by omega
      refine ⟨hoffset, ?_⟩
      have hinside : cpu.pc.page + (cpu.register .a).digit 2 * 0x10 + (cpu.register .a).digit 1
          < cpu.hardware.romSize := by
        have hpc := h.pc_lt
        have hsize := cpu.model.romSize_pages.1
        unfold hardware at *
        unfold Address.page
        unfold Address at *
        omega
      simp only [run, runFlow, aToRomAddress]
      rw [if_pos hinside]
      exact ⟨settlePage_jumpTarget h.romNumber_lt hoffset (Nat.add_assoc _ _ _) rfl rfl,
        settlePage_delayedRom _⟩
    | _ => cases hjump
  | _ => cases hjump

/-- Any other instruction leaves the select as it is, unless it is another delayed select. -/
theorem run_keepsSelect (hfamily : cpu.hardware.family ≠ .nut) (hfits : i.Fits cpu.hardware)
    (hjump : i.pageJump? cpu = none) (hselect : ∀ number, i ≠ .flow (.delayedSelectRom number)) :
    (cpu.run i).cpu.flags.delayedRom = cpu.flags.delayedRom ∧
      (cpu.run i).cpu.romNumber = cpu.romNumber := by
  have hframe : Component.delayedRom ∉ i.footprint ∧ Component.romNumber ∉ i.footprint →
      (cpu.run i).cpu.flags.delayedRom = cpu.flags.delayedRom ∧
        (cpu.run i).cpu.romNumber = cpu.romNumber :=
    fun h => ⟨cpu.run_changesOnly i .delayedRom h.1, cpu.run_changesOnly i .romNumber h.2⟩
  cases i with
  | flow x =>
    cases x with
    | call | keysToRomAddress | aToRomAddress => cases hjump
    | branch target =>
      simp only [Instruction.pageJump?] at hjump
      split at hjump
      · simp only [run, runFlow]
        rw [if_pos ‹_›]
        exact ⟨rfl, rfl⟩
      · cases hjump
    | delayedSelectRom number => exact absurd rfl (hselect number)
    | longBranch low => exact absurd hfits.2 hfamily
    | _ => exact hframe (by simp)
  | nop => exact hframe (by simp)
  | arithmetic x _ | move x | digit x | status x | pointer x | data x | control x | card x
  | printer x => exact hframe (by cases x <;> simp [RegisterName.all])

/-! ## 4. Classic parts

There is no bank to leave there, so that nothing but a select leads out of the page. -/

/-- A test that goes on to an address stays in the page. -/
theorem testAndGo_page (hclassic : cpu.hardware.family = .classic) (hrom : cpu.rom.TenBit)
    (t : Bool) : (cpu.testAndGo t).cpu.pc / 0x100 = cpu.pc / 0x100 := by
  unfold testAndGo
  dsimp only
  split
  · split
    · rfl
    · rename_i target hfetch
      have htarget : target / 4 < 0x100 := Nat.div_lt_of_lt_mul (hrom.lt (word?_of_fetch hfetch))
      split
      · show (cpu.pc.page ||| target / 4) / 0x100 = cpu.pc / 0x100
        rw [Address.page_or _ htarget, Address.page_add _ htarget]
      · rename_i hne
        exact absurd hclassic hne
  · exact Hardware.next_page hclassic cpu.pc

theorem runArithmetic_page (hclassic : cpu.hardware.family = .classic) (hrom : cpu.rom.TenBit)
    (op : ArithmeticOp) (field : Field) :
    (cpu.runArithmetic op field).cpu.pc / 0x100 = cpu.pc / 0x100 := by
  unfold runArithmetic
  split
  · rfl
  · rename_i s _
    have hframe := cpu.applyArithmetic_changesOnly op s
    have hmodel : (cpu.applyArithmetic op s).model = cpu.model :=
      hframe .model (by cases op <;> simp)
    have himage : (cpu.applyArithmetic op s).rom = cpu.rom := hframe .rom (by cases op <;> simp)
    have hpc : (cpu.applyArithmetic op s).pc = cpu.pc := hframe .pc (by cases op <;> simp)
    have hfamily : (cpu.applyArithmetic op s).hardware.family = .classic := by
      rw [hardware, hmodel]
      exact hclassic
    rw [← hpc]
    dsimp only
    split
    · exact testAndGo_page hfamily (himage ▸ hrom) _
    · rfl

theorem ret_page (hclassic : cpu.hardware.family = .classic) :
    cpu.ret.pc / 0x100 = cpu.pc / 0x100 := by
  have hpc : cpu.ret.pc = cpu.pc.page + cpu.stack.top % 0x100 := by
    simp only [ret, hclassic]
  rw [hpc]
  exact Address.page_add _ (Nat.mod_lt _ (by decide))

/-- Without a select to take, a jump within the page stays there. -/
theorem jumpTarget_page (hpc : cpu.pc < 0x1000) (hno : ¬cpu.flags.delayedRom = true) {offset : Nat}
    (hoffset : offset < 0x100) : cpu.jumpTarget offset / 0x100 = cpu.pc / 0x100 := by
  unfold jumpTarget Address.settled Address.page
  unfold Address at *
  rw [if_neg hno]
  split <;> omega

/-- A Classic part stays in its page, unless its instruction selects another or carries out a
select. -/
theorem run_page (h : cpu.JumpsFit) (hclassic : cpu.hardware.family = .classic)
    (hpc : cpu.pc < 0x1000) (hrom : cpu.rom.TenBit) (hfits : i.Fits cpu.hardware)
    (hpower : i ≠ .control .powerOff) (hselect : ∀ number, i ≠ .flow (.selectRom number))
    (hwaits : cpu.flags.delayedRom = true → i.pageJump? cpu = none) :
    (cpu.run i).cpu.pc / 0x100 = cpu.pc / 0x100 := by
  -- the jumps within the page all end in `jumpTarget`; what is left differs from one to the next
  cases hjump : i.pageJump? cpu with
  | some offset =>
    obtain ⟨hoffset, htarget, -⟩ := run_pageJump h hfits hjump
    rw [htarget]
    refine jumpTarget_page hpc ?_ hoffset
    intro hwaiting
    rw [hwaits hwaiting] at hjump
    cases hjump
  | none =>
    have hframe : Component.pc ∉ i.footprint → (cpu.run i).cpu.pc / 0x100 = cpu.pc / 0x100 :=
      fun hno => congrArg (· / 0x100) (cpu.run_changesOnly i .pc hno)
    cases i with
    | arithmetic op field => exact runArithmetic_page hclassic hrom op field
    | digit x =>
      cases x with
      | loadImmediate =>
        simp only [run, runDigit]
        split
        · rfl
        · rename_i word _
          have hput := cpu.changesOnly_putFrom .c 0 (wordDigits word)
          have hmodel : (cpu.putFrom .c 0 (wordDigits word)).model = cpu.model := hput .model (by simp)
          have hpc : (cpu.putFrom .c 0 (wordDigits word)).pc = cpu.pc := hput .pc (by simp)
          simp only [Outcome.done, advance, hardware, hmodel, hpc]
          exact Hardware.next_page hclassic cpu.pc
      | _ => exact hframe (by simp)
    | status x =>
      cases x with
      | branchIf bit value => exact testAndGo_page hclassic hrom _
      | _ => exact hframe (by simp)
    | pointer x =>
      cases x with
      | branchIf value equal => exact testAndGo_page hclassic hrom _
      | _ => exact hframe (by simp)
    | flow x =>
      cases x with
      | call | keysToRomAddress | aToRomAddress => cases hjump
      | branch target =>
        simp only [Instruction.pageJump?] at hjump
        split at hjump
        · simp only [run, runFlow]
          rw [if_pos ‹_›]
          rfl
        · cases hjump
      | «return» => exact ret_page hclassic
      | romChecksum =>
        have hbit : (cpu.setBit 5 false).hardware.family = .classic := hclassic
        exact ret_page hbit
      | selectRom number => exact absurd rfl (hselect number)
      | bankSwitch => exact absurd (hclassic.symm.trans hfits) (by decide)
      | longBranch low => exact absurd hfits.2 h.family_ne
      | returnIf _ | branchBy _ _ | goToC => exact absurd hfits h.family_ne
      | _ => exact hframe (by simp)
    | control x =>
      cases x with
      | powerOff => exact absurd rfl hpower
      | _ => exact hframe (by simp)
    | nop => exact hframe (by simp)
    | move x | data x | card x | printer x => exact hframe (by cases x <;> simp [RegisterName.all])

/-! ## 5. Every tick -/

/-- A select names one of sixteen pages. -/
def NamesPage (cpu : Processor) : Prop := cpu.romNumber < 0x10

theorem namesPage_dependsOn : DependsOn NamesPage [.romNumber] := by
  intro cpu cpu' hagree h
  have hnumber : cpu'.romNumber = cpu.romNumber := hagree .romNumber (by simp)
  unfold NamesPage
  rw [hnumber]
  exact h

theorem NamesPage.run (hfits : i.Fits cpu.hardware)
    (htouch : ∃ c ∈ [Component.romNumber], c ∈ i.footprint) : (cpu.run i).cpu.NamesPage := by
  cases i with
  | flow x =>
    cases x with
    | delayedSelectRom number =>
      have hpages : cpu.hardware.pages ≤ 0x10 := by
        unfold Hardware.pages
        split <;> decide
      exact Nat.lt_of_lt_of_le hfits.1 hpages
    | _ => simp at htouch
  | nop => simp at htouch
  | arithmetic x _ | move x | digit x | status x | pointer x | data x | control x | card x
  | printer x => cases x <;> simp [RegisterName.all] at htouch

theorem namesPage_invariant (allowed : Processor → Act → Prop) : Invariant allowed NamesPage := by
  refine .of_dependsOn namesPage_dependsOn (by simp) (by simp)
    (fun _ _ hfits htouch _ => NamesPage.run hfits htouch) ?_ ?_ ?_
  · intro cpu a _ htouch h
    cases a with
    | arithmetic op s => cases op <;> simp [Act.footprint] at htouch
    | _ => simp [Act.footprint] at htouch
  · intro cpu h
    unfold NamesPage reset
    dsimp only
    split
    · exact h
    · decide
  · exact fun v _ htouch _ => absurd htouch (Slot.component_not_mem (by simp [Component.unsaved]) _)

theorem namesPage_new (model : Model) (rom : Rom) : (new model rom).NamesPage :=
  (namesPage_invariant fun _ _ => True).reset (by decide : 0 < 0x10)

/-- In an image of the right size, a processor that has fetched a word is ready for any jump. -/
theorem jumpsFit_ready {model : Model} {rom : Rom} {allowed : Processor → Act → Prop}
    (hfamily : model.hardware.family ≠ .nut) (hrom : rom.TenBit)
    (hsize : rom.size = model.hardware.romSize) (h : Reaches allowed (new model rom) cpu)
    {word : Nat} (hword : cpu.rom.word? cpu.pc = some word) : cpu.ready.JumpsFit := by
  obtain ⟨hmodel, himage⟩ := h.model_rom
  obtain rfl : cpu.model = model := hmodel
  obtain rfl : cpu.rom = rom := himage
  have hframe := cpu.changesOnly_ready
  have hpc : cpu.pc < cpu.hardware.romSize :=
    Nat.lt_of_lt_of_eq (Array.getElem?_eq_some_iff.mp hword).1 hsize
  have hdigits := digitsFit_of_reaches hrom h
  have hnumber := (namesPage_invariant allowed).of_reaches hrom (namesPage_new _ _) h
  constructor
  · rw [ready_hardware]
    exact hfamily
  · rw [ready_hardware, ready_pc]
    exact Hardware.next_lt_romSize (Model.romSize_pages _).1 hpc
  · rw [show cpu.ready.romNumber = cpu.romNumber from hframe .romNumber (by simp)]
    exact hnumber
  · rw [show cpu.ready.keyboard.code = cpu.keyboard.code from hframe .keyCode (by simp)]
    exact hdigits.code_lt
  · rw [show cpu.ready.register .a = cpu.register .a from hframe (.register .a) (by simp)]
    exact hdigits.register .a

/-- Whatever is executed honours the select. -/
theorem honoursSelect_of_executes {word : Nat} (h : cpu.ready.JumpsFit)
    (hfits : i.Fits cpu.ready.hardware)
    (hcpu : cpu.tick.cpu = { (cpu.ready.run i).cpu with opcode := word }) :
    cpu.HonoursSelect i := by
  have hpc : cpu.tick.cpu.pc = (cpu.ready.run i).cpu.pc := by rw [hcpu]
  have hflag : cpu.tick.cpu.flags.delayedRom = (cpu.ready.run i).cpu.flags.delayedRom := by rw [hcpu]
  have hnumber : cpu.tick.cpu.romNumber = (cpu.ready.run i).cpu.romNumber := by rw [hcpu]
  have hflag₀ : cpu.ready.flags.delayedRom = cpu.flags.delayedRom :=
    cpu.changesOnly_ready .delayedRom (by simp)
  have hnumber₀ : cpu.ready.romNumber = cpu.romNumber := cpu.changesOnly_ready .romNumber (by simp)
  have hreplaced : ∀ number, i = .flow (.delayedSelectRom number) →
      cpu.tick.cpu.flags.delayedRom = true ∧ cpu.tick.cpu.romNumber = number := by
    rintro number rfl
    rw [hflag, hnumber]
    exact ⟨rfl, rfl⟩
  have hkept : i.pageJump? cpu.ready = none → (∀ number, i ≠ .flow (.delayedSelectRom number)) →
      cpu.tick.cpu.flags.delayedRom = cpu.flags.delayedRom ∧
        cpu.tick.cpu.romNumber = cpu.romNumber := by
    intro hjump hselect
    rw [hflag, hnumber, ← hflag₀, ← hnumber₀]
    exact run_keepsSelect h.family_ne hfits hjump hselect
  refine ⟨?_, ?_, hreplaced, hkept, ?_⟩
  · intro hpending
    constructor
    · intro hcleared
      cases hjump : i.pageJump? cpu.ready with
      | some offset => rfl
      | none =>
        by_cases hselect : ∃ number, i = .flow (.delayedSelectRom number)
        · obtain ⟨number, hi⟩ := hselect
          rw [(hreplaced number hi).1] at hcleared
          cases hcleared
        · rw [(hkept hjump fun number hi => hselect ⟨number, hi⟩).1, hpending] at hcleared
          cases hcleared
    · intro hsome
      obtain ⟨offset, hjump⟩ := Option.isSome_iff_exists.mp hsome
      rw [hflag]
      exact (run_pageJump h hfits hjump).2.2
  · intro hpending offset hjump
    obtain ⟨hoffset, htarget, -⟩ := run_pageJump h hfits hjump
    rw [hpc, htarget, ← hnumber₀]
    exact jumpTarget_bits (hflag₀.trans hpending) h.romNumber_lt hoffset
  · intro offset hjump
    obtain ⟨-, htarget, -⟩ := run_pageJump h hfits hjump
    rw [hpc, htarget]
    exact settled_firstChip _

/-- A Classic part that leaves its page has selected another, or has carried out a select. -/
theorem leavesPage_of_executes {word : Nat} (h : cpu.ready.JumpsFit)
    (hclassic : cpu.hardware.family = .classic) (hrom : cpu.rom.TenBit)
    (hi : cpu.Executes word i)
    (hcpu : cpu.tick.cpu = { (cpu.ready.run i).cpu with opcode := word })
    (hpage : cpu.tick.cpu.pc / 0x100 ≠ cpu.pc / 0x100) :
    (∃ number, i = .flow (.selectRom number)) ∨
      cpu.flags.delayedRom = true ∧ (i.pageJump? cpu.ready).isSome := by
  by_cases hselect : ∃ number, i = .flow (.selectRom number)
  · exact .inl hselect
  · refine .inr ?_
    by_cases hwaits : cpu.flags.delayedRom = true ∧ (i.pageJump? cpu.ready).isSome
    · exact hwaits
    · have hready : cpu.ready.hardware.family = .classic := by
        rw [ready_hardware]
        exact hclassic
      have hpc : cpu.ready.pc < 0x1000 := by
        have hlt := h.pc_lt
        rw [hardware, Model.romSize_of_classic hready] at hlt
        unfold Address at *
        omega
      have hpower : i ≠ .control .powerOff := by
        rintro rfl
        rw [Instruction.family_of_decode_powerOff hi.decode_eq] at hclassic
        cases hclassic
      have hflag : cpu.ready.flags.delayedRom = cpu.flags.delayedRom :=
        cpu.changesOnly_ready .delayedRom (by simp)
      have hstays : (cpu.ready.run i).cpu.pc / 0x100 = cpu.ready.pc / 0x100 := by
        refine run_page h hready hpc (cpu.ready_rom ▸ hrom) ?_ hpower
          (fun number hnumber => hselect ⟨number, hnumber⟩) ?_
        · rw [ready_hardware]
          exact hi.fits hrom
        · intro hpending
          simpa using fun hsome => hwaits ⟨hflag ▸ hpending, hsome⟩
      have hsame : cpu.tick.cpu.pc / 0x100 = cpu.pc / 0x100 := by
        rw [hcpu]
        exact hstays.trans (by rw [ready_pc, Hardware.next_page hclassic])
      exact absurd hsame hpage

/-- **A delayed select waits for the next jump within a page**, which takes it; and on a Classic part
nothing but a select leads from one page to another. -/
theorem delayed_select {model : Model} {rom : Rom} {allowed : Processor → Act → Prop}
    (hfamily : model.hardware.family ≠ .nut) (hrom : rom.TenBit)
    (hsize : rom.size = model.hardware.romSize) (h : Reaches allowed (new model rom) cpu)
    (hrunning : cpu.isRunning = true) :
    (cpu.tick.fault = none → ∃ word i, cpu.Executes word i ∧ cpu.HonoursSelect i) ∧
    (model.hardware.family = .classic → cpu.tick.cpu.pc / 0x100 ≠ cpu.pc / 0x100 →
      ∃ word i, cpu.Executes word i ∧
        ((∃ number, i = .flow (.selectRom number)) ∨
          cpu.flags.delayedRom = true ∧ (i.pageJump? cpu.ready).isSome)) := by
  obtain ⟨hmodel, himage⟩ := h.model_rom
  have hhardware : cpu.hardware = model.hardware := congrArg Model.hardware hmodel
  have htenbit : cpu.rom.TenBit := by
    rw [himage]
    exact hrom
  rcases tick_cases cpu with ⟨hhalted, -⟩ | ⟨-, -, heq⟩ | ⟨word, e, -, -, -, hcpu, hfault⟩ |
    ⟨word, i, hi, hcpu, -⟩
  · rw [hrunning] at hhalted
    cases hhalted
  · constructor
    · intro hok
      rw [heq] at hok
      cases hok
    · intro _ hpage
      rw [heq] at hpage
      exact absurd (congrArg (· / 0x100) cpu.latchInputs_pc) hpage
  · constructor
    · intro hok
      rw [hfault] at hok
      cases hok
    · intro hclassic hpage
      have hpc : cpu.tick.cpu.pc = cpu.ready.pc := by rw [hcpu]
      rw [hpc, ready_pc, hhardware] at hpage
      exact absurd (Hardware.next_page hclassic cpu.pc) hpage
  · have hfit := jumpsFit_ready hfamily hrom hsize h hi.word_eq
    have hfits : i.Fits cpu.ready.hardware := by
      rw [ready_hardware]
      exact hi.fits htenbit
    refine ⟨fun _ => ⟨word, i, hi, honoursSelect_of_executes hfit hfits hcpu⟩, ?_⟩
    intro hclassic hpage
    exact ⟨word, i, hi, leavesPage_of_executes hfit (hhardware ▸ hclassic) htenbit hi hcpu hpage⟩

/-- A call in page 0 of a Classic part, after a delayed select of page 3. -/
theorem delayed_select_call :
    let cpu := (new .hp45 (((Rom.blank 0x800).put 0 0o764).put 1 0o201)).perform .tick
    cpu.flags.delayedRom = true ∧ cpu.tick.fault = none ∧
      ∃ word i, cpu.Executes word i ∧ cpu.HonoursSelect i := by
  have hrom : (((Rom.blank 0x800).put 0 0o764).put 1 0o201).TenBit :=
    ((Rom.tenBit_blank 0x800).put 0 _).put 1 _
  have hsize : (((Rom.blank 0x800).put 0 0o764).put 1 0o201).size = Model.hp45.hardware.romSize := by
    rw [Rom.size_put, Rom.size_put, Rom.size_blank]
    rfl
  have hpending : ((new .hp45 (((Rom.blank 0x800).put 0 0o764).put 1 0o201)).perform
      .tick).flags.delayedRom = true := by decide +kernel
  have hok : ((new .hp45 (((Rom.blank 0x800).put 0 0o764).put 1 0o201)).perform
      .tick).tick.fault = none := by decide +kernel
  have hreaches : Reaches (fun _ a => a = .tick)
      (new .hp45 (((Rom.blank 0x800).put 0 0o764).put 1 0o201)) _ := .act .tick .start rfl
  exact ⟨hpending, hok, (delayed_select (by decide) hrom hsize hreaches (by decide +kernel)).1 hok⟩

/-! ## 6. Histories -/

theorem tick_leavesSelect (hfamily : cpu.hardware.family ≠ .nut) (hrom : cpu.rom.TenBit)
    (ha : Act.LeavesSelect cpu .tick) :
    cpu.tick.cpu.flags.delayedRom = cpu.flags.delayedRom ∧ cpu.tick.cpu.romNumber = cpu.romNumber := by
  have hready := cpu.changesOnly_ready
  have hlatch := cpu.changesOnly_latchInputs
  refine tick_preserves (motive := fun cpu' =>
    cpu'.flags.delayedRom = cpu.flags.delayedRom ∧ cpu'.romNumber = cpu.romNumber) ⟨rfl, rfl⟩
    (fun _ => ⟨hlatch .delayedRom (by simp), hlatch .romNumber (by simp)⟩)
    (fun _ => ⟨hready .delayedRom (by simp), hready .romNumber (by simp)⟩) ?_ (fun _ _ h => h)
  intro word i hi h
  obtain ⟨hjump, hselect⟩ := ha.1 rfl word i hi
  have hkept := run_keepsSelect (by rwa [ready_hardware]) (by rw [ready_hardware]; exact hi.fits hrom)
    hjump hselect
  exact ⟨hkept.1.trans h.1, hkept.2.trans h.2⟩

/-- **A select waits as long as it takes**: whatever happens in between, the jump that takes it finds
it as it was made. -/
theorem select_waits {start : Processor} (hfamily : start.hardware.family ≠ .nut)
    (hrom : start.rom.TenBit) (h : Reaches Act.LeavesSelect start cpu) :
    cpu.flags.delayedRom = start.flags.delayedRom ∧ cpu.romNumber = start.romNumber := by
  refine h.invariant (motive := fun cpu => cpu.flags.delayedRom = start.flags.delayedRom ∧
    cpu.romNumber = start.romNumber) ⟨rfl, rfl⟩ ?_
  intro cpu a hcpu ha ih
  have hmodel : cpu.model = start.model := hcpu.model_rom.1
  have himage : cpu.rom = start.rom := hcpu.model_rom.2
  have hfamily' : cpu.hardware.family ≠ .nut := by
    rw [hardware, hmodel]
    exact hfamily
  have hframe : ∀ {cs cpu'}, ChangesOnly cs cpu cpu' → .delayedRom ∉ cs → .romNumber ∉ cs →
      cpu'.flags.delayedRom = start.flags.delayedRom ∧ cpu'.romNumber = start.romNumber :=
    fun hchange hflag hnumber =>
      ⟨Eq.trans (hchange .delayedRom hflag) ih.1, Eq.trans (hchange .romNumber hnumber) ih.2⟩
  cases a with
  | tick =>
    have hkept := tick_leavesSelect hfamily' (himage ▸ hrom) ha
    exact ⟨hkept.1.trans ih.1, hkept.2.trans ih.2⟩
  | reset => exact absurd rfl ha.2.1
  | call target => exact absurd rfl (ha.2.2 target)
  | restore bytes =>
    exact hframe (Record.read_changesOnly_memory hfamily' bytes) (by simp) (by simp)
  | arithmetic op s =>
    exact hframe (cpu.applyArithmetic_changesOnly op s) (by cases op <;> simp)
      (by cases op <;> simp)
  | press _ | release | wake | setProgram _ | setTimer _ | setTrace _ | setPrintMode _
  | takePrinted | ret =>
    exact hframe (cpu.perform_changesOnly rfl) (by simp [Act.footprint]) (by simp [Act.footprint])

end Processor

end Calculator
