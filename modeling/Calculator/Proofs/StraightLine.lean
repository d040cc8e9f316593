/-
# Straight lines

A Woodstock with two banks counts its program counter on within the bank, and so an instruction that
transfers no control stays in its bank, and a run of such instructions goes round in it.  This is true
of the first bank.  The end of the second one is the end of the image too, and there the program
counter starts again from zero, in the other bank (`bank_wraps`).
-/
import Calculator.Proofs.Fault
import Calculator.Proofs.History
import Calculator.Proofs.Paging

namespace Calculator

/-- Whether the instruction transfers control on a Woodstock, if it finds the carry given.  A branch is
taken without a carry. -/
def Instruction.transfers (carry : Bool) : Instruction → Bool
  | .arithmetic op _ => op.isTest
  | .status (.branchIf _ _) | .pointer (.branchIf _ _) => true
  | .flow (.branch _) => !carry
  | .flow (.call _) | .flow .return | .flow .romChecksum | .flow (.selectRom _) => true
  | .flow .keysToRomAddress | .flow .aToRomAddress | .flow .bankSwitch => true
  | _ => false

namespace Processor

/-- The second processor comes from the first one by so many instructions, none of which transfers
control. -/
inductive Straight : Nat → Processor → Processor → Prop
  | start (cpu : Processor) : Straight 0 cpu cpu
  | tick {n word : Nat} {i : Instruction} {cpu last : Processor} (hi : cpu.Executes word i)
      (hline : i.transfers cpu.flags.carry = false) (h : Straight n cpu.tick.cpu last) :
      Straight (n + 1) cpu last

variable {cpu last : Processor} {i : Instruction} {n word : Nat}

/-! ## 1. One instruction -/

theorem run_pc (htransfers : i.transfers cpu.flags.prevCarry = false) (hnut : i.movesNut = false) :
    (cpu.run i).cpu.pc = cpu.pc := by
  have hframe : Component.pc ∉ i.footprint → (cpu.run i).cpu.pc = cpu.pc := cpu.run_changesOnly i .pc
  cases i with
  | arithmetic op field =>
    have htest : op.isTest = false := htransfers
    simp only [run, runArithmetic]
    split
    · rfl
    · rename_i s _
      rw [if_neg (by simp [htest])]
      exact cpu.applyArithmetic_changesOnly op s .pc (by cases op <;> simp)
  | flow x =>
    cases x with
    | branch target =>
      have hcarry : cpu.flags.prevCarry = true := by simpa [Instruction.transfers] using htransfers
      simp only [run, runFlow, hcarry]
      rfl
    | returnIf | branchBy | longBranch | goToC => cases hnut
    | delayedSelectRom | pushC | popC => exact hframe (by simp)
    | _ => cases htransfers
  | status x =>
    cases x with
    | branchIf => cases htransfers
    | _ => exact hframe (by simp)
  | pointer x =>
    cases x with
    | branchIf => cases htransfers
    | _ => exact hframe (by simp)
  | digit x =>
    cases x with
    | loadImmediate => cases hnut
    | _ => exact hframe (by simp)
  | control x =>
    cases x with
    | powerOff => cases hnut
    | _ => exact hframe (by simp)
  | nop => rfl
  | move x | data x | card x | printer x => exact hframe (by cases x <;> simp [RegisterName.all])

/-- A tick that transfers no control goes on to the next word, also if it fails. -/
theorem Executes.pc_of_transfers (hi : cpu.Executes word i) (hfamily : cpu.hardware.family ≠ .nut)
    (htransfers : i.transfers cpu.flags.carry = false) :
    cpu.tick.cpu.pc = cpu.hardware.next cpu.pc := by
  have hnut : i.movesNut = false := by
    cases hmoves : i.movesNut with
    | false => rfl
    | true => exact absurd (Instruction.family_of_decode hi.decode_eq hmoves) hfamily
  rw [hi.tick_eq.1, ← ready_pc]
  exact run_pc (cpu.ready_prevCarry.symm ▸ htransfers) hnut

/-! ## 2. Two banks -/

/-- The processor is a Woodstock with two banks. -/
structure TwoBanks (cpu : Processor) : Prop where
  family_eq : cpu.hardware.family = .woodstock
  romSize_eq : cpu.hardware.romSize = 0x2000

/-- After the last word of either bank comes the first word of the first one. -/
theorem TwoBanks.next_eq (h : cpu.TwoBanks) (hpc : cpu.pc < 0x2000) :
    cpu.hardware.next cpu.pc = if cpu.pc % 0x1000 = 0xfff then 0 else cpu.pc + 1 := by
  have hother : cpu.hardware.family ≠ .classic := by simp [h.family_eq]
  rw [Hardware.next_of_banked hother (Nat.le_of_eq h.romSize_eq), h.romSize_eq]
  unfold Address at *
  split <;> split <;> omega

theorem TwoBanks.next_lt (h : cpu.TwoBanks) (hpc : cpu.pc < 0x2000) :
    cpu.hardware.next cpu.pc < 0x2000 := by
  rw [h.next_eq hpc]
  unfold Address at *
  split <;> omega

theorem TwoBanks.tick (h : cpu.TwoBanks) : cpu.tick.cpu.TwoBanks := by
  have hagrees : Component.model.Agrees cpu cpu.tick.cpu := cpu.tick_agrees (by simp [hostOwned])
  have hmodel : cpu.tick.cpu.model = cpu.model := hagrees
  have hhardware : cpu.tick.cpu.hardware = cpu.hardware := congrArg Model.hardware hmodel
  exact ⟨hhardware ▸ h.family_eq, hhardware ▸ h.romSize_eq⟩

/-- Where a straight line of `n` instructions from `pc` ends: as many offsets on in the same bank, or
in the first bank once the line has gone past the end of the second one. -/
structure EndsAt (pc n last : Nat) : Prop where
  offset : last % 0x1000 = (pc % 0x1000 + n) % 0x1000
  bank : last / 0x1000 = if pc + n < 0x2000 then pc / 0x1000 else 0

theorem endsAt_zero {pc : Nat} (hpc : pc < 0x2000) : EndsAt pc 0 pc where
  offset := by omega
  bank := (if_pos hpc).symm

/-- The offset and the bank make up the address. -/
theorem EndsAt.eq {pc last : Nat} (h : EndsAt pc n last) :
    last = 0x1000 * (if pc + n < 0x2000 then pc / 0x1000 else 0) + (pc % 0x1000 + n) % 0x1000 := by
  rw [← h.bank, ← h.offset]
  exact (Nat.div_add_mod last 0x1000).symm

/-- A step and a line make a longer line. -/
theorem EndsAt.step {pc last : Nat} (hpc : pc < 0x2000)
    (h : EndsAt (if pc % 0x1000 = 0xfff then 0 else pc + 1) n last) : EndsAt pc (n + 1) last := by
  by_cases hend : pc % 0x1000 = 0xfff
  · rw [if_pos hend] at h
    have hoffset := h.offset
    refine ⟨by omega, h.bank.trans ?_⟩
    split <;> split <;> omega
  · rw [if_neg hend] at h
    have hoffset := h.offset
    refine ⟨by omega, h.bank.trans ?_⟩
    split <;> split <;> omega

theorem Straight.endsAt (h : Straight n cpu last) (hbanks : cpu.TwoBanks) (hpc : cpu.pc < 0x2000) :
    EndsAt cpu.pc n last.pc := by
  induction h with
  | start cpu => exact endsAt_zero hpc
  | @tick n word i cpu last hi hline h ih =>
    have hnext := hi.pc_of_transfers (by simp [hbanks.family_eq]) hline
    refine EndsAt.step hpc ?_
    rw [← hbanks.next_eq hpc, ← hnext]
    exact ih hbanks.tick (hnext ▸ hbanks.next_lt hpc)

/-- A blank image is a straight line of every length. -/
theorem exists_straight_of_blank (hbanks : cpu.TwoBanks) (hpc : cpu.pc < 0x2000)
    (hrunning : cpu.isRunning = true) (hrom : cpu.rom = .blank 0x2000) (n : Nat) :
    ∃ last, Straight n cpu last := by
  induction n generalizing cpu with
  | zero => exact ⟨cpu, .start cpu⟩
  | succ n ih =>
    have hnop : cpu.Executes 0 .nop :=
      ⟨hrunning, by simp [hrom, Rom.word?, Rom.blank, hpc], decode_zero _⟩
    have hpc_eq : cpu.tick.cpu.pc = cpu.hardware.next cpu.pc :=
      hnop.pc_of_transfers (by simp [hbanks.family_eq]) rfl
    have htick : cpu.tick.cpu = { cpu.ready with opcode := 0 } := by
      rw [hnop.tick_eq.1]
      rfl
    obtain ⟨last, h⟩ := ih hbanks.tick (hpc_eq ▸ hbanks.next_lt hpc)
      (htick ▸ cpu.ready_isRunning.trans hrunning) (htick ▸ cpu.ready_rom.trans hrom)
    exact ⟨last, .tick hnop rfl h⟩

/-- **Advancing keeps to the bank, save at the end of the second one**, on every Woodstock with two
banks.  There the first word of the image comes next, so that the offset starts again and the bank does
not stay.  An instruction that transfers no control advances once and goes nowhere else, and the two
together say where any run of such instructions ends. -/
theorem bank_wraps (hfamily : cpu.hardware.family = .woodstock)
    (hsize : cpu.hardware.romSize = 0x2000) (hpc : cpu.pc < 0x2000) :
    EndsAt cpu.pc 1 cpu.advance.pc ∧
    (∀ word i, cpu.Executes word i → i.transfers cpu.flags.carry = false →
      cpu.tick.cpu.pc = cpu.advance.pc) ∧
    (∀ n last, Straight n cpu last → EndsAt cpu.pc n last.pc) := by
  have hbanks : cpu.TwoBanks := ⟨hfamily, hsize⟩
  refine ⟨?_, fun word i hi hline => ?_, fun n last h => h.endsAt hbanks hpc⟩
  · refine EndsAt.step hpc ?_
    rw [← hbanks.next_eq hpc]
    exact endsAt_zero (hbanks.next_lt hpc)
  · exact hi.pc_of_transfers (by simp [hfamily]) hline

/-- Two nops from the last word of either bank lead to the second word of the first one. -/
theorem bank_wraps_nops :
    ∃ first second, Straight 2 { new .hp29c (.blank 0x2000) with pc := 0xfff } first ∧
      EndsAt 0xfff 2 first.pc ∧ first.pc = 1 ∧
      Straight 2 { new .hp29c (.blank 0x2000) with pc := 0x1fff } second ∧
      EndsAt 0x1fff 2 second.pc ∧ second.pc = 1 := by
  obtain ⟨first, hfirst⟩ :
      ∃ last, Straight 2 { new .hp29c (.blank 0x2000) with pc := 0xfff } last :=
    exists_straight_of_blank ⟨rfl, rfl⟩ (by decide) rfl rfl 2
  obtain ⟨second, hsecond⟩ :
      ∃ last, Straight 2 { new .hp29c (.blank 0x2000) with pc := 0x1fff } last :=
    exists_straight_of_blank ⟨rfl, rfl⟩ (by decide) rfl rfl 2
  have hend := (bank_wraps rfl rfl (by decide)).2.2 2 first hfirst
  have hend' := (bank_wraps rfl rfl (by decide)).2.2 2 second hsecond
  exact ⟨first, second, hfirst, hend, hend.eq, hsecond, hend', hend'.eq⟩

/-- From the last word of the second bank advancing leads to the first one. -/
theorem bank_left_at_end :
    ¬∀ cpu : Processor, cpu.hardware.family = .woodstock → cpu.hardware.romSize = 0x2000 →
      cpu.pc < 0x2000 → cpu.advance.pc % 0x1000 = (cpu.pc % 0x1000 + 1) % 0x1000 ∧
        cpu.advance.pc / 0x1000 = cpu.pc / 0x1000 := by
  intro hkeeps
  cases (hkeeps { new .hp29c (.blank 0) with pc := 0x1fff } rfl rfl (by decide)).2

end Processor

end Calculator
