/-
# Addresses have sixteen bits

Wherever the processor keeps an address, the address has sixteen bits (`wordsFit_of_reaches`): where
an instruction puts one together it keeps as many bits as there is room for, or the parts it takes
have too few of them to ask for more.
-/
import Calculator.Proofs.Digits

namespace Calculator

/-! ## 1. Addresses -/

/-- The next address of a part has as many bits. -/
theorem Hardware.next_lt (hw : Hardware) {pc : Address} (h : pc < 0x10000) :
    hw.next pc < 0x10000 := by
  unfold next Address.page Address.bank
  unfold Address at *
  split
  · omega
  · split <;> omega

/-- Four digits make an address. -/
theorem Register.FourBit.address_lt {r : Register} (h : r.FourBit) (lo : Nat) :
    r.address lo < 0x10000 := by
  have h₀ := h lo
  have h₁ := h (lo + 1)
  have h₂ := h (lo + 2)
  have h₃ := h (lo + 3)
  unfold address
  omega

namespace Processor

/-! ## 2. The invariant -/

/-- Every address of the processor has sixteen bits, and so has the number of a pending select. -/
structure WordsFit (cpu : Processor) : Prop where
  pc_lt : cpu.pc < 0x10000
  last_lt : cpu.last < 0x10000
  stack_lt : ∀ a ∈ cpu.stack.cells, a < 0x10000
  dataAddress_lt : cpu.dataAddress < 0x10000
  romNumber_lt : cpu.romNumber < 0x10000

variable {cpu : Processor}

/-- What jumps, and changes no other address. -/
theorem WordsFit.jump {cs : List Component} {cpu' : Processor} (h : cpu.WordsFit)
    (hchange : ChangesOnly cs cpu cpu')
    (hdisj : ∀ c ∈ [Component.last, .stack, .dataAddress, .romNumber], c ∉ cs)
    (hpc : cpu'.pc < 0x10000) : cpu'.WordsFit := by
  have hlast : cpu'.last = cpu.last := hchange .last (hdisj _ (by simp))
  have hstack : cpu'.stack = cpu.stack := hchange .stack (hdisj _ (by simp))
  have hdata : cpu'.dataAddress = cpu.dataAddress := hchange .dataAddress (hdisj _ (by simp))
  have hnumber : cpu'.romNumber = cpu.romNumber := hchange .romNumber (hdisj _ (by simp))
  refine ⟨hpc, ?_, ?_, ?_, ?_⟩
  · rw [hlast]
    exact h.last_lt
  · rw [hstack]
    exact h.stack_lt
  · rw [hdata]
    exact h.dataAddress_lt
  · rw [hnumber]
    exact h.romNumber_lt

theorem WordsFit.frame {cs : List Component} {cpu' : Processor} (h : cpu.WordsFit)
    (hchange : ChangesOnly cs cpu cpu')
    (hdisj : ∀ c ∈ [Component.pc, .last, .stack, .dataAddress, .romNumber], c ∉ cs) :
    cpu'.WordsFit := by
  have hpc : cpu'.pc = cpu.pc := hchange .pc (hdisj _ (by simp))
  refine h.jump hchange (fun c hc => hdisj c (List.mem_cons_of_mem _ hc)) ?_
  rw [hpc]
  exact h.pc_lt

theorem WordsFit.at_pc (h : cpu.WordsFit) {a : Address} (ha : a < 0x10000) :
    ({ cpu with pc := a } : Processor).WordsFit :=
  h.jump (cpu.changesOnly_pc a) (by simp) ha

theorem WordsFit.at_dataAddress (h : cpu.WordsFit) {n : Nat} (hn : n < 0x10000) :
    ({ cpu with dataAddress := n } : Processor).WordsFit :=
  ⟨h.pc_lt, h.last_lt, h.stack_lt, hn, h.romNumber_lt⟩

/-! ## 3. Jumping -/

theorem WordsFit.advance (h : cpu.WordsFit) : cpu.advance.WordsFit :=
  h.jump cpu.changesOnly_advance (by simp) (cpu.hardware.next_lt h.pc_lt)

theorem WordsFit.takeSelect_lt (h : cpu.WordsFit) : cpu.takeSelect.pc < 0x10000 := by
  have hpc := h.pc_lt
  unfold takeSelect
  split
  · refine Nat.or_lt_two_pow (n := 16) (Nat.mod_lt _ (by decide)) ?_
    unfold Address.bank
    unfold Address at *
    omega
  · exact hpc

theorem WordsFit.settlePage (h : cpu.WordsFit) : cpu.settlePage.WordsFit := by
  refine h.jump cpu.changesOnly_settlePage (by simp) ?_
  have hselect := h.takeSelect_lt
  unfold Processor.settlePage
  dsimp only
  split
  · exact Nat.lt_of_le_of_lt (Nat.mod_le _ _) hselect
  · exact hselect

theorem WordsFit.page_add_lt (h : cpu.WordsFit) {offset : Nat} (hoffset : offset < 0x100) :
    cpu.pc.page + offset < 0x10000 := by
  have hpc := h.pc_lt
  unfold Address.page
  unfold Address at *
  omega

theorem WordsFit.page_lt (h : cpu.WordsFit) : cpu.pc.page < 0x10000 :=
  Nat.lt_of_le_of_lt (Nat.div_mul_le_self _ _) h.pc_lt

/-- An offset laid over the page of the program counter. -/
theorem WordsFit.page_or_lt (h : cpu.WordsFit) {offset : Nat} (hoffset : offset < 0x10000) :
    cpu.pc.page ||| offset < 0x10000 :=
  Nat.or_lt_two_pow (n := 16) h.page_lt hoffset

theorem WordsFit.push (h : cpu.WordsFit) {a : Address} (ha : a < 0x10000) :
    ({ cpu with stack := cpu.stack.push a } : Processor).WordsFit := by
  refine ⟨h.pc_lt, h.last_lt, ?_, h.dataAddress_lt, h.romNumber_lt⟩
  intro b hb
  rcases ReturnStack.mem_or_eq_of_mem_push hb with hold | rfl
  · exact h.stack_lt b hold
  · exact ha

theorem WordsFit.pop (h : cpu.WordsFit) :
    ({ cpu with stack := cpu.stack.pop } : Processor).WordsFit :=
  ⟨h.pc_lt, h.last_lt, h.stack_lt, h.dataAddress_lt, h.romNumber_lt⟩

theorem WordsFit.call (h : cpu.WordsFit) {target : Address} (htarget : target < 0x10000) :
    (cpu.call target).WordsFit := by
  have hpushed := h.push h.pc_lt
  unfold Processor.call
  dsimp only
  split
  · exact hpushed.at_pc htarget
  · exact (hpushed.at_pc (h.page_add_lt (Nat.mod_lt target (by decide)))).settlePage

theorem WordsFit.ret (h : cpu.WordsFit) : cpu.ret.WordsFit := by
  refine h.pop.at_pc ?_
  split
  · exact h.page_add_lt (Nat.mod_lt _ (by decide))
  · exact h.stack_lt _ cpu.stack.top_mem

/-- The word after a test is an address, if it has ten bits. -/
theorem WordsFit.testAndGo (h : cpu.WordsFit) (hrom : cpu.rom.TenBit) (t : Bool) :
    (cpu.testAndGo t).cpu.WordsFit := by
  refine h.jump (cpu.changesOnly_testAndGo t) (by simp) ?_
  unfold Processor.testAndGo
  dsimp only
  split
  · split
    · exact h.pc_lt
    · rename_i target hfetch
      have htarget : target < 0x400 := hrom.lt (word?_of_fetch hfetch)
      have hpc := h.pc_lt
      split
      · exact h.page_or_lt (by omega)
      · refine Nat.or_lt_two_pow (n := 16) ?_ ?_
        · unfold Address at *
          omega
        · omega
  · exact cpu.hardware.next_lt h.pc_lt

theorem WordsFit.longBranch (h : cpu.WordsFit) {low : Address} (hlow : low < 0x100) :
    (cpu.longBranch low).cpu.WordsFit := by
  have hnext : (cpu.setCarry cpu.flags.prevCarry).advance.WordsFit :=
    (h.frame (cpu.changesOnly_setCarry _) (by simp)).advance
  unfold Processor.longBranch
  split
  · exact h
  · rename_i second _
    have htarget : low ||| second / 4 % 0x100 * 0x100 < 0x10000 := by
      refine Nat.or_lt_two_pow (n := 16) ?_ ?_
      · unfold Address at *
        omega
      · unfold Address
        omega
    dsimp only
    repeat' split
    · exact hnext
    · exact hnext.call htarget
    · exact hnext
    · exact hnext.at_pc htarget

/-! ## 4. One instruction -/

theorem WordsFit.runFlow (h : cpu.WordsFit) (hdigits : cpu.DigitsFit) {x : FlowOp}
    (hfits : (Instruction.flow x).Fits cpu.hardware) : (cpu.runFlow x).cpu.WordsFit := by
  have hc := hdigits.register .c
  cases x with
  | call target => exact h.call (Nat.lt_trans hfits (by decide))
  | «return» => exact h.ret
  | returnIf carry =>
    simp only [Processor.runFlow]
    split
    · exact h.ret
    · exact h
  | branch target =>
    simp only [Processor.runFlow]
    split
    · exact h
    · exact (h.at_pc (h.page_or_lt (Nat.lt_trans hfits (by decide)))).settlePage
  | branchBy offset carry =>
    simp only [Processor.runFlow]
    split
    · refine h.at_pc ?_
      unfold Address
      omega
    · exact h
  | longBranch low => exact h.longBranch hfits.1
  | selectRom number =>
    refine h.at_pc ?_
    unfold Address
    omega
  | delayedSelectRom number =>
    refine ⟨h.pc_lt, h.last_lt, h.stack_lt, h.dataAddress_lt, ?_⟩
    have hpages : cpu.hardware.pages ≤ 0x10 := by
      unfold Hardware.pages
      split <;> decide
    exact Nat.lt_of_lt_of_le hfits.1 (Nat.le_trans hpages (by decide))
  | keysToRomAddress => exact (h.at_pc h.page_lt).settlePage.at_pc (Nat.mod_lt _ (by decide))
  | aToRomAddress =>
    simp only [Processor.runFlow, Processor.aToRomAddress]
    have hsize : cpu.hardware.romSize ≤ 0x10000 := by
      unfold hardware
      cases cpu.model <;> decide
    split
    · exact (h.at_pc (Nat.lt_of_lt_of_le ‹_› hsize)).settlePage
    · exact (h.at_pc h.page_lt).settlePage
  | bankSwitch =>
    refine h.jump (cpu.run_changesOnly (.flow .bankSwitch)) (by simp) ?_
    exact Nat.xor_lt_two_pow (n := 16) h.pc_lt (by decide)
  | romChecksum =>
    have hbit : (cpu.setBit 5 false).WordsFit := h.frame (cpu.changesOnly_setBit 5 false) (by simp)
    exact hbit.ret
  | goToC => exact h.at_pc (hc.address_lt 3)
  | pushC => exact h.push (hc.address_lt 3)
  | popC => exact h.pop.frame (changesOnly_setRegister _ .c _) (by simp)

theorem WordsFit.selectClamped (h : cpu.WordsFit) (n : Nat) : (cpu.selectClamped n).cpu.WordsFit := by
  have hsize : cpu.hardware.memorySize ≤ 0x10000 := by
    unfold hardware
    cases cpu.model <;> decide
  unfold Processor.selectClamped
  dsimp only
  split
  · exact h.at_dataAddress (by omega)
  · exact h.at_dataAddress (by omega)

/-- A block of sixteen begins at a multiple of sixteen. -/
theorem WordsFit.selectInBlock (h : cpu.WordsFit) {n : Nat} (hn : n < 0x10) :
    (cpu.selectInBlock n).WordsFit := by
  have hdata := h.dataAddress_lt
  unfold Processor.selectInBlock
  split
  · exact h.at_dataAddress (Nat.or_lt_two_pow (n := 16) (by omega) (by omega))
  · exact h.at_dataAddress (by omega)

theorem WordsFit.runData (h : cpu.WordsFit) {x : DataOp}
    (hfits : (Instruction.data x).Fits cpu.hardware) : (cpu.runData x).cpu.WordsFit := by
  have hframe := cpu.runData_changesOnly x
  cases x with
  | selectFromC =>
    simp only [Processor.runData, Processor.selectFromC]
    split
    · exact h.selectClamped _
    · split
      · exact h.at_dataAddress (by decide)
      · exact h.selectClamped _
    · exact h.at_dataAddress (by omega)
  | storeAt n => exact (h.selectInBlock hfits).frame (changesOnly_store _) (by simp)
  | loadAt n =>
    simp only [Processor.runData, Processor.loadAt]
    split
    · split
      · exact h.frame cpu.changesOnly_readKey (by simp)
      · exact h
    · exact (h.selectInBlock hfits).frame (changesOnly_setRegister _ .c _) (by simp)
  | _ => exact h.frame hframe (by simp)

theorem WordsFit.runArithmetic (h : cpu.WordsFit) (hrom : cpu.rom.TenBit) (op : ArithmeticOp)
    (field : Field) : (cpu.runArithmetic op field).cpu.WordsFit := by
  unfold Processor.runArithmetic
  split
  · exact h
  · rename_i s _
    have happly : (cpu.applyArithmetic op s).WordsFit :=
      h.frame (cpu.applyArithmetic_changesOnly op s) (by cases op <;> simp)
    have himage : (cpu.applyArithmetic op s).rom = cpu.rom :=
      cpu.applyArithmetic_changesOnly op s .rom (by cases op <;> simp)
    dsimp only
    split
    · exact happly.testAndGo (himage ▸ hrom) _
    · exact happly

/-- **An instruction puts no address together that has more than sixteen bits.** -/
theorem WordsFit.run (h : cpu.WordsFit) (hdigits : cpu.DigitsFit) (hrom : cpu.rom.TenBit)
    {i : Instruction} (hfits : i.Fits cpu.hardware) : (cpu.run i).cpu.WordsFit := by
  have hframe := cpu.run_changesOnly i
  cases i with
  | nop => exact h
  | arithmetic op field => exact h.runArithmetic hrom op field
  | digit x =>
    cases x with
    | loadImmediate =>
      simp only [Processor.run, runDigit]
      split
      · exact h
      · rename_i word _
        exact (h.frame (cpu.changesOnly_putFrom .c 0 (wordDigits word)) (by simp)).advance
    | _ => exact h.frame hframe (by simp)
  | status x =>
    cases x with
    | branchIf bit value => exact h.testAndGo hrom _
    | _ => exact h.frame hframe (by simp)
  | pointer x =>
    cases x with
    | branchIf value equal => exact h.testAndGo hrom _
    | _ => exact h.frame hframe (by simp)
  | flow x => exact h.runFlow hdigits hfits
  | data x => exact h.runData hfits
  | control x =>
    cases x with
    | powerOff =>
      refine h.jump hframe (by simp) ?_
      simp only [Processor.run, runControl, powerOff]
      split <;> exact (by decide : 0 < 0x10000)
    | _ => exact h.frame hframe (by simp)
  | move x | card x | printer x => exact h.frame hframe (by cases x <;> simp)

/-! ## 5. Every history -/

theorem WordsFit.assign (h : cpu.WordsFit) (slot : Slot) (v : Nat) :
    (slot.assign cpu v).WordsFit := by
  refine h.frame (slot.assign_changesOnly cpu v) ?_
  intro c hc hslot
  exact slot.component_not_mem (by simp [Component.unsaved]) (List.mem_singleton.mp hslot ▸ hc)

theorem WordsFit.small (h : cpu.WordsFit) {a : Act} (ha : a.isSmall = true) :
    (cpu.perform a).WordsFit := by
  cases a with
  | call target => exact h.call target.toNat_lt
  | ret => exact h.ret
  | arithmetic op s =>
    exact h.frame (cpu.applyArithmetic_changesOnly op s) (by cases op <;> simp)
  | tick | reset | restore _ => cases ha
  | _ => exact h.frame (cpu.perform_changesOnly rfl) (by simp [Act.footprint])

theorem WordsFit.reset (h : cpu.WordsFit) : cpu.reset.WordsFit := by
  have hzero : 0 < 0x10000 := by decide
  refine ⟨hzero, hzero, ?_, hzero, ?_⟩
  · intro a ha
    rw [Vector.eq_of_mem_replicate ha]
    exact hzero
  · show (if cpu.hardware.family = .nut then cpu.romNumber else 0) < 0x10000
    split
    · exact h.romNumber_lt
    · exact hzero

/-- Addresses that are taken from digits rely on the digits. -/
theorem wordsFit_invariant (allowed : Processor → Act → Prop) :
    Invariant allowed fun cpu => cpu.DigitsFit ∧ cpu.WordsFit where
  latchInputs h :=
    ⟨(digitsFit_invariant allowed).latchInputs h.1, h.2.frame (changesOnly_latchInputs _) (by simp)⟩
  fetched h := by
    refine ⟨(digitsFit_invariant allowed).fetched h.1, ?_⟩
    exact WordsFit.advance ⟨h.2.pc_lt, h.2.pc_lt, h.2.stack_lt, h.2.dataAddress_lt, h.2.romNumber_lt⟩
  run ha hi hfits hrom h :=
    ⟨(digitsFit_invariant allowed).run ha hi hfits hrom h.1, h.2.run h.1 hrom hfits⟩
  opcode word h :=
    ⟨(digitsFit_invariant allowed).opcode word h.1, h.2.frame (changesOnly_opcode _ word) (by simp)⟩
  small a ha h := ⟨(digitsFit_invariant allowed).small a ha h.1, h.2.small ha⟩
  reset h := ⟨h.1.reset, h.2.reset⟩
  assign v hslot h := ⟨(digitsFit_invariant allowed).assign v hslot h.1, h.2.assign _ v⟩

theorem wordsFit_new (model : Model) (rom : Rom) : (new model rom).WordsFit := by
  have hzero : 0 < 0x10000 := by decide
  refine WordsFit.reset ⟨hzero, hzero, ?_, hzero, hzero⟩
  intro a ha
  rw [Vector.eq_of_mem_replicate ha]
  exact hzero

/-- **All addresses have sixteen bits all the time.** -/
theorem wordsFit_of_reaches {model : Model} {rom : Rom} {allowed : Processor → Act → Prop}
    (hrom : rom.TenBit) (h : Reaches allowed (new model rom) cpu) : cpu.WordsFit :=
  ((wordsFit_invariant allowed).of_reaches hrom
    ⟨digitsFit_new model rom, wordsFit_new model rom⟩ h).2

end Processor

end Calculator
