/-
# The program counter stays within the image

On the parts whose image fills all that their addresses can name, no history leads the program
counter out of the image.  The invariant is `Contained`: it couples the program counter with the
return stack, the ROM that a pending select has named and the key code, from each of which a jump
can take its target.  `run_contained` is the step of one instruction, `tick_contained` that of a
tick, and `pc_contained` the main statement over all histories.
-/
import Calculator.Proofs.Fault
import Calculator.Proofs.History
import Calculator.Proofs.Paging

namespace Calculator

/-! ## 1. The parts and the invariant -/

/-- The parts whose image fills eight pages, a bank or both banks. -/
def Hardware.IsFull (hw : Hardware) : Prop :=
  hw.family = .classic ∧ hw.romSize = 0x800 ∨
    hw.family = .woodstock ∧ (hw.romSize = 0x1000 ∨ hw.romSize = 0x2000)

theorem Hardware.IsFull.family_ne_nut {hw : Hardware} (h : hw.IsFull) : hw.family ≠ .nut := by
  rcases h with ⟨hfamily, -⟩ | ⟨hfamily, -⟩ <;> rw [hfamily] <;> decide

/-- The size of a full image is a power of two. -/
theorem Hardware.IsFull.isPowerOfTwo {hw : Hardware} (h : hw.IsFull) : hw.romSize.isPowerOfTwo := by
  rcases h with ⟨-, h⟩ | ⟨-, h | h⟩
  · exact ⟨11, h⟩
  · exact ⟨12, h⟩
  · exact ⟨13, h⟩

theorem Hardware.IsFull.or_lt {hw : Hardware} (h : hw.IsFull) {a b : Address}
    (ha : a < hw.romSize) (hb : b < hw.romSize) : a ||| b < hw.romSize := by
  obtain ⟨k, hk⟩ := h.isPowerOfTwo
  rw [hk] at ha hb ⊢
  exact Nat.or_lt_two_pow ha hb

theorem Hardware.IsFull.pages_le {hw : Hardware} (h : hw.IsFull) :
    hw.pages ≤ 0x10 ∧ hw.pages * 0x100 ≤ hw.romSize := by
  unfold Hardware.pages
  rcases h with ⟨hfamily, hsize⟩ | ⟨hfamily, hsize⟩
  · simp only [hfamily]
    omega
  · simp only [hfamily]
    omega

theorem Hardware.IsFull.next_lt {hw : Hardware} (h : hw.IsFull) {pc : Address}
    (hpc : pc < hw.romSize) : hw.next pc < hw.romSize := by
  refine Hardware.next_lt_romSize ?_ hpc
  rcases h with ⟨-, hsize⟩ | ⟨-, hsize⟩ <;> omega

/-- The act does not execute a bank switch. -/
def Act.KeepsBank (cpu : Processor) (a : Act) : Prop :=
  a = .tick → ∀ word, ¬cpu.Executes word (.flow .bankSwitch)

/-- A word that means something else rules a bank switch out. -/
theorem Processor.Executes.keepsBank {cpu : Processor} {word : Nat} {i : Instruction}
    (hi : cpu.Executes word i) (hne : i ≠ .flow .bankSwitch) (a : Act) : a.KeepsBank cpu := by
  intro _ word' hswitch
  obtain rfl := Option.some.inj (hi.word_eq.symm.trans hswitch.word_eq)
  exact hne (Except.ok.inj (hi.decode_eq.symm.trans hswitch.decode_eq))

namespace Processor

variable {cpu : Processor}

/-- Every place from which the program counter is loaded holds an address within the image, or a
part of one. -/
structure Contained (cpu : Processor) : Prop where
  pc_lt : cpu.pc < cpu.hardware.romSize
  stack_lt : ∀ a ∈ cpu.stack.cells, a < cpu.hardware.romSize
  romNumber_lt : cpu.romNumber < cpu.hardware.pages
  code_lt : cpu.keyboard.code < 0x100

/-- What jumps within the image, and changes nothing else that matters. -/
theorem Contained.jump {cs : List Component} {cpu' : Processor} (h : cpu.Contained)
    (hchange : ChangesOnly cs cpu cpu')
    (hdisj : ∀ c ∈ [Component.model, .stack, .romNumber, .keyCode], c ∉ cs)
    (hpc : cpu'.pc < cpu.hardware.romSize) : cpu'.Contained := by
  have hmodel : cpu'.model = cpu.model := hchange .model (hdisj _ (by simp))
  have hstack : cpu'.stack = cpu.stack := hchange .stack (hdisj _ (by simp))
  have hnumber : cpu'.romNumber = cpu.romNumber := hchange .romNumber (hdisj _ (by simp))
  have hcode : cpu'.keyboard.code = cpu.keyboard.code := hchange .keyCode (hdisj _ (by simp))
  constructor
  · rw [hardware, hmodel]
    exact hpc
  · rw [hstack, hardware, hmodel]
    exact h.stack_lt
  · rw [hnumber, hardware, hmodel]
    exact h.romNumber_lt
  · rw [hcode]
    exact h.code_lt

theorem Contained.frame {cs : List Component} {cpu' : Processor} (h : cpu.Contained)
    (hchange : ChangesOnly cs cpu cpu')
    (hdisj : ∀ c ∈ [Component.pc, .model, .stack, .romNumber, .keyCode], c ∉ cs) :
    cpu'.Contained := by
  have hpc : cpu'.pc = cpu.pc := hchange .pc (hdisj _ (by simp))
  refine h.jump hchange (fun c hc => hdisj c (List.mem_cons_of_mem _ hc)) ?_
  rw [hpc]
  exact h.pc_lt

theorem Contained.at_pc (h : cpu.Contained) {a : Address} (ha : a < cpu.hardware.romSize) :
    ({ cpu with pc := a } : Processor).Contained :=
  h.jump (cpu.changesOnly_pc a) (by simp) ha

/-! ## 2. Advancing and jumping -/

theorem Contained.advance (h : cpu.Contained) (hfull : cpu.hardware.IsFull) :
    cpu.advance.Contained :=
  h.jump cpu.changesOnly_advance (by simp) (hfull.next_lt h.pc_lt)

/-- The page that a select puts in, and the first chip moved to the first bank, stay inside. -/
theorem Contained.settlePage (h : cpu.Contained) (hfull : cpu.hardware.IsFull) :
    cpu.settlePage.Contained := by
  refine h.jump cpu.changesOnly_settlePage (by simp) ?_
  obtain ⟨hpages, hpagesize⟩ := hfull.pages_le
  have hnumber := h.romNumber_lt
  have hpc := h.pc_lt
  have hselect : cpu.takeSelect.pc < cpu.hardware.romSize := by
    rw [takeSelect_pc (by omega)]
    split
    · unfold Address.bank
      unfold Address at *
      rcases hfull with ⟨-, hsize⟩ | ⟨-, hsize⟩ <;> omega
    · exact hpc
  rw [settlePage_pc]
  split
  · exact Nat.lt_of_le_of_lt (Nat.mod_le _ _) hselect
  · exact hselect

theorem Contained.page_lt (h : cpu.Contained) : cpu.pc.page < cpu.hardware.romSize := by
  have hpc := h.pc_lt
  unfold Address.page
  unfold Address at *
  omega

theorem Contained.push (h : cpu.Contained) {a : Address} (ha : a < cpu.hardware.romSize) :
    ∀ b ∈ (cpu.stack.push a).cells, b < cpu.hardware.romSize := by
  intro b hb
  rcases ReturnStack.mem_or_eq_of_mem_push hb with hold | rfl
  · exact h.stack_lt b hold
  · exact ha

theorem Contained.top_lt (h : cpu.Contained) : cpu.stack.top < cpu.hardware.romSize :=
  h.stack_lt _ cpu.stack.top_mem

/-- An offset laid over the page of the program counter stays inside. -/
theorem Contained.page_or_lt (h : cpu.Contained) (hfull : cpu.hardware.IsFull) {offset : Nat}
    (hoffset : offset < 0x100) : cpu.pc.page ||| offset < cpu.hardware.romSize := by
  refine hfull.or_lt h.page_lt (Nat.lt_of_lt_of_le hoffset ?_)
  rcases hfull with ⟨-, hsize⟩ | ⟨-, hsize⟩ <;> omega

/-- The page of the program counter holds every offset. -/
theorem Contained.page_add_lt (h : cpu.Contained) (hfull : cpu.hardware.IsFull) {offset : Nat}
    (hoffset : offset < 0x100) : cpu.pc.page + offset < cpu.hardware.romSize := by
  have hpc := h.pc_lt
  unfold Address.page
  unfold Address at *
  rcases hfull with ⟨-, hsize⟩ | ⟨-, hsize⟩ <;> omega

theorem Contained.call (h : cpu.Contained) (hfull : cpu.hardware.IsFull) (target : Address) :
    (cpu.call target).Contained := by
  have hpushed : ({ cpu with
      stack := cpu.stack.push cpu.pc
      pc := cpu.pc.page + target % 0x100 } : Processor).Contained :=
    ⟨h.page_add_lt hfull (Nat.mod_lt target (by decide : 0 < 0x100)), h.push h.pc_lt,
      h.romNumber_lt, h.code_lt⟩
  unfold Processor.call
  dsimp only
  split
  · exact absurd ‹_› hfull.family_ne_nut
  · exact hpushed.settlePage hfull

theorem Contained.ret (h : cpu.Contained) (hfull : cpu.hardware.IsFull) : cpu.ret.Contained := by
  have hpc : cpu.ret.pc < cpu.hardware.romSize := by
    unfold Processor.ret
    dsimp only
    split
    · exact h.page_add_lt hfull (Nat.mod_lt _ (by decide))
    · exact h.top_lt
  exact ⟨hpc, h.stack_lt, h.romNumber_lt, h.code_lt⟩

theorem Contained.testAndGo (h : cpu.Contained) (hfull : cpu.hardware.IsFull)
    (hrom : cpu.rom.TenBit) (t : Bool) : (cpu.testAndGo t).cpu.Contained := by
  refine h.jump (cpu.changesOnly_testAndGo t) (by simp) ?_
  unfold Processor.testAndGo
  dsimp only
  split
  · split
    · exact h.pc_lt
    · rename_i target hfetch
      have htarget : target < 0x400 := hrom.lt (word?_of_fetch hfetch)
      have hpc := h.pc_lt
      split
      · have hoffset : target / 4 < 0x100 := by omega
        exact h.page_or_lt hfull hoffset
      · refine hfull.or_lt ?_ ?_
        · unfold Address at *
          omega
        · unfold Address
          rcases hfull with ⟨-, hsize⟩ | ⟨-, hsize⟩ <;> omega
  · exact hfull.next_lt h.pc_lt

/-- The key code is added to the start of a page. -/
theorem Contained.keysToRomAddress (h : cpu.Contained) (hfull : cpu.hardware.IsFull) :
    cpu.keysToRomAddress.Contained := by
  have hpaged : (Processor.settlePage { cpu with pc := cpu.pc.page }).Contained :=
    (h.at_pc h.page_lt).settlePage hfull
  unfold Processor.keysToRomAddress
  dsimp only
  generalize hsettled : Processor.settlePage { cpu with pc := cpu.pc.page } = settled at hpaged ⊢
  have hstart : settled.pc % 0x100 = 0 := by
    have hnumber : ({ cpu with pc := cpu.pc.page } : Processor).romNumber < 0x10 :=
      Nat.lt_of_lt_of_le h.romNumber_lt hfull.pages_le.1
    have hmod := settlePage_pc_mod hnumber
    rw [hsettled] at hmod
    exact hmod.trans (Nat.mul_mod_left _ _)
  have hmodel : settled.model = cpu.model :=
    hsettled ▸ changesOnly_settlePage { cpu with pc := cpu.pc.page } .model (by simp)
  have hsize : settled.hardware = cpu.hardware := congrArg Model.hardware hmodel
  have hpc := hpaged.pc_lt
  have hcode := hpaged.code_lt
  refine hpaged.at_pc ?_
  rw [hsize] at hpc ⊢
  unfold Address at *
  rcases hfull with ⟨-, hsize⟩ | ⟨-, hsize⟩ <;> omega

theorem Contained.with_code (h : cpu.Contained) {code : Nat} (hcode : code < 0x100) :
    ({ cpu with keyboard := { cpu.keyboard with code := code } } : Processor).Contained :=
  ⟨h.pc_lt, h.stack_lt, h.romNumber_lt, hcode⟩

/-- The printing model hands the key code out and forgets it. -/
theorem Contained.readKey (h : cpu.Contained) : cpu.readKey.Contained := by
  have hput := h.frame (cpu.changesOnly_putFrom .c 0
    [0, cpu.keyboard.code % 0x10, cpu.keyboard.code / 0x10]) (by simp)
  exact hput.with_code (by decide : 0 < 0x100)

/-! ## 3. One instruction -/

theorem Contained.runFlow (h : cpu.Contained) (hfull : cpu.hardware.IsFull) {x : FlowOp}
    (hfits : (Instruction.flow x).Fits cpu.hardware)
    (hbank : x = .bankSwitch → cpu.hardware.romSize ≠ 0x1000) :
    (cpu.runFlow x).cpu.Contained := by
  have hnut := hfull.family_ne_nut
  cases x with
  | call target => exact h.call hfull target
  | «return» => exact h.ret hfull
  | branch target =>
    simp only [Processor.runFlow]
    split
    · exact h
    · exact (h.at_pc (h.page_or_lt hfull hfits)).settlePage hfull
  | selectRom number =>
    refine h.at_pc ?_
    have hnumber : number < cpu.hardware.pages := hfits
    obtain ⟨hpages, hsize⟩ := hfull.pages_le
    unfold Address at *
    omega
  | delayedSelectRom number => exact ⟨h.pc_lt, h.stack_lt, hfits.1, h.code_lt⟩
  | keysToRomAddress => exact h.keysToRomAddress hfull
  | aToRomAddress =>
    simp only [Processor.runFlow, Processor.aToRomAddress]
    split
    · exact (h.at_pc ‹_›).settlePage hfull
    · exact (h.at_pc h.page_lt).settlePage hfull
  | bankSwitch =>
    refine h.jump (cpu.run_changesOnly (.flow .bankSwitch)) (by simp) ?_
    have hsize : cpu.hardware.romSize = 2 ^ 13 := by
      rcases hfull with ⟨hclassic, -⟩ | ⟨-, hsingle | hbanked⟩
      · exact absurd (hclassic.symm.trans hfits) (by decide)
      · exact absurd hsingle (hbank rfl)
      · exact hbanked
    have hswitched : cpu.pc ^^^ Address.bankBit < 2 ^ 13 :=
      Nat.xor_lt_two_pow (Nat.lt_of_lt_of_eq h.pc_lt hsize) (by decide)
    exact Nat.lt_of_lt_of_eq hswitched hsize.symm
  | romChecksum =>
    have hbit : (cpu.setBit 5 false).Contained := h.frame (cpu.changesOnly_setBit 5 false) (by simp)
    exact hbit.ret hfull
  | longBranch _ => exact absurd hfits.2 hnut
  | returnIf _ | branchBy _ _ | goToC | pushC | popC => exact absurd hfits hnut

/-- **An instruction stays within the image**, unless it switches to a bank that is not there. -/
theorem run_contained (h : cpu.Contained) (hfull : cpu.hardware.IsFull) (hrom : cpu.rom.TenBit)
    {i : Instruction} (hfits : i.Fits cpu.hardware)
    (hbank : i = .flow .bankSwitch → cpu.hardware.romSize ≠ 0x1000) :
    (cpu.run i).cpu.Contained := by
  have hframe := cpu.run_changesOnly i
  cases i with
  | nop => exact h
  | arithmetic op field =>
    simp only [run, runArithmetic]
    split
    · exact h
    · rename_i s _
      have happly : (cpu.applyArithmetic op s).Contained :=
        h.frame (cpu.applyArithmetic_changesOnly op s) (by cases op <;> simp)
      split
      · have hmodel : (cpu.applyArithmetic op s).model = cpu.model :=
          cpu.applyArithmetic_changesOnly op s .model (by cases op <;> simp)
        have himage : (cpu.applyArithmetic op s).rom = cpu.rom :=
          cpu.applyArithmetic_changesOnly op s .rom (by cases op <;> simp)
        refine happly.testAndGo ?_ ?_ _
        · rw [hardware, hmodel]
          exact hfull
        · rw [himage]
          exact hrom
      · exact happly
  | move x => exact h.frame hframe (by cases x <;> simp)
  | digit x =>
    cases x with
    | loadImmediate =>
      simp only [run, runDigit]
      split
      · exact h
      · rename_i word _
        have hput := h.frame (cpu.changesOnly_putFrom .c 0 (wordDigits word)) (by simp)
        exact hput.advance hfull
    | _ => exact h.frame hframe (by simp)
  | status x =>
    cases x with
    | branchIf bit value => exact h.testAndGo hfull hrom _
    | _ => exact h.frame hframe (by simp)
  | pointer x =>
    cases x with
    | branchIf value equal => exact h.testAndGo hfull hrom _
    | _ => exact h.frame hframe (by simp)
  | flow x => exact h.runFlow hfull hfits fun hx => hbank (congrArg _ hx)
  | data x =>
    cases x with
    | loadAt n =>
      simp only [run, runData, loadAt]
      split
      · split
        · exact h.readKey
        · exact h
      · have hblock := h.frame (cpu.changesOnly_selectInBlock n) (by simp)
        exact hblock.frame (changesOnly_setRegister _ .c _) (by simp)
    | _ => exact h.frame hframe (by simp)
  | control x =>
    cases x with
    | powerOff =>
      have hpos : 0 < cpu.hardware.romSize := Nat.lt_of_le_of_lt (Nat.zero_le _) h.pc_lt
      refine h.jump hframe (by simp) ?_
      simp only [run, runControl, powerOff]
      split <;> exact hpos
    | _ => exact h.frame hframe (by simp)
  | card x => exact h.frame hframe (by cases x <;> simp)
  | printer x => exact h.frame hframe (by cases x <;> simp)

/-! ## 4. Every act -/

theorem Contained.latchInputs (h : cpu.Contained) : cpu.latchInputs.Contained :=
  h.frame cpu.changesOnly_latchInputs (by simp)

theorem Contained.ready (h : cpu.Contained) (hfull : cpu.hardware.IsFull) :
    cpu.ready.Contained := by
  have hlatched := h.latchInputs
  have hlast : ({ cpu.latchInputs with last := cpu.latchInputs.pc } : Processor).Contained :=
    ⟨hlatched.pc_lt, hlatched.stack_lt, hlatched.romNumber_lt, hlatched.code_lt⟩
  have hhardware : cpu.latchInputs.hardware = cpu.hardware :=
    congrArg Model.hardware cpu.latchInputs_model
  exact hlast.advance (hhardware ▸ hfull)

/-- A tick stays within the image, also one that fails. -/
theorem Contained.tick (h : cpu.Contained) (hfull : cpu.hardware.IsFull) (hrom : cpu.rom.TenBit)
    (hbank : ∀ word, cpu.Executes word (.flow .bankSwitch) → cpu.hardware.romSize ≠ 0x1000) :
    cpu.tick.cpu.Contained := by
  refine tick_preserves h (fun _ => h.latchInputs) (fun _ => h.ready hfull) ?_ ?_
  · intro word i hi hready
    refine run_contained hready ?_ ?_ ?_ ?_
    · rw [ready_hardware]
      exact hfull
    · rw [ready_rom]
      exact hrom
    · rw [ready_hardware]
      exact hi.fits hrom
    · rintro rfl
      rw [ready_hardware]
      exact hbank word hi
  · exact fun cpu' word h => ⟨h.pc_lt, h.stack_lt, h.romNumber_lt, h.code_lt⟩

/-- With the program counter inside an image of full size no fetch fails. -/
theorem Contained.fault_ne_outsideRom (h : cpu.Contained) (hfull : cpu.hardware.IsFull)
    (hsize : cpu.rom.size = cpu.hardware.romSize) (a : Address) :
    cpu.tick.fault ≠ some (.outsideRom a) := by
  intro hf
  rcases tick_cases cpu with ⟨-, heq⟩ | ⟨-, hnone, -⟩ | ⟨word, e, -, -, -, -, heq⟩ |
    ⟨word, i, -, -, heq⟩
  · rw [heq] at hf
    cases hf
  · obtain ⟨word, hword⟩ := Rom.exists_word? (hsize ▸ h.pc_lt)
    rw [hword] at hnone
    cases hnone
  · rw [heq] at hf
    cases e <;> cases hf
  · obtain ⟨hnone, -⟩ := missesWord_of_run (heq ▸ hf)
    have hpc := (h.ready hfull).pc_lt
    rw [ready_hardware, ← hsize, ← ready_rom] at hpc
    obtain ⟨second, hsecond⟩ := Rom.exists_word? hpc
    rw [hsecond] at hnone
    cases hnone

theorem reset_contained (hfull : cpu.hardware.IsFull) : cpu.reset.Contained := by
  have hnut := hfull.family_ne_nut
  have hpos : 0 < cpu.hardware.romSize := by
    rcases hfull with ⟨-, hsize⟩ | ⟨-, hsize⟩ <;> omega
  refine ⟨hpos, ?_, ?_, (by decide : 0 < 0x100)⟩
  · intro a ha
    rw [Vector.eq_of_mem_replicate ha]
    exact hpos
  · have hnumber : cpu.reset.romNumber = 0 := if_neg hnut
    have hpages : 0 < cpu.hardware.pages := by
      unfold Hardware.pages
      split <;> decide
    rw [hnumber]
    exact hpages

theorem new_contained {model : Model} (hfull : model.hardware.IsFull) (rom : Rom) :
    (new model rom).Contained := by
  unfold new
  exact reset_contained hfull

theorem Contained.perform (h : cpu.Contained) (hfull : cpu.hardware.IsFull)
    (hrom : cpu.rom.TenBit) (a : Act)
    (hbank : Act.KeepsBank cpu a ∨ cpu.hardware.romSize ≠ 0x1000) :
    (cpu.perform a).Contained := by
  cases a with
  | tick =>
    refine h.tick hfull hrom ?_
    intro word hi
    rcases hbank with hkeeps | hbanked
    · exact absurd hi (hkeeps rfl word)
    · exact hbanked
  | arithmetic op s => exact h.frame (cpu.applyArithmetic_changesOnly op s) (by cases op <;> simp)
  | press code =>
    simp only [Processor.perform, press]
    split <;> exact ⟨h.pc_lt, h.stack_lt, h.romNumber_lt, code.toNat_lt⟩
  | reset => exact reset_contained hfull
  | restore bytes =>
    exact h.frame (Record.read_changesOnly_memory hfull.family_ne_nut bytes) (by simp)
  | call target => exact h.call hfull _
  | ret => exact h.ret hfull
  | release | wake | setProgram _ | setTimer _ | setTrace _ | setPrintMode _ | takePrinted =>
    exact h.frame (cpu.perform_changesOnly rfl) (by simp [Act.footprint])

/-! ## 5. Every history -/

/-- What containment means to the host: the program counter and the return stack stay below the
size of the image, and the next tick finds every word that it fetches. -/
structure IsInside (size : Nat) (cpu : Processor) : Prop where
  pc_lt : cpu.pc < size
  stack_lt : ∀ a ∈ cpu.stack.cells, a < size
  fault_ne : ∀ a, cpu.tick.fault ≠ some (.outsideRom a)

theorem isInside_of_reaches {model : Model} {rom : Rom} {allowed : Processor → Act → Prop}
    (hrom : rom.TenBit) (hsize : rom.size = model.hardware.romSize) (hfull : model.hardware.IsFull)
    (hbank : (∀ cpu a, allowed cpu a → Act.KeepsBank cpu a) ∨ model.hardware.romSize ≠ 0x1000)
    (h : Reaches allowed (new model rom) cpu) : cpu.IsInside model.hardware.romSize := by
  have hfixed : ∀ cpu, Reaches allowed (new model rom) cpu →
      cpu.hardware = model.hardware ∧ cpu.rom = rom :=
    fun cpu h => ⟨congrArg Model.hardware h.model_rom.1, h.model_rom.2⟩
  have hin : cpu.Contained := by
    refine h.invariant (new_contained hfull rom) ?_
    intro cpu a hcpu ha ih
    obtain ⟨hhardware, himage⟩ := hfixed cpu hcpu
    refine ih.perform (hhardware ▸ hfull) (himage ▸ hrom) a ?_
    rw [hhardware]
    exact hbank.imp (fun hkeeps => hkeeps cpu a ha) id
  obtain ⟨hhardware, himage⟩ := hfixed cpu h
  refine ⟨hhardware ▸ hin.pc_lt, hhardware ▸ hin.stack_lt, hin.fault_ne_outsideRom ?_ ?_⟩
  · rw [hhardware]
    exact hfull
  · rw [hhardware, himage]
    exact hsize

/-- **The program counter stays within the image.**  On a Classic part and on a Woodstock with both
banks it does so whatever happens; on a Woodstock with one full bank, as long as no instruction
switches to the other. -/
theorem pc_contained (model : Model) {rom : Rom} (hrom : rom.TenBit)
    (hsize : rom.size = model.hardware.romSize) :
    (model.hardware.family = .classic ∨
        model.hardware.family = .woodstock ∧ model.hardware.romSize = 0x2000 →
      ∀ cpu, Reaches (fun _ _ => True) (new model rom) cpu →
        cpu.IsInside model.hardware.romSize) ∧
    (model.hardware.family = .woodstock ∧ model.hardware.romSize = 0x1000 →
      ∀ cpu, Reaches Act.KeepsBank (new model rom) cpu →
        cpu.IsInside model.hardware.romSize) := by
  constructor
  · rintro (hclassic | ⟨hwoodstock, hbanked⟩) cpu h
    · have hpages : model.hardware.romSize = 0x800 := by
        cases model <;> first | rfl | cases hclassic
      exact isInside_of_reaches hrom hsize (.inl ⟨hclassic, hpages⟩) (.inr (by omega)) h
    · exact isInside_of_reaches hrom hsize (.inr ⟨hwoodstock, .inr hbanked⟩) (.inr (by omega)) h
  · rintro ⟨hwoodstock, hsingle⟩ cpu h
    exact isInside_of_reaches hrom hsize (.inr ⟨hwoodstock, .inl hsingle⟩) (.inl fun _ _ ha => ha) h

/-- A select of the last page and then a call of its last word, on each kind of part, and in the
second bank where there is one.  They lead to the last word of the image, with the return address on
the stack. -/
theorem pc_contained_call :
    let image (size : Nat) := ((Rom.blank size).put 0 0o1764).put 1 0o1775
    let banks := (((Rom.blank 0x2000).put 0 0o1060).put 0x1001 0o1764).put 0x1002 0o1775
    let classic := ((new .hp45 (image 0x800)).perform .tick).perform .tick
    let banked := (((new .hp29c banks).perform .tick).perform .tick).perform .tick
    let single := ((new .hp25 (image 0x1000)).perform .tick).perform .tick
    (classic.pc = 0x7ff ∧ classic.stack.top = 2) ∧ classic.IsInside 0x800 ∧
      (banked.pc = 0x1fff ∧ banked.stack.top = 0x1003) ∧ banked.IsInside 0x2000 ∧
      (single.pc = 0xfff ∧ single.stack.top = 2) ∧ single.IsInside 0x1000 := by
  have hrom : ∀ size, (((Rom.blank size).put 0 0o1764).put 1 0o1775).TenBit :=
    fun size => ((Rom.tenBit_blank size).put _ _).put _ _
  have hsize : ∀ size, (((Rom.blank size).put 0 0o1764).put 1 0o1775).size = size := by simp
  refine ⟨by decide +kernel, ?_, by decide +kernel, ?_, by decide +kernel, ?_⟩
  · exact (pc_contained .hp45 (hrom _) (hsize _)).1 (.inl rfl) _
      (.act .tick (.act .tick .start trivial) trivial)
  · refine (pc_contained .hp29c ?_ ?_).1 (.inr ⟨rfl, rfl⟩) _
      (.act .tick (.act .tick (.act .tick .start trivial) trivial) trivial)
    · exact (((Rom.tenBit_blank 0x2000).put _ _).put _ _).put _ _
    · simp only [Rom.size_put, Rom.size_blank]
      rfl
  · have hselect : (new .hp25 (((Rom.blank 0x1000).put 0 0o1764).put 1 0o1775)).Executes 0o1764
        (.flow (.delayedSelectRom 15)) := ⟨rfl, by decide +kernel, rfl⟩
    have hcall : ((new .hp25 (((Rom.blank 0x1000).put 0 0o1764).put 1 0o1775)).perform
        .tick).Executes 0o1775 (.flow (.call 0xff)) :=
      ⟨by decide +kernel, by decide +kernel,
        congrArg (Instruction.decode · 0o1775) (tick_hardware _)⟩
    exact (pc_contained .hp25 (hrom _) (hsize _)).2 ⟨rfl, rfl⟩ _
      (.act .tick (.act .tick .start (hselect.keepsBank nofun _)) (hcall.keepsBank nofun _))

end Processor

end Calculator
