/-
# Data addresses

A data register is selected by its address, which a program takes from the digits of `c`
(`Hardware.addressIn`) and then moves about within a block of sixteen.  How far it gets depends on
the part (`addressFit_of_reaches`), and so does which of the data registers it can reach: each of
them on every model but the HP-55, which names an address by one digit and has thirty registers
(`addresses_iff`).
-/
import Calculator.Proofs.LoadStore

namespace Calculator

/-! ## 1. What each family has -/

namespace Instruction

/-- Numbered registers are known to all but a Classic part, and a clear to a Woodstock alone. -/
def DataSuits (hw : Hardware) : Instruction → Prop
  | .data (.storeAt _) | .data (.loadAt _) => hw.family ≠ .classic
  | .data .clear => hw.family = .woodstock
  | _ => True

theorem dataSuits_of_decode {hw : Hardware} {word : Nat} {i : Instruction}
    (h : decode hw word = .ok i) : i.DataSuits hw := by
  simp only [decode] at h
  split at h
  · split at h
    · unfold Classic.special at h
      simp only [Classic.registerClass] at h
      (repeat' split at h) <;> cases h <;> trivial
    · have hother : hw.family ≠ .classic := by simp_all
      unfold Woodstock.special at h
      simp only [Woodstock.cardClass, Woodstock.registerClass, Woodstock.flowClass,
        Woodstock.printerClass, Woodstock.dataClass, Woodstock.cardDisplayClass] at h
      split at h
      -- the three classes with an operand that is looked up
      case h_10 | h_12 | h_16 =>
        obtain ⟨v, -, rfl⟩ := map_lookUp_eq_ok h
        trivial
      all_goals (repeat' split at h) <;> cases h <;> trivial
    · have hother : hw.family ≠ .classic := by simp_all
      unfold Nut.special at h
      simp only [Nut.transferClass, Nut.controlClass, Nut.memoryClass] at h
      split at h
      -- the five classes with a scrambled operand
      case h_2 | h_3 | h_4 | h_6 | h_8 =>
        rcases scrambled_eq_ok h with rfl | ⟨v, -, rfl⟩
        · trivial
        · trivial
      case h_13 =>
        obtain ⟨v, -, rfl⟩ := map_lookUp_eq_ok h
        trivial
      all_goals (repeat' split at h) <;> cases h <;> trivial
  all_goals (repeat' split at h) <;> cases h <;> trivial

end Instruction

/-- Only a Woodstock has anything to clear the data registers with. -/
theorem Processor.next?_ne_clear {cpu : Processor} (h : cpu.hardware.family ≠ .woodstock) :
    cpu.next? ≠ some (.data .clear) := by
  intro hnext
  obtain ⟨word, hi⟩ := next?_eq_some_iff.mp hnext
  exact h (Instruction.dataSuits_of_decode hi.decode_eq)

namespace Hardware

/-- How many addresses the digits of `c` can name. -/
def nameable (hw : Hardware) : Nat :=
  match hw.family with
  | .classic => 0x10
  | .woodstock => 0x100
  | .nut => 0x400

/-- The data address that the content of `c` names. -/
def addressIn (hw : Hardware) (c : Register) : Nat :=
  match hw.family with
  | .classic => c.digit 12
  | .woodstock => c.digit 1 * 0x10 + c.digit 0
  | .nut => (c.digit 2 * 0x100 + c.digit 1 * 0x10 + c.digit 0) % 0x400

/-- A content of `c` that names a data address. -/
def naming (hw : Hardware) (k : Nat) : Register :=
  match hw.family with
  | .classic => Register.zero.put 12 k
  | _ => ((Register.zero.put 2 (k / 0x100)).put 1 (k / 0x10 % 0x10)).put 0 (k % 0x10)

/-- How many values the data address can take.  A numbered access reaches any register of the block
of sixteen that is selected. -/
def addresses (hw : Hardware) : Nat :=
  match hw.family with
  | .classic => hw.memorySize
  | .woodstock =>
    if hw.peripheral = .printer then Processor.keyAddress + 1 else max 0x10 hw.memorySize
  | .nut => 0x400

variable {hw : Hardware} {k : Nat}

theorem addressIn_lt {c : Register} (hc : c.FourBit) : hw.addressIn c < hw.nameable := by
  have h₀ := hc 0
  have h₁ := hc 1
  unfold addressIn nameable
  cases hw.family with
  | classic => exact hc 12
  | woodstock =>
    dsimp only
    omega
  | nut => exact Nat.mod_lt _ (by decide)

theorem addressIn_naming (h : k < hw.nameable) : hw.addressIn (hw.naming k) = k := by
  have hdigits : ∀ x y z : Nat, let c := ((Register.zero.put 2 x).put 1 y).put 0 z
      c.digit 2 = x ∧ c.digit 1 = y ∧ c.digit 0 = z := by
    intro x y z
    refine ⟨?_, ?_, Register.digit_put _ _ _ (by decide)⟩
    · rw [Register.digit_put_of_ne _ (by decide), Register.digit_put_of_ne _ (by decide)]
      exact Register.digit_put _ _ _ (by decide)
    · rw [Register.digit_put_of_ne _ (by decide)]
      exact Register.digit_put _ _ _ (by decide)
  obtain ⟨h₂, h₁, h₀⟩ := hdigits (k / 0x100) (k / 0x10 % 0x10) (k % 0x10)
  unfold nameable at h
  unfold addressIn naming
  generalize hw.family = family at h ⊢
  cases family with
  | classic => exact Register.digit_put _ _ _ (by decide)
  | woodstock | nut =>
    simp only [h₂, h₁, h₀] at h ⊢
    omega

theorem fourBit_naming (h : k < hw.nameable) : (hw.naming k).FourBit := by
  unfold nameable at h
  unfold naming
  generalize hw.family = family at h ⊢
  cases family with
  | classic => exact Register.fourBit_zero.put 12 h
  | woodstock | nut =>
    dsimp only at h
    exact ((Register.fourBit_zero.put 2 (by omega)).put 1 (by omega)).put 0 (by omega)

end Hardware

namespace Model

variable (model : Model)

theorem memorySize_pos : 0 < model.hardware.memorySize := by cases model <;> decide

/-- The addresses of a part with numbered registers fill blocks of sixteen. -/
theorem addresses_mod (h : model.hardware.family ≠ .classic) :
    model.hardware.addresses % 0x10 = 0 := by
  cases model <;> first | rfl | exact absurd rfl h

theorem memorySize_le_addresses : model.hardware.memorySize ≤ model.hardware.addresses := by
  cases model <;> decide

theorem addresses_le : model.hardware.addresses ≤ 0x400 := by cases model <;> decide

/-- The HP-55 has more data registers than it can name. -/
theorem memorySize_le_nameable (h : model ≠ .hp55) :
    model.hardware.memorySize ≤ model.hardware.nameable := by
  cases model <;> first | decide | exact absurd rfl h

end Model

namespace Processor

variable {cpu cpu' : Processor} {i : Instruction} {k n word word' : Nat}

/-! ## 2. Selecting -/

theorem dataAddress_selectClamped_lt (cpu : Processor) (n : Nat) :
    (cpu.selectClamped n).cpu.dataAddress < cpu.hardware.memorySize := by
  have hpos : 0 < cpu.hardware.memorySize := cpu.model.memorySize_pos
  simp only [selectClamped]
  split
  · assumption
  · exact Nat.sub_lt hpos (by decide)

/-- A register that is there is selected by the address that `c` names. -/
theorem selectFromC_of_lt (h : cpu.hardware.addressIn (cpu.register .c) < cpu.hardware.memorySize) :
    cpu.selectFromC =
      .done { cpu with dataAddress := cpu.hardware.addressIn (cpu.register .c) } := by
  have hclamped : ∀ n, n < cpu.hardware.memorySize →
      cpu.selectClamped n = .done { cpu with dataAddress := n } := fun n hn => if_pos hn
  unfold Hardware.addressIn at h ⊢
  simp only [selectFromC]
  cases hfamily : cpu.hardware.family with
  | classic =>
    rw [hfamily] at h
    exact hclamped _ h
  | woodstock =>
    rw [hfamily] at h
    simp only
    split
    · rename_i hkey
      rw [hkey.2]
    · exact hclamped _ h
  | nut => rfl

/-- Selecting within a block keeps the block. -/
theorem dataAddress_selectInBlock (hn : n < 0x10) (haddress : cpu.dataAddress < 0x1000) :
    (cpu.selectInBlock n).dataAddress = cpu.dataAddress / 0x10 * 0x10 + n := by
  unfold selectInBlock
  split
  · show cpu.dataAddress % 0x1000 / 0x10 * 0x10 ||| n = _
    rw [Nat.mod_eq_of_lt haddress, Nat.mul_comm, Nat.two_pow_add_eq_or_of_lt (i := 4) hn]
  · rfl

/-! ## 3. The range of the data address -/

/-- The data address is one that the part can take. -/
def AddressFit (cpu : Processor) : Prop := cpu.dataAddress < cpu.hardware.addresses

theorem addressFit_dependsOn : DependsOn AddressFit [.model, .dataAddress] := by
  intro cpu cpu' hagree h
  have hmodel : cpu'.model = cpu.model := hagree .model (by simp)
  have haddress : cpu'.dataAddress = cpu.dataAddress := hagree .dataAddress (by simp)
  unfold AddressFit hardware
  rw [hmodel, haddress]
  exact h

theorem AddressFit.frame {cs : List Component} (h : cpu.AddressFit)
    (hchange : ChangesOnly cs cpu cpu') (hdisj : ∀ c ∈ [Component.model, .dataAddress], c ∉ cs) :
    cpu'.AddressFit :=
  hchange.preserves addressFit_dependsOn hdisj h

theorem addressFit_selectFromC (hbuilt : cpu.PrinterBuilt) : cpu.selectFromC.cpu.AddressFit := by
  have hclamped : ∀ n, (cpu.selectClamped n).cpu.AddressFit := by
    intro n
    have hmodel : (cpu.selectClamped n).cpu.model = cpu.model := by
      simp only [selectClamped]
      split <;> rfl
    unfold AddressFit hardware
    rw [hmodel]
    exact Nat.lt_of_lt_of_le (cpu.dataAddress_selectClamped_lt n) cpu.model.memorySize_le_addresses
  simp only [selectFromC]
  split
  · exact hclamped _
  · split
    · rename_i hkey
      show keyAddress < cpu.model.hardware.addresses
      rw [hbuilt.mp hkey.1]
      decide
    · exact hclamped _
  · rename_i hnut
    show _ % 0x400 < cpu.hardware.addresses
    unfold Hardware.addresses
    rw [hnut]
    exact Nat.mod_lt _ (by decide)

theorem AddressFit.selectInBlock (h : cpu.AddressFit) (hn : n < 0x10)
    (hother : cpu.hardware.family ≠ .classic) : (cpu.selectInBlock n).AddressFit := by
  have hblocks := cpu.model.addresses_mod hother
  have hle := cpu.model.addresses_le
  have hmodel : (cpu.selectInBlock n).model = cpu.model :=
    cpu.changesOnly_selectInBlock n .model (by simp)
  unfold AddressFit hardware at h ⊢
  rw [hmodel, dataAddress_selectInBlock hn (by omega)]
  omega

theorem AddressFit.run (h : cpu.AddressFit) (hbuilt : cpu.PrinterBuilt)
    (hfits : i.Fits cpu.hardware) (hsuits : i.DataSuits cpu.hardware)
    (htouch : ∃ c ∈ [Component.model, .dataAddress], c ∈ i.footprint) :
    (cpu.run i).cpu.AddressFit := by
  cases i with
  | data x =>
    cases x with
    | selectFromC => exact addressFit_selectFromC hbuilt
    | storeAt n =>
      exact (h.selectInBlock hfits hsuits).frame (changesOnly_store _) (by simp)
    | loadAt n =>
      simp only [Processor.run, runData, loadAt]
      split
      · simp only [Outcome.done]
        split
        · exact h.frame cpu.changesOnly_readKey (by simp)
        · exact h
      · exact h.selectInBlock hfits hsuits
    | _ => simp at htouch
  | nop => simp at htouch
  | arithmetic x _ | move x | digit x | status x | pointer x | flow x | control x | card x
  | printer x => cases x <;> simp [RegisterName.all] at htouch

/-- The key code has an address of its own past the registers, so what holds needs to know which
models have a printer. -/
theorem addressFit_invariant : Invariant (fun cpu _ => cpu.PrinterBuilt) AddressFit := by
  refine .of_dependsOn addressFit_dependsOn (by simp) (by simp) ?_ ?_ ?_ ?_
  · intro cpu word i hbuilt hi hfits htouch h
    refine h.run (printerBuilt_ready hbuilt) hfits ?_ htouch
    rw [ready_hardware]
    exact Instruction.dataSuits_of_decode hi.decode_eq
  · intro cpu a _ htouch h
    cases a with
    | arithmetic op s => cases op <;> simp [Act.footprint] at htouch
    | _ => simp [Act.footprint] at htouch
  · intro cpu _
    exact Nat.lt_of_lt_of_le cpu.model.memorySize_pos cpu.model.memorySize_le_addresses
  · exact fun v _ htouch _ => absurd htouch (Slot.component_not_mem (by simp [Component.unsaved]) _)

theorem printerBuilt_of_reaches {model : Model} {rom : Rom} {allowed : Processor → Act → Prop}
    (h : Reaches allowed (new model rom) cpu) : cpu.PrinterBuilt := by
  unfold PrinterBuilt
  rw [h.model_rom.1]
  exact (built_of_reaches h).1.printer_isSome_iff

/-- **The data address keeps to its range**, whatever happens. -/
theorem addressFit_of_reaches {model : Model} {rom : Rom} {allowed : Processor → Act → Prop}
    (hrom : rom.TenBit) (h : Reaches allowed (new model rom) cpu) : cpu.AddressFit :=
  addressFit_invariant.of_reaches hrom
    (Nat.lt_of_lt_of_le model.memorySize_pos model.memorySize_le_addresses)
    (h.mono fun _ _ hcpu _ => printerBuilt_of_reaches hcpu)

/-! ## 4. Naming a data register -/

/-- A tick that selects a data register that is there goes by the address in `c` and does nothing
to the registers. -/
theorem Executes.select_of_lt (hi : cpu.Executes word (.data .selectFromC))
    (h : cpu.hardware.addressIn (cpu.register .c) < cpu.hardware.memorySize) :
    cpu.tick.cpu.dataAddress = cpu.hardware.addressIn (cpu.register .c) ∧
      cpu.tick.cpu.memory = cpu.memory ∧ cpu.tick.warnings = [] := by
  have hselect := cpu.ready.selectFromC_of_lt (by rw [ready_hardware, ready_register]; exact h)
  rw [ready_hardware, ready_register] at hselect
  have hrun : cpu.ready.run (.data .selectFromC) =
      .done { cpu.ready with dataAddress := cpu.hardware.addressIn (cpu.register .c) } := hselect
  rw [hi.tick_eq.1, hi.warnings_eq, hrun]
  exact ⟨rfl, ready_memory, rfl⟩

end Processor

/-- There is a content of `c` that names the data register `k`: once it has been taken for the data
address, storing `c` writes that register and no other, whatever stands in `c` by then. -/
def Model.Addresses (model : Model) (k : Nat) : Prop :=
  ∃ x : Register, x.FourBit ∧ ∀ {cpu : Processor} {word : Nat}, cpu.model = model →
    cpu.memory.size = model.hardware.memorySize → cpu.register .c = x →
    cpu.Executes word (.data .selectFromC) →
    cpu.tick.fault = none ∧ cpu.tick.warnings = [] ∧
    ∀ {cpu' : Processor} {word' : Nat},
      (∀ c ∈ [Component.model, .memory, .dataAddress], c.Agrees cpu.tick.cpu cpu') →
      cpu'.Executes word' (.data .store) →
      cpu'.tick.fault = none ∧
      ∀ j, cpu'.tick.cpu.memory[j]? = if j = k then some (cpu'.register .c) else cpu'.memory[j]?

namespace Processor

variable {cpu cpu' : Processor} {k word word' : Nat}

theorem dataAddress_of_store (hi : cpu.Executes word (.data .store)) :
    cpu.tick.cpu.dataAddress = cpu.dataAddress := by
  rw [hi.tick_eq.1]
  exact Eq.trans (cpu.ready.run_changesOnly (.data .store) .dataAddress (by simp)) ready_dataAddress

theorem addresses_of_lt {model : Model} (hnameable : k < model.hardware.nameable)
    (hk : k < model.hardware.memorySize)
    (hthere : model.hardware.family = .nut → k ∉ missingCells) : model.Addresses k := by
  refine ⟨model.hardware.naming k, Hardware.fourBit_naming hnameable, ?_⟩
  intro cpu word hmodel hsize hc hi
  have haddress : cpu.hardware.addressIn (cpu.register .c) = k := by
    rw [hc, hardware, hmodel]
    exact Hardware.addressIn_naming hnameable
  obtain ⟨hselected, hmemory, hwarnings⟩ := hi.select_of_lt (by
    rw [haddress, hardware, hmodel]
    exact hk)
  refine ⟨hi.fault_of_data, hwarnings, ?_⟩
  intro cpu' word' hagree hi'
  have hmodel' : cpu'.tick.cpu.model = model := by
    have hsame : cpu'.model = cpu.tick.cpu.model := hagree .model (by simp)
    rw [tick_model, hsame, tick_model, hmodel]
  have hselected' : cpu'.tick.cpu.dataAddress = k := by
    have hsame : cpu'.dataAddress = cpu.tick.cpu.dataAddress := hagree .dataAddress (by simp)
    rw [dataAddress_of_store hi', hsame, hselected, haddress]
  have hmemory' : cpu'.memory = cpu.memory := Eq.trans (hagree .memory (by simp)) hmemory
  refine ⟨hi'.fault_of_data, hi'.getElem?_of_stores rfl ?_ ?_⟩
  · refine cell?_eq_some_iff.mpr ⟨hselected', ?_, fun hhole => ?_⟩
    · rw [hardware, hmodel']
      exact hk
    · rw [hardware, hmodel'] at hhole
      exact hthere hhole.1 hhole.2
  · rw [hmemory', hsize]
    exact hk

/-! ## 5. The data registers that an HP-55 cannot name -/

/-- An HP-55 has one of its first sixteen data registers selected, and the others are as they were
at power on. -/
structure LowSelected (cpu : Processor) : Prop where
  model : cpu.model = .hp55
  dataAddress_lt : cpu.dataAddress < 0x10
  cells : ∀ k, 0x10 ≤ k → k < 30 → cpu.memory[k]? = some .zero

theorem lowSelected_dependsOn : DependsOn LowSelected [.model, .memory, .dataAddress] := by
  intro cpu cpu' hagree h
  have hmodel : cpu'.model = cpu.model := hagree .model (by simp)
  have hmemory : cpu'.memory = cpu.memory := hagree .memory (by simp)
  have haddress : cpu'.dataAddress = cpu.dataAddress := hagree .dataAddress (by simp)
  refine ⟨hmodel.trans h.model, ?_, ?_⟩
  · rw [haddress]
    exact h.dataAddress_lt
  · rw [hmemory]
    exact h.cells

theorem LowSelected.selectFromC (h : cpu.LowSelected) (hc : (cpu.register .c).FourBit) :
    cpu.selectFromC.cpu.LowSelected := by
  have hlow : cpu.hardware.addressIn (cpu.register .c) < 0x10 := by
    have hlt : cpu.hardware.addressIn (cpu.register .c) < cpu.hardware.nameable :=
      Hardware.addressIn_lt hc
    rw [show cpu.hardware.nameable = 0x10 by rw [hardware, h.model]; rfl] at hlt
    exact hlt
  have hsize : cpu.hardware.memorySize = 30 := by
    rw [hardware, h.model]
    rfl
  rw [selectFromC_of_lt (by omega)]
  exact ⟨h.model, hlow, h.cells⟩

theorem LowSelected.store (h : cpu.LowSelected) : cpu.store.cpu.LowSelected := by
  refine ⟨h.model.symm ▸ cpu.changesOnly_store .model (by simp), ?_, ?_⟩
  · exact Nat.lt_of_le_of_lt (Nat.le_of_eq (cpu.changesOnly_store .dataAddress (by simp)))
      h.dataAddress_lt
  · intro k hlow hk
    rw [memory_store]
    cases hcell : cpu.cell? with
    | none => exact h.cells k hlow hk
    | some a =>
      have hne : a ≠ k := by
        have haddress := (cell?_eq_some_iff.mp hcell).1
        have hlt := h.dataAddress_lt
        omega
      exact (Array.getElem?_setIfInBounds_ne hne).trans (h.cells k hlow hk)

/-- One digit of `c` names the register, so what holds needs to know that digits have four bits. -/
theorem lowSelected_invariant : Invariant (fun cpu _ => cpu.DigitsFit) LowSelected := by
  refine .of_dependsOn lowSelected_dependsOn (by simp) (by simp) ?_ ?_ ?_ ?_
  · intro cpu word i hdigits hi _ htouch h
    have hclassic : cpu.hardware.family = .classic := by
      rw [hardware, ← cpu.ready_model, h.model]
      rfl
    have hsuits := Instruction.dataSuits_of_decode hi.decode_eq
    cases i with
    | data x =>
      cases x with
      | selectFromC =>
        refine h.selectFromC ?_
        rw [ready_register]
        exact hdigits.register .c
      | store => exact h.store
      | storeAt n | loadAt n => exact absurd hclassic hsuits
      | clear => exact absurd (hclassic.symm.trans hsuits) (by decide)
      | load => simp at htouch
    | nop => simp at htouch
    | arithmetic x _ | move x | digit x | status x | pointer x | flow x | control x | card x
    | printer x => cases x <;> simp [RegisterName.all] at htouch
  · intro cpu a _ htouch h
    cases a with
    | arithmetic op s => cases op <;> simp [Act.footprint] at htouch
    | _ => simp [Act.footprint] at htouch
  · intro cpu h
    refine ⟨h.model, (by decide : 0 < 0x10), ?_⟩
    intro k hlow hk
    show (cpu.memory.map fun _ => Register.zero)[k]? = _
    rw [Array.getElem?_map, h.cells k hlow hk]
    rfl
  · -- an HP-55 has no continuous memory, and a record for it no slots
    intro cpu slot v hslot _ h
    rw [hardware, h.model] at hslot
    simp [Slot.layout, Model.hardware, Hardware.classic] at hslot

theorem lowSelected_new (rom : Rom) : (new .hp55 rom).LowSelected := by
  refine ⟨rfl, (by decide : 0 < 0x10), ?_⟩
  intro k _ hk
  simp [new, reset, Model.hardware, Hardware.classic, hk]

theorem lowSelected_of_reaches {rom : Rom} {allowed : Processor → Act → Prop} (hrom : rom.TenBit)
    (h : Reaches allowed (new .hp55 rom) cpu) : cpu.LowSelected :=
  lowSelected_invariant.of_reaches hrom (lowSelected_new rom)
    (h.mono fun _ _ hcpu _ => digitsFit_of_reaches hrom hcpu)

/-- An HP-55 about to take `x` for the data address. -/
def selecting (x : Register) : Processor := (new .hp55 ⟨#[0o1160]⟩).setRegister .c x

theorem lowSelected_selecting {x : Register} (hx : x.FourBit) :
    (selecting x).tick.cpu.LowSelected := by
  refine lowSelected_invariant.tick (by simp [selecting, Rom.TenBit, setRegister, new, reset]) ?_ ?_
  · exact (digitsFit_new _ _).setRegister .c hx
  · exact (changesOnly_setRegister _ .c x).preserves lowSelected_dependsOn (by simp)
      (lowSelected_new _)

/-- An HP-55 about to store a one in the data register that another one has selected. -/
def storingOne (cpu : Processor) : Processor :=
  { (new .hp55 ⟨#[0o1360]⟩).setRegister .c (Register.zero.put 0 1) with
    memory := cpu.memory, dataAddress := cpu.dataAddress }

/-- No content of `c` names a data register of an HP-55 past the first sixteen. -/
theorem not_addresses (hlow : 0x10 ≤ k) (hk : k < 30) : ¬Model.hp55.Addresses k := by
  rintro ⟨x, hx, hnames⟩
  have hi : (selecting x).Executes 0o1160 (.data .selectFromC) := ⟨rfl, rfl, rfl⟩
  have hsize : (selecting x).memory.size = Model.hp55.hardware.memorySize :=
    (digitsFit_new _ _).size
  obtain ⟨-, -, hstores⟩ := hnames rfl hsize rfl hi
  have hselected := lowSelected_selecting hx
  generalize hcpu : (selecting x).tick.cpu = cpu at hstores hselected
  -- had `x` named the register `k`, the one would be there; it is in one of the first sixteen
  have hi' : cpu.storingOne.Executes 0o1360 (.data .store) := ⟨rfl, rfl, rfl⟩
  have hwritten : cpu.storingOne.tick.cpu.memory[k]? = some (Register.zero.put 0 1) := by
    refine ((hstores ?_ hi').2 k).trans (if_pos rfl)
    intro c hc
    simp only [List.mem_cons, List.not_mem_nil, or_false] at hc
    rcases hc with rfl | rfl | rfl
    · exact hselected.model.symm
    · rfl
    · rfl
  have hkept : cpu.storingOne.tick.cpu.memory[k]? = cpu.memory[k]? := by
    have hnext : cpu.storingOne.next? = some (.data .store) := next?_eq_some_iff.mpr ⟨_, hi'⟩
    have haddress : cpu.storingOne.tick.cpu.dataAddress = cpu.dataAddress :=
      dataAddress_of_store hi'
    refine getElem?_tick_of_ne (by rw [hnext]; simp) ?_
    have hlt := hselected.dataAddress_lt
    omega
  rw [hwritten, hselected.cells k hlow hk] at hkept
  exact absurd hkept (by decide)

/-! ## 6. Every model -/

/-- **Every data register of every model can be named, save the upper fourteen of an HP-55**, and
nothing ever gets into those. -/
theorem addresses_iff {model : Model} (hk : k < model.hardware.memorySize)
    (hthere : model.hardware.family = .nut → k ∉ missingCells) :
    (model.Addresses k ↔ (model = .hp55 → k < 0x10)) ∧
    ∀ {rom : Rom} {allowed : Processor → Act → Prop} {cpu : Processor}, rom.TenBit →
      Reaches allowed (new model rom) cpu → model = .hp55 → 0x10 ≤ k →
      cpu.memory[k]? = some .zero := by
  refine ⟨⟨?_, ?_⟩, ?_⟩
  · rintro hnames rfl
    exact Nat.lt_of_not_le fun hlow => not_addresses hlow hk hnames
  · intro hlow
    refine addresses_of_lt ?_ hk hthere
    by_cases hmodel : model = .hp55
    · subst hmodel
      exact hlow rfl
    · exact Nat.lt_of_lt_of_le hk (model.memorySize_le_nameable hmodel)
  · rintro rom allowed cpu hrom h rfl hlow
    exact (lowSelected_of_reaches hrom h).cells k hlow hk

/-- A program that means the digits 1 and 6 of `c` for the register 16 stores `c` in the register
1. -/
theorem addresses_iff_hp55 :
    let rom : Rom := ⟨#[0o1414, 0o130, 0o630, 0o1160, 0o1360]⟩
    let cpu := (List.replicate 5 Act.tick).foldl perform (new .hp55 rom)
    Model.hp55.Addresses 15 ∧ ¬Model.hp55.Addresses 29 ∧ cpu.memory[16]? = some .zero ∧
      cpu.memory[1]? = some ((Register.zero.put 12 1).put 11 6) := by
  have hrom : Rom.TenBit ⟨#[0o1414, 0o130, 0o630, 0o1160, 0o1360]⟩ := by simp [Rom.TenBit]
  have hnut : ∀ k, Model.hp55.hardware.family = .nut → k ∉ missingCells := fun k h => by cases h
  have hreach : ∀ start, Reaches (fun _ _ => True) start
      ((List.replicate 5 Act.tick).foldl perform start) := fun _ =>
    .act .tick (.act .tick (.act .tick (.act .tick (.act .tick .start trivial) trivial) trivial)
      trivial) trivial
  refine ⟨?_, ?_, ?_, by decide +kernel⟩
  · exact (addresses_iff (by decide) (hnut 15)).1.mpr fun _ => by decide
  · exact fun hnames => absurd ((addresses_iff (by decide) (hnut 29)).1.mp hnames rfl) (by decide)
  · exact (addresses_iff (by decide) (hnut 16)).2 hrom (hreach _) rfl (by decide)

/-- No content of `c` leads to the register 16 of an HP-55. -/
theorem not_addresses_hp55 :
    ¬∀ (model : Model) (k : Nat), k < model.hardware.memorySize →
      (model.hardware.family = .nut → k ∉ missingCells) → model.Addresses k :=
  fun hall => not_addresses (k := 16) (by decide) (by decide)
    (hall .hp55 16 (by decide) fun h => by cases h)

end Processor

end Calculator
