/-
# Data memory

Two kinds of data memory.  On a Classic part, and on a Woodstock with a whole block of registers and
no printer, there is a register behind every address that can be selected, so nothing that is
stored there is lost (`LosslessMemory`).  A Nut can select addresses behind which there is nothing:
stores to them are dropped and loads from them give zero (`HoledMemory`).  Either way the memory
changes at the selected address alone, and what was stored is found again.
-/
import Calculator.Proofs.DataAddress

namespace Calculator

/-! ## 1. Reading back -/

/-- The load that finds what the instruction has stored.  Operand 0 is no register number to a load,
which then goes by the address as it stands. -/
def DataOp.readBack : DataOp → DataOp
  | storeAt n => if n = 0 then load else loadAt n
  | _ => load

theorem DataOp.loads_readBack (x : DataOp) : (Instruction.data x.readBack).loads = true := by
  cases x with
  | storeAt n =>
    by_cases hzero : n = 0
    · simp only [readBack, if_pos hzero, Instruction.loads]
    · simp only [readBack, if_neg hzero, Instruction.loads]
  | _ => rfl

namespace Processor

variable {cpu cpu' : Processor} {i j : Instruction} {x : DataOp} {k n word word' : Nat}

theorem AddressFit.ready_lt (h : cpu.AddressFit) : cpu.ready.dataAddress < 0x1000 := by
  have hle := cpu.model.addresses_le
  unfold AddressFit hardware at h
  rw [ready_dataAddress]
  omega

theorem Executes.dataAddress_of_storeAt (hi : cpu.Executes word (.data (.storeAt n)))
    (hn : n < 0x10) (h : cpu.AddressFit) :
    cpu.tick.cpu.dataAddress = cpu.dataAddress / 0x10 * 0x10 + n := by
  have hselect := dataAddress_selectInBlock hn h.ready_lt
  rw [ready_dataAddress] at hselect
  rw [hi.tick_eq.1]
  exact Eq.trans (changesOnly_store _ .dataAddress (by simp)) hselect

theorem Executes.dataAddress_of_loadAt (hi : cpu.Executes word (.data (.loadAt n)))
    (hn : n < 0x10) (h : cpu.AddressFit) (hprinter : cpu.printer = none) :
    cpu.tick.cpu.dataAddress = cpu.dataAddress / 0x10 * 0x10 + n := by
  have hselect := dataAddress_selectInBlock hn h.ready_lt
  have hload : cpu.ready.run (.data (.loadAt n)) = (cpu.ready.selectInBlock n).load := by
    show cpu.ready.loadAt n = _
    unfold loadAt
    rw [ready_printer, hprinter]
    rfl
  rw [ready_dataAddress] at hselect
  rw [hi.tick_eq.1, hload]
  exact hselect

/-- The reading back selects the register that the instruction has selected, if the data address has
been left alone in between. -/
theorem Executes.dataAddress_of_readBack (hi : cpu.Executes word (.data x))
    (hfits : (Instruction.data x).Fits cpu.hardware) (h : cpu.AddressFit)
    (hrun : cpu'.dataAddress = cpu.tick.cpu.dataAddress)
    (hi' : cpu'.Executes word' (.data x.readBack)) (h' : cpu'.AddressFit)
    (hprinter : cpu'.printer = none) : cpu'.tick.cpu.dataAddress = cpu.tick.cpu.dataAddress := by
  have hload : cpu'.Executes word' (.data .load) →
      cpu'.tick.cpu.dataAddress = cpu'.dataAddress := by
    intro hi'
    rw [hi'.tick_eq.1]
    exact ready_dataAddress
  cases x with
  | storeAt n =>
    have hn : n < 0x10 := hfits
    by_cases hzero : n = 0
    · have heq : (DataOp.storeAt n).readBack = .load := if_pos hzero
      exact (hload (heq ▸ hi')).trans hrun
    · -- the address ends in `n` since the store, so selecting `n` once more does not move it
      have heq : (DataOp.storeAt n).readBack = .loadAt n := if_neg hzero
      rw [heq] at hi'
      rw [hi'.dataAddress_of_loadAt hn h' hprinter, hrun, hi.dataAddress_of_storeAt hn h]
      omega
  | _ => exact (hload hi').trans hrun

/-- What the next tick stores is found by any load that selects the register, until something else
is stored there or the memory is cleared. -/
def KeepsStored (cpu : Processor) : Prop :=
  ∀ {word : Nat} {i : Instruction}, cpu.Executes word i → i.stores = true →
    ∀ {cpu' : Processor} {word' : Nat} {j : Instruction},
      Reaches (Act.Spares cpu.tick.cpu.dataAddress) cpu.tick.cpu cpu' →
      cpu'.Executes word' j → j.loads = true →
      cpu'.tick.cpu.dataAddress = cpu.tick.cpu.dataAddress →
      cpu'.tick.fault = none ∧ cpu'.tick.cpu.register .c = cpu.register .c

section Reached

variable {model : Model} {rom : Rom} {allowed : Processor → Act → Prop}

theorem printer_eq_none_of_reaches (hmodel : model.hardware.peripheral ≠ .printer)
    (h : Reaches allowed (new model rom) cpu) : cpu.printer = none := by
  have hbuilt := (built_of_reaches h).1.printer_isSome_iff
  cases hprinter : cpu.printer with
  | none => rfl
  | some printer =>
    rw [hprinter] at hbuilt
    obtain rfl : model = .hp10 := hbuilt.mp rfl
    exact absurd rfl hmodel

theorem memory_size_of_reaches (h : Reaches allowed (new model rom) cpu) :
    cpu.memory.size = cpu.hardware.memorySize := by
  rw [(built_of_reaches h).1.memory_size, h.hardware_eq]
  simp [new, reset, hardware]

/-- Where there is a register, it keeps what is stored in it. -/
theorem keepsStored_of_reaches (hmodel : model.hardware.peripheral ≠ .printer)
    (h : Reaches allowed (new model rom) cpu)
    (hcell : cpu.tick.cpu.cell? = some cpu.tick.cpu.dataAddress) : cpu.KeepsStored := by
  intro word i hi hs cpu' word' j hrun hj hl haddress
  have hsize : cpu.tick.cpu.dataAddress < cpu.memory.size := by
    rw [memory_size_of_reaches h, ← tick_hardware]
    exact (cell?_eq_some_iff.mp hcell).2.1
  have h' : Reaches (fun _ _ => True) (new model rom) cpu' :=
    (h.any.act .tick trivial).trans hrun.any
  obtain ⟨x, rfl⟩ := Instruction.exists_data_of_loads hl
  exact ⟨hj.fault_of_data, hi.loads_stored hs hcell hsize hrun hj hl
    (printer_eq_none_of_reaches hmodel h') haddress⟩

end Reached

end Processor

/-! ## 2. Memory without gaps -/

/-- The Classic models, and the Woodstock models that have a whole block of data registers and no
printer. -/
def Model.IsGapless (model : Model) : Prop :=
  model.hardware.family = .classic ∨
    model.hardware.family = .woodstock ∧ model.hardware.peripheral ≠ .printer ∧
      0x10 ≤ model.hardware.memorySize

namespace Model.IsGapless

variable {model : Model} (h : model.IsGapless)
include h

/-- There is a register behind every address. -/
theorem addresses_eq : model.hardware.addresses = model.hardware.memorySize := by
  unfold Hardware.addresses
  rcases h with hclassic | ⟨hwoodstock, hprinter, hsize⟩
  · rw [hclassic]
  · rw [hwoodstock]
    exact (if_neg hprinter).trans (Nat.max_eq_right hsize)

theorem family_ne_nut : model.hardware.family ≠ .nut := by
  rcases h with hclassic | ⟨hwoodstock, -⟩
  · rw [hclassic]
    decide
  · rw [hwoodstock]
    decide

theorem peripheral_ne_printer : model.hardware.peripheral ≠ .printer := by
  rcases h with hclassic | ⟨-, hprinter, -⟩
  · cases model <;> first | decide | cases hclassic
  · exact hprinter

end Model.IsGapless

namespace Processor

variable {cpu cpu' : Processor} {i j : Instruction} {x : DataOp} {k n word word' : Nat}

/-- Nothing that is stored in the data memory is lost before it is written over or cleared. -/
structure LosslessMemory (cpu : Processor) : Prop where
  address_lt : cpu.dataAddress < cpu.hardware.memorySize
  /-- No store is dropped. -/
  stores : ∀ {word : Nat} {i : Instruction}, cpu.Executes word i → i.stores = true →
    cpu.tick.fault = none ∧ cpu.tick.warnings = [] ∧
      cpu.tick.cpu.memory[cpu.tick.cpu.dataAddress]? = some (cpu.register .c)
  /-- No load is. -/
  loads : ∀ {word : Nat} {i : Instruction}, cpu.Executes word i → i.loads = true →
    cpu.tick.fault = none ∧ cpu.tick.warnings = [] ∧
      cpu.memory[cpu.tick.cpu.dataAddress]? = some (cpu.tick.cpu.register .c)
  elsewhere : cpu.next? ≠ some (.data .clear) → ∀ k, k ≠ cpu.tick.cpu.dataAddress →
    cpu.tick.cpu.memory[k]? = cpu.memory[k]?
  keepsStored : cpu.KeepsStored
  /-- A load that names the register as the store has named it selects it again, if no other has
  been selected in between. -/
  readBack : ∀ {word : Nat} {x : DataOp}, cpu.Executes word (.data x) →
    (Instruction.data x).stores = true →
    ∀ {cpu' : Processor} {word' : Nat}, Reaches Act.LeavesData cpu.tick.cpu cpu' →
      cpu'.Executes word' (.data x.readBack) →
      cpu'.tick.fault = none ∧ cpu'.tick.cpu.register .c = cpu.register .c

section Reached

variable {model : Model} {rom : Rom} {allowed : Processor → Act → Prop}

theorem cell?_of_isGapless (hmodel : model.IsGapless) (hrom : rom.TenBit)
    (h : Reaches allowed (new model rom) cpu) : cpu.cell? = some cpu.dataAddress := by
  have hlt : cpu.dataAddress < cpu.hardware.addresses := addressFit_of_reaches hrom h
  refine cell?_eq_some_iff.mpr ⟨rfl, ?_, fun hhole => ?_⟩
  · rw [h.hardware_eq] at hlt ⊢
    exact Nat.lt_of_lt_of_eq hlt hmodel.addresses_eq
  · exact hmodel.family_ne_nut ((congrArg Hardware.family h.hardware_eq).symm.trans hhole.1)

/-- **The data memory of a Classic part, and of a Woodstock with a whole block of registers and no
printer, is lossless.** -/
theorem losslessMemory_of_reaches (hmodel : model.IsGapless) (hrom : rom.TenBit)
    (h : Reaches allowed (new model rom) cpu) : cpu.LosslessMemory := by
  have hprinter : cpu.printer = none :=
    printer_eq_none_of_reaches hmodel.peripheral_ne_printer h
  have htick := h.any.act .tick trivial
  have hcell : cpu.tick.cpu.cell? = some cpu.tick.cpu.dataAddress :=
    cell?_of_isGapless hmodel hrom htick
  have hsize : cpu.tick.cpu.dataAddress < cpu.memory.size := by
    rw [memory_size_of_reaches h, ← tick_hardware]
    exact (cell?_eq_some_iff.mp hcell).2.1
  have hkeeps : cpu.KeepsStored := keepsStored_of_reaches hmodel.peripheral_ne_printer h hcell
  constructor
  case address_lt => exact (cell?_eq_some_iff.mp (cell?_of_isGapless hmodel hrom h)).2.1
  case stores =>
    intro word i hi hs
    obtain ⟨x, rfl⟩ := Instruction.exists_data_of_stores hs
    refine ⟨hi.fault_of_data, ?_, (hi.getElem?_of_stores hs hcell hsize _).trans (if_pos rfl)⟩
    exact hi.warnings_of_cell? hprinter (.inl hs) (hcell ▸ rfl)
  case loads =>
    intro word i hi hl
    obtain ⟨x, rfl⟩ := Instruction.exists_data_of_loads hl
    refine ⟨hi.fault_of_data, hi.warnings_of_cell? hprinter (.inr hl) (hcell ▸ rfl), ?_⟩
    rw [hi.register_of_loads hprinter hl, cellContent_of_cell? hcell, hi.memory_of_loads hl,
      Array.getD_eq_getD_getElem?, Array.getElem?_eq_getElem hsize]
    rfl
  case elsewhere => exact fun hclear k hk => getElem?_tick_of_ne hclear hk
  case keepsStored => exact hkeeps
  case readBack =>
    intro word x hi hs cpu' word' hrun hi'
    have h' : Reaches (fun _ _ => True) (new model rom) cpu' := htick.trans hrun.any
    refine hkeeps hi hs (hrun.mono fun _ _ _ ha => ha.spares _) hi' x.loads_readBack ?_
    exact hi.dataAddress_of_readBack (hi.fits (h.model_rom.2 ▸ hrom)) (addressFit_of_reaches hrom h)
      (dataAddress_of_leavesData hrun) hi' (addressFit_of_reaches hrom h')
      (printer_eq_none_of_reaches hmodel.peripheral_ne_printer h')

/-- A seven is stored in the register 3, all registers are cleared and the seven is loaded again. -/
theorem losslessMemory_of_reaches_hp25 :
    let cpu := (new .hp25 ⟨#[0o730, 0o350, 0o10, 0o370]⟩).perform .tick
    let cpu' := (List.replicate 2 Act.tick).foldl perform cpu
    cpu.LosslessMemory ∧ cpu.register .c = Register.zero.put 0 7 ∧ cpu'.register .c = .zero ∧
      cpu'.tick.cpu.register .c = cpu.register .c := by
  intro cpu cpu'
  have hrom : Rom.TenBit ⟨#[0o730, 0o350, 0o10, 0o370]⟩ := by simp [Rom.TenBit]
  have hreach : Reaches (fun _ _ => True) (new .hp25 ⟨#[0o730, 0o350, 0o10, 0o370]⟩) cpu :=
    .act .tick .start trivial
  have hreach' := (hreach.act .tick trivial).act .tick trivial
  have hlossless := losslessMemory_of_reaches (.inr (by decide)) hrom hreach
  have hstore : cpu.Executes 0o350 (.data (.storeAt 3)) := ⟨rfl, rfl, rfl⟩
  have hclear : cpu.tick.cpu.Executes 0o10 (.move .clearRegisters) :=
    ⟨by decide +kernel, by decide +kernel, (hreach.act .tick trivial).hardware_eq ▸ rfl⟩
  have hload : cpu'.Executes 0o370 (.data (DataOp.storeAt 3).readBack) :=
    ⟨by decide +kernel, by decide +kernel, hreach'.hardware_eq ▸ rfl⟩
  refine ⟨hlossless, by decide +kernel, by decide +kernel, ?_⟩
  refine (hlossless.readBack hstore rfl (.act .tick .start ?_) hload).2
  intro i hi
  rw [next?_eq_some_iff.mpr ⟨_, hclear⟩] at hi
  cases hi
  exact ⟨rfl, rfl, by simp⟩

/-! ## 3. Memory with gaps -/

/-- There is no register of a Nut at the address. -/
def Vacant (a : Nat) : Prop := a ∈ missingCells ∨ 0x100 ≤ a

instance (a : Nat) : Decidable (Vacant a) := inferInstanceAs (Decidable (_ ∨ _))

/-- The data memory of a Nut.  Its addresses reach past the registers, and two of the registers
before are missing as well. -/
structure HoledMemory (cpu : Processor) : Prop where
  address_le : cpu.dataAddress ≤ 0x3ff
  /-- There is nothing to clear the memory with. -/
  next?_ne_clear : cpu.next? ≠ some (.data .clear)
  elsewhere : ∀ k, k ≠ cpu.tick.cpu.dataAddress → cpu.tick.cpu.memory[k]? = cpu.memory[k]?
  dropped : Vacant cpu.tick.cpu.dataAddress → cpu.tick.cpu.memory = cpu.memory
  missing : ∀ k ∈ missingCells, cpu.tick.cpu.memory[k]? = cpu.memory[k]?
  /-- Whatever a restored record has put there. -/
  loads_zero : ∀ {word : Nat} {i : Instruction}, cpu.Executes word i → i.loads = true →
    Vacant cpu.tick.cpu.dataAddress → cpu.tick.fault = none ∧ cpu.tick.cpu.register .c = .zero
  keepsStored : ¬Vacant cpu.tick.cpu.dataAddress → cpu.KeepsStored

theorem memorySize_of_nut (h : cpu.hardware.family = .nut) : cpu.hardware.memorySize = 0x100 := by
  unfold hardware at h ⊢
  cases hmodel : cpu.model <;> first | rfl | (rw [hmodel] at h; cases h)

theorem dataAddress_le_of_nut (h : cpu.hardware.family = .nut) (hfit : cpu.AddressFit) :
    cpu.dataAddress ≤ 0x3ff := by
  have haddresses : cpu.hardware.addresses = 0x400 := by
    unfold Hardware.addresses
    rw [h]
  unfold AddressFit at hfit
  omega

theorem cell?_of_nut (h : cpu.hardware.family = .nut) :
    cpu.cell? = if Vacant cpu.dataAddress then none else some cpu.dataAddress := by
  unfold cell?
  simp only [memorySize_of_nut h, h, true_and]
  split
  · rename_i hin
    rw [if_neg]
    rintro (hmissing | hhigh)
    · exact hin.2 hmissing
    · omega
  · rename_i hout
    rw [if_pos]
    by_contra hneither
    refine hout ⟨?_, fun hmissing => hneither (.inl hmissing)⟩
    exact Nat.lt_of_not_le fun hhigh => hneither (.inr hhigh)

/-- **What the data memory of a Nut keeps, drops and gives back.** -/
theorem holedMemory_of_reaches (hmodel : model.hardware.family = .nut) (hrom : rom.TenBit)
    (h : Reaches allowed (new model rom) cpu) : cpu.HoledMemory := by
  have hperipheral : model.hardware.peripheral ≠ .printer := by
    cases model <;> first | decide | cases hmodel
  have hnut : cpu.hardware.family = .nut := (congrArg Hardware.family h.hardware_eq).trans hmodel
  have hnut' : cpu.tick.cpu.hardware.family = .nut :=
    (congrArg Hardware.family cpu.tick_hardware).trans hnut
  have hcell := cell?_of_nut hnut'
  have hclear : cpu.next? ≠ some (.data .clear) := by
    refine next?_ne_clear ?_
    rw [hnut]
    decide
  constructor
  case address_le => exact dataAddress_le_of_nut hnut (addressFit_of_reaches hrom h)
  case next?_ne_clear => exact hclear
  case elsewhere => exact fun k hk => getElem?_tick_of_ne hclear hk
  case dropped =>
    intro hvacant
    exact memory_tick_of_cell?_eq_none hclear (hcell.trans (if_pos hvacant))
  case missing =>
    intro k hk
    refine getElem?_tick hclear ?_
    rintro ⟨-, hselected⟩
    exact (cell?_eq_some_iff.mp hselected).2.2 ⟨hnut', hk⟩
  case loads_zero =>
    intro word i hi hl hvacant
    obtain ⟨x, rfl⟩ := Instruction.exists_data_of_loads hl
    have hprinter : cpu.printer = none := printer_eq_none_of_reaches hperipheral h
    refine ⟨hi.fault_of_data, (hi.register_of_loads hprinter hl).trans ?_⟩
    exact cellContent_of_cell?_eq_none (hcell.trans (if_pos hvacant))
  case keepsStored =>
    exact fun hthere => keepsStored_of_reaches hperipheral h (hcell.trans (if_neg hthere))

/-- The missing register 8 is selected, stored to and loaded. -/
theorem holedMemory_of_reaches_hp12c :
    let cpu := (List.replicate 2 Act.tick).foldl perform
      (new .hp12c ⟨#[0x210, 0x270, 0x2f0, 0x38]⟩)
    let cpu' := cpu.perform .tick
    cpu.HoledMemory ∧ cpu.register .c = Register.zero.put 0 8 ∧ cpu'.memory = cpu.memory ∧
      cpu'.tick.cpu.register .c = .zero := by
  intro cpu cpu'
  have hrom : Rom.TenBit ⟨#[0x210, 0x270, 0x2f0, 0x38]⟩ := by simp [Rom.TenBit]
  have hreach : Reaches (fun _ _ => True) (new .hp12c ⟨#[0x210, 0x270, 0x2f0, 0x38]⟩) cpu :=
    .act .tick (.act .tick .start trivial) trivial
  have hholed := holedMemory_of_reaches rfl hrom hreach
  have hreach' := hreach.act .tick trivial
  have hholed' := holedMemory_of_reaches rfl hrom hreach'
  have hload : cpu'.Executes 0x38 (.data .load) :=
    ⟨by decide +kernel, by decide +kernel, hreach'.hardware_eq ▸ rfl⟩
  refine ⟨hholed, by decide +kernel, hholed.dropped (.inl (by decide +kernel)), ?_⟩
  exact (hholed'.loads_zero hload rfl (.inl (by decide +kernel))).2

end Reached

end Processor

end Calculator
