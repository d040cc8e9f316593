/-
# Loads and stores

An instruction that reads or writes a data register goes by the data address that it leaves behind,
whatever address it has found.  So the state after it tells what it did: a store has replaced the
register that is then selected (`Executes.memory_of_stores`), a load has fetched it
(`Executes.register_of_loads`), and nothing but a clear changes any other (`getElem?_tick`).  What
was stored therefore waits for the next load of the same register, whatever happens to the others in
between (`Executes.loads_stored`).
-/
import Calculator.Proofs.Fault
import Calculator.Proofs.HostInputs

namespace Calculator

namespace Instruction

/-! ## 1. Instructions on the data registers -/

/-- Whether the instruction stores `c` in a data register. -/
def stores : Instruction → Bool
  | .data .store | .data (.storeAt _) => true
  | _ => false

/-- Whether the instruction loads a data register into `c`. -/
def loads : Instruction → Bool
  | .data .load | .data (.loadAt _) => true
  | _ => false

/-- Whether the instruction sets the data address. -/
def selects : Instruction → Bool
  | .data .selectFromC | .data (.storeAt _) | .data (.loadAt _) => true
  | _ => false

variable {i : Instruction}

/-- Only stores and the clear write data registers. -/
theorem memory_not_mem_footprint (hstores : i.stores = false) (hclear : i ≠ .data .clear) :
    Component.memory ∉ i.footprint := by
  cases i with
  | data x =>
    cases x with
    | store | storeAt n => cases hstores
    | clear => exact absurd rfl hclear
    | _ => simp
  | nop => simp
  | arithmetic x _ | move x | digit x | status x | pointer x | flow x | control x | card x
  | printer x => cases x <;> simp [RegisterName.all]

/-- Only what selects moves the data address. -/
theorem dataAddress_not_mem_footprint (h : i.selects = false) :
    Component.dataAddress ∉ i.footprint := by
  cases i with
  | data x =>
    cases x with
    | selectFromC | storeAt n | loadAt n => cases h
    | _ => simp
  | nop => simp
  | arithmetic x _ | move x | digit x | status x | pointer x | flow x | control x | card x
  | printer x => cases x <;> simp [RegisterName.all]

theorem stores_eq_false_of_loads (h : i.loads = true) : i.stores = false := by
  cases i with
  | data x => cases x <;> first | rfl | cases h
  | _ => cases h

theorem ne_clear_of_loads (h : i.loads = true) : i ≠ .data .clear := by
  rintro rfl
  cases h

theorem exists_data_of_stores (h : i.stores = true) : ∃ x, i = .data x := by
  cases i with
  | data x => exact ⟨x, rfl⟩
  | _ => cases h

theorem exists_data_of_loads (h : i.loads = true) : ∃ x, i = .data x := by
  cases i with
  | data x => exact ⟨x, rfl⟩
  | _ => cases h

end Instruction

namespace Processor

variable {cpu cpu' : Processor} {i j : Instruction} {k word word' : Nat}

/-! ## 2. The selected register -/

/-- A data register is selected if the address lies within the memory and is no gap of a Nut. -/
theorem cell?_eq_some_iff : cpu.cell? = some k ↔
    cpu.dataAddress = k ∧ k < cpu.hardware.memorySize ∧
      ¬(cpu.hardware.family = .nut ∧ k ∈ missingCells) := by
  unfold cell?
  dsimp only
  constructor
  · intro h
    split at h
    · obtain rfl := Option.some.inj h
      exact ⟨rfl, ‹_›⟩
    · cases h
  · rintro ⟨rfl, hin⟩
    exact if_pos hin

/-- Which register is selected depends on the model and the data address alone. -/
theorem cell?_congr (hmodel : cpu'.model = cpu.model)
    (haddress : cpu'.dataAddress = cpu.dataAddress) : cpu'.cell? = cpu.cell? := by
  unfold cell? hardware
  rw [hmodel, haddress]

theorem cellContent_of_cell? (h : cpu.cell? = some k) :
    cpu.cellContent = cpu.memory.getD k .zero := by
  unfold cellContent
  rw [h]

theorem cellContent_of_cell?_eq_none (h : cpu.cell? = none) : cpu.cellContent = .zero := by
  unfold cellContent
  rw [h]

theorem cellContent_congr (hmodel : cpu'.model = cpu.model)
    (haddress : cpu'.dataAddress = cpu.dataAddress) (hmemory : cpu'.memory = cpu.memory) :
    cpu'.cellContent = cpu.cellContent := by
  unfold cellContent
  rw [cell?_congr hmodel haddress, hmemory]

theorem cellEvents_of_isSome (h : cpu.cell?.isSome = true) : cpu.cellEvents = [] :=
  if_pos (.inr h)

/-! ## 3. One instruction -/

/-- The memory with `c` stored in the register that is selected, if there is one. -/
def memoryWith (cpu : Processor) (cell? : Option Nat) : Array Register :=
  cell?.elim cpu.memory fun k => cpu.memory.setIfInBounds k (cpu.register .c)

/-- Where no register is selected, a store is dropped. -/
theorem memory_store (cpu : Processor) : cpu.store.cpu.memory = cpu.memoryWith cpu.cell? := by
  unfold store
  split
  · rename_i hcell
    rw [hcell]
    rfl
  · rename_i hcell
    rw [hcell]
    rfl

theorem cell?_store (cpu : Processor) : cpu.store.cpu.cell? = cpu.cell? :=
  cell?_congr (cpu.changesOnly_store .model (by simp))
    (cpu.changesOnly_store .dataAddress (by simp))

/-- Both kinds of store write the register that they leave selected. -/
theorem run_memory_of_stores (cpu : Processor) (h : i.stores = true) :
    (cpu.run i).cpu.memory = cpu.memoryWith (cpu.run i).cpu.cell? := by
  cases i with
  | data x =>
    cases x with
    | store => exact (cpu.memory_store).trans (congrArg cpu.memoryWith cpu.cell?_store.symm)
    | storeAt n =>
      have hselected := cpu.changesOnly_selectInBlock n
      have hmemory : (cpu.selectInBlock n).memory = cpu.memory := hselected .memory (by simp)
      have hc : (cpu.selectInBlock n).register .c = cpu.register .c :=
        hselected (.register .c) (by simp)
      have hstore := (cpu.selectInBlock n).memory_store
      rw [← cell?_store] at hstore
      simp only [memoryWith, hmemory, hc] at hstore
      exact hstore
    | _ => cases h
  | _ => cases h

theorem cellContent_load (cpu : Processor) : cpu.load.cpu.cellContent = cpu.cellContent :=
  cellContent_congr rfl rfl rfl

/-- Without a printer every load fetches the register that it leaves selected. -/
theorem run_register_of_loads (hprinter : cpu.printer = none) (h : i.loads = true) :
    (cpu.run i).cpu.register .c = (cpu.run i).cpu.cellContent := by
  have hload : ∀ cpu : Processor, cpu.load.cpu.register .c = cpu.load.cpu.cellContent :=
    fun cpu => cpu.cellContent_load.symm
  cases i with
  | data x =>
    cases x with
    | load => exact hload cpu
    | loadAt n =>
      simp only [run, runData, loadAt, hprinter, Option.isSome_none, Bool.false_eq_true, if_false]
      exact hload _
    | _ => cases h
  | _ => cases h

/-- An access to a register that is there has nothing to tell. -/
theorem run_warnings_of_cell? (hprinter : cpu.printer = none)
    (h : i.stores = true ∨ i.loads = true) (hcell : (cpu.run i).cpu.cell?.isSome = true) :
    (cpu.run i).warnings = [] := by
  have hstore : ∀ cpu : Processor, cpu.store.cpu.cell?.isSome = true → cpu.store.warnings = [] := by
    intro cpu hcell
    rw [cell?_store] at hcell
    unfold store
    split
    · rfl
    · rw [cpu.cellEvents_of_isSome hcell]
      rfl
  have hload : ∀ cpu : Processor, cpu.load.cpu.cell?.isSome = true → cpu.load.warnings = [] := by
    intro cpu hcell
    unfold load
    rw [cpu.cellEvents_of_isSome hcell]
    rfl
  cases i with
  | data x =>
    cases x with
    | store => exact hstore cpu hcell
    | storeAt n => exact hstore _ hcell
    | load => exact hload cpu hcell
    | loadAt n =>
      simp only [run, runData, loadAt, hprinter, Option.isSome_none, Bool.false_eq_true, if_false]
        at hcell ⊢
      exact hload _ hcell
    | _ => simp [Instruction.stores, Instruction.loads] at h
  | _ => simp [Instruction.stores, Instruction.loads] at h

/-! ## 4. One tick -/

theorem ready_memory : cpu.ready.memory = cpu.memory := cpu.changesOnly_ready .memory (by simp)

theorem ready_dataAddress : cpu.ready.dataAddress = cpu.dataAddress :=
  cpu.changesOnly_ready .dataAddress (by simp)

theorem ready_register (r : RegisterName) : cpu.ready.register r = cpu.register r :=
  cpu.changesOnly_ready (.register r) (by simp)

theorem ready_printer : cpu.ready.printer = cpu.printer := cpu.changesOnly_ready .printer (by simp)

/-- A store replaces the register that it leaves selected, if there is one. -/
theorem Executes.memory_of_stores (hi : cpu.Executes word i) (hs : i.stores = true) :
    cpu.tick.cpu.memory = cpu.memoryWith cpu.tick.cpu.cell? := by
  have hrun := cpu.ready.run_memory_of_stores hs
  simp only [memoryWith, ready_memory, ready_register] at hrun
  rw [hi.tick_eq.1]
  exact hrun

/-- A store where a register is selected writes that one alone. -/
theorem Executes.getElem?_of_stores (hi : cpu.Executes word i) (hs : i.stores = true)
    (hcell : cpu.tick.cpu.cell? = some k) (hsize : k < cpu.memory.size) (j : Nat) :
    cpu.tick.cpu.memory[j]? = if j = k then some (cpu.register .c) else cpu.memory[j]? := by
  rw [hi.memory_of_stores hs, hcell]
  show (cpu.memory.setIfInBounds k _)[j]? = _
  split
  · subst j
    exact Array.getElem?_setIfInBounds_self_of_lt hsize
  · exact Array.getElem?_setIfInBounds_ne fun hne => ‹¬_› hne.symm

/-- A load fetches the register that it leaves selected. -/
theorem Executes.register_of_loads (hi : cpu.Executes word i) (hprinter : cpu.printer = none)
    (hl : i.loads = true) : cpu.tick.cpu.register .c = cpu.tick.cpu.cellContent := by
  rw [hi.tick_eq.1]
  exact run_register_of_loads (ready_printer.trans hprinter) hl

theorem Executes.fault_of_data {x : DataOp} (hi : cpu.Executes word (.data x)) :
    cpu.tick.fault = none :=
  hi.tick_eq.2.trans (fault_runData x)

theorem Executes.warnings_of_cell? (hi : cpu.Executes word i) (hprinter : cpu.printer = none)
    (h : i.stores = true ∨ i.loads = true) (hcell : cpu.tick.cpu.cell?.isSome = true) :
    cpu.tick.warnings = [] := by
  rw [hi.tick_eq.1] at hcell
  rw [hi.warnings_eq]
  exact run_warnings_of_cell? (ready_printer.trans hprinter) h hcell

/-- A load leaves the data registers alone. -/
theorem Executes.memory_of_loads (hi : cpu.Executes word i) (hl : i.loads = true) :
    cpu.tick.cpu.memory = cpu.memory := by
  have hrun : (cpu.ready.run i).cpu.memory = cpu.ready.memory :=
    cpu.ready.run_changesOnly i .memory
      (Instruction.memory_not_mem_footprint (Instruction.stores_eq_false_of_loads hl)
        (Instruction.ne_clear_of_loads hl))
  rw [hi.tick_eq.1]
  exact hrun.trans ready_memory

/-- The next tick stores `c` in the data register `k`. -/
def StoresIn (cpu : Processor) (k : Nat) : Prop :=
  ∃ i, cpu.next? = some i ∧ i.stores = true ∧ cpu.tick.cpu.dataAddress = k

/-- **A data register changes only where a store leaves it selected**, save that a clear changes
others. -/
theorem getElem?_tick (hclear : cpu.next? ≠ some (.data .clear))
    (hk : ¬(cpu.StoresIn k ∧ cpu.tick.cpu.cell? = some k)) :
    cpu.tick.cpu.memory[k]? = cpu.memory[k]? := by
  rcases tick_cases cpu with ⟨-, heq⟩ | ⟨-, -, heq⟩ | ⟨word, e, -, -, -, heq, -⟩ |
    ⟨word, i, hi, heq, -⟩
  · rw [heq]
    rfl
  · have hmemory : cpu.latchInputs.memory = cpu.memory :=
      cpu.changesOnly_latchInputs .memory (by simp)
    rw [heq]
    exact congrArg (·[k]?) hmemory
  · rw [heq]
    exact congrArg (·[k]?) ready_memory
  · have hnext : cpu.next? = some i := next?_eq_some_iff.mpr ⟨word, hi⟩
    cases hs : i.stores with
    | false =>
      have hmemory : (cpu.ready.run i).cpu.memory = cpu.ready.memory :=
        cpu.ready.run_changesOnly i .memory
          (Instruction.memory_not_mem_footprint hs fun hi => hclear (hi ▸ hnext))
      rw [heq]
      exact congrArg (·[k]?) (hmemory.trans ready_memory)
    | true =>
      -- the store has written the register that it left selected, which is not `k`
      rw [hi.memory_of_stores hs]
      cases hcell : cpu.tick.cpu.cell? with
      | none => rfl
      | some a =>
        have hne : a ≠ k := by
          rintro rfl
          exact hk ⟨⟨i, hnext, hs, (cell?_eq_some_iff.mp hcell).1⟩, hcell⟩
        exact Array.getElem?_setIfInBounds_ne hne

/-- Unless it clears, a tick changes no data register but the one that it leaves selected. -/
theorem getElem?_tick_of_ne (hclear : cpu.next? ≠ some (.data .clear))
    (hk : k ≠ cpu.tick.cpu.dataAddress) : cpu.tick.cpu.memory[k]? = cpu.memory[k]? := by
  refine getElem?_tick hclear ?_
  rintro ⟨⟨-, -, -, rfl⟩, -⟩
  exact hk rfl

/-- Unless it clears, a tick that leaves no register selected changes none. -/
theorem memory_tick_of_cell?_eq_none (hclear : cpu.next? ≠ some (.data .clear))
    (h : cpu.tick.cpu.cell? = none) : cpu.tick.cpu.memory = cpu.memory := by
  refine Array.ext_getElem? fun k => getElem?_tick hclear ?_
  rintro ⟨-, hcell⟩
  rw [h] at hcell
  cases hcell

/-! ## 5. Runs -/

end Processor

/-- What the act changes of the data registers, it changes of others than `k`.  Resets and restored
records are not looked into. -/
def Act.Spares (k : Nat) (cpu : Processor) : Act → Prop
  | .tick => cpu.next? ≠ some (.data .clear) ∧ ¬cpu.StoresIn k
  | .reset | .restore _ => False
  | _ => True

/-- The act neither changes a data register nor selects one. -/
def Act.LeavesData (cpu : Processor) : Act → Prop
  | .tick => ∀ i, cpu.next? = some i → i.stores = false ∧ i.selects = false ∧ i ≠ .data .clear
  | .reset | .restore _ => False
  | _ => True

theorem Act.data_not_mem_footprint (a : Act) :
    Component.memory ∉ a.footprint ∧ Component.dataAddress ∉ a.footprint := by
  cases a with
  | arithmetic op s => cases op <;> simp [footprint]
  | _ => simp [footprint]

theorem Act.LeavesData.spares {cpu : Processor} {a : Act} (h : a.LeavesData cpu) (k : Nat) :
    a.Spares k cpu := by
  cases a with
  | tick =>
    refine ⟨fun hclear => (h _ hclear).2.2 rfl, ?_⟩
    rintro ⟨i, hnext, hstores, -⟩
    rw [(h i hnext).1] at hstores
    cases hstores
  | reset | restore _ => cases h
  | _ => trivial

namespace Processor

variable {cpu cpu' : Processor} {i j : Instruction} {k word word' : Nat}

theorem getElem?_perform {a : Act} (h : a.Spares k cpu) :
    (cpu.perform a).memory[k]? = cpu.memory[k]? := by
  have hsmall : a.isSmall = true → (cpu.perform a).memory[k]? = cpu.memory[k]? := by
    intro hsmall
    have hmemory : (cpu.perform a).memory = cpu.memory :=
      cpu.perform_changesOnly hsmall .memory a.data_not_mem_footprint.1
    rw [hmemory]
  cases a with
  | tick => exact getElem?_tick h.1 fun hboth => h.2 hboth.1
  | reset | restore _ => cases h
  | _ => exact hsmall rfl

/-- A run that spares a data register leaves its content. -/
theorem getElem?_of_spares (h : Reaches (Act.Spares k) cpu cpu') :
    cpu'.memory[k]? = cpu.memory[k]? :=
  h.invariant (motive := fun cpu' => cpu'.memory[k]? = cpu.memory[k]?) rfl
    fun _ _ _ ha ih => (getElem?_perform ha).trans ih

/-- A tick that selects nothing leaves the data address. -/
theorem dataAddress_tick (h : Act.tick.LeavesData cpu) :
    cpu.tick.cpu.dataAddress = cpu.dataAddress := by
  refine tick_preserves (motive := fun cpu' => cpu'.dataAddress = cpu.dataAddress) rfl ?_ ?_ ?_
    fun _ _ hsame => hsame
  · exact fun _ => cpu.changesOnly_latchInputs .dataAddress (by simp)
  · exact fun _ => ready_dataAddress
  · intro word i hi hsame
    obtain ⟨-, hselects, -⟩ := h i (next?_eq_some_iff.mpr ⟨word, hi⟩)
    exact Eq.trans (cpu.ready.run_changesOnly i .dataAddress
      (Instruction.dataAddress_not_mem_footprint hselects)) hsame

/-- A run that selects no data register leaves the data address. -/
theorem dataAddress_of_leavesData (h : Reaches Act.LeavesData cpu cpu') :
    cpu'.dataAddress = cpu.dataAddress := by
  refine h.invariant (motive := fun cpu' => cpu'.dataAddress = cpu.dataAddress) rfl ?_
  intro cpu' a _ ha ih
  have hsmall : a.isSmall = true → (cpu'.perform a).dataAddress = cpu'.dataAddress := fun hsmall =>
    cpu'.perform_changesOnly hsmall .dataAddress a.data_not_mem_footprint.2
  cases a with
  | tick => exact (dataAddress_tick ha).trans ih
  | reset | restore _ => cases ha
  | _ => exact (hsmall rfl).trans ih

/-- **What was stored is what the next load finds**, however many acts come in between that spare
the register. -/
theorem Executes.loads_stored (hi : cpu.Executes word i) (hs : i.stores = true)
    (hcell : cpu.tick.cpu.cell? = some k) (hsize : k < cpu.memory.size)
    (hrun : Reaches (Act.Spares k) cpu.tick.cpu cpu') (hj : cpu'.Executes word' j)
    (hl : j.loads = true) (hprinter : cpu'.printer = none)
    (haddress : cpu'.tick.cpu.dataAddress = k) :
    cpu'.tick.cpu.register .c = cpu.register .c := by
  have hmodel : cpu'.tick.cpu.model = cpu.tick.cpu.model :=
    (cpu'.tick_model).trans hrun.model_rom.1
  -- the load goes by the address and the model alone, whatever came in between
  have hagain : cpu'.tick.cpu.cell? = some k := by
    rw [← hcell]
    exact cell?_congr hmodel (haddress.trans (cell?_eq_some_iff.mp hcell).1.symm)
  have hkept : cpu'.tick.cpu.memory[k]? = some (cpu.register .c) := by
    rw [hj.memory_of_loads hl, getElem?_of_spares hrun]
    exact (hi.getElem?_of_stores hs hcell hsize k).trans (if_pos rfl)
  rw [hj.register_of_loads hprinter hl, cellContent_of_cell? hagain, Array.getD_eq_getD_getElem?,
    hkept]
  rfl

end Processor

end Calculator
