/-
# Clearing the data registers

The clear of a Woodstock makes the block of sixteen registers zero that holds the data address
(`ClearsBlock`).  An HP-25C has continuous memory and does nothing instead.  An HP-67 has it too,
and leaves out just the four clears that its firmware executes at the start: its card reader counts
them (`HasSkipped`), and neither the host nor any other instruction disturbs the count.  Which clear
of the history it is therefore decides what it does, and nothing else (`clear_by_history`).
-/
import Calculator.Proofs.DataMemory
import Calculator.Proofs.RepeatedIncrement

namespace Calculator

/-- Whether the word is a clear of the data registers. -/
def Hardware.clears (hw : Hardware) (word : Nat) : Bool :=
  match Instruction.decode hw word with
  | .ok (.data .clear) => true
  | _ => false

theorem Hardware.clears_of_decode {hw : Hardware} {word : Nat}
    (h : Instruction.decode hw word = .ok (.data .clear)) : hw.clears word = true := by
  unfold clears
  rw [h]

theorem Hardware.clears_eq_false {hw : Hardware} {word : Nat}
    (h : Instruction.decode hw word ≠ .ok (.data .clear)) : hw.clears word = false := by
  unfold clears
  split
  · exact absurd ‹_› h
  · rfl

/-- Which clear since power-on the next one is, after a history that has executed the words. -/
def Hardware.nextClear (hw : Hardware) (words : List Nat) : Nat := words.countP hw.clears + 1

namespace Processor

variable {cpu cpu' : Processor} {i : Instruction} {words : List Nat} {n word : Nat}

/-! ## 1. A block of registers -/

/-- The data registers that agree with the data address in all but the low four bits have become
zero, and the others are as they were. -/
structure ClearsBlock (cpu cpu' : Processor) : Prop where
  size : cpu'.memory.size = cpu.memory.size
  cleared : ∀ k < cpu.memory.size, k / 0x10 = cpu.dataAddress / 0x10 → cpu'.memory[k]? = some .zero
  kept : ∀ k, k / 0x10 ≠ cpu.dataAddress / 0x10 → cpu'.memory[k]? = cpu.memory[k]?

theorem clearsBlock_clearBlock (cpu : Processor) : ClearsBlock cpu cpu.clearBlock where
  size := Array.size_mapIdx
  cleared := by
    intro k hk hblock
    simp only [clearBlock, Array.getElem?_mapIdx, Array.getElem?_eq_getElem hk, Option.map_some,
      if_pos hblock]
  kept := by
    intro k hblock
    simp only [clearBlock, Array.getElem?_mapIdx, if_neg hblock, Option.map_id']

/-- Where a block is, the data address and the registers tell alone. -/
theorem ClearsBlock.congr {cpu₁ cpu₁' : Processor} (h : ClearsBlock cpu cpu')
    (haddress : cpu₁.dataAddress = cpu.dataAddress) (hmemory : cpu₁.memory = cpu.memory)
    (hmemory' : cpu₁'.memory = cpu'.memory) : ClearsBlock cpu₁ cpu₁' := by
  constructor
  · rw [hmemory, hmemory']
    exact h.size
  · rw [hmemory, hmemory', haddress]
    exact h.cleared
  · rw [hmemory, hmemory', haddress]
    exact h.kept

/-! ## 2. One clear -/

/-- The card reader has counted `n` clears: it has still to skip what is left of four. -/
def HasSkipped (n : Nat) (cpu : Processor) : Prop :=
  ∃ reader, cpu.card = some reader ∧ reader.ready = -((4 - n : Nat) : Int)

theorem hasSkipped_dependsOn (n : Nat) : DependsOn (HasSkipped n) [.card] := by
  rintro cpu cpu' hagree ⟨reader, hcard, hready⟩
  have hsame : cpu'.card = cpu.card := hagree .card (by simp)
  exact ⟨reader, hsame.trans hcard, hready⟩

theorem HasSkipped.frame {cs : List Component} (h : cpu.HasSkipped n)
    (hchange : ChangesOnly cs cpu cpu') (hcard : Component.card ∉ cs) : cpu'.HasSkipped n := by
  refine hchange.preserves (hasSkipped_dependsOn n) ?_ h
  intro c hc
  rw [List.mem_singleton.mp hc]
  exact hcard

/-- With clears left to skip, a clear only counts. -/
theorem HasSkipped.clearData_of_lt (h : cpu.HasSkipped n) (hn : n < 4)
    (hstyle : cpu.hardware.clearData = .afterPowerOn) :
    cpu.clearData.HasSkipped (n + 1) ∧ cpu.clearData.memory = cpu.memory := by
  obtain ⟨reader, hcard, hready⟩ := h
  have hskips : reader.allowClear = (false, { reader with ready := reader.ready + 1 }) :=
    if_neg (by omega)
  simp only [clearData, hstyle, hcard, hskips, Bool.false_eq_true, if_false]
  refine ⟨⟨_, rfl, ?_⟩, trivial⟩
  show reader.ready + 1 = _
  omega

/-- With none left, it goes ahead. -/
theorem HasSkipped.clearData_of_le (h : cpu.HasSkipped n) (hn : 4 ≤ n)
    (hstyle : cpu.hardware.clearData = .afterPowerOn) :
    cpu.clearData.HasSkipped (n + 1) ∧ ClearsBlock cpu cpu.clearData := by
  obtain ⟨reader, hcard, hready⟩ := h
  have hgoes : reader.allowClear = (true, reader) := if_pos (by omega)
  simp only [clearData, hstyle, hcard, hgoes, if_true]
  refine ⟨⟨reader, rfl, ?_⟩, (clearsBlock_clearBlock _).congr rfl rfl rfl⟩
  omega

theorem HasSkipped.clearData (h : cpu.HasSkipped n)
    (hstyle : cpu.hardware.clearData = .afterPowerOn) : cpu.clearData.HasSkipped (n + 1) := by
  rcases Nat.lt_or_ge n 4 with hn | hn
  · exact (h.clearData_of_lt hn hstyle).1
  · exact (h.clearData_of_le hn hstyle).1

/-! ## 3. The count of a history -/

/-- The other instructions of the card reader set and take flags. -/
theorem HasSkipped.runCard (h : cpu.HasSkipped n) (x : CardOp) : (cpu.runCard x).HasSkipped n := by
  obtain ⟨reader, hcard, hready⟩ := h
  unfold Processor.runCard
  rw [hcard]
  cases x with
  | eject => exact ⟨_, rfl, hready⟩
  | set flag => exact ⟨_, rfl, (ready_set reader true flag).trans hready⟩
  | take flag => exact ⟨_, rfl, (ready_set reader false flag).trans hready⟩
  | testCard | testRun | idle => exact ⟨reader, hcard, hready⟩

theorem HasSkipped.run (h : cpu.HasSkipped n) (hclear : i ≠ .data .clear) :
    (cpu.run i).cpu.HasSkipped n := by
  have hframe := cpu.run_changesOnly i
  cases i with
  | data x =>
    cases x with
    | clear => exact absurd rfl hclear
    | _ => exact h.frame hframe (by simp)
  | card x => exact h.runCard x
  | nop => exact h
  | arithmetic x _ | move x | digit x | status x | pointer x | flow x | control x | printer x =>
    exact h.frame hframe (by cases x <;> simp [RegisterName.all])

theorem HasSkipped.tick (h : cpu.HasSkipped (words.countP cpu.hardware.clears))
    (hstyle : cpu.hardware.clearData = .afterPowerOn) :
    cpu.tick.cpu.HasSkipped ((Act.tick.executed cpu words).countP cpu.hardware.clears) := by
  have hready : cpu.ready.HasSkipped (words.countP cpu.hardware.clears) :=
    h.frame cpu.changesOnly_ready (by simp)
  simp only [Act.executed]
  rcases tick_cases cpu with ⟨hhalted, heq⟩ | ⟨hrunning, hword, heq⟩ |
    ⟨word, e, hrunning, hword, hdecode, heq, -⟩ | ⟨word, i, hi, heq, -⟩
  · rw [hhalted, heq]
    exact h
  · rw [hrunning, hword, heq]
    exact h.frame cpu.changesOnly_latchInputs (by simp)
  · have hother : cpu.hardware.clears word = false := Hardware.clears_eq_false (by simp [hdecode])
    simp only [hrunning, hword, heq, if_true, Option.toList_some, List.singleton_append,
      List.countP_cons_of_neg (Bool.eq_false_iff.mp hother)]
    exact hready.frame (changesOnly_opcode _ word) (by simp)
  · simp only [hi.isRunning, hi.word_eq, heq, if_true, Option.toList_some, List.singleton_append]
    refine HasSkipped.frame ?_ (changesOnly_opcode _ word) (by simp)
    by_cases hclear : i = .data .clear
    · have hclears := Hardware.clears_of_decode (hclear ▸ hi.decode_eq)
      rw [List.countP_cons_of_pos hclears, hclear]
      exact hready.clearData (by rw [ready_hardware]; exact hstyle)
    · have hother : cpu.hardware.clears word = false :=
        Hardware.clears_eq_false (by rw [hi.decode_eq]; simpa using hclear)
      rw [List.countP_cons_of_neg (Bool.eq_false_iff.mp hother)]
      exact hready.run hclear

/-- One act keeps the count. -/
theorem HasSkipped.perform (h : cpu.HasSkipped (words.countP cpu.hardware.clears))
    (hmodel : cpu.model = .hp67) (a : Act) :
    (cpu.perform a).HasSkipped ((a.executed cpu words).countP cpu.hardware.clears) := by
  have hhardware : cpu.hardware = Model.hardware .hp67 := congrArg Model.hardware hmodel
  cases a with
  | tick => exact h.tick (by rw [hhardware]; rfl)
  | reset =>
    obtain ⟨reader, hcard, -⟩ := h
    refine ⟨.poweredOn cpu.hardware.continuous, ?_, ?_⟩
    · show cpu.card.map _ = _
      rw [hcard]
      rfl
    · rw [hhardware]
      rfl
  | restore bytes =>
    obtain ⟨reader, hcard, hready⟩ := h
    have hsame : (Record.read cpu bytes).cpu.card = cpu.card :=
      Record.read_agrees cpu bytes (by simp [Component.unsaved] : Component.card ∈ _)
    exact ⟨reader, hsame.trans hcard, hready⟩
  | arithmetic op s =>
    exact h.frame (cpu.applyArithmetic_changesOnly op s) (by cases op <;> simp)
  | press _ | release | wake | setProgram _ | setTimer _ | setTrace _ | setPrintMode _
  | takePrinted | call _ | ret =>
    exact h.frame (cpu.perform_changesOnly rfl) (by simp [Act.footprint])

end Processor

/-- **The card reader of an HP-67 counts the clears of the history**, up to four. -/
theorem Ran.hasSkipped {rom : Rom} {words : List Nat} {cpu : Processor}
    (h : Ran (Processor.new .hp67 rom) words cpu) :
    cpu.HasSkipped (words.countP (Model.hardware .hp67).clears) := by
  induction h with
  | start => exact ⟨_, rfl, rfl⟩
  | @act words cpu a h ih =>
    have hmodel : cpu.model = .hp67 := h.reaches.model_rom.1
    have hhardware : cpu.hardware = Model.hardware .hp67 := congrArg Model.hardware hmodel
    rw [← hhardware] at ih ⊢
    exact ih.perform hmodel a

namespace Processor

variable {cpu cpu' : Processor} {words : List Nat} {word : Nat}

/-! ## 4. Clears over whole histories -/

theorem Executes.tick_clear (hi : cpu.Executes word (.data .clear)) :
    cpu.tick.cpu.memory = cpu.ready.clearData.memory ∧
      cpu.tick.cpu.dataAddress = cpu.dataAddress := by
  rw [hi.tick_eq.1]
  refine ⟨rfl, ?_⟩
  have hsame : cpu.ready.clearData.dataAddress = cpu.ready.dataAddress :=
    cpu.ready.changesOnly_clearData .dataAddress (by simp)
  exact hsame.trans ready_dataAddress

theorem Executes.clearsBlock (hi : cpu.Executes word (.data .clear))
    (h : ClearsBlock cpu.ready cpu.ready.clearData) : ClearsBlock cpu cpu.tick.cpu :=
  h.congr ready_dataAddress.symm ready_memory.symm hi.tick_clear.1

/-- **What a clear does, from the history before it.**  It never fails and never moves the data
address.  On an HP-67 the first four since power-on leave all data registers as they are, and every
later one clears the block; an HP-25C never clears any; every other model clears the block each
time. -/
theorem clear_by_history {model : Model} {rom : Rom} (h : Ran (new model rom) words cpu)
    (hi : cpu.Executes word (.data .clear)) :
    cpu.memory.size = model.hardware.memorySize ∧
    cpu.tick.fault = none ∧ cpu.tick.cpu.dataAddress = cpu.dataAddress ∧
    (model = .hp67 →
      (model.hardware.nextClear words ≤ 4 → cpu.tick.cpu.memory = cpu.memory) ∧
      (5 ≤ model.hardware.nextClear words → ClearsBlock cpu cpu.tick.cpu)) ∧
    (model = .hp25c → cpu.tick.cpu.memory = cpu.memory) ∧
    (model ≠ .hp67 → model ≠ .hp25c → ClearsBlock cpu cpu.tick.cpu) := by
  have hhardware : cpu.hardware = model.hardware := h.reaches.hardware_eq
  have hready : cpu.ready.hardware = model.hardware := cpu.ready_hardware.trans hhardware
  refine ⟨hhardware ▸ memory_size_of_reaches h.reaches, hi.fault_of_data, hi.tick_clear.2,
    ?_, ?_, ?_⟩
  · rintro rfl
    have hstyle : cpu.ready.hardware.clearData = .afterPowerOn := by rw [hready]; rfl
    have hskipped : cpu.ready.HasSkipped _ := h.hasSkipped.frame cpu.changesOnly_ready (by simp)
    refine ⟨fun hfirst => ?_, fun hlater => ?_⟩
    · have hkept := (hskipped.clearData_of_lt hfirst hstyle).2
      exact (hi.tick_clear.1.trans hkept).trans ready_memory
    · exact hi.clearsBlock (hskipped.clearData_of_le (Nat.le_of_succ_le_succ hlater) hstyle).2
  · rintro rfl
    have hstyle : cpu.ready.hardware.clearData = .ignore := by rw [hready]; rfl
    have hkept : cpu.ready.clearData = cpu.ready := by simp only [clearData, hstyle]
    rw [hi.tick_clear.1, hkept]
    exact ready_memory
  · intro hcounting hcontinuous
    have hstyle : cpu.ready.hardware.clearData = .clear := by
      rw [hready]
      cases model <;> first | rfl | exact absurd rfl hcounting | exact absurd rfl hcontinuous
    have hcleared : cpu.ready.clearData = cpu.ready.clearBlock := by simp only [clearData, hstyle]
    exact hi.clearsBlock (hcleared ▸ clearsBlock_clearBlock _)

/-- A seven in the register 3 of an HP-67 outlives the fourth clear and not the fifth. -/
theorem clear_by_history_hp67 :
    let rom : Rom := ⟨#[0o730, 0o350, 0o1260, 0o1260, 0o1260, 0o1260, 0o1260]⟩
    let cpu := (List.replicate 5 Act.tick).foldl perform (new .hp67 rom)
    cpu.memory[3]? = some (Register.zero.put 0 7) ∧
      cpu.tick.cpu.memory = cpu.memory ∧ cpu.tick.cpu.tick.cpu.memory[3]? = some .zero := by
  intro rom cpu
  have hran : Ran (new .hp67 rom) [0o1260, 0o1260, 0o1260, 0o350, 0o730] cpu := by
    refine .tick (.tick (.tick (.tick (.tick .start ?_ ?_) ?_ ?_) ?_ ?_) ?_ ?_) ?_ ?_
    all_goals decide +kernel
  have hfourth : cpu.Executes 0o1260 (.data .clear) :=
    ⟨by decide +kernel, by decide +kernel, hran.reaches.hardware_eq ▸ rfl⟩
  have hran' := hran.tick hfourth.isRunning hfourth.word_eq
  have hfifth : cpu.tick.cpu.Executes 0o1260 (.data .clear) :=
    ⟨by decide +kernel, by decide +kernel, hran'.reaches.hardware_eq ▸ rfl⟩
  obtain ⟨-, -, -, hkeeps, -⟩ := clear_by_history hran hfourth
  obtain ⟨hsize, -, -, hclears, -⟩ := clear_by_history hran' hfifth
  refine ⟨by decide +kernel, (hkeeps rfl).1 (by decide), ?_⟩
  exact ((hclears rfl).2 (by decide)).cleared 3 (by rw [hsize]; decide) (by decide +kernel)

end Processor

end Calculator
