/-
# Power states

Only a Nut powers down.  With its display on it goes to sleep, with its display off it goes off, and
either way it starts again at the first word of its image once a key or the host wakes it.  Until
then ticks do nothing.  What the firmware finds there tells it why it was halted: the carry is set
by going off and clear after sleep, and nothing in between touches it.

`run_keepsPower` is the step of one instruction, `powerFit_of_reaches` the invariant, and
`power_states` the main statement.
-/
import Calculator.Proofs.History

namespace Calculator

/-! ## 1. Acts -/

/-- The host neither calls a subroutine nor returns from one. -/
def Act.NoJump (_ : Processor) (a : Act) : Prop := a ≠ .ret ∧ ∀ target, a ≠ .call target

/-- The act does not wake a processor up. -/
def Act.LeavesHalted (_ : Processor) (a : Act) : Prop :=
  a ≠ .wake ∧ a ≠ .reset ∧ ∀ code, a ≠ .press code

/-- The act leaves alone what a halted processor will find when it wakes up, and it does not run a
processor that is awake. -/
def Act.KeepsReason (cpu : Processor) : Act → Prop
  | .tick => cpu.isRunning = false
  | .arithmetic _ _ | .reset | .restore _ | .call _ | .ret => False
  | _ => True

/-! ## 2. Runs of the emulator -/

namespace Emulator

variable {P : Processor → Prop}

/-- **What a tick preserves, a run preserves.** -/
theorem runFrom_preserves (htick : ∀ cpu, P cpu → P cpu.tick.cpu) (events : Array Event)
    {e : Emulator} (h : P e.cpu) (budget : Nat) : P (runFrom events e budget).emulator.cpu := by
  induction budget generalizing events e with
  | zero => exact h
  | succ budget ih =>
    unfold runFrom
    split
    · exact h
    · dsimp only
      split
      · exact htick _ h
      · exact ih _ (htick _ h)

/-- A run is a history of ticks. -/
theorem reaches_run {allowed : Processor → Act → Prop} {start : Processor} {e : Emulator}
    (htick : ∀ cpu, allowed cpu .tick) (h : Reaches allowed start e.cpu) (budget : Nat) :
    Reaches allowed start (e.run budget).emulator.cpu :=
  runFrom_preserves (fun cpu hcpu => hcpu.act .tick (htick cpu)) #[] h budget

/-- A run of a processor that never halts uses its budget up, unless it ends with a fault. -/
theorem runFrom_of_not_halted (htick : ∀ cpu, P cpu → P cpu.tick.cpu)
    (hrunning : ∀ cpu, P cpu → cpu.halted? = none) (events : Array Event) {e : Emulator}
    (h : P e.cpu) (budget : Nat) :
    (runFrom events e budget).result = .ok .budget ∨
      ∃ f, (runFrom events e budget).result = .error f := by
  induction budget generalizing events e with
  | zero =>
    refine .inl ?_
    unfold runFrom
    rw [hrunning _ h]
    rfl
  | succ budget ih =>
    unfold runFrom
    rw [hrunning _ h]
    dsimp only
    split
    · exact .inr ⟨_, rfl⟩
    · exact ih _ (htick _ h)

end Emulator

namespace Processor

variable {cpu : Processor} {i : Instruction}

theorem halted?_of_isRunning (h : cpu.isRunning = true) : cpu.halted? = none := by
  obtain ⟨henabled, hsleeping⟩ := (Bool.and_eq_true _ _).mp h
  simp_all [halted?]

theorem isRunning_of_agrees {cpu' : Processor} (henabled : Component.enabled.Agrees cpu cpu')
    (hsleeping : Component.sleeping.Agrees cpu cpu') : cpu'.isRunning = cpu.isRunning := by
  have henabled' : cpu'.enabled = cpu.enabled := henabled
  have hsleeping' : cpu'.sleeping = cpu.sleeping := hsleeping
  rw [isRunning, henabled', hsleeping']
  rfl

/-! ## 3. Powering down -/

/-- Only one instruction has to do with the power. -/
theorem run_keepsPower (cpu : Processor) (h : i ≠ .control .powerOff) :
    (cpu.run i).cpu.enabled = cpu.enabled ∧ (cpu.run i).cpu.sleeping = cpu.sleeping := by
  have hframe : Component.enabled ∉ i.footprint ∧ Component.sleeping ∉ i.footprint →
      (cpu.run i).cpu.enabled = cpu.enabled ∧ (cpu.run i).cpu.sleeping = cpu.sleeping :=
    fun hno => ⟨cpu.run_changesOnly i .enabled hno.1, cpu.run_changesOnly i .sleeping hno.2⟩
  refine hframe ?_
  cases i with
  | control x =>
    cases x with
    | powerOff => exact absurd rfl h
    | _ => simp
  | nop => simp
  | arithmetic x _ | move x | digit x | status x | pointer x | flow x | data x | card x | printer x =>
    cases x <;> simp [RegisterName.all]

/-- What powering down leaves behind.  The display decides how deep it goes, and the carry tells. -/
structure PoweredDown (cpu : Processor) : Prop where
  isRunning : cpu.isRunning = false
  sleeping_eq : cpu.sleeping = cpu.enabled
  pc_eq : cpu.pc = 0
  carry_eq : cpu.flags.carry = !cpu.enabled
  display_eq : cpu.flags.displayEnable = cpu.enabled

theorem poweredDown_powerOff (hrunning : cpu.isRunning = true) (hc : cpu.flags.carry = false) :
    cpu.powerOff.PoweredDown := by
  obtain ⟨henabled, hsleeping⟩ : cpu.enabled = true ∧ cpu.sleeping = false := by
    simpa [Processor.isRunning] using hrunning
  unfold powerOff
  cases hdisplay : cpu.flags.displayEnable with
  | true =>
    rw [if_pos rfl]
    constructor <;> simp [Processor.isRunning, henabled, hc, hdisplay]
  | false =>
    rw [if_neg (by simp)]
    constructor <;> simp [Processor.isRunning, setCarry, hsleeping, hdisplay]

/-- **A tick either keeps the processor running or powers it down.** -/
theorem tick_power (hrunning : cpu.isRunning = true) :
    cpu.tick.cpu.isRunning = true ∨
      (∃ word, cpu.Executes word (.control .powerOff)) ∧ cpu.tick.cpu.PoweredDown := by
  have hready : cpu.ready.isRunning = true := cpu.ready_isRunning.trans hrunning
  rcases tick_cases cpu with ⟨hhalted, -⟩ | ⟨-, -, heq⟩ | ⟨word, e, -, -, -, hcpu, -⟩ |
    ⟨word, i, hi, hcpu, -⟩
  · rw [hrunning] at hhalted
    cases hhalted
  · have hlatch := cpu.changesOnly_latchInputs
    rw [heq]
    exact .inl ((isRunning_of_agrees (hlatch .enabled (by simp)) (hlatch .sleeping (by simp))).trans
      hrunning)
  · rw [hcpu]
    exact .inl hready
  · rw [hcpu]
    by_cases hoff : i = .control .powerOff
    · subst hoff
      have hdown := poweredDown_powerOff hready cpu.ready_carry
      exact .inr ⟨⟨word, hi⟩, hdown.1, hdown.2, hdown.3, hdown.4, hdown.5⟩
    · obtain ⟨henabled, hsleeping⟩ := cpu.ready.run_keepsPower hoff
      exact .inl ((isRunning_of_agrees henabled hsleeping).trans hready)

/-- Only a Nut powers down. -/
theorem isRunning_tick (hfamily : cpu.hardware.family ≠ .nut) (hrunning : cpu.isRunning = true) :
    cpu.tick.cpu.isRunning = true := by
  rcases tick_power hrunning with hstays | ⟨⟨word, hi⟩, -⟩
  · exact hstays
  · exact absurd (Instruction.family_of_decode_powerOff hi.decode_eq) hfamily

/-! ## 4. The invariant -/

/-- What may be relied on about the power at any time. -/
structure PowerFit (cpu : Processor) : Prop where
  isRunning : cpu.hardware.family ≠ .nut → cpu.isRunning = true
  exclusive : ¬(cpu.enabled = false ∧ cpu.sleeping = true)
  pc_eq : cpu.isRunning = false → cpu.pc = 0

theorem powerFit_of_isRunning (h : cpu.isRunning = true) : cpu.PowerFit := by
  refine ⟨fun _ => h, ?_, ?_⟩
  · rintro ⟨henabled, -⟩
    simp [Processor.isRunning, henabled] at h
  · intro hhalted
    rw [h] at hhalted
    cases hhalted

/-- The components that the power depends on. -/
def powerComponents : List Component := [.model, .pc, .enabled, .sleeping]

theorem PowerFit.frame {cs : List Component} {cpu' : Processor} (h : cpu.PowerFit)
    (hchange : ChangesOnly cs cpu cpu') (hdisj : ∀ c ∈ powerComponents, c ∉ cs) : cpu'.PowerFit := by
  have hkept : ∀ c ∈ powerComponents, c.Agrees cpu cpu' := fun c hc => hchange c (hdisj c hc)
  have hmodel : cpu'.model = cpu.model := hkept .model (by simp [powerComponents])
  have hpc : cpu'.pc = cpu.pc := hkept .pc (by simp [powerComponents])
  have henabled : cpu'.enabled = cpu.enabled := hkept .enabled (by simp [powerComponents])
  have hsleeping : cpu'.sleeping = cpu.sleeping := hkept .sleeping (by simp [powerComponents])
  have hrunning : cpu'.isRunning = cpu.isRunning := isRunning_of_agrees henabled hsleeping
  refine ⟨?_, ?_, ?_⟩
  · rw [hrunning, hardware, hmodel]
    exact h.isRunning
  · rw [henabled, hsleeping]
    exact h.exclusive
  · rw [hrunning, hpc]
    exact h.pc_eq

theorem PowerFit.tick (h : cpu.PowerFit) : cpu.tick.cpu.PowerFit := by
  cases hrunning : cpu.isRunning with
  | false =>
    rw [tick_of_not_isRunning hrunning]
    exact h
  | true =>
    rcases tick_power hrunning with hstays | ⟨⟨word, hi⟩, hdown⟩
    · exact powerFit_of_isRunning hstays
    · have hmodel : Component.model.Agrees cpu cpu.tick.cpu := cpu.tick_agrees (by simp [hostOwned])
      refine ⟨?_, ?_, fun _ => hdown.pc_eq⟩
      · rw [hardware, show cpu.tick.cpu.model = cpu.model from hmodel]
        exact fun hfamily =>
          absurd (Instruction.family_of_decode_powerOff hi.decode_eq) hfamily
      · rw [hdown.sleeping_eq]
        rintro ⟨hoff, hon⟩
        rw [hoff] at hon
        cases hon

/-- No record holds anything of it. -/
theorem not_mem_layout_power (hw : Hardware) :
    ∀ c ∈ powerComponents, c ∉ (Slot.layout hw).flatten.map Slot.component := by
  intro c hc hmem
  obtain ⟨slot, -, rfl⟩ := List.mem_map.mp hmem
  cases slot with
  | flag x => cases x <;> simp [Slot.component, Flag.component, powerComponents] at hc
  | _ => simp [Slot.component, powerComponents] at hc

theorem PowerFit.perform (h : cpu.PowerFit) {a : Act} (ha : Act.NoJump cpu a) :
    (cpu.perform a).PowerFit := by
  cases a with
  | tick => exact h.tick
  | reset | wake => exact powerFit_of_isRunning rfl
  | press code =>
    simp only [Processor.perform, press]
    split
    · exact powerFit_of_isRunning rfl
    · exact ⟨h.isRunning, h.exclusive, h.pc_eq⟩
  | restore bytes =>
    exact h.frame (Record.read_changesOnly cpu bytes) (not_mem_layout_power _)
  | arithmetic op s =>
    exact h.frame (cpu.applyArithmetic_changesOnly op s)
      (by cases op <;> simp [powerComponents])
  | call target => exact absurd rfl (ha.2 target)
  | ret => exact absurd rfl ha.1
  | release | setProgram _ | setTimer _ | setTrace _ | setPrintMode _ | takePrinted =>
    exact h.frame (cpu.perform_changesOnly rfl) (by simp [Act.footprint, powerComponents])

theorem powerFit_of_reaches {model : Model} {rom : Rom} (h : Reaches Act.NoJump (new model rom) cpu) :
    cpu.PowerFit :=
  h.invariant (powerFit_of_isRunning rfl) fun _ _ _ ha ih => ih.perform ha

/-! ## 5. Halted processors -/

/-- A halted processor stays halted until a key, the host or a reset wakes it. -/
theorem isRunning_of_leavesHalted {cpu' : Processor} (hhalted : cpu.isRunning = false)
    (h : Reaches Act.LeavesHalted cpu cpu') : cpu'.isRunning = false := by
  refine h.invariant (motive := fun cpu' => cpu'.isRunning = false) hhalted ?_
  intro mid a _ ha ih
  have hframe : ∀ {cs cpu'}, ChangesOnly cs mid cpu' → .enabled ∉ cs → .sleeping ∉ cs →
      cpu'.isRunning = false :=
    fun hchange henabled hsleeping =>
      (isRunning_of_agrees (hchange _ henabled) (hchange _ hsleeping)).trans ih
  cases a with
  | tick =>
    simp only [Processor.perform]
    rw [tick_of_not_isRunning ih]
    exact ih
  | wake => exact absurd rfl ha.1
  | reset => exact absurd rfl ha.2.1
  | press code => exact absurd rfl (ha.2.2 code)
  | restore bytes =>
    exact hframe (Record.read_changesOnly mid bytes)
      (not_mem_layout_power _ _ (by simp [powerComponents]))
      (not_mem_layout_power _ _ (by simp [powerComponents]))
  | arithmetic op s =>
    exact hframe (mid.applyArithmetic_changesOnly op s) (by cases op <;> simp)
      (by cases op <;> simp)
  | release | setProgram _ | setTimer _ | setTrace _ | setPrintMode _ | takePrinted | call _ | ret =>
    exact hframe (mid.perform_changesOnly rfl) (by simp [Act.footprint]) (by simp [Act.footprint])

/-- Nothing that may come before waking up touches the program counter, the carry or the display. -/
theorem reason_of_reaches {cpu' : Processor} (h : Reaches Act.KeepsReason cpu cpu') :
    cpu'.pc = cpu.pc ∧ cpu'.flags.carry = cpu.flags.carry ∧
      cpu'.flags.displayEnable = cpu.flags.displayEnable := by
  refine h.invariant (motive := fun cpu' => cpu'.pc = cpu.pc ∧
    cpu'.flags.carry = cpu.flags.carry ∧ cpu'.flags.displayEnable = cpu.flags.displayEnable)
    ⟨rfl, rfl, rfl⟩ ?_
  intro mid a _ ha ih
  have hframe : ∀ {cs cpu'}, ChangesOnly cs mid cpu' → .pc ∉ cs → .carry ∉ cs →
      .displayEnable ∉ cs → cpu'.pc = cpu.pc ∧ cpu'.flags.carry = cpu.flags.carry ∧
        cpu'.flags.displayEnable = cpu.flags.displayEnable :=
    fun hchange hpc hcarry hdisplay => ⟨Eq.trans (hchange .pc hpc) ih.1,
      Eq.trans (hchange .carry hcarry) ih.2.1, Eq.trans (hchange .displayEnable hdisplay) ih.2.2⟩
  cases a with
  | tick =>
    simp only [Processor.perform]
    rw [tick_of_not_isRunning ha]
    exact ih
  | arithmetic _ _ | reset | restore _ | call _ | ret => exact ha.elim
  | press _ | release | wake | setProgram _ | setTimer _ | setTrace _ | setPrintMode _
  | takePrinted =>
    exact hframe (mid.perform_changesOnly rfl) (by simp [Act.footprint]) (by simp [Act.footprint])
      (by simp [Act.footprint])

/-- What a processor that has halted finds when it is woken. -/
structure WokenFrom (halted woken : Processor) : Prop where
  /-- It executes the first word of its image. -/
  tick_eq : woken.pc = 0 ∧ ∃ word, woken.rom.word? 0 = some word ∧
    woken.tick.cpu = { (woken.ready.execute word).cpu with opcode := word } ∧
    woken.tick.fault = (woken.ready.execute word).fault
  /-- After it was off, with the display disabled, that word finds the carry before set. -/
  off : halted.enabled = false →
    woken.ready.flags.prevCarry = true ∧ halted.flags.displayEnable = false ∧
      woken.flags.displayEnable = false
  /-- After it only slept, with the display enabled, it finds it clear. -/
  asleep : halted.sleeping = true →
    woken.ready.flags.prevCarry = false ∧ halted.flags.displayEnable = true ∧
      woken.flags.displayEnable = true

/-- **The carry before tells the firmware why it was halted.** -/
theorem wokenFrom_of_reaches {woken : Processor} (hrunning : cpu.isRunning = true)
    (hhalted : cpu.tick.cpu.isRunning = false) (h : Reaches Act.KeepsReason cpu.tick.cpu woken)
    (hwoken : woken.isRunning = true) : WokenFrom cpu.tick.cpu woken := by
  rcases tick_power hrunning with hstays | ⟨⟨off, hi⟩, hdown⟩
  · rw [hhalted] at hstays
    cases hstays
  · obtain ⟨hpc, hcarry, hdisplay⟩ := reason_of_reaches h
    have hpc₀ : woken.pc = 0 := hpc.trans hdown.pc_eq
    have himage : Component.rom.Agrees cpu cpu.tick.cpu := cpu.tick_agrees (by simp [hostOwned])
    have hrom : woken.rom = cpu.rom := h.model_rom.2.trans himage
    have hprev : woken.ready.flags.prevCarry = !cpu.tick.cpu.enabled := by
      rw [ready_prevCarry, hcarry, hdown.carry_eq]
    refine ⟨⟨hpc₀, ?_⟩, ?_, ?_⟩
    · -- a word has been executed, so the image has a first one
      have hlt : 0 < woken.rom.size := by
        rw [hrom]
        exact Nat.lt_of_le_of_lt (Nat.zero_le _) (Array.getElem?_eq_some_iff.mp hi.word_eq).1
      obtain ⟨word, hword⟩ := Rom.exists_word? hlt
      exact ⟨word, hword, tick_of_word? hwoken (hpc₀.symm ▸ hword)⟩
    · intro hoff
      rw [hprev, hdisplay, hdown.display_eq, hoff]
      exact ⟨rfl, rfl, rfl⟩
    · intro hasleep
      rw [hprev, hdisplay, hdown.display_eq, ← hdown.sleeping_eq, hasleep]
      exact ⟨rfl, rfl, rfl⟩

/-! ## 6. Every history -/

/-- **Power states.**  A Classic or a Woodstock is never halted, so that its runs use their budget up or
end with a fault.  A Nut is off or asleep but not both, it is left alone by ticks until it is woken,
and then it starts at the first word of its image, with the reason in the carry before. -/
theorem power_states {model : Model} {rom : Rom} (h : Reaches Act.NoJump (new model rom) cpu) :
    (model.hardware.family ≠ .nut →
      cpu.enabled = true ∧ cpu.sleeping = false ∧
        ∀ instructions budget,
          (Emulator.run ⟨cpu, instructions⟩ budget).result = .ok .budget ∨
            ∃ f, (Emulator.run ⟨cpu, instructions⟩ budget).result = .error f) ∧
    (model.hardware.family = .nut →
      ¬(cpu.enabled = false ∧ cpu.sleeping = true) ∧
      (cpu.enabled = false ∨ cpu.sleeping = true →
        cpu.pc = 0 ∧ ∀ cpu', Reaches Act.LeavesHalted cpu cpu' →
          cpu'.isRunning = false ∧ cpu'.tick = .done cpu') ∧
      (cpu.isRunning = true → cpu.tick.cpu.isRunning = false →
        ∀ woken, Reaches Act.KeepsReason cpu.tick.cpu woken → woken.isRunning = true →
          WokenFrom cpu.tick.cpu woken)) := by
  have hmodel : cpu.model = model := h.model_rom.1
  have hfit := powerFit_of_reaches h
  constructor
  · intro hfamily
    have hne : cpu.hardware.family ≠ .nut := by
      rw [hardware, hmodel]
      exact hfamily
    have hrunning := hfit.isRunning hne
    obtain ⟨henabled, hsleeping⟩ : cpu.enabled = true ∧ cpu.sleeping = false := by
      simpa [isRunning] using hrunning
    refine ⟨henabled, hsleeping, fun instructions budget => ?_⟩
    refine Emulator.runFrom_of_not_halted
      (P := fun cpu' => cpu'.hardware.family ≠ .nut ∧ cpu'.isRunning = true) ?_ ?_ #[] ⟨hne, hrunning⟩ budget
    · rintro cpu' ⟨hne', hrunning'⟩
      have hmodel' : Component.model.Agrees cpu' cpu'.tick.cpu :=
        cpu'.tick_agrees (by simp [hostOwned])
      refine ⟨?_, isRunning_tick hne' hrunning'⟩
      rw [hardware, show cpu'.tick.cpu.model = cpu'.model from hmodel']
      exact hne'
    · exact fun _ hP => halted?_of_isRunning hP.2
  · intro _
    refine ⟨hfit.exclusive, ?_, fun hrunning hhalted woken hreaches hwoken =>
      wokenFrom_of_reaches hrunning hhalted hreaches hwoken⟩
    intro hdown
    have hhalted : cpu.isRunning = false := by
      rcases hdown with hoff | hasleep
      · simp [isRunning, hoff]
      · simp [isRunning, hasleep]
    refine ⟨hfit.pc_eq hhalted, fun cpu' hreaches => ?_⟩
    have hstays := isRunning_of_leavesHalted hhalted hreaches
    exact ⟨hstays, tick_of_not_isRunning hstays⟩

/-- A Nut that goes off in its first tick and is woken by a key. -/
theorem power_states_off :
    let halted := (new .hp11c ⟨#[0o140]⟩).tick.cpu
    halted.enabled = false ∧ WokenFrom halted (halted.perform (.press 0x18)) := by
  have hstart : Reaches Act.NoJump (new .hp11c ⟨#[0o140]⟩) (new .hp11c ⟨#[0o140]⟩) := .start
  obtain ⟨-, -, hwakes⟩ := (power_states hstart).2 rfl
  exact ⟨rfl, hwakes rfl rfl _ (.act _ .start trivial) rfl⟩

end Processor

end Calculator
