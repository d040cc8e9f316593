/-
# No tick traps

On a Classic part, on a Woodstock whose pointer wraps past the register and on a Nut, the guarded tick
is the tick (`trap_free`): every guard holds in every state that a history can lead to.  The guards of
a tick rely on few of the invariants; `Sound` collects them as the bounds that they are.
-/
import Calculator.Proofs.GuardedTick
import Calculator.Proofs.Widths
import Calculator.Proofs.WellFormed

namespace Calculator

/-- A part on which no pointer misses its wrap. -/
def Hardware.CountsSafely (hw : Hardware) : Prop :=
  hw.family = .classic ∨ hw.family = .woodstock ∧ hw.pointer = .wrapping ∨ hw.family = .nut

/-- None of these parts has a peripheral. -/
theorem Model.peripheral_eq_none {model : Model} (h : model.hardware.CountsSafely) :
    model.hardware.peripheral = .none := by
  unfold Hardware.CountsSafely at h
  cases model <;> first | rfl | exact absurd h (by decide)

/-- The ones with one pointer do not wrap it at the top digit. -/
theorem Model.pointer_ne_previousOpcode {model : Model} (h : model.hardware.CountsSafely)
    (hother : model.hardware.family ≠ .nut) : model.hardware.pointer ≠ .previousOpcode := by
  unfold Hardware.CountsSafely at h
  cases model <;> first | decide | exact absurd h (by decide) | exact absurd rfl hother

namespace Processor

variable {cpu : Processor}

/-! ## 1. Counting -/

/-- A pointer at a digit of the register counts on without running out of its bits. -/
theorem exists_nextPointer_of_lt (hstyle : cpu.hardware.pointer = .previousOpcode)
    (hlt : cpu.pointer < 14) : ∃ n, cpu.nextPointer = .ok n := by
  unfold nextPointer countUp
  rw [hstyle]
  dsimp only
  split
  · exact ⟨_, rfl⟩
  · split
    · rw [if_pos (by omega)]
      exact ⟨_, rfl⟩
    · split <;> exact ⟨_, rfl⟩

/-- Pointers within their range, on a part where none misses its wrap. -/
theorem exists_nextPointer (hsafe : cpu.hardware.CountsSafely) (hnut : cpu.PointersFit)
    (hrange : cpu.hardware.family ≠ .nut → cpu.InRange) : ∃ n, cpu.nextPointer = .ok n := by
  by_cases hfamily : cpu.hardware.family = .nut
  · exact exists_nextPointer_of_lt (Model.pointer_of_nut hfamily) (hnut.pointer_lt hfamily)
  · have hstyle := Model.pointer_ne_previousOpcode hsafe hfamily
    obtain ⟨n, -, hn⟩ :=
      (hrange hfamily).exists_nextPointer hfamily fun hprevious => absurd hprevious hstyle
    exact ⟨n, hn⟩

/-! ## 2. One tick -/

/-- The bounds that the guards of a tick rely on. -/
structure Sound (cpu : Processor) : Prop where
  stack : cpu.StackFit
  words : cpu.WordsFit
  pointers : cpu.PointersFit
  range : cpu.hardware.family ≠ .nut → cpu.InRange
  card : cpu.CardFit

/-- Latching the inputs and fetching a word leave every guard in place. -/
theorem Sound.guardsHold_ready (h : cpu.Sound) (hsafe : cpu.hardware.CountsSafely) :
    cpu.ready.GuardsHold := by
  have hframe := cpu.changesOnly_ready
  have hdata : cpu.ready.dataAddress = cpu.dataAddress := hframe .dataAddress (by simp)
  have hcard : cpu.ready.card = cpu.card := hframe .card (by simp)
  constructor
  · exact hframe.preserves stackFit_dependsOn (by simp) h.stack
  · refine exists_nextPointer ?_ (h.pointers.frame hframe (by simp)) ?_
    · rw [ready_hardware]
      exact hsafe
    · intro hother
      rw [ready_hardware] at hother
      exact (h.range hother).frame hframe (by simp)
  · rw [hdata]
    exact h.words.dataAddress_lt
  · intro reader hreader
    rw [hcard] at hreader
    have hready := h.card.ready reader hreader
    omega
  · rw [ready_hardware]
    exact Model.peripheral_eq_none hsafe

theorem execute?_eq (h : cpu.GuardsHold) {word : Nat} (hword : word < 0x400) :
    cpu.execute? word = some (cpu.execute word) := by
  unfold execute? execute
  cases hdecode : Instruction.decode cpu.hardware word with
  | ok i => exact h.run?_eq (Instruction.fits_of_decode hword hdecode)
  | error e =>
    cases e with
    | undefined => rfl
    | operandTooWide => exact absurd hdecode (Instruction.decode_ne_operandTooWide hword)

/-- Within the bounds a tick does not trap. -/
theorem Sound.tick?_eq (h : cpu.Sound) (hsafe : cpu.hardware.CountsSafely)
    (hrom : cpu.rom.TenBit) : cpu.tick? = some cpu.tick := by
  unfold tick? tick
  simp only [latchInputs?_eq, fetched?_eq, Option.bind_eq_bind, Option.bind_some]
  split
  · cases hfetch : cpu.latchInputs.fetch cpu.latchInputs.pc with
    | error f => rfl
    | ok word =>
      have hword : word < 0x400 := by
        refine Rom.TenBit.lt ?_ (word?_of_fetch hfetch)
        rw [latchInputs_rom]
        exact hrom
      have hexecute : cpu.latchInputs.fetched.execute? word = _ :=
        execute?_eq (h.guardsHold_ready hsafe) hword
      simp only [hexecute]
      rfl
  · rfl

/-! ## 3. Every history -/

theorem sound_of_reaches {model : Model} {rom : Rom} (hsafe : model.hardware.CountsSafely)
    (hrom : rom.TenBit) (h : Reaches (fun _ _ => True) (new model rom) cpu) : cpu.Sound where
  stack := (stackFit_invariant _).of_reaches hrom (by decide : 0 < 4) h
  words := wordsFit_of_reaches hrom h
  pointers := pointersFit_of_reaches hrom h
  range := by
    intro hother
    rw [hardware, h.model_rom.1] at hother
    have hstyle := Model.pointer_ne_previousOpcode hsafe hother
    exact inRange_of_reaches hrom (keepsRange_of_reaches hstyle h)
  card := (cardFit_invariant _).of_reaches hrom (cardFit_new model rom) h

/-- What the processor keeps has room in the machine: the pointers in eight bits, the addresses in
sixteen, and the next cell of the return stack among the four. -/
structure HasRoom (cpu : Processor) : Prop where
  p_lt : cpu.p < 0x100
  q_lt : cpu.q < 0x100
  words : cpu.WordsFit
  next_lt : cpu.stack.next < 4

theorem Sound.hasRoom (h : cpu.Sound) : cpu.HasRoom := by
  have hpointers : cpu.p < 0x100 ∧ cpu.q < 0x100 := by
    by_cases hnut : cpu.hardware.family = .nut
    · obtain ⟨hp, hq⟩ := h.pointers hnut
      exact ⟨Nat.lt_trans hp (by decide), Nat.lt_trans hq (by decide)⟩
    · have hrange := h.range hnut
      have hp := hrange.le_furthest hnut
      obtain ⟨-, hq⟩ := hrange.onePointer hnut
      have hfurthest : cpu.hardware.furthest ≤ 15 := by
        unfold Hardware.furthest
        split <;> decide
      exact ⟨by omega, by omega⟩
  exact ⟨hpointers.1, hpointers.2, h.words, h.stack⟩

/-- **No tick traps**, whatever has happened to the processor before, on the parts on which no pointer
misses its wrap. -/
theorem trap_free {model : Model} {rom : Rom} (hsafe : model.hardware.CountsSafely)
    (hrom : rom.TenBit) (h : Reaches (fun _ _ => True) (new model rom) cpu) :
    cpu.tick? = some cpu.tick ∧ cpu.HasRoom := by
  have hsound := sound_of_reaches hsafe hrom h
  refine ⟨hsound.tick?_eq ?_ ?_, hsound.hasRoom⟩
  · rw [hardware, h.model_rom.1]
    exact hsafe
  · rw [h.model_rom.2]
    exact hrom

/-- A pointer that was set past the register, about to wrap. -/
theorem trap_free_wrap :
    let cpu := (new .hp25 ⟨#[0o74, 0o720]⟩).perform .tick
    cpu.p = 14 ∧ cpu.tick? = some cpu.tick ∧ cpu.tick.cpu.p = 0 := by
  have hrom : Rom.TenBit ⟨#[0o74, 0o720]⟩ := by simp [Rom.TenBit]
  have hreach : Reaches (fun _ _ => True) (new .hp25 ⟨#[0o74, 0o720]⟩)
      ((new .hp25 ⟨#[0o74, 0o720]⟩).perform .tick) := .act .tick .start trivial
  exact ⟨rfl, (trap_free (.inr (.inl ⟨rfl, rfl⟩)) hrom hreach).1, rfl⟩

/-! ## 4. A pointer that missed its wrap -/

/-- Counted up from its last value, such a pointer runs out of its bits. -/
theorem tick?_eq_none {word : Nat} (hi : cpu.Executes word (.pointer .increment))
    (hstyle : cpu.hardware.pointer = .previousOpcode) (hactive : cpu.active = .p)
    (hp : cpu.p = 0xff) : cpu.tick? = none := by
  have hpointer : cpu.ready.pointer = 0xff := by
    have hready : cpu.ready.active = .p :=
      Eq.trans (cpu.changesOnly_ready .active (by simp)) hactive
    unfold pointer
    rw [hready]
    exact Eq.trans (cpu.changesOnly_ready .p (by simp)) hp
  have hnext : cpu.ready.nextPointer = .error (.outOfBounds cpu.ready.last) := by
    rw [nextPointer_past (by rwa [ready_hardware]) (by omega), hpointer]
    rfl
  have hfetch : cpu.latchInputs.fetch cpu.latchInputs.pc = .ok word := by
    unfold fetch
    rw [latchInputs_rom, latchInputs_pc, hi.word_eq]
  have hexecute : cpu.latchInputs.fetched.execute? word = none := by
    show cpu.ready.execute? word = none
    unfold execute?
    rw [ready_hardware, hi.decode_eq]
    simp only [run?, runPointer?, incrementPointer?, hnext]
  unfold tick?
  rw [if_pos hi.isRunning]
  simp only [latchInputs?_eq, fetched?_eq, Option.bind_eq_bind, Option.bind_some, hfetch, hexecute]
  rfl

/-- On a part that wraps the pointer at the top digit, some history ends in a tick that traps. -/
theorem exists_trap :
    ∃ cpu, Reaches (fun _ _ => True) (new .hp31e countingImage) cpu ∧ cpu.tick? = none := by
  obtain ⟨cpu, hreach, hrunning, hactive, hpc, hp⟩ := pointer_strays 241 (Nat.le_refl _)
  obtain ⟨hhardware, hi⟩ := executes_countingImage hreach hrunning (hpc ▸ (by decide : 0 < 242))
    (hpc ▸ (by decide : 242 < 0x1000))
  exact ⟨cpu, hreach, tick?_eq_none hi (by rw [hhardware]; rfl) hactive hp⟩

end Processor

end Calculator
