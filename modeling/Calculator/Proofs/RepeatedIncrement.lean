/-
# Repeated increments

A Spice or Nut part leaves a pointer at zero alone if the instruction that counts it up was the last
one too.  To find out, it looks up the word before the program counter, which has already moved on,
and compares it with the word that ran last.  That word is the running one wherever the program
counter has not started again from zero; there the part looks past the end of the image instead, and
a repeated increment goes unnoticed (`zero_pointer_increment`).

Which word ran last is a matter of history: `Ran` tells the words that a history has executed, and
`Ran.opcode_eq` that the processor remembers the newest one.
-/
import Calculator.Proofs.Fault
import Calculator.Proofs.Paging
import Calculator.Proofs.PowerStates

namespace Calculator

/-! ## 1. The words of a history -/

/-- The words executed since the last power-on, the newest first, once an act has been carried out.
A tick that fails has executed its word, if it found one. -/
def Act.executed (cpu : Processor) (words : List Nat) : Act → List Nat
  | tick => if cpu.isRunning then (cpu.rom.word? cpu.pc).toList ++ words else words
  | reset => []
  | _ => words

/-- The processors that a history leads to, with the words that it has executed. -/
inductive Ran (start : Processor) : List Nat → Processor → Prop where
  | start : Ran start [] start
  | act {words : List Nat} {cpu : Processor} (a : Act) (h : Ran start words cpu) :
      Ran start (a.executed cpu words) (cpu.perform a)

theorem Slot.assign_opcode (cpu : Processor) (slot : Slot) (v : Nat) :
    (slot.assign cpu v).opcode = cpu.opcode := by
  cases slot <;> rfl

namespace Processor

variable {cpu : Processor} {words : List Nat} {word : Nat}

/-- One act keeps the word that ran last. -/
theorem perform_opcode (a : Act) (h : cpu.opcode = words.headD 0) :
    (cpu.perform a).opcode = (a.executed cpu words).headD 0 := by
  cases a with
  | tick =>
    simp only [perform, Act.executed]
    rcases tick_cases cpu with ⟨hhalted, heq⟩ | ⟨hrunning, hword, heq⟩ |
      ⟨word, _, hrunning, hword, -, heq, -⟩ | ⟨word, i, hi, heq, -⟩
    · rw [hhalted, heq]
      exact h
    · rw [hrunning, hword, heq]
      exact Eq.trans (cpu.changesOnly_latchInputs .opcode (by simp)) h
    · rw [hrunning, hword, heq]
      rfl
    · rw [hi.isRunning, hi.word_eq, heq]
      rfl
  | reset => rfl
  | restore bytes =>
    exact Record.readSlots_preserves (motive := fun cpu' => cpu'.opcode = words.headD 0)
      (fun slot _ cpu' v h' => (slot.assign_opcode cpu' v).trans h') h bytes
  | arithmetic op s =>
    exact Eq.trans (cpu.applyArithmetic_changesOnly op s .opcode (by cases op <;> simp)) h
  | press _ | release | wake | setProgram _ | setTimer _ | setTrace _ | setPrintMode _
  | takePrinted | call _ | ret =>
    exact Eq.trans (cpu.perform_changesOnly rfl .opcode (by simp [Act.footprint])) h

end Processor

namespace Ran

open Processor (perform_opcode)

variable {start cpu : Processor} {words : List Nat} {allowed : Processor → Act → Prop}

theorem reaches (h : Ran start words cpu) : Reaches (fun _ _ => True) start cpu := by
  induction h with
  | start => exact .start
  | act a _ ih => exact ih.act a trivial

theorem tick {word : Nat} (h : Ran start words cpu) (hrunning : cpu.isRunning = true)
    (hword : cpu.rom.word? cpu.pc = some word) : Ran start (word :: words) cpu.tick.cpu := by
  have hnext := h.act .tick
  simp only [Act.executed, hrunning, hword, if_true] at hnext
  exact hnext

/-- Every history has executed some words. -/
theorem exists_of_reaches (h : Reaches allowed start cpu) : ∃ words, Ran start words cpu := by
  refine h.invariant (motive := fun cpu => ∃ words, Ran start words cpu) ⟨[], .start⟩ ?_
  rintro cpu a - - ⟨words, hran⟩
  exact ⟨_, hran.act a⟩

/-- **A processor remembers the word that ran last**, however it came by it. -/
theorem opcode_eq {model : Model} {rom : Rom} (h : Ran (Processor.new model rom) words cpu) :
    cpu.opcode = words.headD 0 := by
  induction h with
  | start => rfl
  | act a _ ih => exact perform_opcode a ih

end Ran

namespace Processor

variable {cpu : Processor} {words : List Nat} {word : Nat}

/-! ## 2. Counting up from zero -/

/-- No word that counts a pointer up is zero, so none is taken for the one before the first. -/
theorem Executes.increment_ne_zero (hi : cpu.Executes word (.pointer .increment)) : word ≠ 0 := by
  rintro rfl
  cases (decode_zero _).symm.trans hi.decode_eq

theorem pointer_setPointer (cpu : Processor) (n : Nat) : (cpu.setPointer n).pointer = n := by
  unfold setPointer pointer
  cases hactive : cpu.active <;> rfl

/-- Counting up from zero depends on the word before the program counter. -/
theorem nextPointer_zero (hstyle : cpu.hardware.pointer = .previousOpcode) (hzero : cpu.pointer = 0) :
    cpu.nextPointer =
      .ok (if cpu.rom.word? ((cpu.pc + 0xffff) % 0x10000) = some cpu.opcode then 0 else 1) := by
  unfold nextPointer
  rw [hstyle, hzero]
  dsimp only
  rw [if_neg (by decide), if_neg (by decide)]
  split <;> rfl

theorem ready_pointer (cpu : Processor) : cpu.ready.pointer = cpu.pointer := by
  have hp : cpu.ready.p = cpu.p := cpu.changesOnly_ready .p (by simp)
  have hq : cpu.ready.q = cpu.q := cpu.changesOnly_ready .q (by simp)
  have hactive : cpu.ready.active = cpu.active := cpu.changesOnly_ready .active (by simp)
  unfold pointer
  rw [hp, hq, hactive]

/-- A tick that counts the pointer up. -/
theorem Executes.counts {n : Nat} (hi : cpu.Executes word (.pointer .increment))
    (hnext : cpu.ready.nextPointer = .ok n) :
    cpu.tick.fault = none ∧ cpu.tick.cpu.pointer = n := by
  have hrun : cpu.ready.run (.pointer .increment) = .done (cpu.ready.setPointer n) := by
    simp only [Processor.run, runPointer, incrementPointer, hnext]
  rw [hi.tick_eq.1, hi.tick_eq.2, hrun]
  exact ⟨rfl, cpu.ready.pointer_setPointer n⟩

/-- Where a pointer at zero goes, from the words of the history. -/
theorem Executes.nextPointer_zero {model : Model} {rom : Rom}
    (hi : cpu.Executes word (.pointer .increment)) (h : Ran (new model rom) words cpu)
    (hstyle : model.hardware.pointer = .previousOpcode) (hzero : cpu.pointer = 0) :
    (¬(cpu.pc = 0xfff ∨ model.hardware.romSize - 1 ≤ cpu.pc) →
      cpu.ready.nextPointer = .ok (if words.head? = some word then 0 else 1)) ∧
    (cpu.pc = 0xfff ∨ model.hardware.romSize - 1 ≤ cpu.pc →
      cpu.ready.nextPointer = .ok (if rom.word? 0xffff = some (words.headD 0) then 0 else 1)) := by
  obtain ⟨hmodel, hrom⟩ := h.reaches.model_rom
  have hhardware : cpu.hardware = model.hardware := congrArg Model.hardware hmodel
  have hother : cpu.hardware.family ≠ .classic := by
    rw [hhardware]
    cases model <;> first | decide | cases hstyle
  have hsize : cpu.hardware.romSize ≤ 0x2000 := cpu.model.romSize_pages.2
  have hopcode : cpu.ready.opcode = words.headD 0 :=
    Eq.trans (cpu.changesOnly_ready .opcode (by simp)) h.opcode_eq
  have hnext := Processor.nextPointer_zero (cpu.ready_hardware ▸ hhardware ▸ hstyle)
    (cpu.ready_pointer.trans hzero)
  rw [ready_rom, ready_pc, hopcode, Hardware.next_of_banked hother hsize] at hnext
  rw [← hhardware]
  refine ⟨fun hinside => ?_, fun hwraps => ?_⟩
  · have hbefore : (cpu.pc + 1 + 0xffff) % 0x10000 = cpu.pc := by
      unfold Address at *
      omega
    have hsame : some word = some (words.headD 0) ↔ words.head? = some word := by
      cases words with
      | nil => simpa using hi.increment_ne_zero
      | cons newest _ => simp [eq_comm]
    rw [hnext, if_neg hinside, hbefore, hi.word_eq]
    simp only [hsame]
  · rw [hnext, if_pos hwraps, hrom]
    rfl

/-- **What becomes of a pointer at zero that is counted up**, after any history and wherever the
instruction stands.  It stays at zero if the last instruction was the same, and moves to one otherwise;
but where the program counter starts again from zero, which is at the end of the first bank and from the
last word of the image on, the word that ran last is compared with the word at the highest address of
all, which hardly any image has, so that the pointer moves whatever ran last. -/
theorem zero_pointer_increment {model : Model} {rom : Rom}
    (hstyle : model.hardware.pointer = .previousOpcode) (h : Ran (new model rom) words cpu)
    (hi : cpu.Executes word (.pointer .increment)) (hzero : cpu.pointer = 0) :
    cpu.tick.fault = none ∧
    (¬(cpu.pc = 0xfff ∨ model.hardware.romSize - 1 ≤ cpu.pc) →
      cpu.tick.cpu.pointer = if words.head? = some word then 0 else 1) ∧
    (cpu.pc = 0xfff ∨ model.hardware.romSize - 1 ≤ cpu.pc →
      cpu.tick.cpu.pointer = if rom.word? 0xffff = some (words.headD 0) then 0 else 1) := by
  obtain ⟨hinside, hwraps⟩ := hi.nextPointer_zero h hstyle hzero
  refine ⟨?_, fun hpc => (hi.counts (hinside hpc)).2, fun hpc => (hi.counts (hwraps hpc)).2⟩
  by_cases hpc : cpu.pc = 0xfff ∨ model.hardware.romSize - 1 ≤ cpu.pc
  · exact (hi.counts (hwraps hpc)).1
  · exact (hi.counts (hinside hpc)).1

/-- A Nut that executes the same increment twice in a row, the pointer being at zero the second time. -/
theorem zero_pointer_increment_repeated :
    let cpu := ((new .hp12c ⟨#[0o1334, 0o1734, 0o1734]⟩).perform .tick).perform .tick
    cpu.pointer = 0 ∧ cpu.tick.cpu.pointer = 0 := by
  have h : Ran (new .hp12c ⟨#[0o1334, 0o1734, 0o1734]⟩) [0o1734, 0o1334]
      (((new .hp12c ⟨#[0o1334, 0o1734, 0o1734]⟩).perform .tick).perform .tick) :=
    .act .tick (.act .tick .start)
  exact ⟨rfl, (zero_pointer_increment rfl h ⟨rfl, rfl, rfl⟩ rfl).2.1 (by decide)⟩

/-! ## 3. The end of the image -/

/-- An image that sets the pointer to the last digit and counts it up ever after. -/
def repeatingImage : Rom := Rom.put ⟨Array.replicate 0x1000 0o1734⟩ 0 0o1334

theorem word?_repeatingImage {a : Address} (h : 0 < a) (hlt : a < 0x1000) :
    repeatingImage.word? a = some 0o1734 :=
  Rom.word?_put_replicate 0o1334 0o1734 h hlt

/-- Past its first word the image has a Nut count the pointer up. -/
theorem executes_repeatingImage (h : Ran (new .hp12c repeatingImage) words cpu)
    (hrunning : cpu.isRunning = true) (hpos : 0 < cpu.pc) (hlt : cpu.pc < 0x1000) :
    cpu.hardware = Model.hardware .hp12c ∧ cpu.Executes 0o1734 (.pointer .increment) := by
  obtain ⟨hmodel, hrom⟩ := h.reaches.model_rom
  have hhardware : cpu.hardware = Model.hardware .hp12c := congrArg Model.hardware hmodel
  refine ⟨hhardware, hrunning, ?_, ?_⟩
  · rw [hrom]
    exact word?_repeatingImage hpos hlt
  · rw [hhardware]
    rfl

theorem not_wraps_repeatingImage {pc : Address} (hlt : pc < 0xfff) :
    ¬(pc = 0xfff ∨ (Model.hardware .hp12c).romSize - 1 ≤ pc) := by
  show ¬(pc = 0xfff ∨ 0xfff ≤ pc)
  unfold Address at *
  omega

/-- A tick in the image goes on to the next word. -/
theorem tick_repeatingImage {n : Nat} (h : Ran (new .hp12c repeatingImage) words cpu)
    (hrunning : cpu.isRunning = true) (hpos : 0 < cpu.pc) (hlt : cpu.pc < 0xfff)
    (hnext : cpu.ready.nextPointer = .ok n) :
    Ran (new .hp12c repeatingImage) (0o1734 :: words) cpu.tick.cpu ∧
      cpu.tick.cpu.isRunning = true ∧ cpu.tick.cpu.pc = cpu.pc + 1 ∧ cpu.tick.cpu.pointer = n := by
  obtain ⟨hhardware, hi⟩ := executes_repeatingImage h hrunning hpos (Nat.lt_succ_of_lt hlt)
  refine ⟨h.tick hrunning hi.word_eq, ?_, ?_, (hi.counts hnext).2⟩
  · have hframe := hi.tick_changesOnly (run_changesOnly _ _)
    have hkept := isRunning_of_agrees (hframe .enabled (by simp [tickFootprint]))
      (hframe .sleeping (by simp [tickFootprint]))
    exact hkept.trans hrunning
  · have hkept : (cpu.ready.run (.pointer .increment)).cpu.pc = cpu.ready.pc :=
      run_changesOnly _ _ .pc (by simp)
    rw [hi.tick_eq.1]
    refine hkept.trans ?_
    rw [ready_pc, hhardware, Hardware.next_of_banked (by decide) (by decide),
      if_neg (not_wraps_repeatingImage hlt)]

/-- In the image the pointer is at zero from the third word on, and has just been counted up. -/
theorem pointer_repeatingImage (k : Nat) (h : k ≤ 0xffd) :
    ∃ words cpu, Ran (new .hp12c repeatingImage) (0o1734 :: words) cpu ∧ cpu.isRunning = true ∧
      cpu.pc = k + 2 ∧ cpu.pointer = 0 := by
  induction k with
  | zero =>
    have hword : repeatingImage.word? 0 = some 0o1334 := Rom.word?_put_replicate_zero 0o1334 0o1734
    have hrunning : (new .hp12c repeatingImage).isRunning = true := rfl
    have hran := Ran.start.tick hrunning hword
    have hcpu := (tick_of_word? hrunning hword).1
    have hpc : (new .hp12c repeatingImage).tick.cpu.pc = 1 := hcpu ▸ rfl
    have hnext : (new .hp12c repeatingImage).tick.cpu.ready.nextPointer = .ok 0 := hcpu ▸ rfl
    obtain ⟨hran', hrunning', hpc', hzero⟩ :=
      tick_repeatingImage hran (hcpu ▸ rfl) (hpc ▸ by decide) (hpc ▸ by decide) hnext
    exact ⟨_, _, hran', hrunning', hpc'.trans (congrArg (· + 1) hpc), hzero⟩
  | succ k ih =>
    obtain ⟨words, cpu, hran, hrunning, hpc, hzero⟩ := ih (by omega)
    have hbound : k + 2 < 0xfff := by omega
    have hpos : 0 < cpu.pc := hpc ▸ Nat.succ_pos _
    have hlt : cpu.pc < 0xfff := hpc ▸ hbound
    obtain ⟨-, hi⟩ := executes_repeatingImage hran hrunning hpos (Nat.lt_succ_of_lt hlt)
    have hnext := (hi.nextPointer_zero hran rfl hzero).1 (not_wraps_repeatingImage hlt)
    rw [List.head?_cons, if_pos rfl] at hnext
    obtain ⟨hran', hrunning', hpc', hzero'⟩ := tick_repeatingImage hran hrunning hpos hlt hnext
    exact ⟨_, _, hran', hrunning', hpc'.trans (congrArg (· + 1) hpc), hzero'⟩

/-- At the end of the image the pointer moves, although the last instruction was the same. -/
theorem increment_unnoticed :
    ¬∀ (model : Model) (rom : Rom) (cpu : Processor) (words : List Nat) (word : Nat),
      model.hardware.pointer = .previousOpcode → rom.TenBit → Ran (new model rom) words cpu →
      cpu.Executes word (.pointer .increment) → cpu.pointer = 0 →
      cpu.tick.cpu.pointer = if words.head? = some word then 0 else 1 := by
  intro hstays
  obtain ⟨words, cpu, hran, hrunning, hpc, hzero⟩ := pointer_repeatingImage 0xffd (by decide)
  obtain ⟨-, hi⟩ := executes_repeatingImage hran hrunning (hpc ▸ by decide) (hpc ▸ by decide)
  have hstay := hstays .hp12c _ cpu _ _ rfl (Rom.TenBit.put_replicate (by decide) 0o1334) hran hi hzero
  have hoff : repeatingImage.word? 0xffff = none := by simp [repeatingImage, Rom.put, Rom.word?]
  have hmove := (hi.counts ((hi.nextPointer_zero hran rfl hzero).2 (.inl hpc))).2
  rw [hoff, if_neg (by simp)] at hmove
  rw [List.head?_cons, if_pos rfl, hmove] at hstay
  cases hstay

end Processor

end Calculator
