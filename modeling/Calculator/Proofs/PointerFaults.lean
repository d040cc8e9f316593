/-
# What is said about pointers

A fault or a warning about a pointer names one that has strayed past the register
(`diagnosed_tick`), and a field can be selected as long as neither has.  On a Nut no pointer ever
strays, so there nothing is said about pointers at all (`nut_pointers_stay`).
-/
import Calculator.Proofs.Fault
import Calculator.Proofs.Pointers

namespace Calculator

namespace Processor

variable {cpu : Processor}

/-! ## 1. Fields -/

/-- Both pointers stand at a digit of the register. -/
def PointersInside (cpu : Processor) : Prop := cpu.p < 14 ∧ cpu.q < 14

theorem PointersInside.pointer_lt (h : cpu.PointersInside) : cpu.pointer < 14 := by
  unfold pointer
  split
  · exact h.1
  · exact h.2

/-- The span of a field whose pointers are in the register is not empty, and in it too. -/
theorem span_bounds {p q active : Nat} {field : Field}
    (h : field.usesPointer = true → p < 14 ∧ q < 14 ∧ active < 14) :
    (field.span p q active).first ≤ (field.span p q active).last ∧
      (field.span p q active).last < 14 := by
  cases field with
  | pointer | wordPointer =>
    obtain ⟨-, -, hactive⟩ := h rfl
    exact ⟨by simp [Field.span, Span.single], hactive⟩
  | pointerPair =>
    obtain ⟨hp, hq, -⟩ := h rfl
    simp only [Field.span]
    split <;> omega
  | _ => simp [Field.span, Span.single, Span.word]

/-- Every span that is selected lies within the register. -/
theorem spanOf?_bounds {field : Field} {s : Span} (h : cpu.spanOf? field = .ok s) :
    s.first ≤ s.last ∧ s.last < 14 := by
  unfold spanOf? at h
  split at h
  · cases h
  · rename_i hinside
    cases h
    refine span_bounds ?_
    intro huses
    have hboth : cpu.PointersInside := Classical.not_not.mp fun hout => hinside ⟨huses, hout⟩
    exact ⟨hboth.1, hboth.2, hboth.pointer_lt⟩

/-- Where the pointers stand is all that a selection depends on. -/
theorem spanOf?_congr {cpu' : Processor} {field : Field} {s : Span} (hp : cpu'.p = cpu.p)
    (hq : cpu'.q = cpu.q) (hactive : cpu'.active = cpu.active) (h : cpu.spanOf? field = .ok s) :
    cpu'.spanOf? field = .ok s := by
  unfold spanOf? pointer at h ⊢
  rw [hp, hq, hactive]
  split at h
  · cases h
  · rwa [if_neg ‹_›]

/-- A field that can be selected before the fetch can be selected after it. -/
theorem spanOf?_ready {field : Field} {s : Span} (h : cpu.spanOf? field = .ok s) :
    cpu.ready.spanOf? field = .ok s :=
  spanOf?_congr (cpu.changesOnly_ready .p (by simp)) (cpu.changesOnly_ready .q (by simp))
    (cpu.changesOnly_ready .active (by simp)) h

/-- With both pointers in the register every field can be selected. -/
theorem PointersInside.spanOf?_eq_ok (h : cpu.PointersInside) (field : Field) :
    cpu.spanOf? field = .ok (field.span cpu.p cpu.q cpu.pointer) :=
  if_neg fun hout => hout.2 h

/-! ## 2. Strayed pointers -/

/-- One of the pointers stands at `n`, past the register. -/
def Strayed (cpu : Processor) (n : Nat) : Prop := (n = cpu.p ∨ n = cpu.q) ∧ 14 ≤ n

theorem PointersInside.not_strayed (h : cpu.PointersInside) (n : Nat) : ¬cpu.Strayed n := by
  rintro ⟨rfl | rfl, hle⟩
  · exact absurd h.1 (Nat.not_lt.mpr hle)
  · exact absurd h.2 (Nat.not_lt.mpr hle)

theorem strayed_pointer (h : ¬cpu.pointer < 14) : cpu.Strayed cpu.pointer := by
  refine ⟨?_, Nat.not_lt.mp h⟩
  unfold pointer
  split
  · exact .inl rfl
  · exact .inr rfl

/-- What an outcome says of a pointer is true: it has strayed. -/
structure Diagnosed (cpu : Processor) (o : Outcome) : Prop where
  fault : ∀ {a n}, o.fault = some (.pointerOutOfRange a n) → cpu.Strayed n
  warning : ∀ {a n}, .warned (.pointerClamped a n) ∈ o.events → cpu.Strayed n

/-- An outcome without a fault or an event says nothing about pointers. -/
theorem diagnosed_done (cpu' : Processor) : cpu.Diagnosed (.done cpu') := ⟨nofun, nofun⟩

theorem diagnosed_fail {cpu' : Processor} {f : Fault}
    (h : ∀ a n, f = .pointerOutOfRange a n → cpu.Strayed n) : cpu.Diagnosed (.fail cpu' f) :=
  ⟨fun hf => h _ _ (Option.some.inj hf), nofun⟩

theorem diagnosed_warn {cpu' : Processor} {w : Warning}
    (h : ∀ a n, w = .pointerClamped a n → cpu.Strayed n) : cpu.Diagnosed (.warn cpu' w) := by
  refine ⟨nofun, fun hw => ?_⟩
  cases List.mem_singleton.mp hw
  exact h _ _ rfl

theorem Diagnosed.after {o : Outcome} {events : List Event} (h : cpu.Diagnosed o)
    (hevents : ∀ a n, .warned (.pointerClamped a n) ∉ events) : cpu.Diagnosed (o.after events) := by
  refine ⟨h.fault, fun hw => ?_⟩
  rcases List.mem_append.mp hw with hold | hnew
  · exact absurd hold (hevents _ _)
  · exact h.warning hnew

/-- The fault names the pointer in use, which was not below fourteen. -/
theorem diagnosed_atPointer (act : Nat → Processor) : cpu.Diagnosed (cpu.atPointer act) := by
  unfold atPointer
  split
  · exact diagnosed_done _
  · refine diagnosed_fail ?_
    rintro _ _ ⟨⟩
    exact strayed_pointer ‹_›

/-- The warning names the pointer in use too, before it counts down. -/
theorem diagnosed_loadConstant (digit : Nat) : cpu.Diagnosed (cpu.loadConstant digit) := by
  simp only [loadConstant]
  split
  · exact diagnosed_done _
  · refine diagnosed_warn ?_
    rintro _ _ ⟨⟩
    exact strayed_pointer ‹_›

/-- A field that cannot be selected blames `p`, or `q` if `p` is in the register. -/
theorem strayed_of_spanOf? {field : Field} {a n : Nat}
    (h : cpu.spanOf? field = .error (.pointerOutOfRange a n)) : cpu.Strayed n := by
  unfold spanOf? at h
  split at h
  · rename_i hout
    cases h
    split
    · rename_i hp
      exact ⟨.inr rfl, Nat.not_lt.mp fun hq => hout.2 ⟨hp, hq⟩⟩
    · rename_i hp
      exact ⟨.inl rfl, Nat.not_lt.mp hp⟩
  · cases h

/-! ## 3. Every instruction -/

/-- A missing word is no matter of pointers. -/
theorem diagnosed_fetch {cpu₁ cpu₂ : Processor} {a : Address} {f : Fault}
    (h : cpu₁.fetch a = .error f) : cpu.Diagnosed (.fail cpu₂ f) := by
  unfold fetch at h
  split at h
  · cases h
  · cases h
    exact diagnosed_fail (by rintro _ _ ⟨⟩)

theorem diagnosed_testAndGo (cpu' : Processor) (t : Bool) : cpu.Diagnosed (cpu'.testAndGo t) := by
  cases t with
  | false => exact diagnosed_done _
  | true =>
    simp only [testAndGo, if_true]
    split
    · exact diagnosed_fetch ‹_›
    · split
      · exact diagnosed_done _
      · exact diagnosed_done _

theorem diagnosed_runArithmetic (op : ArithmeticOp) (field : Field) :
    cpu.Diagnosed (cpu.runArithmetic op field) := by
  unfold runArithmetic
  split
  · refine diagnosed_fail ?_
    rintro a n rfl
    exact strayed_of_spanOf? ‹_›
  · refine Diagnosed.after ?_ (by split <;> simp)
    split
    · exact diagnosed_testAndGo _ _
    · exact diagnosed_done _

theorem diagnosed_runDigit (d : DigitOp) : cpu.Diagnosed (cpu.runDigit d) := by
  cases d with
  | loadConstant digit => exact diagnosed_loadConstant digit
  | gFromC | cFromG | exchangeCG =>
    simp only [runDigit]
    exact diagnosed_atPointer _
  | loadImmediate =>
    simp only [runDigit]
    split
    · exact diagnosed_fetch ‹_›
    · exact diagnosed_done _
  | readRom =>
    simp only [runDigit]
    split
    · exact diagnosed_done _
    · exact diagnosed_warn (by rintro _ _ ⟨⟩)
  | _ => exact diagnosed_done _

theorem not_mem_statusEvents (bit : Nat) (a n : Nat) :
    .warned (.pointerClamped a n) ∉ cpu.statusEvents bit := by
  unfold statusEvents
  split <;> simp

theorem diagnosed_runStatus (x : StatusOp) : cpu.Diagnosed (cpu.runStatus x) := by
  cases x with
  | set bit value =>
    simp only [runStatus, putStatus]
    split
    · exact diagnosed_done _
    · exact diagnosed_warn (by rintro _ _ ⟨⟩)
  | test bit => exact (diagnosed_done _).after (not_mem_statusEvents bit)
  | branchIf bit value => exact (diagnosed_testAndGo _ _).after (not_mem_statusEvents bit)
  | _ => exact diagnosed_done _

theorem diagnosed_runPointer (x : PointerOp) : cpu.Diagnosed (cpu.runPointer x) := by
  cases x with
  | increment =>
    simp only [runPointer, incrementPointer]
    split
    · exact diagnosed_done _
    · rename_i hnext
      rw [nextPointer_eq_error hnext]
      exact diagnosed_fail (by rintro _ _ ⟨⟩)
  | branchIf value equal => exact diagnosed_testAndGo _ _
  | _ => exact diagnosed_done _

theorem diagnosed_runFlow (x : FlowOp) : cpu.Diagnosed (cpu.runFlow x) := by
  cases x with
  | longBranch low =>
    simp only [runFlow, longBranch]
    split
    · exact diagnosed_fetch ‹_›
    · repeat' split
      all_goals first | exact diagnosed_done _ | exact diagnosed_warn (by rintro _ _ ⟨⟩)
  | aToRomAddress =>
    simp only [runFlow, aToRomAddress]
    split
    · exact diagnosed_done _
    · exact diagnosed_warn (by rintro _ _ ⟨⟩)
  | _ => exact diagnosed_done _

theorem diagnosed_runData (x : DataOp) : cpu.Diagnosed (cpu.runData x) := by
  have hclamp : ∀ n, cpu.Diagnosed (cpu.selectClamped n) := by
    intro n
    simp only [selectClamped]
    split
    · exact diagnosed_done _
    · exact diagnosed_warn (by rintro _ _ ⟨⟩)
  have hevents : ∀ (cpu' : Processor) a n, .warned (.pointerClamped a n) ∉ cpu'.cellEvents := by
    intro cpu' a n
    unfold cellEvents
    split <;> simp
  have hstore : ∀ cpu' : Processor, cpu.Diagnosed cpu'.store := by
    intro cpu'
    unfold store
    split
    · exact diagnosed_done _
    · exact (diagnosed_done _).after (hevents _)
  have hload : ∀ cpu' : Processor, cpu.Diagnosed cpu'.load :=
    fun cpu' => (diagnosed_done _).after (hevents _)
  cases x with
  | selectFromC =>
    simp only [runData, selectFromC]
    split
    · exact hclamp _
    · split
      · exact diagnosed_done _
      · exact hclamp _
    · exact diagnosed_done _
  | store => exact hstore _
  | storeAt n => exact hstore _
  | load => exact hload _
  | loadAt n =>
    simp only [runData, loadAt]
    split
    · exact diagnosed_done _
    · exact hload _
  | clear => exact diagnosed_done _

theorem diagnosed_runPrinter (x : PrinterOp) : cpu.Diagnosed (cpu.runPrinter x) := by
  have htake : ∀ result, cpu.Diagnosed (cpu.takePrinter result) := by
    intro result
    simp only [takePrinter]
    split
    · exact diagnosed_done _
    · exact diagnosed_warn (by rintro _ _ ⟨⟩)
  unfold runPrinter
  split
  · cases x with
    | printLine | printLineAndPoll => exact diagnosed_done _
    | numeric | alpha => exact htake _
  · exact diagnosed_done _

/-- **An instruction complains of a pointer only if it has strayed.** -/
theorem diagnosed_run (i : Instruction) : cpu.Diagnosed (cpu.run i) := by
  cases i with
  | nop | move _ | control _ | card _ => exact diagnosed_done _
  | arithmetic op field => exact diagnosed_runArithmetic op field
  | digit d => exact diagnosed_runDigit d
  | status x => exact diagnosed_runStatus x
  | pointer x => exact diagnosed_runPointer x
  | flow x => exact diagnosed_runFlow x
  | data x => exact diagnosed_runData x
  | printer x => exact diagnosed_runPrinter x

/-! ## 4. Every tick -/

theorem diagnosed_execute (word : Nat) : cpu.Diagnosed (cpu.execute word) := by
  unfold execute
  split
  · exact diagnosed_run _
  · exact diagnosed_fail (by rintro _ _ ⟨⟩)
  · exact diagnosed_fail (by rintro _ _ ⟨⟩)

/-- Nothing that comes before the instruction moves a pointer. -/
theorem strayed_of_ready {n : Nat} (h : cpu.ready.Strayed n) : cpu.Strayed n := by
  have hp : cpu.ready.p = cpu.p := cpu.changesOnly_ready .p (by simp)
  have hq : cpu.ready.q = cpu.q := cpu.changesOnly_ready .q (by simp)
  unfold Strayed at h
  rwa [hp, hq] at h

/-- **A tick complains of a pointer only if one has strayed**, and names it. -/
theorem diagnosed_tick (cpu : Processor) : cpu.Diagnosed cpu.tick := by
  unfold tick
  split
  · dsimp only
    split
    · exact diagnosed_fetch ‹_›
    · rename_i word _
      have hrun : cpu.ready.Diagnosed (cpu.ready.execute word) := diagnosed_execute word
      refine Diagnosed.after ⟨?_, ?_⟩ (by split <;> simp)
      · exact fun hf => strayed_of_ready (hrun.fault hf)
      · exact fun hw => strayed_of_ready (hrun.warning hw)
  · exact diagnosed_done _

/-- **On a Nut no pointer ever strays.**  Both stand at a digit of the register all the time, so no
tick fails or warns on account of a pointer, and each of the eight codes selects a span. -/
theorem nut_pointers_stay {model : Model} {rom : Rom} {allowed : Processor → Act → Prop}
    (hnut : model.hardware.family = .nut) (hrom : rom.TenBit)
    (h : Reaches allowed (new model rom) cpu) :
    cpu.p ≤ 13 ∧ cpu.q ≤ 13 ∧
      (∀ a n, cpu.tick.fault ≠ some (.pointerOutOfRange a n)) ∧
      (∀ code, ∃ s, cpu.selectField? code = .ok (cpu.hardware.field code, s) ∧
        s.first ≤ s.last ∧ s.last ≤ 13) ∧
      (∀ a n, .warned (.pointerClamped a n) ∉ cpu.tick.events) := by
  have hfamily : cpu.hardware.family = .nut := by
    rw [hardware, h.model_rom.1]
    exact hnut
  have hinside : cpu.PointersInside := pointersFit_of_reaches hrom h hfamily
  refine ⟨Nat.le_of_lt_succ hinside.1, Nat.le_of_lt_succ hinside.2, ?_, ?_, ?_⟩
  · exact fun a n hf => hinside.not_strayed n ((diagnosed_tick cpu).fault hf)
  · intro code
    have hspan := hinside.spanOf?_eq_ok (cpu.hardware.field code)
    obtain ⟨hne, hlt⟩ := spanOf?_bounds hspan
    refine ⟨_, ?_, hne, Nat.le_of_lt_succ hlt⟩
    simp only [selectField?, hspan]
    rfl
  · exact fun a n hw => hinside.not_strayed n ((diagnosed_tick cpu).warning hw)

/-- A pointer set to the top digit, where a constant is then loaded. -/
theorem nut_pointers_stay_top :
    let cpu := (new .hp12c ⟨#[0o1334, 0o520]⟩).perform .tick
    cpu.p = 13 ∧ (∀ a n, cpu.tick.fault ≠ some (.pointerOutOfRange a n)) ∧
      (∀ a n, .warned (.pointerClamped a n) ∉ cpu.tick.events) := by
  have hrom : Rom.TenBit ⟨#[0o1334, 0o520]⟩ := by simp [Rom.TenBit]
  have hreach : Reaches (fun _ _ => True) (new .hp12c ⟨#[0o1334, 0o520]⟩)
      ((new .hp12c ⟨#[0o1334, 0o520]⟩).perform .tick) := .act .tick .start trivial
  obtain ⟨-, -, hfault, -, hwarning⟩ := nut_pointers_stay rfl hrom hreach
  exact ⟨rfl, hfault, hwarning⟩

end Processor

end Calculator
