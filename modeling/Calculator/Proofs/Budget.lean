/-
# Budgets

A run ticks until its budget is used up, until the processor halts, or until an instruction fails.
None of the three depends on where the run began, so a run may be cut in two at any place:
`runFrom_add` says so, and `runFrom_account` what a run has done to the processor and to the count of
instructions.  `budget_splits` collects what a host may rely on.
-/
import Calculator.Proofs.PowerStates

namespace Calculator

/-! ## 1. Successful ticks -/

/-- The second processor comes from the first one by so many ticks, each of a processor that was
running and none with a fault. -/
inductive Processor.Executed : Nat → Processor → Processor → Prop
  | start (cpu : Processor) : Executed 0 cpu cpu
  | tick {n : Nat} {cpu last : Processor} (hrunning : cpu.isRunning = true)
      (hfault : cpu.tick.fault = none) (h : Executed n cpu.tick.cpu last) :
      Executed (n + 1) cpu last

namespace Processor

theorem halted?_eq_none_iff {cpu : Processor} : cpu.halted? = none ↔ cpu.isRunning = true := by
  cases henabled : cpu.enabled <;> cases hsleeping : cpu.sleeping <;>
    simp [halted?, isRunning, henabled, hsleeping]

theorem halted?_ne_budget (cpu : Processor) : cpu.halted? ≠ some .budget := by
  unfold halted?
  split
  · simp
  · split <;> simp

end Processor

open Processor (Executed halted?_eq_none_iff halted?_ne_budget)

namespace Emulator

variable {e : Emulator} {events : Array Event} {budget : Nat}

/-! ## 2. Cutting a run in two -/

/-- A halted processor is not ticked, whatever the budget. -/
theorem runFrom_of_halted (events : Array Event) {halt : Halt} (h : e.cpu.halted? = some halt)
    (budget : Nat) : runFrom events e budget = ⟨e, events, .ok halt⟩ := by
  cases budget with
  | zero => simp [runFrom, h]
  | succ budget => simp [runFrom, h]

/-- One tick of a run, where the tick succeeds. -/
theorem runFrom_of_success (events : Array Event) (hrunning : e.cpu.isRunning = true)
    (hfault : e.cpu.tick.fault = none) (budget : Nat) :
    runFrom events e (budget + 1) =
      runFrom (events ++ e.cpu.tick.events) ⟨e.cpu.tick.cpu, e.instructions + 1⟩ budget := by
  simp [runFrom, halted?_eq_none_iff.mpr hrunning, hfault]

/-- One tick of a run, where the tick fails. -/
theorem runFrom_of_fault (events : Array Event) {f : Fault} (hrunning : e.cpu.isRunning = true)
    (hfault : e.cpu.tick.fault = some f) (budget : Nat) :
    runFrom events e (budget + 1) =
      ⟨{ e with cpu := e.cpu.tick.cpu }, events ++ e.cpu.tick.events, .error f⟩ := by
  simp [runFrom, halted?_eq_none_iff.mpr hrunning, hfault]

/-- The three ways in which a run with a budget left can go on. -/
theorem run_cases (e : Emulator) :
    (∃ halt, e.cpu.halted? = some halt) ∨
    (e.cpu.isRunning = true ∧ e.cpu.tick.fault = none) ∨
    (∃ f, e.cpu.isRunning = true ∧ e.cpu.tick.fault = some f) := by
  cases hhalt : e.cpu.halted? with
  | some halt => exact .inl ⟨halt, rfl⟩
  | none =>
    have hrunning := halted?_eq_none_iff.mp hhalt
    cases hfault : e.cpu.tick.fault with
    | none => exact .inr (.inl ⟨hrunning, rfl⟩)
    | some f => exact .inr (.inr ⟨f, hrunning, rfl⟩)

/-- Goes on after a run, unless that has failed. -/
def RunOutcome.andThen (o : RunOutcome) (budget : Nat) : RunOutcome :=
  match o.result with
  | .ok _ => runFrom o.events o.emulator budget
  | .error _ => o

/-- **A run of two budgets together is a run of the one and then of the other.** -/
theorem runFrom_add (events : Array Event) (e : Emulator) (a b : Nat) :
    runFrom events e (a + b) = (runFrom events e a).andThen b := by
  induction a generalizing events e with
  | zero => rw [Nat.zero_add]; rfl
  | succ a ih =>
    rw [Nat.add_right_comm]
    rcases e.run_cases with ⟨halt, hhalt⟩ | ⟨hrunning, hfault⟩ | ⟨f, hrunning, hfault⟩
    · rw [runFrom_of_halted _ hhalt, runFrom_of_halted _ hhalt]
      exact (runFrom_of_halted _ hhalt b).symm
    · rw [runFrom_of_success _ hrunning hfault, runFrom_of_success _ hrunning hfault]
      exact ih _ _
    · rw [runFrom_of_fault _ hrunning hfault, runFrom_of_fault _ hrunning hfault]
      rfl

theorem append_events (before events : Array Event) (more : List Event) :
    before ++ events ++ more = before ++ (events ++ more) := by
  apply Array.ext'
  simp

/-- The outcome of a run that earlier events came before. -/
def RunOutcome.after (o : RunOutcome) (events : Array Event) : RunOutcome :=
  { o with events := events ++ o.events }

/-- The events so far only stand before those of the run. -/
theorem runFrom_eq_after (events : Array Event) (e : Emulator) (budget : Nat) :
    runFrom events e budget = (e.run budget).after events := by
  suffices h : ∀ before, runFrom (events ++ before) e budget = (runFrom before e budget).after events by
    simpa [run] using h #[]
  induction budget generalizing e with
  | zero => exact fun _ => rfl
  | succ budget ih =>
    intro before
    rcases e.run_cases with ⟨halt, hhalt⟩ | ⟨hrunning, hfault⟩ | ⟨f, hrunning, hfault⟩
    · rw [runFrom_of_halted _ hhalt, runFrom_of_halted _ hhalt]
      rfl
    · rw [runFrom_of_success _ hrunning hfault, runFrom_of_success _ hrunning hfault,
        append_events]
      exact ih _ _
    · rw [runFrom_of_fault _ hrunning hfault, runFrom_of_fault _ hrunning hfault,
        append_events]
      rfl

/-! ## 3. What a run has done -/

/-- How a run of `n` successful ticks, the last of which led to the processor `last`, came to its
end: there, or with the fault of one tick more. -/
def RunOutcome.EndsAt (o : RunOutcome) (budget n : Nat) (last : Processor) : Prop :=
  match o.result with
  | .ok halt =>
    o.emulator.cpu = last ∧ halt = last.halted?.getD .budget ∧ (last.isRunning = true → n = budget)
  | .error f =>
    n < budget ∧ last.isRunning = true ∧ last.tick.fault = some f ∧ o.emulator.cpu = last.tick.cpu

/-- **Every run is some number of successful ticks**, by which the count of instructions grows, and at
most one tick that fails. -/
theorem runFrom_account (events : Array Event) (e : Emulator) (budget : Nat) :
    ∃ n last, Executed n e.cpu last ∧ n ≤ budget ∧
      (runFrom events e budget).emulator.instructions = e.instructions + n ∧
      (runFrom events e budget).EndsAt budget n last := by
  induction budget generalizing events e with
  | zero => exact ⟨0, e.cpu, .start _, Nat.le_refl _, rfl, rfl, rfl, fun _ => rfl⟩
  | succ budget ih =>
    rcases e.run_cases with ⟨halt, hhalt⟩ | ⟨hrunning, hfault⟩ | ⟨f, hrunning, hfault⟩
    · rw [runFrom_of_halted _ hhalt]
      refine ⟨0, e.cpu, .start _, Nat.zero_le _, rfl, rfl, ?_, fun hrunning => ?_⟩
      · rw [hhalt]
        rfl
      · rw [halted?_eq_none_iff.mpr hrunning] at hhalt
        cases hhalt
    · rw [runFrom_of_success _ hrunning hfault]
      obtain ⟨n, last, hexecuted, hle, hcount, hends⟩ :=
        ih (events ++ e.cpu.tick.events) ⟨e.cpu.tick.cpu, e.instructions + 1⟩
      refine ⟨n + 1, last, .tick hrunning hfault hexecuted, Nat.succ_le_succ hle, ?_, ?_⟩
      · rw [hcount]
        exact Nat.add_right_comm _ _ _
      · unfold RunOutcome.EndsAt at hends ⊢
        split at hends
        · exact ⟨hends.1, hends.2.1, fun hlast => congrArg (· + 1) (hends.2.2 hlast)⟩
        · exact ⟨Nat.succ_lt_succ hends.1, hends.2⟩
    · rw [runFrom_of_fault _ hrunning hfault]
      exact ⟨0, e.cpu, .start _, Nat.zero_le _, rfl, Nat.succ_pos _, hrunning, hfault, rfl⟩

theorem run_of_not_enabled (h : e.cpu.enabled = false) : e.run budget = ⟨e, #[], .ok .poweredOff⟩ :=
  runFrom_of_halted _ (by simp [Processor.halted?, h]) _

theorem run_of_sleeping (henabled : e.cpu.enabled = true) (h : e.cpu.sleeping = true) :
    e.run budget = ⟨e, #[], .ok .sleeping⟩ :=
  runFrom_of_halted _ (by simp [Processor.halted?, henabled, h]) _

/-- Only a processor that is still running can have used its budget up. -/
theorem RunOutcome.EndsAt.result_eq_budget_iff {o : RunOutcome} {n : Nat} {last : Processor}
    (h : o.EndsAt budget n last) :
    o.result = .ok .budget ↔ (∀ f, o.result ≠ .error f) ∧ o.emulator.cpu.isRunning = true := by
  unfold EndsAt at h
  split at h
  next halt hresult =>
    obtain ⟨hcpu, rfl, -⟩ := h
    rw [hresult, hcpu]
    cases hhalt : last.halted? with
    | none => simp [halted?_eq_none_iff.mp hhalt]
    | some halt =>
      have hne : halt ≠ .budget := fun heq => last.halted?_ne_budget (heq ▸ hhalt)
      have hnot : ¬last.isRunning = true := by
        rw [← halted?_eq_none_iff, hhalt]
        simp
      simp [hne, hnot]
  next f hresult => simp [hresult]

/-- A run that ends as it should with its processor running has used its budget up. -/
theorem RunOutcome.EndsAt.eq_budget {o : RunOutcome} {n : Nat} {last : Processor}
    (h : o.EndsAt budget n last) (hresult : o.result = .ok .budget) : n = budget := by
  have hrunning := (h.result_eq_budget_iff.mp hresult).2
  unfold EndsAt at h
  rw [hresult] at h
  exact h.2.2 (h.1 ▸ hrunning)

/-! ## 4. What a host may rely on -/

/-- **Splitting a budget makes no difference.**  A run that did not fail is continued by another one
as if the two budgets had been one, down to the events; a fault ends the run whatever budget is left.
The count of instructions grows by the number of successful ticks, a halted processor is not
touched, and the budget is used up exactly if there is no fault and the processor stays awake. -/
theorem budget_splits (e : Emulator) (a b : Nat) :
    (∀ halt, (e.run a).result = .ok halt →
      e.run (a + b) = ((e.run a).emulator.run b).after (e.run a).events) ∧
    (∀ f, (e.run a).result = .error f → e.run (a + b) = e.run a) ∧
    (∃ n last, Executed n e.cpu last ∧ (e.run a).EndsAt a n last ∧
      (e.run a).emulator.instructions = e.instructions + n ∧ n ≤ a ∧
      ((e.run a).result = .ok .budget → n = a)) ∧
    (e.cpu.enabled = false → e.run a = ⟨e, #[], .ok .poweredOff⟩) ∧
    (e.cpu.enabled = true → e.cpu.sleeping = true → e.run a = ⟨e, #[], .ok .sleeping⟩) ∧
    ((e.run a).result = .ok .budget ↔
      (∀ f, (e.run a).result ≠ .error f) ∧
        (e.run a).emulator.cpu.enabled = true ∧ (e.run a).emulator.cpu.sleeping = false) := by
  have hadd : e.run (a + b) = (e.run a).andThen b := runFrom_add #[] e a b
  obtain ⟨n, last, hexecuted, hle, hcount, hends⟩ := runFrom_account #[] e a
  refine ⟨?_, ?_, ⟨n, last, hexecuted, hends, hcount, hle, hends.eq_budget⟩,
    run_of_not_enabled, run_of_sleeping, ?_⟩
  · intro halt hresult
    rw [hadd, RunOutcome.andThen, hresult]
    exact runFrom_eq_after _ _ b
  · intro f hresult
    rw [hadd, RunOutcome.andThen, hresult]
  · simpa [Processor.isRunning, run] using hends.result_eq_budget_iff

/-- A Nut that goes off in the first of two ticks, and one whose image holds no word to fetch. -/
theorem budget_splits_off :
    let off : Emulator := ⟨.new .hp11c ⟨#[0o140]⟩, 0⟩
    let lost : Emulator := ⟨.new .hp11c ⟨#[]⟩, 0⟩
    (off.run 1).result = .ok .poweredOff ∧
      off.run (1 + 1) = ((off.run 1).emulator.run 1).after (off.run 1).events ∧
      (lost.run 1).result = .error (.outsideRom 0) ∧ lost.run (1 + 1) = lost.run 1 := by
  have hoff : (run ⟨.new .hp11c ⟨#[0o140]⟩, 0⟩ 1).result = .ok .poweredOff := rfl
  have hlost : (run ⟨.new .hp11c ⟨#[]⟩, 0⟩ 1).result = .error (.outsideRom 0) := rfl
  exact ⟨hoff, (budget_splits _ 1 1).1 _ hoff, hlost, (budget_splits _ 1 1).2.1 _ hlost⟩

end Emulator

end Calculator
