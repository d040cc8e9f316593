/-
# The return stack as a list

The ring of four cells stands for the list of the return addresses that were pushed last and not yet
popped, newest first, of which it keeps four.  Pushes and pops may come from calls and returns or
from a Nut that moves addresses between the ring and `c`, in any order, with anything in between that
leaves the ring alone (`StackRun`).  `ring_refines_list` is the main statement: as long as the list
is not empty a pop yields its head.  Well nested calls therefore return to where they came from,
four levels deep.
-/
import Calculator.Proofs.History
import Mathlib.Algebra.Ring.Int.Defs

namespace Calculator

/-! ## 1. The ring -/

namespace ReturnStack

/-- The address `k` places below the top of the ring. -/
def below (s : ReturnStack) (k : Nat) : Address := s.cells.getD ((s.next + 3 + 3 * k) % 4) 0

theorem below_zero (s : ReturnStack) : s.below 0 = s.top := rfl

theorem below_pop (s : ReturnStack) (k : Nat) : s.pop.below k = s.below (k + 1) := by
  have hindex : ((s.next + 3) % 4 + 3 + 3 * k) % 4 = (s.next + 3 + 3 * (k + 1)) % 4 := by omega
  simp only [below, pop, hindex]

/-- A push buries what was on the ring one place deeper, and overwrites the lowest address. -/
theorem below_push_succ (s : ReturnStack) (a : Address) {k : Nat} (hk : k < 3) :
    (s.push a).below (k + 1) = s.below k := by
  have hindex : ((s.next + 1) % 4 + 3 + 3 * (k + 1)) % 4 = (s.next + 3 + 3 * k) % 4 := by omega
  have hne : s.next ≠ (s.next + 3 + 3 * k) % 4 := by omega
  have hlt : (s.next + 3 + 3 * k) % 4 < 4 := Nat.mod_lt _ (by decide)
  simp [below, push, hindex, Vector.getD, hlt, hne]

/-- The addresses of the list stand on the ring, the first one on top. -/
def Holds (s : ReturnStack) (l : List Address) : Prop := ∀ k a, l[k]? = some a → s.below k = a

variable {s : ReturnStack} {l : List Address}

theorem holds_nil (s : ReturnStack) : s.Holds [] := nofun

theorem Holds.top_eq {a : Address} (h : s.Holds (a :: l)) : s.top = a :=
  s.below_zero.symm.trans (h 0 a rfl)

theorem Holds.push (h : s.Holds l) (hnext : s.next < 4) (a : Address) :
    (s.push a).Holds ((a :: l).take 4) := by
  intro k b hb
  obtain ⟨hk, hb⟩ : k < 4 ∧ (a :: l)[k]? = some b := by
    rw [List.getElem?_take] at hb
    split at hb
    · exact ⟨‹_›, hb⟩
    · cases hb
  cases k with
  | zero =>
    cases hb
    exact top_push s a hnext
  | succ k =>
    rw [below_push_succ s a (by omega)]
    exact h k b hb

theorem Holds.pop (h : s.Holds l) : s.pop.Holds l.tail := by
  intro k b hb
  rw [below_pop]
  refine h (k + 1) b ?_
  rwa [List.getElem?_tail] at hb

end ReturnStack

/-! ## 2. The list -/

/-- What happens to a return stack. -/
inductive StackEvent where
  | push (a : Address)
  | pop
  deriving DecidableEq

namespace StackEvent

/-- The list after an event.  A push keeps the newest four addresses. -/
def next (l : List Address) : StackEvent → List Address
  | push a => (a :: l).take 4
  | pop => l.tail

/-- By how much an event moves the next cell on. -/
def height : StackEvent → Int
  | push _ => 1
  | pop => -1

end StackEvent

/-- The list after a run of events that began with none. -/
def outstanding (es : List StackEvent) : List Address := es.foldl StackEvent.next []

/-- How many more pushes than pops there were. -/
def balance (es : List StackEvent) : Int := (es.map StackEvent.height).sum

/-- Every push is popped again, and no more than `depth` are outstanding at a time. -/
inductive WellNested : (depth : Nat) → List StackEvent → Prop where
  | nil (depth : Nat) : WellNested depth []
  | nest {depth : Nat} {inner rest : List StackEvent} (a : Address) (hinner : WellNested depth inner)
      (hrest : WellNested (depth + 1) rest) :
      WellNested (depth + 1) (.push a :: (inner ++ .pop :: rest))

/-- A well nested run leaves the list as it was, if there is room for its depth. -/
theorem WellNested.foldl_next {depth : Nat} {es : List StackEvent} (h : WellNested depth es)
    {l : List Address} (hroom : l.length + depth ≤ 4) : es.foldl StackEvent.next l = l := by
  induction h generalizing l with
  | nil depth => rfl
  | @nest depth inner rest a _ _ ihinner ihrest =>
    have hpushed : (a :: l).length + depth ≤ 4 := by
      rw [List.length_cons]
      omega
    have hkept : (a :: l).take 4 = a :: l := List.take_of_length_le (by omega)
    simp only [List.foldl_cons, List.foldl_append, StackEvent.next, hkept, ihinner hpushed,
      List.tail_cons]
    exact ihrest hroom

/-- Pushes alone leave the newest four. -/
theorem foldl_next_pushes (pushed l : List Address) :
    (pushed.map StackEvent.push).foldl StackEvent.next (l.take 4) =
      (pushed.reverse ++ l).take 4 := by
  induction pushed generalizing l with
  | nil => rfl
  | cons a pushed ih =>
    have hcut : (a :: l.take 4).take 4 = (a :: l).take 4 := by simp [List.take_take]
    simp only [List.map_cons, List.foldl_cons, StackEvent.next, hcut, ih, List.reverse_cons,
      List.append_assoc, List.singleton_append]

/-- Pops alone take addresses from the front. -/
theorem foldl_next_pops (k : Nat) (l : List Address) :
    (List.replicate k StackEvent.pop).foldl StackEvent.next l = l.drop k := by
  induction k generalizing l with
  | zero => rfl
  | succ k ih =>
    rw [List.replicate_succ, List.foldl_cons, ih]
    exact List.drop_tail

/-! ## 3. Runs -/

/-- A run of a processor, with what it does to the return stack. -/
inductive StackRun (start : Processor) : List StackEvent → Processor → Prop where
  | start : StackRun start [] start
  | call {es : List StackEvent} {cpu : Processor} (target : Address) (h : StackRun start es cpu) :
      StackRun start (es ++ [.push cpu.pc]) (cpu.call target)
  | ret {es : List StackEvent} {cpu : Processor} (h : StackRun start es cpu) :
      StackRun start (es ++ [.pop]) cpu.ret
  | pushC {es : List StackEvent} {cpu : Processor} (h : StackRun start es cpu) :
      StackRun start (es ++ [.push ((cpu.register .c).address 3)]) (cpu.runFlow .pushC).cpu
  | popC {es : List StackEvent} {cpu : Processor} (h : StackRun start es cpu) :
      StackRun start (es ++ [.pop]) (cpu.runFlow .popC).cpu
  /-- Anything that leaves the return stack alone. -/
  | other {es : List StackEvent} {cpu cpu' : Processor} (h : StackRun start es cpu)
      (hstack : cpu'.stack = cpu.stack) : StackRun start es cpu'

theorem StackRun.trans {cpu mid last : Processor} {es es' : List StackEvent}
    (h : StackRun cpu es mid) (h' : StackRun mid es' last) : StackRun cpu (es ++ es') last := by
  induction h' with
  | start => rwa [List.append_nil]
  | call target _ ih =>
    rw [← List.append_assoc]
    exact ih.call target
  | ret _ ih =>
    rw [← List.append_assoc]
    exact ih.ret
  | pushC _ ih =>
    rw [← List.append_assoc]
    exact ih.pushC
  | popC _ ih =>
    rw [← List.append_assoc]
    exact ih.popC
  | other _ hstack ih => exact ih.other hstack

namespace Processor

variable {cpu mid : Processor} {es : List StackEvent}

/-- A call leaves its own address on the stack. -/
theorem stack_call (cpu : Processor) (target : Address) :
    (cpu.call target).stack = cpu.stack.push cpu.pc := by
  unfold call
  dsimp only
  split
  · rfl
  · exact changesOnly_settlePage _ .stack (by simp)

/-- **The ring refines the list**: it holds the addresses that are outstanding, and its next cell has
moved on by their balance. -/
theorem stack_holds (hnext : cpu.stack.next < 4) (h : StackRun cpu es mid) :
    (mid.stack.next : Int) = (cpu.stack.next + balance es) % 4 ∧
      mid.stack.Holds (outstanding es) := by
  have hpush : ∀ {s : ReturnStack} {es : List StackEvent} (a : Address),
      (s.next : Int) = (cpu.stack.next + balance es) % 4 ∧ s.Holds (outstanding es) →
      ((s.push a).next : Int) = (cpu.stack.next + balance (es ++ [.push a])) % 4 ∧
        (s.push a).Holds (outstanding (es ++ [.push a])) := by
    rintro s es a ⟨hs, hholds⟩
    have hlt : s.next < 4 := by omega
    constructor
    · simp only [balance, ReturnStack.push, List.map_append, List.map_singleton, List.sum_append,
        List.sum_singleton, StackEvent.height] at hs ⊢
      omega
    · simp only [outstanding, List.foldl_append]
      exact hholds.push hlt a
  have hpop : ∀ {s : ReturnStack} {es : List StackEvent},
      (s.next : Int) = (cpu.stack.next + balance es) % 4 ∧ s.Holds (outstanding es) →
      (s.pop.next : Int) = (cpu.stack.next + balance (es ++ [.pop])) % 4 ∧
        s.pop.Holds (outstanding (es ++ [.pop])) := by
    rintro s es ⟨hs, hholds⟩
    constructor
    · simp only [balance, ReturnStack.pop, List.map_append, List.map_singleton, List.sum_append,
        List.sum_singleton, StackEvent.height] at hs ⊢
      omega
    · simp only [outstanding, List.foldl_append]
      exact hholds.pop
  induction h with
  | start =>
    refine ⟨?_, ReturnStack.holds_nil _⟩
    simp only [balance, List.map_nil, List.sum_nil]
    omega
  | call target _ ih =>
    rw [stack_call]
    exact hpush _ ih
  | ret _ ih => exact hpop ih
  | pushC _ ih => exact hpush _ ih
  | popC _ ih => exact hpop ih
  | other _ hstack ih =>
    rw [hstack]
    exact ih

/-! ## 4. What a pop yields -/

/-- The next pop yields the address, whichever instruction makes it. -/
structure Yields (cpu : Processor) (a : Address) : Prop where
  ret : cpu.hardware.family ≠ .classic → cpu.ret.pc = a
  /-- A Classic part takes the offset and stays in the page in which it is. -/
  ret_classic : cpu.hardware.family = .classic → cpu.ret.pc = cpu.pc.page + a % 0x100
  popC : (cpu.runFlow .popC).cpu.register .c = (cpu.register .c).putAddress 3 a

theorem yields_top (cpu : Processor) : cpu.Yields cpu.stack.top where
  ret h := by
    unfold Processor.ret
    dsimp only
    split
    · exact absurd ‹_› h
    · rfl
  ret_classic h := by
    unfold Processor.ret
    simp only [h]
  popC := (register_setRegister _ .c .c _).trans (if_pos rfl)

theorem yields_of_outstanding (hnext : cpu.stack.next < 4) (h : StackRun cpu es mid) {a : Address}
    {l : List Address} (hlist : outstanding es = a :: l) : mid.Yields a := by
  have hholds := (stack_holds hnext h).2
  rw [hlist] at hholds
  rw [← hholds.top_eq]
  exact mid.yields_top

/-- **The ring of return addresses refines a list of four.**  However pushes and pops follow one
another, a pop yields the head of the list if there is one, and the next cell counts pushes less
pops.  So a return comes back to the call that it matches, if no more than three calls are nested
between the two, whatever came before; and after four calls or more, four returns yield the newest
four addresses, the newest first. -/
theorem ring_refines_list (hnext : cpu.stack.next < 4) :
    (∀ es mid, StackRun cpu es mid →
      (mid.stack.next : Int) = (cpu.stack.next + balance es) % 4 ∧
      ∀ a l, outstanding es = a :: l → mid.Yields a) ∧
    (∀ es caller target inner mid, StackRun cpu es caller → WellNested 3 inner →
      StackRun (caller.call target) inner mid → mid.Yields caller.pc) ∧
    (∀ (pushed : List Address) mid k last a, 4 ≤ pushed.length → k < 4 →
      StackRun cpu (pushed.map .push) mid → StackRun mid (List.replicate k .pop) last →
      pushed.reverse[k]? = some a → last.Yields a) := by
  refine ⟨?_, ?_, ?_⟩
  · intro es mid h
    exact ⟨(stack_holds hnext h).1, fun a l hlist => yields_of_outstanding hnext h hlist⟩
  · intro es caller target inner mid h hinner hrun
    have hcaller : caller.stack.next < 4 := by
      have hmoved := (stack_holds hnext h).1
      omega
    have hlist : outstanding ([.push caller.pc] ++ inner) = [caller.pc] := by
      simp only [outstanding, List.foldl_append]
      exact hinner.foldl_next (Nat.le_refl 4)
    exact yields_of_outstanding hcaller ((StackRun.start.call target).trans hrun) hlist
  · intro pushed mid k last a hlength hk hpush hpop ha
    have hlist : outstanding (pushed.map .push ++ List.replicate k .pop) =
        (pushed.reverse.take 4).drop k := by
      have hpushes := foldl_next_pushes pushed []
      rw [List.append_nil] at hpushes
      rw [outstanding, List.foldl_append, foldl_next_pops]
      exact congrArg (List.drop k) hpushes
    have hhead : (pushed.reverse.take 4)[k]? = some a := by
      rw [List.getElem?_take, if_pos hk, ha]
    obtain ⟨hlt, rfl⟩ := List.getElem?_eq_some_iff.mp hhead
    rw [List.drop_eq_getElem_cons hlt] at hlist
    exact yields_of_outstanding hnext (hpush.trans hpop) hlist

/-- Five calls and four returns: the first address has been overwritten, and the fourth return comes
back to the second call. -/
theorem ring_refines_list_five :
    let cpu := new .hp11c (.blank 0)
    let deep := ((((cpu.call 0x100).call 0x200).call 0x300).call 0x400).call 0x500
    cpu.stack.next < 4 ∧ deep.ret.ret.ret.ret.pc = 0x100 := by
  have hnext : (new .hp11c (.blank 0)).stack.next < 4 := by decide
  refine ⟨hnext, ?_⟩
  have hyields := (ring_refines_list hnext).2.2 [0, 0x100, 0x200, 0x300, 0x400] _ 3 _ 0x100 (by decide)
    (by decide) (.call 0x500 (.call 0x400 (.call 0x300 (.call 0x200 (.call 0x100 .start)))))
    (.ret (.ret (.ret .start))) rfl
  exact hyields.ret (by decide)

/-! ## 5. Histories are runs -/

/-- An instruction makes one push or pop at most. -/
theorem run_stackRun (cpu : Processor) (i : Instruction) :
    ∃ es, es.length ≤ 1 ∧ StackRun cpu es (cpu.run i).cpu := by
  have hnone : ∀ {cpu' : Processor}, cpu'.stack = cpu.stack →
      ∃ es, es.length ≤ 1 ∧ StackRun cpu es cpu' :=
    fun hstack => ⟨[], Nat.zero_le 1, StackRun.start.other hstack⟩
  have hcall : ∀ {cpu' : Processor} target, cpu'.stack = cpu.stack →
      ∃ es, es.length ≤ 1 ∧ StackRun cpu es (cpu'.call target) :=
    fun target hstack => ⟨[.push _], Nat.le_refl 1, (StackRun.start.other hstack).call target⟩
  have hret : ∀ {cpu' : Processor}, cpu'.stack = cpu.stack →
      ∃ es, es.length ≤ 1 ∧ StackRun cpu es cpu'.ret :=
    fun hstack => ⟨[.pop], Nat.le_refl 1, (StackRun.start.other hstack).ret⟩
  have hframe : Component.stack ∉ i.footprint → ∃ es, es.length ≤ 1 ∧
      StackRun cpu es (cpu.run i).cpu := fun hno => hnone (cpu.run_changesOnly i .stack hno)
  cases i with
  | flow x =>
    cases x with
    | call target => exact hcall target rfl
    | «return» => exact hret rfl
    | returnIf carry =>
      simp only [Processor.run, runFlow, Outcome.done]
      split
      · exact hret rfl
      · exact hnone rfl
    | longBranch low =>
      simp only [Processor.run, runFlow, longBranch]
      split
      · exact hnone rfl
      · repeat' split
        all_goals first | exact hcall _ rfl | exact hnone rfl
    | romChecksum =>
      have hbit : (cpu.setBit 5 false).stack = cpu.stack := rfl
      exact hret hbit
    | pushC => exact ⟨[.push _], Nat.le_refl 1, StackRun.start.pushC⟩
    | popC => exact ⟨[.pop], Nat.le_refl 1, StackRun.start.popC⟩
    | _ => exact hframe (by simp)
  | nop => exact hframe (by simp)
  | arithmetic x _ | move x | digit x | status x | pointer x | data x | control x | card x
  | printer x => exact hframe (by cases x <;> simp [RegisterName.all])

/-- So does a tick. -/
theorem tick_stackRun (cpu : Processor) : ∃ es, es.length ≤ 1 ∧ StackRun cpu es cpu.tick.cpu := by
  have hready : StackRun cpu [] cpu.ready :=
    StackRun.start.other (cpu.changesOnly_ready .stack (by simp))
  rcases tick_cases cpu with ⟨-, heq⟩ | ⟨-, -, heq⟩ | ⟨word, e, -, -, -, heq, -⟩ |
    ⟨word, i, -, heq, -⟩
  · rw [heq]
    exact ⟨[], Nat.zero_le 1, .start⟩
  · rw [heq]
    exact ⟨[], Nat.zero_le 1, StackRun.start.other (cpu.changesOnly_latchInputs .stack (by simp))⟩
  · rw [heq]
    exact ⟨[], Nat.zero_le 1, hready.other rfl⟩
  · rw [heq]
    obtain ⟨es, hlength, hrun⟩ := cpu.ready.run_stackRun i
    exact ⟨es, hlength, (hready.trans hrun).other rfl⟩

/-- **Every history without a reset is a run of pushes and pops**, so all that is said about runs is
said about histories. -/
theorem stackRun_of_reaches {allowed : Processor → Act → Prop}
    (hreset : ∀ cpu, ¬allowed cpu .reset) (h : Reaches allowed cpu mid) :
    ∃ es, StackRun cpu es mid := by
  refine h.invariant (motive := fun mid => ∃ es, StackRun cpu es mid) ⟨[], .start⟩ ?_
  rintro cpu' a - ha ⟨es, hrun⟩
  have hframe : ∀ {cs}, ChangesOnly cs cpu' (cpu'.perform a) → Component.stack ∉ cs →
      ∃ es, StackRun cpu es (cpu'.perform a) := fun hchange hno => ⟨es, hrun.other (hchange .stack hno)⟩
  cases a with
  | tick =>
    obtain ⟨es', -, htick⟩ := cpu'.tick_stackRun
    exact ⟨_, hrun.trans htick⟩
  | call target => exact ⟨_, hrun.call target.toNat⟩
  | ret => exact ⟨_, hrun.ret⟩
  | reset => exact absurd ha (hreset cpu')
  | restore bytes =>
    refine hframe (Record.read_changesOnly cpu' bytes) ?_
    intro hmem
    obtain ⟨slot, -, hslot⟩ := List.mem_map.mp hmem
    exact Slot.component_not_mem (by simp [Component.unsaved]) slot (List.mem_singleton.mpr hslot)
  | arithmetic op s => exact hframe (cpu'.applyArithmetic_changesOnly op s) (by cases op <;> simp)
  | press _ | release | wake | setProgram _ | setTimer _ | setTrace _ | setPrintMode _
  | takePrinted => exact hframe (cpu'.perform_changesOnly rfl) (by simp [Act.footprint])

end Processor

end Calculator
