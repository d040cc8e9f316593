/-
# The guarded tick

The instructions with their guards, and the tick that is made of them.  `GuardsHold` collects what
the guards rely on between one instruction and the next, and `GuardsHold.run?_eq` says that it is
enough.
-/
import Calculator.Proofs.Guarded
import Calculator.Proofs.PointerFaults

namespace Calculator

/-- Every Nut has fourteen status bits. -/
theorem Model.statusBits_of_nut {model : Model} (h : model.hardware.family = .nut) :
    model.hardware.statusBits = 14 := by
  cases model <;> first | rfl | cases h

namespace Processor

variable (cpu : Processor)

/-! ## 1. The program counter -/

/-- Moves on to the next address, for which the last one of the image is computed. -/
def advance? : Option Processor := do
  let _ ← minus? cpu.hardware.romSize 1
  return cpu.advance

/-- Remembers the address and moves on. -/
def fetched? : Option Processor := ({ cpu with last := cpu.pc } : Processor).advance?

/-- Ends a test.  Only where the test fails does the program counter move on by one. -/
def testAndGo? (t : Bool) : Option Outcome :=
  if t then some (cpu.testAndGo t)
  else do
    let _ ← cpu.advance?
    return cpu.testAndGo t

/-- Calls a subroutine. -/
def call? (target : Address) : Option Processor := do
  let _ ← cpu.stack.push? cpu.pc
  return cpu.call target

/-- Returns from a subroutine. -/
def ret? : Option Processor := do
  let _ ← cpu.stack.top?
  return cpu.ret

/-- Jumps to `a[2:1]` within the page. -/
def aToRomAddress? : Option Outcome := do
  let _ ← cpu.digit? .a 2
  let _ ← cpu.digit? .a 1
  return cpu.aToRomAddress

/-- Moves past the second word, and may then call. -/
def longBranch? (low : Address) : Option Outcome := do
  let after ← cpu.advance?
  let _ ← after.stack.push? after.pc
  return cpu.longBranch low

/-- Executes a jump. -/
def runFlow? : FlowOp → Option Outcome
  | .call target => do return .done (← cpu.call? target)
  | .return => do return .done (← cpu.ret?)
  | .returnIf carry => do
    return .done (← if cpu.flags.prevCarry = carry then cpu.ret? else some cpu)
  | .longBranch low => cpu.longBranch? low
  | .selectRom number => do
    return .done { cpu with pc := ← below? 0x10000 (number * 0x100 % 0x10000 + cpu.pc % 0x100) }
  | .aToRomAddress => cpu.aToRomAddress?
  | .romChecksum => do return .done (← (← cpu.setBit? 5 false).ret?)
  | .goToC => do return .done { cpu with pc := ← cpu.address? .c 3 }
  | .pushC => do return .done { cpu with stack := ← cpu.stack.push? (← cpu.address? .c 3) }
  | .popC => do
    let a ← cpu.stack.top?
    return .done <| ←
      ({ cpu with stack := cpu.stack.pop } : Processor).putFrom? .c 3
        [a % 0x10, a / 0x10 % 0x10, a / 0x100 % 0x10, a / 0x1000 % 0x10]
  | op => some (cpu.runFlow op)

/-- No image is empty. -/
theorem romSize_pos : 1 ≤ cpu.hardware.romSize := by
  unfold hardware
  cases cpu.model <;> decide

/-- The last address of the image is computed without a trap, for no image is empty. -/
@[simp] theorem advance?_eq : cpu.advance? = some cpu.advance := by
  simp only [advance?, minus?_eq cpu.romSize_pos]
  rfl

@[simp] theorem fetched?_eq : cpu.fetched? = some cpu.fetched := advance?_eq _

@[simp] theorem testAndGo?_eq (t : Bool) : cpu.testAndGo? t = some (cpu.testAndGo t) := by
  cases t <;> simp [testAndGo?]

@[simp] theorem ret?_eq : cpu.ret? = some cpu.ret := by simp [ret?]

variable {cpu} in
/-- All that a jump relies on is the next cell of the return stack. -/
theorem runFlow?_eq (hnext : cpu.stack.next < 4) (op : FlowOp) :
    cpu.runFlow? op = some (cpu.runFlow op) := by
  cases op with
  | call target => simp [runFlow?, runFlow, call?, ReturnStack.push?_eq hnext]
  | «return» => simp [runFlow?, runFlow]
  | returnIf carry =>
    simp only [runFlow?, runFlow, ret?_eq]
    split <;> rfl
  | longBranch low =>
    have hnext' : cpu.advance.stack.next < 4 := hnext
    simp [runFlow?, runFlow, longBranch?, ReturnStack.push?_eq hnext']
  | selectRom number =>
    have hfits : number * 0x100 % 0x10000 + cpu.pc % 0x100 < 0x10000 := by
      unfold Address at *
      omega
    simp [runFlow?, runFlow, below?_eq hfits]
  | aToRomAddress =>
    simp [runFlow?, runFlow, aToRomAddress?, digit?_eq cpu .a (by decide : 2 < 14),
      digit?_eq cpu .a (by decide : 1 < 14)]
  | romChecksum => simp [runFlow?, runFlow, setBit?_eq cpu (by decide : 5 < 16)]
  | goToC => simp [runFlow?, runFlow, address?_eq cpu .c (by decide : 3 + 3 < 14)]
  | pushC =>
    simp [runFlow?, runFlow, address?_eq cpu .c (by decide : 3 + 3 < 14),
      ReturnStack.push?_eq hnext]
  | popC =>
    simp only [runFlow?, runFlow, ReturnStack.top?_eq, Option.bind_eq_bind, Option.bind_some,
      putFrom?_eq _ .c (List.cons_ne_nil _ _) (by simp : 3 + List.length [_, _, _, _] ≤ 14)]
    rfl
  | _ => rfl

/-! ## 2. Pointers -/

/-- Counts the pointer up.  There is no other way for this to fail than that the pointer runs out of
its eight bits. -/
def incrementPointer? : Option Outcome :=
  match cpu.nextPointer with
  | .ok n => some (.done (cpu.setPointer n))
  | .error _ => none

/-- One below a pointer, and the top digit below zero. -/
def countDown? (n : Nat) : Option Nat := if n = 0 then some 13 else minus? n 1

/-- Counts the pointer down. -/
def decrementPointer? : Option Processor :=
  match cpu.hardware.pointer with
  | .masked => some (cpu.setPointer ((cpu.pointer + 0xf) % 0x10))
  | _ => do return cpu.setPointer (← countDown? cpu.pointer)

/-- Executes an instruction on the pointers. -/
def runPointer? : PointerOp → Option Outcome
  | .increment => cpu.incrementPointer?
  | .decrement => do return .done (← cpu.decrementPointer?)
  | .branchIf value equal => cpu.testAndGo? ((cpu.p == value) == equal)
  | op => some (cpu.runPointer op)

theorem countDown?_eq (n : Nat) : countDown? n = some (if n = 0 then 13 else n - 1) := by
  unfold countDown?
  split
  · rfl
  · exact minus?_eq (by omega)

/-- Below zero comes the top digit, so one is never taken from zero. -/
@[simp] theorem decrementPointer?_eq : cpu.decrementPointer? = some cpu.decrementPointer := by
  unfold decrementPointer? decrementPointer
  simp only [countDown?_eq]
  cases cpu.hardware.pointer <;> rfl

variable {cpu} in
/-- Only counting up can trap, when the pointer has run out of its bits. -/
theorem runPointer?_eq (hcount : ∃ n, cpu.nextPointer = .ok n) (op : PointerOp) :
    cpu.runPointer? op = some (cpu.runPointer op) := by
  cases op with
  | increment =>
    obtain ⟨n, hn⟩ := hcount
    simp [runPointer?, runPointer, incrementPointer?, incrementPointer, hn]
  | decrement => simp [runPointer?, runPointer]
  | branchIf value equal => simp [runPointer?, runPointer]
  | _ => rfl

/-! ## 3. Moves and digits -/

/-- Copies a register as a whole. -/
def copyWord? (dst src : RegisterName) : Option Processor := cpu.copy? dst (some src) .word

/-- Clears a register. -/
def clearWord? (r : RegisterName) : Option Processor := cpu.copy? r none .word

/-- Executes a move. -/
def runMove? : Move → Option Processor
  | .clearRegisters => (RegisterName.all.filter RegisterName.isVolatile).foldlM clearWord? cpu
  | .clearArithmetic => [.a, .b, .c].foldlM clearWord? cpu
  | .copy dst src => cpu.copyWord? dst src
  | .exchange r₁ r₂ => cpu.exchange? r₁ r₂ .word
  | .pushStack => do (← (← cpu.copyWord? .t .z).copyWord? .z .y).copyWord? .y .c
  | .popStack => do (← (← cpu.copyWord? .a .y).copyWord? .y .z).copyWord? .z .t
  | .rotateStack => do
    (← (← cpu.exchange? .t .c .word).exchange? .c .y .word).exchange? .y .z .word
  | .orWithA => cpu.zip? (· ||| ·) .c (cpu.register .c) (cpu.register .a) .word
  | .andWithA => cpu.zip? (· &&& ·) .c (cpu.register .c) (cpu.register .a) .word

theorem inside_word : Span.word.Inside := by decide

@[simp] theorem copyWord?_eq (dst src : RegisterName) :
    cpu.copyWord? dst src = some (cpu.copyWord dst src) :=
  cpu.copy?_eq inside_word dst (some src)

theorem clearWord?_eq : clearWord? = fun cpu r => some (cpu.clearWord r) := by
  funext cpu r
  exact cpu.copy?_eq inside_word r none

/-- Moves work on whole words, and these lie within the register. -/
theorem runMove?_eq (m : Move) : cpu.runMove? m = some (cpu.runMove m) := by
  cases m with
  | clearRegisters | clearArithmetic =>
    simp only [runMove?, runMove, clearWord?_eq]
    exact List.foldlM_pure
  | copy dst src => exact cpu.copyWord?_eq dst src
  | exchange r₁ r₂ => exact cpu.exchange?_eq inside_word r₁ r₂
  | pushStack | popStack => simp [runMove?, runMove]
  | rotateStack => simp [runMove?, runMove, exchange?_eq _ inside_word]
  | orWithA | andWithA => exact cpu.zip?_eq inside_word _ .c _ _

/-- Puts a digit into `c` at the pointer, or at the last position, and counts the pointer down. -/
def loadConstant? (digit : Nat) : Option Outcome :=
  let pt := cpu.pointer
  if pt < 14 then do
    return .done (← (← cpu.putFrom? .c pt [digit]).decrementPointer?)
  else do
    return .warn (← (← cpu.putFrom? .c 13 [digit]).decrementPointer?) (.pointerClamped cpu.last pt)

/-- The key code, or the position of the print switch, goes to `a`. -/
def keysToA? : Option Processor :=
  match cpu.printer with
  | some printer => cpu.putFrom? .a 1 [printer.mode.code]
  | none => cpu.putFrom? .a 1 [cpu.keyboard.code % 0x10, cpu.keyboard.code / 0x10]

/-- What g becomes when it takes the digits of `c` at the pointer. -/
def gTaken? (pt high : Nat) : Option (Nat × Nat) := do
  return (← cpu.digit? .c pt, ← if pt < 13 then cpu.digit? .c (pt + 1) else some high)

/-- Puts g into the digits of `c` at the pointer. -/
def putG? (pt : Nat) : Option Processor :=
  cpu.putFrom? .c pt (if pt < 13 then [cpu.g.1, cpu.g.2] else [cpu.g.1])

/-- Does something at the pointer, which must stand within the register. -/
def atPointer? (act : Nat → Option Processor) : Option Outcome :=
  if cpu.pointer < 14 then do return .done (← act cpu.pointer)
  else some (.fail cpu (.pointerOutOfRange cpu.last cpu.pointer))

/-- Executes an instruction on digits. -/
def runDigit? : DigitOp → Option Outcome
  | .loadConstant digit => cpu.loadConstant? digit
  | .keysToA => do return .done (← cpu.keysToA?)
  | .keysToC => do
    return .done (← cpu.putFrom? .c 3 [cpu.keyboard.code % 0x10, cpu.keyboard.code / 0x10])
  | .fToA => do return .done (← cpu.putFrom? .a 0 [cpu.f])
  | .exchangeFA => do
    return .done { ← cpu.putFrom? .a 0 [cpu.f] with f := ← cpu.digit? .a 0 }
  | .gFromC => cpu.atPointer? fun pt => do return { cpu with g := ← cpu.gTaken? pt cpu.g.2 }
  | .cFromG => cpu.atPointer? cpu.putG?
  | .exchangeCG => cpu.atPointer? fun pt => do
    return { ← cpu.putG? pt with g := ← cpu.gTaken? pt 0 }
  | .loadImmediate =>
    match cpu.fetch cpu.pc with
    | .error f => some (.fail cpu f)
    | .ok word => do return .done (← (← cpu.putFrom? .c 0 (wordDigits word)).advance?)
  | .readRom => do
    let a ← cpu.address? .c 3
    match cpu.rom.word? a with
    | some word => return .done (← cpu.putFrom? .c 0 (wordDigits word))
    | none => return .warn cpu (.invalidAddress cpu.last a)

/-- A digit at a position of the register. -/
theorem putFrom?_singleton_eq (r : RegisterName) {i : Nat} (h : i < 14) (d : Nat) :
    cpu.putFrom? r i [d] = some (cpu.putFrom r i [d]) :=
  cpu.putFrom?_eq r (List.cons_ne_nil d []) h

/-- Two digits, of which the upper one is still in the register. -/
theorem putFrom?_pair_eq (r : RegisterName) {i : Nat} (h : i < 13) (d e : Nat) :
    cpu.putFrom? r i [d, e] = some (cpu.putFrom r i [d, e]) :=
  cpu.putFrom?_eq r (List.cons_ne_nil d [e]) (Nat.succ_le_of_lt (Nat.succ_lt_succ h))

/-- The three digits of a word, at the lower end of `c`. -/
theorem putWord?_eq (word : Nat) :
    cpu.putFrom? .c 0 (wordDigits word) = some (cpu.putFrom .c 0 (wordDigits word)) :=
  cpu.putFrom?_eq .c (List.cons_ne_nil _ _) (by decide : 0 + 3 ≤ 14)

/-- The digit above the pointer is looked at only if there is one. -/
theorem gTaken?_eq {pt : Nat} (h : pt < 14) (high : Nat) :
    cpu.gTaken? pt high =
      some ((cpu.register .c).digit pt,
        if pt < 13 then (cpu.register .c).digit (pt + 1) else high) := by
  unfold gTaken?
  rw [cpu.digit?_eq .c h]
  by_cases htop : pt < 13
  · simp [htop, cpu.digit?_eq .c (by omega : pt + 1 < 14)]
  · simp [htop]

theorem putG?_eq {pt : Nat} (h : pt < 14) : cpu.putG? pt = some (cpu.putG pt) := by
  unfold putG? putG
  by_cases htop : pt < 13
  · rw [if_pos htop, cpu.putFrom?_pair_eq .c htop]
  · rw [if_neg htop, cpu.putFrom?_singleton_eq .c h]

/-- The act is done at positions of the register only. -/
theorem atPointer?_eq {act? : Nat → Option Processor} {act : Nat → Processor}
    (h : ∀ pt < 14, act? pt = some (act pt)) : cpu.atPointer? act? = some (cpu.atPointer act) := by
  unfold atPointer? atPointer
  split
  · rw [h _ ‹_›]
    rfl
  · rfl

/-- Digits are looked up at fixed positions, or at a pointer that was compared first. -/
theorem runDigit?_eq (d : DigitOp) : cpu.runDigit? d = some (cpu.runDigit d) := by
  cases d with
  | loadConstant digit =>
    simp only [runDigit?, runDigit, loadConstant?, loadConstant]
    split
    · simp [cpu.putFrom?_singleton_eq .c ‹_›]
    · simp [cpu.putFrom?_singleton_eq .c (by decide : 13 < 14)]
  | keysToA =>
    simp only [runDigit?, runDigit, keysToA?, keysToA, cpu.putFrom?_singleton_eq .a (by decide : 1 < 14),
      cpu.putFrom?_pair_eq .a (by decide : 1 < 13)]
    cases cpu.printer <;> rfl
  | keysToC => simp [runDigit?, runDigit, cpu.putFrom?_pair_eq .c (by decide : 3 < 13)]
  | fToA => simp [runDigit?, runDigit, cpu.putFrom?_singleton_eq .a (by decide : 0 < 14)]
  | exchangeFA =>
    simp [runDigit?, runDigit, cpu.putFrom?_singleton_eq .a (by decide : 0 < 14),
      cpu.digit?_eq .a (by decide : 0 < 14)]
  | gFromC =>
    simp only [runDigit?, runDigit]
    refine cpu.atPointer?_eq fun pt hpt => ?_
    rw [cpu.gTaken?_eq hpt]
    rfl
  | cFromG => exact cpu.atPointer?_eq fun pt hpt => cpu.putG?_eq hpt
  | exchangeCG =>
    simp only [runDigit?, runDigit]
    refine cpu.atPointer?_eq fun pt hpt => ?_
    simp only [cpu.putG?_eq hpt, cpu.gTaken?_eq hpt]
    rfl
  | loadImmediate =>
    simp only [runDigit?, runDigit, putWord?_eq]
    cases cpu.fetch cpu.pc with
    | error f => rfl
    | ok word => simp
  | readRom =>
    simp only [runDigit?, runDigit, cpu.address?_eq .c (by decide : 3 + 3 < 14), putWord?_eq,
      Option.bind_eq_bind, Option.bind_some]
    cases cpu.rom.word? ((cpu.register .c).address 3) <;> rfl

/-! ## 4. Status bits

A Nut takes the number of a status bit as it comes.  The other parts look first whether they have the
bit. -/

/-- Sets or clears a status bit. -/
def putStatus? (bit : Nat) (value : Bool) : Option Outcome :=
  if cpu.hardware.family = .nut ∨ bit < cpu.hardware.statusBits then do
    return .done (← cpu.setBit? bit value)
  else some (.warn cpu (.invalidStatusBit cpu.last bit))

/-- The value of a status bit. -/
def readStatus? (bit : Nat) : Option Bool :=
  if cpu.hardware.family = .nut ∨ bit < cpu.hardware.statusBits then cpu.bit? bit else some false

/-- Executes an instruction on the status bits. -/
def runStatus? : StatusOp → Option Outcome
  | .set bit value => cpu.putStatus? bit value
  | .test bit => do
    return (Outcome.done (cpu.setCarry (← cpu.readStatus? bit))).after (cpu.statusEvents bit)
  | .branchIf bit value => do
    return (← cpu.testAndGo? ((← cpu.readStatus? bit) == value)).after (cpu.statusEvents bit)
  | .toC => do return .done (← cpu.putFrom? .c 0 cpu.statusDigits)
  | .exchangeC => do
    let after := cpu.putStatusDigits (← cpu.digit? .c 0) (← cpu.digit? .c 1)
    return .done (← after.putFrom? .c 0 cpu.statusDigits)
  | op => some (cpu.runStatus op)

section

variable {cpu} {bit : Nat} (h : bit < 0x10 ∧ (cpu.hardware.family = .nut → bit < 14))

include h

/-- A Nut does not look whether it has a bit, and need not: its words name no other. -/
theorem has_bit_iff :
    cpu.hardware.family = .nut ∨ bit < cpu.hardware.statusBits ↔ bit < cpu.hardware.statusBits := by
  refine or_iff_right_of_imp fun hnut => ?_
  have hbits : cpu.hardware.statusBits = 14 := Model.statusBits_of_nut hnut
  rw [hbits]
  exact h.2 hnut

theorem putStatus?_eq (value : Bool) : cpu.putStatus? bit value = some (cpu.putStatus bit value) := by
  unfold putStatus? putStatus
  simp only [has_bit_iff h, cpu.setBit?_eq h.1]
  split <;> rfl

theorem readStatus?_eq : cpu.readStatus? bit = some (cpu.readStatus bit) := by
  unfold readStatus? readStatus
  simp only [has_bit_iff h, cpu.bit?_eq h.1]
  split <;> rfl

end

theorem statusDigits_put?_eq (after : Processor) :
    after.putFrom? .c 0 cpu.statusDigits = some (after.putFrom .c 0 cpu.statusDigits) :=
  after.putFrom?_eq .c (List.cons_ne_nil _ _) (by decide : 0 + 2 ≤ 14)

variable {cpu} in
/-- The bit that a word names is one of the sixteen. -/
theorem runStatus?_eq {op : StatusOp} (hfits : (Instruction.status op).Fits cpu.hardware) :
    cpu.runStatus? op = some (cpu.runStatus op) := by
  cases op with
  | set bit value => exact putStatus?_eq hfits value
  | test bit => simp [runStatus?, runStatus, readStatus?_eq hfits]
  | branchIf bit value => simp [runStatus?, runStatus, readStatus?_eq hfits]
  | toC => simp [runStatus?, runStatus, statusDigits_put?_eq]
  | exchangeC =>
    simp [runStatus?, runStatus, statusDigits_put?_eq, cpu.digit?_eq .c (by decide : 0 < 14),
      cpu.digit?_eq .c (by decide : 1 < 14)]
  | _ => rfl

/-! ## 5. Data registers -/

/-- Selects a data register from `c`. -/
def selectFromC? : Option Outcome :=
  match cpu.hardware.family with
  | .classic => do return cpu.selectClamped (← cpu.digit? .c 12)
  | .woodstock => do
    let n := (← cpu.digit? .c 1) * 0x10 + (← cpu.digit? .c 0)
    if cpu.printer.isSome ∧ n = keyAddress then return .done { cpu with dataAddress := keyAddress }
    else return cpu.selectClamped n
  | .nut => do
    let n := (← cpu.digit? .c 2) * 0x100 + (← cpu.digit? .c 1) * 0x10 + (← cpu.digit? .c 0)
    return .done { cpu with dataAddress := n % 0x400 }

/-- Selects the register `n` within the block of sixteen. -/
def selectInBlock? (n : Nat) : Option Processor :=
  match cpu.hardware.family with
  | .nut => some (cpu.selectInBlock n)
  | _ => do
    return { cpu with dataAddress := ← below? 0x10000 (cpu.dataAddress / 0x10 * 0x10 + n) }

/-- Hands the key code out. -/
def readKey? : Option Processor := do
  let code := cpu.keyboard.code
  return { ← cpu.putFrom? .c 0 [0, code % 0x10, code / 0x10] with
    keyboard := { cpu.keyboard with code := 0 } }

/-- Loads a numbered register. -/
def loadAt? (n : Nat) : Option Outcome :=
  if cpu.printer.isSome then
    if n = 0xf ∧ cpu.dataAddress = keyAddress then do return .done (← cpu.readKey?)
    else some (.done cpu)
  else do return (← cpu.selectInBlock? n).load

/-- Clears the data registers.  The clears that a card reader lets pass are counted in eight bits. -/
def clearData? : Option Processor :=
  if ∀ reader ∈ cpu.card, reader.ready < 0x7f then some cpu.clearData else none

/-- Executes an instruction on the data registers. -/
def runData? : DataOp → Option Outcome
  | .selectFromC => cpu.selectFromC?
  | .storeAt n => do return (← cpu.selectInBlock? n).store
  | .loadAt n => cpu.loadAt? n
  | .clear => do return .done (← cpu.clearData?)
  | op => some (cpu.runData op)

/-- The digits that select a data register are at fixed positions. -/
theorem selectFromC?_eq : cpu.selectFromC? = some cpu.selectFromC := by
  unfold selectFromC? selectFromC
  simp only [cpu.digit?_eq .c (by decide : 12 < 14), cpu.digit?_eq .c (by decide : 2 < 14),
    cpu.digit?_eq .c (by decide : 1 < 14), cpu.digit?_eq .c (by decide : 0 < 14),
    Option.bind_eq_bind, Option.bind_some, Option.pure_def]
  cases cpu.hardware.family with
  | woodstock =>
    dsimp only
    split <;> rfl
  | _ => rfl

theorem readKey?_eq : cpu.readKey? = some cpu.readKey := by
  have hput := cpu.putFrom?_eq .c (List.cons_ne_nil 0
    [cpu.keyboard.code % 0x10, cpu.keyboard.code / 0x10]) (by decide : 0 + 3 ≤ 14)
  simp only [readKey?, hput]
  rfl

section

variable {cpu} (hdata : cpu.dataAddress < 0x10000) {n : Nat} (hn : n < 0x10)

include hdata hn

/-- A block of sixteen does not begin so high that a register within it has no address. -/
theorem selectInBlock?_eq : cpu.selectInBlock? n = some (cpu.selectInBlock n) := by
  have hfits : cpu.dataAddress / 0x10 * 0x10 + n < 0x10000 := by omega
  unfold selectInBlock? selectInBlock
  simp only [below?_eq hfits]
  cases cpu.hardware.family <;> rfl

theorem loadAt?_eq : cpu.loadAt? n = some (cpu.loadAt n) := by
  unfold loadAt? loadAt
  simp only [selectInBlock?_eq hdata hn, readKey?_eq]
  repeat' split
  all_goals rfl

end

variable {cpu} in
/-- The data address and the count of the card reader must fit their words. -/
theorem runData?_eq (hdata : cpu.dataAddress < 0x10000)
    (hcard : ∀ reader ∈ cpu.card, reader.ready < 0x7f) {op : DataOp}
    (hfits : (Instruction.data op).Fits cpu.hardware) :
    cpu.runData? op = some (cpu.runData op) := by
  cases op with
  | selectFromC => exact cpu.selectFromC?_eq
  | storeAt n => simp [runData?, runData, selectInBlock?_eq hdata hfits]
  | loadAt n => exact loadAt?_eq hdata hfits
  | clear =>
    have hclear : cpu.clearData? = some cpu.clearData := if_pos hcard
    simp [runData?, runData, hclear]
  | _ => rfl

/-! ## 6. Every instruction -/

/-- Executes an arithmetic instruction on a span within the register. -/
def runArithmetic? (op : ArithmeticOp) (field : Field) : Option Outcome :=
  match cpu.spanOf? field with
  | .error f => some (.fail cpu f)
  | .ok s =>
    if s.Inside then do
      let after ← cpu.applyArithmetic? op s
      let outcome ←
        if op.isTest ∧ cpu.hardware.family ≠ .nut then after.testAndGo? after.flags.carry
        else some (.done after)
      return outcome.after (if cpu.switches.trace then [.selected op field] else [])
    else none

/-- Executes an instruction. -/
def run? : Instruction → Option Outcome
  | .nop => some (.done cpu)
  | .arithmetic op field => cpu.runArithmetic? op field
  | .move m => do return .done (← cpu.runMove? m)
  | .digit d => cpu.runDigit? d
  | .status s => cpu.runStatus? s
  | .pointer p => cpu.runPointer? p
  | .flow f => cpu.runFlow? f
  | .data d => cpu.runData? d
  | .control c => some (.done (cpu.runControl c))
  | .card _ | .printer _ => none

/-- The span of a field that could be selected lies within the register. -/
theorem runArithmetic?_eq (op : ArithmeticOp) (field : Field) :
    cpu.runArithmetic? op field = some (cpu.runArithmetic op field) := by
  unfold runArithmetic? runArithmetic
  cases hspan : cpu.spanOf? field with
  | error f => rfl
  | ok s =>
    have hinside : s.Inside := spanOf?_bounds hspan
    simp only [if_pos hinside, cpu.applyArithmetic?_eq hinside, testAndGo?_eq,
      Option.bind_eq_bind, Option.bind_some]
    split <;> rfl

/-- What the guards of an instruction rely on. -/
structure GuardsHold (cpu : Processor) : Prop where
  /-- The next cell of the return stack is one of the four. -/
  next_lt : cpu.stack.next < 4
  /-- Counting up, the pointer does not run out of its bits. -/
  counts : ∃ n, cpu.nextPointer = .ok n
  dataAddress_lt : cpu.dataAddress < 0x10000
  ready_lt : ∀ reader ∈ cpu.card, reader.ready < 0x7f
  peripheral_eq : cpu.hardware.peripheral = .none

variable {cpu} in
/-- **Where the guards hold, an instruction does not trap.** -/
theorem GuardsHold.run?_eq (h : cpu.GuardsHold) {i : Instruction} (hfits : i.Fits cpu.hardware) :
    cpu.run? i = some (cpu.run i) := by
  cases i with
  | nop | control _ => rfl
  | arithmetic op field => exact cpu.runArithmetic?_eq op field
  | move m => simp [run?, run, runMove?_eq]
  | digit d => exact cpu.runDigit?_eq d
  | status s => exact runStatus?_eq hfits
  | pointer p => exact runPointer?_eq h.counts p
  | flow f => exact runFlow?_eq h.next_lt f
  | data d => exact runData?_eq h.dataAddress_lt h.ready_lt hfits
  | card c => exact absurd (h.peripheral_eq.symm.trans hfits) (by decide)
  | printer p => exact absurd (h.peripheral_eq.symm.trans hfits) (by decide)

/-! ## 7. The tick -/

/-- Executes a word.  An operand past the table that it indexes traps. -/
def execute? (word : Nat) : Option Outcome :=
  match Instruction.decode cpu.hardware word with
  | .ok instruction => cpu.run? instruction
  | .error .undefined => some (.fail cpu (.unexpectedOpcode cpu.last word))
  | .error .operandTooWide => none

/-- Executes the word at the program counter. -/
def tick? : Option Outcome :=
  if cpu.isRunning then do
    let latched ← cpu.latchInputs?
    match latched.fetch latched.pc with
    | .error f => return .fail latched f
    | .ok word =>
      let ready ← latched.fetched?
      let outcome ← ready.execute? word
      return { outcome with cpu := { outcome.cpu with opcode := word } }.after
        (if ready.switches.trace then [.fetched word ready] else [])
  else some (.done cpu)

end Processor

end Calculator
