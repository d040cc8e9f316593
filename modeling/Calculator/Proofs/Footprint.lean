/-
# What an instruction leaves alone

The state of a processor is cut into *components*, and the *footprint* of an instruction lists the
components that it may change.  The main statement is `run_changesOnly`: whatever the state, an
instruction changes nothing outside its footprint.  A fact about the state that reads none of those
components therefore survives the instruction, so an invariant has to look only at the few
instructions whose footprint meets it.
-/
import Calculator.Execution.Step

namespace Calculator

/-! ## 1. Components -/

/-- The parts of a processor that instructions change one by one. -/
inductive Component where
  | model | rom | register (r : RegisterName) | memory | status
  | carry | prevCarry | delayedRom | displayEnable | bankSwitch | modeFlag
  | p | q | active | f | g
  | stack | pc | last | dataAddress | romNumber | base | opcode
  | keyCode | keyPressed | keyFlag | switches | enabled | sleeping | printer | card
  deriving DecidableEq

namespace Component

/-- Two processors agree on a component. -/
def Agrees (cpu cpu' : Processor) : Component → Prop
  | model => cpu'.model = cpu.model
  | rom => cpu'.rom = cpu.rom
  | register r => cpu'.register r = cpu.register r
  | memory => cpu'.memory = cpu.memory
  | status => cpu'.status = cpu.status
  | carry => cpu'.flags.carry = cpu.flags.carry
  | prevCarry => cpu'.flags.prevCarry = cpu.flags.prevCarry
  | delayedRom => cpu'.flags.delayedRom = cpu.flags.delayedRom
  | displayEnable => cpu'.flags.displayEnable = cpu.flags.displayEnable
  | bankSwitch => cpu'.flags.bankSwitch = cpu.flags.bankSwitch
  | modeFlag => cpu'.flags.mode = cpu.flags.mode
  | p => cpu'.p = cpu.p
  | q => cpu'.q = cpu.q
  | active => cpu'.active = cpu.active
  | f => cpu'.f = cpu.f
  | g => cpu'.g = cpu.g
  | stack => cpu'.stack = cpu.stack
  | pc => cpu'.pc = cpu.pc
  | last => cpu'.last = cpu.last
  | dataAddress => cpu'.dataAddress = cpu.dataAddress
  | romNumber => cpu'.romNumber = cpu.romNumber
  | base => cpu'.base = cpu.base
  | opcode => cpu'.opcode = cpu.opcode
  | keyCode => cpu'.keyboard.code = cpu.keyboard.code
  | keyPressed => cpu'.keyboard.pressed = cpu.keyboard.pressed
  | keyFlag => cpu'.keyboard.flag = cpu.keyboard.flag
  | switches => cpu'.switches = cpu.switches
  | enabled => cpu'.enabled = cpu.enabled
  | sleeping => cpu'.sleeping = cpu.sleeping
  | printer => cpu'.printer = cpu.printer
  | card => cpu'.card = cpu.card

theorem Agrees.trans {cpu₁ cpu₂ cpu₃ : Processor} {c : Component} (h₁ : c.Agrees cpu₁ cpu₂)
    (h₂ : c.Agrees cpu₂ cpu₃) : c.Agrees cpu₁ cpu₃ := by
  cases c <;> exact Eq.trans h₂ h₁

end Component

/-- The flags are known once each of them is. -/
theorem Flags.ext_get {fs gs : Flags} (h : ∀ x, fs.get x = gs.get x) : fs = gs := by
  cases fs
  cases gs
  rw [Flags.mk.injEq]
  exact ⟨h .carry, h .prevCarry, h .delayedRom, h .displayEnable, h .bankSwitch, h .mode⟩

theorem RegisterFile.ext_get {rs rs' : RegisterFile} (h : ∀ r, rs.get r = rs'.get r) : rs = rs' := by
  cases rs
  cases rs'
  rw [RegisterFile.mk.injEq]
  exact ⟨h .a, h .b, h .c, h .y, h .z, h .t, h .m, h .n⟩

open Component (Agrees)

namespace Processor

/-- The second processor differs from the first one in the listed components at most. -/
def ChangesOnly (cs : List Component) (cpu cpu' : Processor) : Prop :=
  ∀ c, c ∉ cs → c.Agrees cpu cpu'

variable {cs ds : List Component} {cpu₁ cpu₂ cpu₃ : Processor}

/-- There is nothing in a processor but its components. -/
theorem eq_of_agrees (h : ∀ c : Component, c.Agrees cpu₁ cpu₂) : cpu₂ = cpu₁ := by
  have hregisters : cpu₂.registers = cpu₁.registers :=
    RegisterFile.ext_get fun r => h (.register r)
  have hflags : cpu₂.flags = cpu₁.flags := by
    refine Flags.ext_get fun x => ?_
    cases x
    · exact h .carry
    · exact h .prevCarry
    · exact h .delayedRom
    · exact h .displayEnable
    · exact h .bankSwitch
    · exact h .modeFlag
  have hkeyboard : cpu₂.keyboard = cpu₁.keyboard :=
    (Keyboard.mk.injEq ..).mpr ⟨h .keyCode, h .keyPressed, h .keyFlag⟩
  cases cpu₁
  cases cpu₂
  rw [Processor.mk.injEq]
  exact ⟨h .model, h .rom, hregisters, h .memory, h .status, hflags, h .p, h .q, h .active, h .f,
    h .g, h .stack, h .pc, h .last, h .dataAddress, h .romNumber, h .base, h .opcode, hkeyboard,
    h .switches, h .enabled, h .sleeping, h .printer, h .card⟩

theorem ChangesOnly.refl (cs : List Component) (cpu : Processor) : ChangesOnly cs cpu cpu := by
  intro c _
  cases c <;> rfl

theorem ChangesOnly.trans (h₁ : ChangesOnly cs cpu₁ cpu₂) (h₂ : ChangesOnly cs cpu₂ cpu₃) :
    ChangesOnly cs cpu₁ cpu₃ :=
  fun c hc => (h₁ c hc).trans (h₂ c hc)

/-- One change after another touches what either of them touches. -/
theorem ChangesOnly.append (h₁ : ChangesOnly cs cpu₁ cpu₂) (h₂ : ChangesOnly ds cpu₂ cpu₃) :
    ChangesOnly (cs ++ ds) cpu₁ cpu₃ := by
  intro c hc
  rw [List.mem_append, not_or] at hc
  exact (h₁ c hc.1).trans (h₂ c hc.2)

/-- More components may be listed than change. -/
theorem ChangesOnly.mono (h : ChangesOnly cs cpu₁ cpu₂) (hsub : ∀ c ∈ cs, c ∈ ds) :
    ChangesOnly ds cpu₁ cpu₂ :=
  fun c hc => h c fun hm => hc (hsub c hm)

/-- A change of one component, if no other sees it. -/
theorem ChangesOnly.of_ne {c₀ : Component} (h : ∀ c, c ≠ c₀ → c.Agrees cpu₁ cpu₂) :
    ChangesOnly [c₀] cpu₁ cpu₂ := by
  intro c hc
  rw [List.mem_singleton] at hc
  exact h c hc

/-- Whether the property holds is decided by the listed components. -/
def DependsOn (P : Processor → Prop) (cs : List Component) : Prop :=
  ∀ cpu cpu', (∀ c ∈ cs, c.Agrees cpu cpu') → P cpu → P cpu'

/-- More components may be listed than are read. -/
theorem DependsOn.mono {P : Processor → Prop} (hP : DependsOn P cs) (hsub : ∀ c ∈ cs, c ∈ ds) :
    DependsOn P ds :=
  fun cpu cpu' hagree => hP cpu cpu' fun c hc => hagree c (hsub c hc)

/-- A change elsewhere preserves a property. -/
theorem ChangesOnly.preserves {P : Processor → Prop} (h : ChangesOnly ds cpu₁ cpu₂)
    (hP : DependsOn P cs) (hdisj : ∀ c ∈ cs, c ∉ ds) (hcpu : P cpu₁) : P cpu₂ :=
  hP cpu₁ cpu₂ (fun c hc => h c (hdisj c hc)) hcpu

/-! ## 2. Small changes

Each of the changes from which the instructions are put together, with what it touches. -/

variable (cpu : Processor)

theorem changesOnly_pc (x : Address) : ChangesOnly [.pc] cpu { cpu with pc := x } := by
  refine .of_ne ?_
  intro c hc
  cases c with
  | pc => exact absurd rfl hc
  | _ => rfl

theorem changesOnly_stack (x : ReturnStack) : ChangesOnly [.stack] cpu { cpu with stack := x } := by
  refine .of_ne ?_
  intro c hc
  cases c with
  | stack => exact absurd rfl hc
  | _ => rfl

theorem changesOnly_status (x : Vector Bool 16) :
    ChangesOnly [.status] cpu { cpu with status := x } := by
  refine .of_ne ?_
  intro c hc
  cases c with
  | status => exact absurd rfl hc
  | _ => rfl

theorem changesOnly_memory (x : Array Register) :
    ChangesOnly [.memory] cpu { cpu with memory := x } := by
  refine .of_ne ?_
  intro c hc
  cases c with
  | memory => exact absurd rfl hc
  | _ => rfl

theorem changesOnly_dataAddress (x : Nat) :
    ChangesOnly [.dataAddress] cpu { cpu with dataAddress := x } := by
  refine .of_ne ?_
  intro c hc
  cases c with
  | dataAddress => exact absurd rfl hc
  | _ => rfl

theorem changesOnly_f (x : Nat) : ChangesOnly [.f] cpu { cpu with f := x } := by
  refine .of_ne ?_
  intro c hc
  cases c with
  | f => exact absurd rfl hc
  | _ => rfl

theorem changesOnly_g (x : Nat × Nat) : ChangesOnly [.g] cpu { cpu with g := x } := by
  refine .of_ne ?_
  intro c hc
  cases c with
  | g => exact absurd rfl hc
  | _ => rfl

theorem changesOnly_card (x : Option CardReader) :
    ChangesOnly [.card] cpu { cpu with card := x } := by
  refine .of_ne ?_
  intro c hc
  cases c with
  | card => exact absurd rfl hc
  | _ => rfl

theorem changesOnly_printer (x : Option Printer) :
    ChangesOnly [.printer] cpu { cpu with printer := x } := by
  refine .of_ne ?_
  intro c hc
  cases c with
  | printer => exact absurd rfl hc
  | _ => rfl

theorem changesOnly_opcode (x : Nat) : ChangesOnly [.opcode] cpu { cpu with opcode := x } := by
  refine .of_ne ?_
  intro c hc
  cases c with
  | opcode => exact absurd rfl hc
  | _ => rfl

theorem changesOnly_keyFlag (x : Bool) :
    ChangesOnly [.keyFlag] cpu { cpu with keyboard := { cpu.keyboard with flag := x } } := by
  refine .of_ne ?_
  intro c hc
  cases c with
  | keyFlag => exact absurd rfl hc
  | _ => rfl

theorem changesOnly_keyCode (x : Nat) :
    ChangesOnly [.keyCode] cpu { cpu with keyboard := { cpu.keyboard with code := x } } := by
  refine .of_ne ?_
  intro c hc
  cases c with
  | keyCode => exact absurd rfl hc
  | _ => rfl

/-- A register after a write to one of them. -/
theorem register_setRegister (r s : RegisterName) (x : Register) :
    (cpu.setRegister r x).register s = if s = r then x else cpu.register s :=
  RegisterFile.get_set _ _ _ _

/-- A write touches one register, though all eight lie in one file. -/
theorem changesOnly_setRegister (r : RegisterName) (x : Register) :
    ChangesOnly [.register r] cpu (cpu.setRegister r x) := by
  refine .of_ne ?_
  intro c hc
  cases c with
  | register s =>
    have hs : s ≠ r := fun h => hc (congrArg _ h)
    exact (cpu.register_setRegister r s x).trans (if_neg hs)
  | _ => rfl

theorem changesOnly_putDigits (r : RegisterName) (s : Span) (ds : List Nat) :
    ChangesOnly [.register r] cpu (cpu.putDigits r s ds) :=
  cpu.changesOnly_setRegister r _

theorem changesOnly_exchange (r₁ r₂ : RegisterName) (s : Span) :
    ChangesOnly [.register r₁, .register r₂] cpu (cpu.exchange r₁ r₂ s) :=
  (cpu.changesOnly_putDigits r₁ s _).append (changesOnly_putDigits _ r₂ s _)

theorem changesOnly_setCarry (v : Bool) : ChangesOnly [.carry] cpu (cpu.setCarry v) := by
  refine .of_ne ?_
  intro c hc
  cases c with
  | carry => exact absurd rfl hc
  | _ => rfl

theorem changesOnly_clearCarries : ChangesOnly [.carry, .prevCarry] cpu cpu.clearCarries := by
  intro c hc
  cases c with
  | carry | prevCarry => exact absurd (by simp) hc
  | _ => rfl

/-- Which of the two pointers moves is not told; the active one decides. -/
theorem changesOnly_setPointer (n : Nat) : ChangesOnly [.p, .q] cpu (cpu.setPointer n) := by
  intro c hc
  unfold setPointer
  cases c with
  | p | q => exact absurd (by simp) hc
  | _ => split <;> rfl

/-- Moving on hands the carry down to the carry before. -/
theorem changesOnly_advance : ChangesOnly [.pc, .carry, .prevCarry] cpu cpu.advance := by
  intro c hc
  cases c with
  | pc | carry | prevCarry => exact absurd (by simp) hc
  | _ => rfl

theorem changesOnly_decrementPointer : ChangesOnly [.p, .q] cpu cpu.decrementPointer := by
  unfold decrementPointer
  cases cpu.hardware.pointer <;> exact cpu.changesOnly_setPointer _

/-- A test settles both carries, and goes to the target or past the word that holds it. -/
theorem changesOnly_testAndGo (t : Bool) :
    ChangesOnly [.pc, .carry, .prevCarry] cpu (cpu.testAndGo t).cpu := by
  have hflags : ChangesOnly [.pc, .carry, .prevCarry] cpu
      { cpu with flags := { cpu.flags with carry := false, prevCarry := t } } := by
    intro c hc
    cases c with
    | carry | prevCarry => exact absurd (by simp) hc
    | _ => rfl
  refine hflags.trans ?_
  unfold testAndGo
  cases t with
  | false => exact changesOnly_advance _
  | true =>
    simp only [if_true]
    split
    · exact .refl _ _
    · split
      · exact (changesOnly_pc _ _).mono (by simp)
      · exact (changesOnly_pc _ _).mono (by simp)

/-- A pending select is spent when it is taken. -/
theorem changesOnly_settlePage : ChangesOnly [.pc, .delayedRom] cpu cpu.settlePage := by
  have hselect : ChangesOnly [.pc, .delayedRom] cpu cpu.takeSelect := by
    unfold takeSelect
    intro c hc
    cases c with
    | pc | delayedRom => exact absurd (by simp) hc
    | _ => split <;> rfl
  refine hselect.trans ?_
  unfold settlePage
  intro c hc
  dsimp only
  cases c with
  | pc | delayedRom => exact absurd (by simp) hc
  | _ => split <;> rfl

/-- A call within a page spends a pending select; that of a Nut does not look for one. -/
theorem changesOnly_call (a : Address) :
    ChangesOnly [.pc, .stack, .delayedRom] cpu (cpu.call a) := by
  have hjump : ∀ x, ChangesOnly [.pc, .stack, .delayedRom] cpu
      { cpu with stack := cpu.stack.push cpu.pc, pc := x } := by
    intro x c hc
    cases c with
    | pc | stack => exact absurd (by simp) hc
    | _ => rfl
  unfold call
  dsimp only
  split
  · exact hjump _
  · exact (hjump _).trans ((changesOnly_settlePage _).mono (by simp))

theorem changesOnly_ret : ChangesOnly [.pc, .stack] cpu cpu.ret := by
  intro c hc
  cases c with
  | pc | stack => exact absurd (by simp) hc
  | _ => rfl

/-! ## 3. Footprints -/

end Processor

/-- The destinations of an arithmetic operation, and the carries that it leaves. -/
@[simp] def ArithmeticOp.footprint : ArithmeticOp → List Component
  | clear r | copy r _ => [.register r]
  | exchange r₁ r₂ => [.register r₁, .register r₂]
  | add r _ _ | subtract r _ _ | increment r | decrement r | negate r | negateDecrement r
  | shiftRight r => [.register r, .carry]
  | shiftLeft r => [.register r, .carry, .prevCarry]
  | ifZero _ | ifNotZero _ | ifGreaterOrEqual _ _ | ifLess _ _ | ifNotEqual _ _ => [.carry]

/-- The destinations of a move. -/
@[simp] def Move.footprint : Move → List Component
  | clearRegisters => (RegisterName.all.filter RegisterName.isVolatile).map .register
  | clearArithmetic => [.register .a, .register .b, .register .c]
  | copy dst _ => [.register dst]
  | exchange r₁ r₂ => [.register r₁, .register r₂]
  | pushStack => [.register .t, .register .z, .register .y]
  | popStack => [.register .a, .register .y, .register .z]
  | rotateStack => [.register .t, .register .c, .register .y, .register .z]
  | orWithA | andWithA => [.register .c]

/-- What an instruction on digits changes. -/
@[simp] def DigitOp.footprint : DigitOp → List Component
  | loadConstant _ => [.register .c, .p, .q]
  | keysToA | fToA => [.register .a]
  | exchangeFA => [.register .a, .f]
  | keysToC | cFromG | readRom => [.register .c]
  | gFromC => [.g]
  | exchangeCG => [.register .c, .g]
  | loadImmediate => [.register .c, .pc, .carry, .prevCarry]

/-- What an instruction on the status bits changes. -/
@[simp] def StatusOp.footprint : StatusOp → List Component
  | set _ _ | clearAll | clearFree | clearLow => [.status]
  | test _ | testKeyboard => [.carry]
  | branchIf _ _ => [.pc, .carry, .prevCarry]
  | toC => [.register .c]
  | exchangeC => [.register .c, .status]
  | resetKeyboard => [.carry, .keyFlag]

/-- What an instruction on the pointers changes. -/
@[simp] def PointerOp.footprint : PointerOp → List Component
  | set _ | increment | decrement => [.p, .q]
  | select _ => [.active]
  | branchIf _ _ => [.pc, .carry, .prevCarry]
  | test _ | testPair => [.carry]

/-- What a jump changes. -/
@[simp] def FlowOp.footprint : FlowOp → List Component
  | call _ => [.pc, .stack, .delayedRom]
  | .return | returnIf _ => [.pc, .stack]
  | branch _ | keysToRomAddress | aToRomAddress => [.pc, .delayedRom]
  | branchBy _ _ | selectRom _ | goToC => [.pc]
  | longBranch _ => [.pc, .stack, .delayedRom, .carry, .prevCarry]
  | delayedSelectRom _ => [.romNumber, .delayedRom]
  | bankSwitch => [.pc, .bankSwitch]
  | romChecksum => [.pc, .stack, .status]
  | pushC => [.stack]
  | popC => [.register .c, .stack]

/-- What an instruction on the data registers changes. -/
@[simp] def DataOp.footprint : DataOp → List Component
  | selectFromC => [.dataAddress]
  | store => [.memory]
  | storeAt _ => [.dataAddress, .memory]
  | load => [.register .c]
  | loadAt _ => [.dataAddress, .register .c, .keyCode]
  | clear => [.memory, .card]

/-- What a control instruction changes. -/
@[simp] def ControlOp.footprint : ControlOp → List Component
  | setBase _ => [.base]
  | rotateLeftA => [.register .a, .carry, .prevCarry]
  | rotateRightC _ => [.register .c, .carry, .prevCarry]
  | toggleDisplay | setDisplay _ => [.displayEnable]
  | powerOff => [.pc, .carry, .enabled, .sleeping]

/-- What a card reader instruction changes. -/
@[simp] def CardOp.footprint : CardOp → List Component
  | eject | take _ => [.status, .card]
  | testCard | testRun => [.status]
  | set _ => [.card]
  | idle => []

/-- What a printer instruction changes. -/
@[simp] def PrinterOp.footprint : PrinterOp → List Component
  | printLine | printLineAndPoll => [.status, .printer]
  | numeric | alpha => [.printer]

/-- The components that an instruction may change. -/
@[simp] def Instruction.footprint : Instruction → List Component
  | nop => []
  | arithmetic op _ => .pc :: .prevCarry :: .carry :: op.footprint
  | move m => m.footprint
  | digit d => d.footprint
  | status s => s.footprint
  | pointer p => p.footprint
  | flow f => f.footprint
  | data d => d.footprint
  | control c => c.footprint
  | card c => c.footprint
  | printer p => p.footprint

namespace Processor

variable (cpu : Processor)

/-! ## 4. Each kind of instruction keeps to its footprint -/

theorem changesOnly_takeResult (r : RegisterName) (s : Span) (result : List Nat × Bool) :
    ChangesOnly [.register r, .carry] cpu (cpu.takeResult (some r) s result) :=
  (cpu.changesOnly_putDigits r s result.1).append (changesOnly_setCarry _ result.2)

/-- An operation writes its destinations and the carry; a shift up alone clears the carry before as
well. -/
theorem applyArithmetic_changesOnly (op : ArithmeticOp) (s : Span) :
    ChangesOnly op.footprint cpu (cpu.applyArithmetic op s) := by
  cases op with
  | clear r => exact cpu.changesOnly_putDigits r s _
  | copy r _ => exact cpu.changesOnly_putDigits r s _
  | exchange r₁ r₂ => exact cpu.changesOnly_exchange r₁ r₂ s
  | add r _ _ => exact cpu.changesOnly_takeResult r s _
  | subtract r _ _ => exact cpu.changesOnly_takeResult r s _
  | negate r => exact cpu.changesOnly_takeResult r s _
  | increment r | decrement r | negateDecrement r =>
    exact ((cpu.changesOnly_setCarry true).append (changesOnly_takeResult _ r s _)).mono (by simp)
  | shiftRight r => exact (cpu.changesOnly_putDigits r s _).append (changesOnly_setCarry _ _)
  | shiftLeft r => exact (cpu.changesOnly_putDigits r s _).append (changesOnly_clearCarries _)
  | ifGreaterOrEqual r₁ r₂ =>
    have hless : ChangesOnly [.carry] cpu (cpu.testLess r₁ r₂ s) := cpu.changesOnly_setCarry _
    exact hless.trans (changesOnly_setCarry _ _)
  | _ => exact cpu.changesOnly_setCarry _

/-- Clearing one register after the other touches those that are named. -/
theorem changesOnly_clearWords (rs : List RegisterName) :
    ChangesOnly (rs.map .register) cpu (rs.foldl clearWord cpu) := by
  induction rs generalizing cpu with
  | nil => exact .refl _ cpu
  | cons r rs ih => exact (cpu.changesOnly_putDigits r _ _).append (ih _)

/-- A move touches registers and no carry. -/
theorem runMove_changesOnly (m : Move) : ChangesOnly m.footprint cpu (cpu.runMove m) := by
  cases m with
  | clearRegisters => exact cpu.changesOnly_clearWords _
  | clearArithmetic => exact cpu.changesOnly_clearWords [.a, .b, .c]
  | copy dst src => exact cpu.changesOnly_putDigits dst _ _
  | exchange r₁ r₂ => exact cpu.changesOnly_exchange r₁ r₂ _
  | pushStack =>
    exact ((cpu.changesOnly_putDigits .t _ _).append (changesOnly_putDigits _ .z _ _)).append
      (changesOnly_putDigits _ .y _ _)
  | popStack =>
    exact ((cpu.changesOnly_putDigits .a _ _).append (changesOnly_putDigits _ .y _ _)).append
      (changesOnly_putDigits _ .z _ _)
  | rotateStack =>
    refine (((cpu.changesOnly_exchange .t .c _).append (changesOnly_exchange _ .c .y _)).append
      (changesOnly_exchange _ .y .z _)).mono ?_
    simp
  | orWithA => exact cpu.changesOnly_putDigits .c _ _
  | andWithA => exact cpu.changesOnly_putDigits .c _ _

theorem changesOnly_putFrom (r : RegisterName) (lo : Nat) (ds : List Nat) :
    ChangesOnly [.register r] cpu (cpu.putFrom r lo ds) :=
  cpu.changesOnly_putDigits r _ _

theorem changesOnly_putG (pt : Nat) : ChangesOnly [.register .c] cpu (cpu.putG pt) :=
  cpu.changesOnly_putFrom .c pt _

/-- At a pointer past the register nothing is touched. -/
theorem changesOnly_atPointer {cs : List Component} {act : Nat → Processor}
    (h : ∀ pt, ChangesOnly cs cpu (act pt)) : ChangesOnly cs cpu (cpu.atPointer act).cpu := by
  unfold atPointer
  split
  · exact h _
  · exact .refl _ cpu

/-- Digits go to `a`, `c`, f or g.  Only a constant moves a pointer, and only an immediate word the
program counter. -/
theorem runDigit_changesOnly (d : DigitOp) : ChangesOnly d.footprint cpu (cpu.runDigit d).cpu := by
  cases d with
  | loadConstant digit =>
    have h : ∀ pt, ChangesOnly [.register .c, .p, .q] cpu
        (cpu.putFrom .c pt [digit]).decrementPointer :=
      fun pt => (cpu.changesOnly_putFrom .c pt [digit]).append (changesOnly_decrementPointer _)
    simp only [runDigit, loadConstant]
    split
    · exact h _
    · exact h _
  | keysToA =>
    simp only [runDigit, keysToA]
    split
    · exact cpu.changesOnly_putFrom .a 1 _
    · exact cpu.changesOnly_putFrom .a 1 _
  | keysToC => exact cpu.changesOnly_putFrom .c 3 _
  | fToA => exact cpu.changesOnly_putFrom .a 0 _
  | exchangeFA =>
    exact (cpu.changesOnly_putFrom .a 0 [cpu.f]).append (changesOnly_f _ _)
  | gFromC => exact cpu.changesOnly_atPointer fun pt => cpu.changesOnly_g _
  | cFromG => exact cpu.changesOnly_atPointer fun pt => cpu.changesOnly_putG pt
  | exchangeCG =>
    exact cpu.changesOnly_atPointer fun pt => (cpu.changesOnly_putG pt).append (changesOnly_g _ _)
  | loadImmediate =>
    simp only [runDigit]
    split
    · exact .refl _ cpu
    · exact (cpu.changesOnly_putFrom .c 0 _).append (changesOnly_advance _)
  | readRom =>
    simp only [runDigit]
    split
    · exact cpu.changesOnly_putFrom .c 0 _
    · exact .refl _ cpu

/-- The bits are written by what sets and clears them and by the exchange with `c`; a test leaves
them alone. -/
theorem runStatus_changesOnly (s : StatusOp) :
    ChangesOnly s.footprint cpu (cpu.runStatus s).cpu := by
  cases s with
  | set bit value =>
    simp only [runStatus, putStatus]
    split
    · exact cpu.changesOnly_status _
    · exact .refl _ cpu
  | clearAll | clearFree | clearLow => exact cpu.changesOnly_status _
  | test bit => exact cpu.changesOnly_setCarry _
  | branchIf bit value => exact cpu.changesOnly_testAndGo _
  | toC => exact cpu.changesOnly_putFrom .c 0 _
  | exchangeC =>
    refine .mono ((cpu.changesOnly_status _).append (changesOnly_putFrom _ .c 0 _)) ?_
    simp
  | testKeyboard => exact cpu.changesOnly_setCarry _
  | resetKeyboard =>
    simp only [runStatus]
    split
    · exact .refl _ cpu
    · exact (cpu.changesOnly_setCarry false).append (changesOnly_keyFlag _ false)

/-- The pointers are moved by setting and counting; a test leaves them alone, and selecting one of
them moves neither. -/
theorem runPointer_changesOnly (op : PointerOp) :
    ChangesOnly op.footprint cpu (cpu.runPointer op).cpu := by
  cases op with
  | set value => exact cpu.changesOnly_setPointer value
  | increment =>
    simp only [runPointer, incrementPointer]
    split
    · exact cpu.changesOnly_setPointer _
    · exact .refl _ cpu
  | decrement => exact cpu.changesOnly_decrementPointer
  | select pointer =>
    refine .of_ne ?_
    intro c hc
    cases c with
    | active => exact absurd rfl hc
    | _ => rfl
  | branchIf value equal => exact cpu.changesOnly_testAndGo _
  | test value => exact cpu.changesOnly_setCarry _
  | testPair =>
    simp only [runPointer]
    split
    · exact cpu.changesOnly_setCarry true
    · exact .refl _ cpu

/-- A long branch takes two words, so it moves on and shifts the carries even where it does not
jump. -/
theorem longBranch_changesOnly (low : Address) :
    ChangesOnly [.pc, .stack, .delayedRom, .carry, .prevCarry] cpu (cpu.longBranch low).cpu := by
  have hnext : ChangesOnly [.pc, .stack, .delayedRom, .carry, .prevCarry] cpu
      (cpu.setCarry cpu.flags.prevCarry).advance := by
    refine ((cpu.changesOnly_setCarry _).append (changesOnly_advance _)).mono ?_
    simp
  unfold longBranch
  split
  · exact .refl _ cpu
  · dsimp only
    split
    · exact hnext
    · split
      · split
        · exact hnext.trans ((changesOnly_call _ _).mono (by simp))
        · exact hnext
      · exact hnext.trans ((changesOnly_pc _ _).mono (by simp))

/-- A jump leaves the registers alone, save that `popC` fills `c`. -/
theorem runFlow_changesOnly (op : FlowOp) : ChangesOnly op.footprint cpu (cpu.runFlow op).cpu := by
  have hsettle : ∀ a, ChangesOnly [.pc, .delayedRom] cpu (settlePage { cpu with pc := a }) :=
    fun a => ((cpu.changesOnly_pc a).mono (by simp)).trans (changesOnly_settlePage _)
  cases op with
  | call target => exact cpu.changesOnly_call target
  | «return» => exact cpu.changesOnly_ret
  | returnIf carry =>
    simp only [runFlow]
    split
    · exact cpu.changesOnly_ret
    · exact .refl _ cpu
  | branch target =>
    simp only [runFlow]
    split
    · exact .refl _ cpu
    · exact hsettle _
  | branchBy offset carry =>
    simp only [runFlow]
    split
    · exact cpu.changesOnly_pc _
    · exact .refl _ cpu
  | longBranch low => exact cpu.longBranch_changesOnly low
  | selectRom number => exact cpu.changesOnly_pc _
  | delayedSelectRom number =>
    intro c hc
    cases c with
    | romNumber | delayedRom => exact absurd (by simp) hc
    | _ => rfl
  | keysToRomAddress => exact (hsettle _).trans ((changesOnly_pc _ _).mono (by simp))
  | aToRomAddress =>
    simp only [runFlow, aToRomAddress]
    split
    · exact hsettle _
    · exact hsettle _
  | bankSwitch =>
    intro c hc
    cases c with
    | pc | bankSwitch => exact absurd (by simp) hc
    | _ => rfl
  | romChecksum =>
    refine .mono ((cpu.changesOnly_status _).append (changesOnly_ret _)) ?_
    simp
  | goToC => exact cpu.changesOnly_pc _
  | pushC => exact cpu.changesOnly_stack _
  | popC =>
    refine .mono ((cpu.changesOnly_stack _).append (changesOnly_setRegister _ .c _)) ?_
    simp

theorem changesOnly_store : ChangesOnly [.memory] cpu cpu.store.cpu := by
  unfold store
  split
  · exact cpu.changesOnly_memory _
  · exact .refl _ cpu

theorem changesOnly_selectInBlock (n : Nat) :
    ChangesOnly [.dataAddress] cpu (cpu.selectInBlock n) := by
  unfold selectInBlock
  split
  · exact cpu.changesOnly_dataAddress _
  · exact cpu.changesOnly_dataAddress _

/-- Clearing touches the data registers and, where there is one, the count of the card reader. -/
theorem changesOnly_clearData : ChangesOnly [.memory, .card] cpu cpu.clearData := by
  have hclear : ∀ cpu : Processor, ChangesOnly [.memory, .card] cpu cpu.clearBlock :=
    fun cpu => (cpu.changesOnly_memory _).mono (by simp)
  unfold clearData
  split
  · exact .refl _ cpu
  · have hcard : ∀ reader, ChangesOnly [.memory, .card] cpu { cpu with card := reader } :=
      fun reader => (cpu.changesOnly_card reader).mono (by simp)
    dsimp only
    split
    · exact (hcard _).trans (hclear _)
    · exact hcard _
  · exact hclear cpu

theorem changesOnly_readKey : ChangesOnly [.register .c, .keyCode] cpu cpu.readKey :=
  (cpu.changesOnly_putFrom .c 0 _).append (changesOnly_keyCode _ 0)

/-- A store goes to the memory and a load to `c`; a key code that is read is forgotten. -/
theorem runData_changesOnly (op : DataOp) : ChangesOnly op.footprint cpu (cpu.runData op).cpu := by
  cases op with
  | selectFromC =>
    have hclamp : ∀ n, ChangesOnly [.dataAddress] cpu (cpu.selectClamped n).cpu := by
      intro n
      simp only [selectClamped]
      split
      · exact cpu.changesOnly_dataAddress _
      · exact cpu.changesOnly_dataAddress _
    simp only [runData, selectFromC]
    split
    · exact hclamp _
    · split
      · exact cpu.changesOnly_dataAddress _
      · exact hclamp _
    · exact cpu.changesOnly_dataAddress _
  | store => exact cpu.changesOnly_store
  | storeAt n => exact (cpu.changesOnly_selectInBlock n).append (changesOnly_store _)
  | load => exact cpu.changesOnly_setRegister .c _
  | loadAt n =>
    simp only [runData, loadAt]
    split
    · split
      · exact cpu.changesOnly_readKey.mono (by simp)
      · exact .refl _ cpu
    · refine .mono ((cpu.changesOnly_selectInBlock n).append (changesOnly_setRegister _ .c _)) ?_
      simp
  | clear => exact cpu.changesOnly_clearData

theorem changesOnly_rotateRight (r : RegisterName) (n : Nat) :
    ChangesOnly [.register r, .carry, .prevCarry] cpu (cpu.rotateRight r n) := by
  induction n generalizing cpu with
  | zero => exact .refl _ cpu
  | succ n ih =>
    exact ((cpu.changesOnly_setRegister r _).append (changesOnly_clearCarries _)).trans (ih _)

/-- Only powering down touches the program counter, which starts again at zero. -/
theorem runControl_changesOnly (op : ControlOp) :
    ChangesOnly op.footprint cpu (cpu.runControl op) := by
  cases op with
  | rotateLeftA =>
    exact (cpu.changesOnly_setRegister .a _).append (changesOnly_clearCarries _)
  | rotateRightC n => exact cpu.changesOnly_rotateRight .c n
  | powerOff =>
    intro c hc
    simp only [runControl, powerOff]
    cases c with
    | pc | carry | enabled | sleeping => exact absurd (by simp) hc
    | _ => split <;> rfl
  | setBase x =>
    refine .of_ne ?_
    intro c hc
    cases c with
    | base => exact absurd rfl hc
    | _ => rfl
  | toggleDisplay | setDisplay _ =>
    refine .of_ne ?_
    intro c hc
    cases c with
    | displayEnable => exact absurd rfl hc
    | _ => rfl

/-- The card reader answers in a status bit. -/
theorem runCard_changesOnly (op : CardOp) : ChangesOnly op.footprint cpu (cpu.runCard op) := by
  unfold runCard
  split
  · cases op with
    | eject | take _ => exact (cpu.changesOnly_status _).append (changesOnly_card _ _)
    | testCard | testRun => exact cpu.changesOnly_status _
    | set _ => exact cpu.changesOnly_card _
    | idle => exact .refl _ cpu
  · exact .refl _ cpu

/-- Writing touches the printer alone; printing the line may set a status bit too. -/
theorem runPrinter_changesOnly (op : PrinterOp) :
    ChangesOnly op.footprint cpu (cpu.runPrinter op).cpu := by
  have htake : ∀ result, ChangesOnly [.printer] cpu (cpu.takePrinter result).cpu := by
    intro result
    simp only [takePrinter]
    split
    · exact cpu.changesOnly_printer _
    · exact cpu.changesOnly_printer _
  unfold runPrinter
  split
  · cases op with
    | printLine => exact (cpu.changesOnly_status _).append (changesOnly_printer _ _)
    | printLineAndPoll =>
      simp only [runPrinterWith]
      split
      · refine .mono ((cpu.changesOnly_printer _).append (changesOnly_status _ _)) ?_
        simp
      · exact (cpu.changesOnly_printer _).mono (by simp)
    | numeric => exact htake _
    | alpha => exact htake _
  · exact .refl _ cpu

/-! ## 5. Every instruction -/

/-- The program counter is in the list because a test may end with a jump. -/
theorem runArithmetic_changesOnly (op : ArithmeticOp) (field : Field) :
    ChangesOnly (.pc :: .prevCarry :: .carry :: op.footprint) cpu
      (cpu.runArithmetic op field).cpu := by
  unfold runArithmetic
  split
  · exact .refl _ cpu
  · have happly : ChangesOnly (.pc :: .prevCarry :: .carry :: op.footprint) cpu
        (cpu.applyArithmetic op ‹_›) :=
      (cpu.applyArithmetic_changesOnly op _).mono (by simp +contextual)
    dsimp only
    split
    · exact happly.trans ((changesOnly_testAndGo _ _).mono (by simp))
    · exact happly

/-- **An instruction changes nothing outside its footprint.** -/
theorem run_changesOnly (i : Instruction) : ChangesOnly i.footprint cpu (cpu.run i).cpu := by
  cases i with
  | nop => exact .refl _ cpu
  | arithmetic op field => exact cpu.runArithmetic_changesOnly op field
  | move m => exact cpu.runMove_changesOnly m
  | digit d => exact cpu.runDigit_changesOnly d
  | status s => exact cpu.runStatus_changesOnly s
  | pointer p => exact cpu.runPointer_changesOnly p
  | flow f => exact cpu.runFlow_changesOnly f
  | data d => exact cpu.runData_changesOnly d
  | control c => exact cpu.runControl_changesOnly c
  | card c => exact cpu.runCard_changesOnly c
  | printer p => exact cpu.runPrinter_changesOnly p

end Processor

end Calculator
