/-
# Digits have four bits

No digit of any register ever leaves the range of four bits, and no data register is ever added or
lost.  `Register.FourBit` says it of one register and the first half of the file goes through the
operations on digits; `Processor.DigitsFit` is the invariant of the processor, and
`digitsFit_of_reaches` the main statement.
-/
import Calculator.Proofs.Invariant

namespace Calculator

/-! ## 1. Lists of digits -/

/-- Every number of the list has four bits. -/
def FourBits (ds : List Nat) : Prop := ∀ d ∈ ds, d < 0x10

theorem fourBits_nil : FourBits [] := nofun

theorem FourBits.cons {d : Nat} {ds : List Nat} (hd : d < 0x10) (h : FourBits ds) :
    FourBits (d :: ds) :=
  List.forall_mem_cons.mpr ⟨hd, h⟩

theorem fourBits_singleton {d : Nat} (hd : d < 0x10) : FourBits [d] := .cons hd fourBits_nil

theorem fourBits_pair {d e : Nat} (hd : d < 0x10) (he : e < 0x10) : FourBits [d, e] :=
  .cons hd (fourBits_singleton he)

namespace Serial

variable {xs ys : List Nat}

/-- A serial operation yields four bits in every place if each step does, whatever the operands are.
-/
theorem fourBits_along {digit : Nat → Nat → Bool → Nat × Bool}
    (hdigit : ∀ x y c, (digit x y c).1 < 0x10) (carry : Bool) (xs ys : List Nat) :
    FourBits (along digit carry xs ys).1 := by
  induction xs generalizing carry ys with
  | nil => simp [along, fourBits_nil]
  | cons x xs ih =>
    cases ys with
    | nil => exact fourBits_nil
    | cons y ys => exact .cons (hdigit x y carry) (ih _ _)

/-- The sum of two digits is cut to four bits, with the base taken off or not. -/
theorem addDigit_lt (radix x y : Nat) (carry : Bool) : (addDigit radix x y carry).1 < 0x10 := by
  unfold addDigit
  dsimp only
  split <;> exact Nat.mod_lt _ (by decide)

theorem subtractDigit_lt (radix x y : Nat) (borrow : Bool) :
    (subtractDigit radix x y borrow).1 < 0x10 := by
  unfold subtractDigit
  dsimp only
  split <;> (dsimp only; omega)

theorem fourBits_add (radix : Nat) (carry : Bool) (xs ys : List Nat) :
    FourBits (add radix carry xs ys).1 :=
  fourBits_along (addDigit_lt radix) carry xs ys

theorem fourBits_subtract (radix : Nat) (borrow : Bool) (xs ys : List Nat) :
    FourBits (subtract radix borrow xs ys).1 :=
  fourBits_along (subtractDigit_lt radix) borrow xs ys

/-- A shift brings in a zero at one end and drops a digit at the other. -/
theorem fourBits_shiftUp (h : FourBits xs) : FourBits (shiftUp xs) :=
  fun d hd => FourBits.cons (d := 0) (by decide) h d ((List.dropLast_sublist _).subset hd)

theorem fourBits_shiftDown (h : FourBits xs) : FourBits (shiftDown xs) := by
  intro d hd
  rcases List.mem_append.mp (List.mem_of_mem_tail hd) with hold | hzero
  · exact h d hold
  · exact fourBits_singleton (by decide) d hzero

end Serial

/-- An operation that keeps to four bits does so along two lists. -/
theorem fourBits_zipWith {op : Nat → Nat → Nat} (hop : ∀ x y, x < 0x10 → y < 0x10 → op x y < 0x10)
    {xs ys : List Nat} (hx : FourBits xs) (hy : FourBits ys) :
    FourBits (List.zipWith op xs ys) := by
  induction xs generalizing ys with
  | nil => exact fourBits_nil
  | cons x xs ih =>
    cases ys with
    | nil => exact fourBits_nil
    | cons y ys =>
      obtain ⟨hx, hxs⟩ := List.forall_mem_cons.mp hx
      obtain ⟨hy, hys⟩ := List.forall_mem_cons.mp hy
      exact .cons (hop x y hx hy) (ih hxs hys)

/-! ## 2. Registers -/

namespace Register

/-- Every digit of the register has four bits. -/
def FourBit (r : Register) : Prop := ∀ i, r.digit i < 0x10

variable {r : Register}

theorem fourBit_zero : zero.FourBit := by
  intro i
  rw [digit_zero]
  decide

/-- Past the end there is nothing to be said. -/
theorem fourBit_of_lt (h : ∀ i < 14, r.digit i < 0x10) : r.FourBit := by
  intro i
  rcases Nat.lt_or_ge i 14 with hi | hi
  · exact h i hi
  · rw [digit_of_le r hi]
    decide

theorem FourBit.put (h : r.FourBit) (i : Nat) {d : Nat} (hd : d < 0x10) : (r.put i d).FourBit := by
  refine fourBit_of_lt ?_
  intro j hj
  rw [digit_put r i d hj]
  split
  · exact hd
  · exact h j

theorem FourBit.slice (h : r.FourBit) (s : Span) : FourBits (r.slice s) := by
  intro d hd
  obtain ⟨i, -, rfl⟩ := List.mem_map.mp hd
  exact h i

/-- Where the list is too short for the span, the old digits stay. -/
theorem FourBit.splice (h : r.FourBit) (s : Span) {ds : List Nat} (hds : FourBits ds) :
    (r.splice s ds).FourBit := by
  refine fourBit_of_lt ?_
  intro i hi
  rw [digit_splice r s ds hi]
  split
  · rw [List.getD_eq_getElem?_getD]
    cases hget : ds[i - s.first]? with
    | none => exact h i
    | some d => exact hds d (List.mem_of_getElem? hget)
  · exact h i

/-- A rotation moves the digits round and makes no new ones. -/
theorem FourBit.rotateUp (h : r.FourBit) : r.rotateUp.FourBit := by
  refine fourBit_of_lt ?_
  intro i hi
  rw [digit_of_lt _ hi]
  simpa [Register.rotateUp] using h ((i + 13) % 14)

theorem FourBit.rotateDown (h : r.FourBit) : r.rotateDown.FourBit := by
  refine fourBit_of_lt ?_
  intro i hi
  rw [digit_of_lt _ hi]
  simpa [Register.rotateDown] using h ((i + 1) % 14)

end Register

/-! ## 3. The processor -/

namespace Processor

/-- Every digit of the processor has four bits, and it has the data registers of its model. -/
structure DigitsFit (cpu : Processor) : Prop where
  register : ∀ r, (cpu.register r).FourBit
  cell : ∀ x ∈ cpu.memory, x.FourBit
  size : cpu.memory.size = cpu.hardware.memorySize
  f_lt : cpu.f < 0x10
  g_lt : cpu.g.1 < 0x10 ∧ cpu.g.2 < 0x10
  code_lt : cpu.keyboard.code < 0x100

variable {cpu : Processor}

/-- The components that hold digits. -/
def digitComponents : List Component :=
  [.model, .memory, .f, .g, .keyCode] ++ RegisterName.all.map .register

/-- The invariant reads the components that hold digits, and no others. -/
theorem digitsFit_dependsOn : DependsOn DigitsFit digitComponents := by
  intro cpu cpu' hagree h
  have hmodel : cpu'.model = cpu.model := hagree .model (by simp [digitComponents])
  have hmemory : cpu'.memory = cpu.memory := hagree .memory (by simp [digitComponents])
  have hf : cpu'.f = cpu.f := hagree .f (by simp [digitComponents])
  have hg : cpu'.g = cpu.g := hagree .g (by simp [digitComponents])
  have hcode : cpu'.keyboard.code = cpu.keyboard.code :=
    hagree .keyCode (by simp [digitComponents])
  have hregister : ∀ r, cpu'.register r = cpu.register r := by
    intro r
    refine hagree (.register r) ?_
    cases r <;> simp [digitComponents, RegisterName.all]
  refine ⟨?_, ?_, ?_, ?_, ?_, ?_⟩
  · intro r
    rw [hregister]
    exact h.register r
  · rw [hmemory]
    exact h.cell
  · rw [hmemory, hardware, hmodel]
    exact h.size
  · rw [hf]
    exact h.f_lt
  · rw [hg]
    exact h.g_lt
  · rw [hcode]
    exact h.code_lt

/-- What touches none of these components keeps the invariant. -/
theorem DigitsFit.frame {cs : List Component} {cpu' : Processor} (h : cpu.DigitsFit)
    (hchange : ChangesOnly cs cpu cpu') (hdisj : ∀ c ∈ digitComponents, c ∉ cs) :
    cpu'.DigitsFit :=
  hchange.preserves digitsFit_dependsOn hdisj h

/-- Any register with digits of four bits may take the place of another. -/
theorem DigitsFit.setRegister (h : cpu.DigitsFit) (r : RegisterName) {x : Register}
    (hx : x.FourBit) : (cpu.setRegister r x).DigitsFit := by
  refine ⟨fun s => ?_, h.cell, h.size, h.f_lt, h.g_lt, h.code_lt⟩
  rw [register_setRegister]
  split
  · exact hx
  · exact h.register s

theorem DigitsFit.putDigits (h : cpu.DigitsFit) (r : RegisterName) (s : Span) {ds : List Nat}
    (hds : FourBits ds) : (cpu.putDigits r s ds).DigitsFit :=
  h.setRegister r ((h.register r).splice s hds)

theorem DigitsFit.putFrom (h : cpu.DigitsFit) (r : RegisterName) (lo : Nat) {ds : List Nat}
    (hds : FourBits ds) : (cpu.putFrom r lo ds).DigitsFit :=
  h.putDigits r _ hds

/-- An operand that is left out counts as zero. -/
theorem DigitsFit.operand (h : cpu.DigitsFit) (r? : Option RegisterName) :
    (cpu.operand r?).FourBit := by
  cases r? with
  | none => exact Register.fourBit_zero
  | some r => exact h.register r

theorem DigitsFit.copy (h : cpu.DigitsFit) (dst : RegisterName) (src : Option RegisterName)
    (s : Span) : (cpu.copy dst src s).DigitsFit :=
  h.putDigits dst s ((h.operand src).slice s)

theorem DigitsFit.exchange (h : cpu.DigitsFit) (r₁ r₂ : RegisterName) (s : Span) :
    (cpu.exchange r₁ r₂ s).DigitsFit :=
  (h.putDigits r₁ s ((h.register r₂).slice s)).putDigits r₂ s ((h.register r₁).slice s)

/-- The carries hold no digits. -/
theorem DigitsFit.setCarry (h : cpu.DigitsFit) (v : Bool) : (cpu.setCarry v).DigitsFit :=
  h.frame (cpu.changesOnly_setCarry v) (by decide)

theorem DigitsFit.clearCarries (h : cpu.DigitsFit) : cpu.clearCarries.DigitsFit :=
  h.frame cpu.changesOnly_clearCarries (by decide)

/-- The digits of a result go to the destination, if there is one, and its carry to the flags. -/
theorem DigitsFit.takeResult (h : cpu.DigitsFit) (dst : Option RegisterName) (s : Span)
    {result : List Nat × Bool} (hresult : FourBits result.1) :
    (cpu.takeResult dst s result).DigitsFit := by
  cases dst with
  | none => exact h.setCarry _
  | some r => exact (h.putDigits r s hresult).setCarry _

/-- Sums and differences come out of the adder in four bits; all the other operations move digits
about. -/
theorem DigitsFit.applyArithmetic (h : cpu.DigitsFit) (op : ArithmeticOp) (s : Span) :
    (cpu.applyArithmetic op s).DigitsFit := by
  cases op with
  | clear r => exact h.copy r none s
  | copy dst src => exact h.copy dst (some src) s
  | exchange r₁ r₂ => exact h.exchange r₁ r₂ s
  | add dst src arg => exact h.takeResult (some dst) s (Serial.fourBits_add _ _ _ _)
  | subtract dst src arg => exact h.takeResult (some dst) s (Serial.fourBits_subtract _ _ _ _)
  | increment r => exact (h.setCarry true).takeResult (some r) s (Serial.fourBits_add _ _ _ _)
  | decrement r =>
    exact (h.setCarry true).takeResult (some r) s (Serial.fourBits_subtract _ _ _ _)
  | negate r => exact h.takeResult (some r) s (Serial.fourBits_subtract _ _ _ _)
  | negateDecrement r =>
    exact (h.setCarry true).takeResult (some r) s (Serial.fourBits_subtract _ _ _ _)
  | shiftLeft r =>
    exact (h.putDigits r s (Serial.fourBits_shiftUp ((h.register r).slice s))).clearCarries
  | shiftRight r =>
    exact (h.putDigits r s (Serial.fourBits_shiftDown ((h.register r).slice s))).setCarry false
  | ifZero _ | ifNotZero _ | ifGreaterOrEqual _ _ | ifLess _ _ | ifNotEqual _ _ =>
    exact h.frame (cpu.applyArithmetic_changesOnly _ s) (by simp [digitComponents])

/-! ## 4. One instruction -/

theorem DigitsFit.clearWords (h : cpu.DigitsFit) (rs : List RegisterName) :
    (rs.foldl clearWord cpu).DigitsFit := by
  induction rs generalizing cpu with
  | nil => exact h
  | cons r rs ih => exact ih (h.copy r none .word)

/-- A register takes what a bitwise operation makes of two operands. -/
theorem DigitsFit.bitwise (h : cpu.DigitsFit) {op : Nat → Nat → Nat}
    (hop : ∀ x y, x < 0x10 → y < 0x10 → op x y < 0x10) (dst src : RegisterName)
    (arg : Option RegisterName) (s : Span) :
    (cpu.putDigits dst s
      (List.zipWith op ((cpu.register src).slice s) ((cpu.operand arg).slice s))).DigitsFit :=
  h.putDigits dst s (fourBits_zipWith hop ((h.register src).slice s) ((h.operand arg).slice s))

/-- Moves put digits elsewhere, and the two logical ones combine them bit by bit. -/
theorem DigitsFit.runMove (h : cpu.DigitsFit) (m : Move) : (cpu.runMove m).DigitsFit := by
  have hcopy : ∀ {cpu : Processor} dst src, cpu.DigitsFit → (cpu.copyWord dst src).DigitsFit :=
    fun dst src h => h.copy dst (some src) .word
  cases m with
  | clearRegisters => exact h.clearWords _
  | clearArithmetic => exact h.clearWords [.a, .b, .c]
  | copy dst src => exact hcopy dst src h
  | exchange r₁ r₂ => exact h.exchange r₁ r₂ .word
  | pushStack => exact hcopy _ _ (hcopy _ _ (hcopy _ _ h))
  | popStack => exact hcopy _ _ (hcopy _ _ (hcopy _ _ h))
  | rotateStack => exact ((h.exchange .t .c .word).exchange .c .y .word).exchange .y .z .word
  | orWithA => exact h.bitwise (fun x y => @Nat.or_lt_two_pow x y 4) .c .c (some .a) .word
  | andWithA =>
    refine h.bitwise (fun x y hx _ => ?_) .c .c (some .a) .word
    exact Nat.lt_of_le_of_lt Nat.and_le_left hx

/-- A word of the image fills three digits, however wide it is. -/
theorem fourBits_wordDigits (word : Nat) : FourBits (wordDigits word) :=
  .cons (Nat.mod_lt _ (by decide))
    (fourBits_pair (Nat.mod_lt _ (by decide)) (Nat.mod_lt _ (by decide)))

/-- The two digits of a key code. -/
theorem DigitsFit.code_digits (h : cpu.DigitsFit) :
    FourBits [cpu.keyboard.code % 0x10, cpu.keyboard.code / 0x10] := by
  have hcode := h.code_lt
  exact fourBits_pair (Nat.mod_lt _ (by decide)) (by omega)

/-- Both digits of g go to `c`, or the lower one alone. -/
theorem DigitsFit.putG (h : cpu.DigitsFit) (pt : Nat) : (cpu.putG pt).DigitsFit := by
  unfold Processor.putG
  split
  · exact h.putFrom .c pt (fourBits_pair h.g_lt.1 h.g_lt.2)
  · exact h.putFrom .c pt (fourBits_singleton h.g_lt.1)

theorem DigitsFit.with_f (h : cpu.DigitsFit) {f : Nat} (hf : f < 0x10) :
    ({ cpu with f := f } : Processor).DigitsFit :=
  ⟨h.register, h.cell, h.size, hf, h.g_lt, h.code_lt⟩

theorem DigitsFit.with_code (h : cpu.DigitsFit) {code : Nat} (hcode : code < 0x100) :
    ({ cpu with keyboard := { cpu.keyboard with code := code } } : Processor).DigitsFit :=
  ⟨h.register, h.cell, h.size, h.f_lt, h.g_lt, hcode⟩

theorem DigitsFit.with_g (h : cpu.DigitsFit) {g : Nat × Nat} (hg : g.1 < 0x10 ∧ g.2 < 0x10) :
    ({ cpu with g := g } : Processor).DigitsFit :=
  ⟨h.register, h.cell, h.size, h.f_lt, hg, h.code_lt⟩

/-- At a pointer past the register nothing is done, so only the act itself is in question. -/
theorem DigitsFit.atPointer (h : cpu.DigitsFit) {act : Nat → Processor}
    (hact : ∀ pt, (act pt).DigitsFit) : (cpu.atPointer act).cpu.DigitsFit := by
  unfold Processor.atPointer
  split
  · exact hact _
  · exact h

/-- A constant of four bits, at the pointer or at the top digit. -/
theorem DigitsFit.loadConstant (h : cpu.DigitsFit) {digit : Nat} (hdigit : digit < 0x10) :
    (cpu.loadConstant digit).cpu.DigitsFit := by
  have hput : ∀ pt, (cpu.putFrom .c pt [digit]).decrementPointer.DigitsFit := fun pt =>
    (h.putFrom .c pt (fourBits_singleton hdigit)).frame (changesOnly_decrementPointer _) (by decide)
  unfold Processor.loadConstant
  dsimp only
  split
  · exact hput _
  · exact hput _

/-- What these instructions bring in are digits of registers, f, g, the key code or the print
switch, operands and the digits of a word. -/
theorem DigitsFit.runDigit (h : cpu.DigitsFit) {d : DigitOp}
    (hfits : (Instruction.digit d).Fits cpu.hardware) : (cpu.runDigit d).cpu.DigitsFit := by
  have hc := h.register .c
  cases d with
  | loadConstant digit => exact h.loadConstant hfits
  | keysToA =>
    simp only [Processor.runDigit, Processor.keysToA]
    split
    · rename_i printer _
      exact h.putFrom .a 1 (fourBits_singleton (by cases printer.mode <;> decide))
    · exact h.putFrom .a 1 h.code_digits
  | keysToC => exact h.putFrom .c 3 h.code_digits
  | fToA => exact h.putFrom .a 0 (fourBits_singleton h.f_lt)
  | exchangeFA => exact (h.putFrom .a 0 (fourBits_singleton h.f_lt)).with_f (h.register .a 0)
  | gFromC =>
    refine h.atPointer fun pt => h.with_g ⟨hc pt, ?_⟩
    simp only [gTaken]
    -- there is no digit above the top one, and the upper half of g stays
    split
    · exact hc (pt + 1)
    · exact h.g_lt.2
  | cFromG => exact h.atPointer h.putG
  | exchangeCG =>
    refine h.atPointer fun pt => (h.putG pt).with_g ⟨hc pt, ?_⟩
    dsimp only
    -- here the upper half of g becomes zero instead
    split
    · exact hc (pt + 1)
    · decide
  | loadImmediate =>
    simp only [Processor.runDigit]
    split
    · exact h
    · rename_i word _
      exact (h.putFrom .c 0 (fourBits_wordDigits word)).frame (changesOnly_advance _) (by decide)
  | readRom =>
    simp only [Processor.runDigit]
    split
    · exact h.putFrom .c 0 (fourBits_wordDigits _)
    · exact h

theorem bitsValue_lt (b₀ b₁ b₂ b₃ : Bool) : bitsValue [b₀, b₁, b₂, b₃] < 0x10 := by
  revert b₀ b₁ b₂ b₃
  decide

/-- Status bits reach a register in fours. -/
theorem DigitsFit.runStatus (h : cpu.DigitsFit) (x : StatusOp) :
    (cpu.runStatus x).cpu.DigitsFit := by
  have hstatus : FourBits cpu.statusDigits :=
    fourBits_pair (bitsValue_lt _ _ _ _) (bitsValue_lt _ _ _ _)
  have hframe := cpu.runStatus_changesOnly x
  cases x with
  | toC => exact h.putFrom .c 0 hstatus
  | exchangeC =>
    have hput : ∀ low high, (cpu.putStatusDigits low high).DigitsFit :=
      fun low high => h.frame (cpu.changesOnly_status _) (by decide)
    exact (hput _ _).putFrom .c 0 hstatus
  | _ => exact h.frame hframe (by simp [digitComponents])

/-- Of all the jumps only `popC` writes a register: the four digits of a return address. -/
theorem DigitsFit.runFlow (h : cpu.DigitsFit) (x : FlowOp) : (cpu.runFlow x).cpu.DigitsFit := by
  have hframe := cpu.runFlow_changesOnly x
  cases x with
  | popC =>
    have hpop : ({ cpu with stack := cpu.stack.pop } : Processor).DigitsFit :=
      h.frame (cpu.changesOnly_stack _) (by decide)
    refine hpop.setRegister .c ((h.register .c).splice _ ?_)
    exact .cons (Nat.mod_lt _ (by decide)) (.cons (Nat.mod_lt _ (by decide))
      (fourBits_pair (Nat.mod_lt _ (by decide)) (Nat.mod_lt _ (by decide))))
  | _ => exact h.frame hframe (by simp [digitComponents])

/-- Other data registers, as many as before. -/
theorem DigitsFit.with_memory (h : cpu.DigitsFit) {memory : Array Register}
    (hsize : memory.size = cpu.memory.size) (hcell : ∀ x ∈ memory, x.FourBit) :
    ({ cpu with memory := memory } : Processor).DigitsFit :=
  ⟨h.register, hcell, hsize.trans h.size, h.f_lt, h.g_lt, h.code_lt⟩

theorem DigitsFit.store (h : cpu.DigitsFit) : cpu.store.cpu.DigitsFit := by
  unfold Processor.store
  split
  · refine h.with_memory Array.size_setIfInBounds ?_
    intro x hx
    rcases Array.mem_or_eq_of_mem_setIfInBounds hx with hold | rfl
    · exact h.cell x hold
    · exact h.register .c
  · exact h

/-- What is read past the last data register is zero. -/
theorem DigitsFit.cell_getD (h : cpu.DigitsFit) (k : Nat) : (cpu.memory.getD k .zero).FourBit := by
  rw [Array.getD_eq_getD_getElem?]
  cases hget : cpu.memory[k]? with
  | none => exact Register.fourBit_zero
  | some x => exact h.cell x (Array.mem_of_getElem? hget)

theorem DigitsFit.load (h : cpu.DigitsFit) : cpu.load.cpu.DigitsFit := by
  refine h.setRegister .c ?_
  unfold cellContent
  split
  · exact h.cell_getD _
  · exact Register.fourBit_zero

theorem DigitsFit.clearBlock (h : cpu.DigitsFit) : cpu.clearBlock.DigitsFit := by
  refine h.with_memory Array.size_mapIdx ?_
  intro x hx
  obtain ⟨k, hk, rfl⟩ := Array.mem_mapIdx.mp hx
  split
  · exact Register.fourBit_zero
  · exact h.cell _ (Array.getElem_mem hk)

theorem DigitsFit.clearData (h : cpu.DigitsFit) : cpu.clearData.DigitsFit := by
  unfold Processor.clearData
  split
  · exact h
  · have hcard : ∀ reader, ({ cpu with card := some reader } : Processor).DigitsFit :=
      fun reader => h.frame (cpu.changesOnly_card _) (by decide)
    dsimp only
    split
    · exact (hcard _).clearBlock
    · exact hcard _
  · exact h.clearBlock

/-- A data register takes `c`, and `c` takes a data register or the digits of a key code. -/
theorem DigitsFit.runData (h : cpu.DigitsFit) (x : DataOp) : (cpu.runData x).cpu.DigitsFit := by
  have hblock : ∀ n, (cpu.selectInBlock n).DigitsFit :=
    fun n => h.frame (cpu.changesOnly_selectInBlock n) (by decide)
  cases x with
  | selectFromC => exact h.frame (cpu.runData_changesOnly .selectFromC) (by decide)
  | store => exact h.store
  | storeAt n => exact (hblock n).store
  | load => exact h.load
  | loadAt n =>
    simp only [Processor.runData, loadAt]
    split
    · split
      · have hput := h.putFrom .c 0 (.cons (d := 0) (by decide) h.code_digits)
        exact hput.with_code (by decide : 0 < 0x100)
      · exact h
    · exact (hblock n).load
  | clear => exact h.clearData

theorem DigitsFit.rotateRight (h : cpu.DigitsFit) (r : RegisterName) (n : Nat) :
    (cpu.rotateRight r n).DigitsFit := by
  induction n generalizing cpu with
  | zero => exact h
  | succ n ih => exact ih (h.setRegister r (h.register r).rotateDown).clearCarries

theorem DigitsFit.runControl (h : cpu.DigitsFit) (x : ControlOp) :
    (cpu.runControl x).DigitsFit := by
  have hframe := cpu.runControl_changesOnly x
  cases x with
  | rotateLeftA => exact (h.setRegister .a (h.register .a).rotateUp).clearCarries
  | rotateRightC n => exact h.rotateRight .c n
  | _ => exact h.frame hframe (by simp [digitComponents])

theorem DigitsFit.runArithmetic (h : cpu.DigitsFit) (op : ArithmeticOp) (field : Field) :
    (cpu.runArithmetic op field).cpu.DigitsFit := by
  unfold Processor.runArithmetic
  split
  · exact h
  · dsimp only
    split
    · exact (h.applyArithmetic op _).frame (changesOnly_testAndGo _ _) (by decide)
    · exact h.applyArithmetic op _

/-- **An instruction leaves four bits in every digit.** -/
theorem DigitsFit.run (h : cpu.DigitsFit) {i : Instruction} (hfits : i.Fits cpu.hardware) :
    (cpu.run i).cpu.DigitsFit := by
  have hframe := cpu.run_changesOnly i
  cases i with
  | nop => exact h
  | arithmetic op field => exact h.runArithmetic op field
  | move m => exact h.runMove m
  | digit d => exact h.runDigit hfits
  | status x => exact h.runStatus x
  | pointer x => exact h.frame hframe (by cases x <;> simp [digitComponents])
  | flow x => exact h.runFlow x
  | data x => exact h.runData x
  | control x => exact h.runControl x
  | card x => exact h.frame hframe (by cases x <;> simp [digitComponents])
  | printer x => exact h.frame hframe (by cases x <;> simp [digitComponents])

/-! ## 5. Every history -/

/-- A record may hold any number for a digit, of which four bits are restored. -/
theorem DigitsFit.assign (h : cpu.DigitsFit) (slot : Slot) (v : Nat) :
    (slot.assign cpu v).DigitsFit := by
  have hframe := slot.assign_changesOnly cpu v
  have hv : v % 0x10 < 0x10 := Nat.mod_lt _ (by decide)
  cases slot with
  | flag x => exact h.frame hframe (by cases x <;> decide)
  | digit r i => exact h.setRegister r ((h.register r).put i hv)
  | f => exact ⟨h.register, h.cell, h.size, hv, h.g_lt, h.code_lt⟩
  | gLow => exact h.with_g ⟨hv, h.g_lt.2⟩
  | gHigh => exact h.with_g ⟨h.g_lt.1, hv⟩
  | cell k i =>
    refine h.with_memory Array.size_modify ?_
    intro x hx
    obtain ⟨j, hj, rfl⟩ := Array.mem_iff_getElem.mp hx
    rw [Array.size_modify] at hj
    have hold := h.cell _ (Array.getElem_mem hj)
    rw [Array.getElem_modify]
    split
    · exact hold.put i hv
    · exact hold
  | status _ | p | q => exact h.frame hframe (by simp [digitComponents, Slot.component])

/-- A reset keeps `m` and `n` and clears all the other digits. -/
theorem DigitsFit.reset (h : cpu.DigitsFit) : cpu.reset.DigitsFit := by
  have hzero : 0 < 0x10 := by decide
  refine ⟨?_, ?_, ?_, hzero, ⟨hzero, hzero⟩, (by decide : 0 < 0x100)⟩
  · intro r
    cases r with
    | m => exact h.register .m
    | n => exact h.register .n
    | _ => exact Register.fourBit_zero
  · intro x hx
    obtain ⟨_, -, rfl⟩ := Array.mem_map.mp hx
    exact Register.fourBit_zero
  · exact Array.size_map.trans h.size

/-- The acts other than a tick, a reset and a restore. -/
theorem DigitsFit.small (h : cpu.DigitsFit) {a : Act} (ha : a.isSmall = true) :
    (cpu.perform a).DigitsFit := by
  cases a with
  | arithmetic op s => exact h.applyArithmetic op s
  | press code =>
    simp only [Processor.perform, press]
    split <;> exact ⟨h.register, h.cell, h.size, h.f_lt, h.g_lt, code.toNat_lt⟩
  | tick | reset | restore _ => cases ha
  | _ => exact h.frame (cpu.perform_changesOnly ha) (by simp [digitComponents, Act.footprint])

/-- Each way in which a processor can change keeps its digits in range. -/
theorem digitsFit_invariant (allowed : Processor → Act → Prop) : Invariant allowed DigitsFit where
  latchInputs h := h.frame (changesOnly_latchInputs _) (by decide)
  fetched h := h.frame (changesOnly_fetched _) (by decide)
  run _ _ hfits _ h := h.run hfits
  opcode _ h := ⟨h.register, h.cell, h.size, h.f_lt, h.g_lt, h.code_lt⟩
  small _ ha h := h.small ha
  reset h := h.reset
  assign v _ h := h.assign _ v

theorem digitsFit_new (model : Model) (rom : Rom) : (new model rom).DigitsFit := by
  have hzero : 0 < 0x10 := by decide
  refine DigitsFit.reset
    ⟨?_, ?_, Array.size_replicate, hzero, ⟨hzero, hzero⟩, (by decide : 0 < 0x100)⟩
  · intro r
    cases r <;> exact Register.fourBit_zero
  · intro x hx
    rw [(Array.mem_replicate.mp hx).2]
    exact Register.fourBit_zero

/-- **Every digit has four bits all the time**, whatever happens to the processor. -/
theorem digitsFit_of_reaches {model : Model} {rom : Rom} {allowed : Processor → Act → Prop}
    (hrom : rom.TenBit) (h : Reaches allowed (new model rom) cpu) : cpu.DigitsFit :=
  (digitsFit_invariant allowed).of_reaches hrom (digitsFit_new model rom) h

end Processor

end Calculator
