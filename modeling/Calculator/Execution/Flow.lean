/-
# The program counter

How the program counter advances and jumps, and the return stack.  Every instruction that jumps
within a page first honours a pending select of another ROM; a page below the end of the first chip
always lies in the first bank.  A *test and goto* takes its target from the next word.
-/
import Calculator.Event
import Calculator.Instruction

namespace Calculator

/-! ## 1. Advancing -/

/-- The address after `pc`.  A Classic part stays within the page; the others start again after
the last word of the image and stay within the bank elsewhere. -/
def Hardware.next (hw : Hardware) (pc : Address) : Address :=
  match hw.family with
  | .classic => pc.page + (pc + 1) % 0x100
  | _ => if hw.romSize - 1 ≤ pc then 0 else pc.bank + (pc + 1) % 0x1000

namespace Processor

/-- Moves on to the next address.  The carry becomes the carry before, and is cleared. -/
def advance (cpu : Processor) : Processor :=
  { cpu with
    pc := cpu.hardware.next cpu.pc
    flags := { cpu.flags with prevCarry := cpu.flags.carry, carry := false } }

/-- The word at an address, or the fault that there is none. -/
def fetch (cpu : Processor) (a : Address) : Except Fault Nat :=
  match cpu.rom.word? a with
  | some word => .ok word
  | none => .error (.outsideRom a)

/-! ## 2. Jumps within a page -/

/-- Carries out a pending select: its number replaces the page within the bank. -/
def takeSelect (cpu : Processor) : Processor :=
  if cpu.flags.delayedRom then
    { cpu with
      pc := cpu.romNumber * 0x100 % 0x10000 ||| (cpu.pc.bank + cpu.pc % 0x100)
      flags := { cpu.flags with delayedRom := false } }
  else cpu

/-- Carries out a pending select and maps the first chip into the first bank. -/
def settlePage (cpu : Processor) : Processor :=
  let cpu := cpu.takeSelect
  if cpu.pc < Address.firstChipEnd then { cpu with pc := cpu.pc % 0x1000 } else cpu

/-- Calls a subroutine.  A Nut takes a full address, the others an offset within the page. -/
def call (cpu : Processor) (target : Address) : Processor :=
  let cpu := { cpu with stack := cpu.stack.push cpu.pc }
  match cpu.hardware.family with
  | .nut => { cpu with pc := target }
  | _ => settlePage { cpu with pc := cpu.pc.page + target % 0x100 }

/-- Returns from a subroutine.  A Classic part stays in its page. -/
def ret (cpu : Processor) : Processor :=
  { cpu with
    stack := cpu.stack.pop
    pc :=
      match cpu.hardware.family with
      | .classic => cpu.pc.page + cpu.stack.top % 0x100
      | _ => cpu.stack.top }

/-- Ends a test with outcome `t`: goes to the address in the next word if the test holds, and past
that word if it does not. -/
def testAndGo (cpu : Processor) (t : Bool) : Outcome :=
  let cpu := { cpu with flags := { cpu.flags with carry := false, prevCarry := t } }
  if t then
    match cpu.fetch cpu.pc with
    | .error f => .fail cpu f
    | .ok target =>
      match cpu.hardware.family with
      | .classic => .done { cpu with pc := cpu.pc.page ||| target / 4 }
      | _ => .done { cpu with pc := cpu.pc / 0x400 * 0x400 ||| target }
  else .done cpu.advance

/-! ## 3. Computed jumps -/

/-- Jumps to the key code within the page. -/
def keysToRomAddress (cpu : Processor) : Processor :=
  let cpu := settlePage { cpu with pc := cpu.pc.page }
  { cpu with pc := (cpu.pc + cpu.keyboard.code) % 0x10000 }

/-- Jumps to `a[2:1]` within the page, unless that lies outside the image. -/
def aToRomAddress (cpu : Processor) : Outcome :=
  let a := cpu.register .a
  let target := cpu.pc.page + a.digit 2 * 0x10 + a.digit 1
  if target < cpu.hardware.romSize then
    .done (settlePage { cpu with pc := target })
  else
    .warn (settlePage { cpu with pc := cpu.pc.page }) (.invalidAddress cpu.last target)

/-! ## 4. Long branches -/

/-- Branches to an address whose upper half stands in the next word, under the condition that
stands beside it. -/
def longBranch (cpu : Processor) (low : Address) : Outcome :=
  match cpu.fetch cpu.pc with
  | .error f => .fail cpu f
  | .ok second =>
    let target := low ||| second / 4 % 0x100 * 0x100
    let cpu := (cpu.setCarry cpu.flags.prevCarry).advance
    if cpu.flags.prevCarry != (second % 2 == 1) then .done cpu
    else if second % 4 < 2 then
      if target < cpu.hardware.romSize then .done (cpu.call target)
      else .warn cpu (.invalidAddress cpu.last target)
    else .done { cpu with pc := target }

/-! ## 5. Instructions -/

/-- Switches to the other bank. -/
def switchBank (cpu : Processor) : Processor :=
  { cpu with
    pc := cpu.pc ^^^ Address.bankBit
    flags := { cpu.flags with bankSwitch := !cpu.flags.bankSwitch } }

/-- Executes a jump. -/
def runFlow (cpu : Processor) : FlowOp → Outcome
  | .call target => .done (cpu.call target)
  | .return => .done cpu.ret
  | .returnIf carry => .done (if cpu.flags.prevCarry = carry then cpu.ret else cpu)
  | .branch target =>
    .done <|
      if cpu.flags.prevCarry then cpu
      else settlePage { cpu with pc := cpu.pc.page ||| target }
  | .branchBy offset carry =>
    .done <|
      if cpu.flags.prevCarry = carry then
        { cpu with pc := ((cpu.last + offset) % 0x10000).toNat }
      else cpu
  | .longBranch low => cpu.longBranch low
  | .selectRom number => .done { cpu with pc := number * 0x100 % 0x10000 + cpu.pc % 0x100 }
  | .delayedSelectRom number =>
    .done { cpu with romNumber := number, flags := { cpu.flags with delayedRom := true } }
  | .keysToRomAddress => .done cpu.keysToRomAddress
  | .aToRomAddress => cpu.aToRomAddress
  | .bankSwitch => .done cpu.switchBank
  | .romChecksum => .done (cpu.setBit 5 false).ret
  | .goToC => .done { cpu with pc := (cpu.register .c).address 3 }
  | .pushC => .done { cpu with stack := cpu.stack.push ((cpu.register .c).address 3) }
  | .popC =>
    .done <|
      { cpu with stack := cpu.stack.pop }.setRegister .c
        ((cpu.register .c).putAddress 3 cpu.stack.top)

end Processor

end Calculator
