import Calculator.Emulator
import Calculator.Proofs.AddressTransfer
import Calculator.Proofs.ArithmeticFrame
import Calculator.Proofs.Budget
import Calculator.Proofs.CarryAgeing
import Calculator.Proofs.ComputedJumps
import Calculator.Proofs.Conditions
import Calculator.Proofs.Containment
import Calculator.Proofs.DataClearing
import Calculator.Proofs.DataMemory
import Calculator.Proofs.DelayedSelect
import Calculator.Proofs.DigitEntry
import Calculator.Proofs.DigitExchange
import Calculator.Proofs.Fault
import Calculator.Proofs.HostInputs
import Calculator.Proofs.ListingComments
import Calculator.Proofs.ListingPatch
import Calculator.Proofs.LongBranch
import Calculator.Proofs.ModelNames
import Calculator.Proofs.PointerFaults
import Calculator.Proofs.PowerStates
import Calculator.Proofs.PrintedText
import Calculator.Proofs.PrinterLine
import Calculator.Proofs.RepeatedIncrement
import Calculator.Proofs.Reset
import Calculator.Proofs.Residues
import Calculator.Proofs.ReturnAddresses
import Calculator.Proofs.Rotations
import Calculator.Proofs.RoundTrip
import Calculator.Proofs.Scaling
import Calculator.Proofs.StraightLine
import Calculator.Proofs.TrapFree
import Calculator.Proofs.WellFormed
