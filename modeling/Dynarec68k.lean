import Dynarec68k.Main
import Dynarec68k.Proofs.CodeSteps
import Dynarec68k.Proofs.CounterOperands
import Dynarec68k.Proofs.DecimalChains
import Dynarec68k.Proofs.Division
import Dynarec68k.Proofs.EntryCounts
import Dynarec68k.Proofs.EntryHistories
import Dynarec68k.Proofs.FaultFreedom
import Dynarec68k.Proofs.FetchedReads
import Dynarec68k.Proofs.InterruptMask
import Dynarec68k.Proofs.LaterModels
import Dynarec68k.Proofs.LinkedBranches
import Dynarec68k.Proofs.SavedRegisters
import Dynarec68k.Proofs.OpcodeWord
import Dynarec68k.Proofs.PreciseFaults
import Dynarec68k.Proofs.RegisterAssignments
import Dynarec68k.Proofs.RunsEnd
import Dynarec68k.Proofs.StoreLaws
import Dynarec68k.Proofs.SwitchedBanks
import Dynarec68k.Proofs.UserMode
