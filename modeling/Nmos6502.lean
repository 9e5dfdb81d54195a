import Nmos6502.Bus.Mapped
import Nmos6502.Machine
import Nmos6502.Main
import Nmos6502.Proofs.Addressing
import Nmos6502.Proofs.Decoding
import Nmos6502.Proofs.Counter
import Nmos6502.Proofs.Flags
import Nmos6502.Proofs.Sequential
import Nmos6502.Proofs.Writes
import Nmos6502.Proofs.Budget
import Nmos6502.Proofs.Listing
import Nmos6502.Proofs.Tiling
import Nmos6502.Proofs.Requests
import Nmos6502.Proofs.BreakFlag
import Nmos6502.Proofs.Returns
import Nmos6502.Proofs.UntestedFlags
import Nmos6502.Proofs.StackList
import Nmos6502.Proofs.Words
import Nmos6502.Proofs.Numerals
import Nmos6502.Proofs.Grammar
import Nmos6502.Proofs.Assembly
import Nmos6502.Proofs.Rewiring
import Nmos6502.Proofs.Footprint
import Nmos6502.Proofs.OnlyWrites
import Nmos6502.Proofs.Interchange
import Nmos6502.Proofs.HostBudget
import Nmos6502.Proofs.OperandLaw
import Nmos6502.Proofs.Multibyte
import Nmos6502.Proofs.CarryChains
import Nmos6502.Proofs.ShiftChains
import Nmos6502.Proofs.HardReset
import Nmos6502.Proofs.Loading
import Nmos6502.Proofs.BlockFill
import Nmos6502.Proofs.ChartLines
import Nmos6502.Proofs.ChartAddress
