import Retarget.Processor
import Retarget.IR.Reader
import Retarget.Dwarf.Lines
import Retarget.Proofs.ModuleOrder
import Retarget.Proofs.Copies
import Retarget.Proofs.Precedence
import Retarget.Proofs.CTree
import Retarget.Proofs.Mangling
import Retarget.Proofs.Layout
import Retarget.Proofs.Liveness
import Retarget.Proofs.Reservations
import Retarget.Proofs.Moves
import Retarget.Proofs.SharedLiterals
import Retarget.Proofs.Invocation
import Retarget.Proofs.Deferral
import Retarget.Proofs.TypedValues
import Retarget.Proofs.Loading
import Retarget.Proofs.Relocation
import Retarget.Proofs.Frames
import Retarget.Proofs.LogicalImmediates
