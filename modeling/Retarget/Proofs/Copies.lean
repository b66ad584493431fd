import Retarget.FrontEnd.Compile
import Mathlib.Data.Nat.Bitwise

/-!
# Copying and clearing memory

As many accesses as fit are made of each width, from the alignment down to single bytes.
-/

namespace Retarget.FrontEnd.Core
open List IR Gen

variable (dst src : Opnd × Int) (s : Names × Array Line)

end Retarget.FrontEnd.Core
