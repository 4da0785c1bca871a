import ScriptContainer.Proofs.Regrowing

/-!
# Laying out again

A script that has been laid out has its forest written in its inline flags: the functions that are
not inline are the roots. Laid out again, it grows the same forest if the roots are gone through in
the same order. That is so unless the first time an inline function became a root, because then it
came after all others.
-/

namespace ScriptContainer

namespace Script

variable {s laid after again : Script} {roots roots' : List Root} {stop stop' : Nat}

namespace LaidOut

theorem unique (h : s.LaidOut roots stop after) (h' : s.LaidOut roots' stop' again) :
    roots = roots' ∧ stop = stop' ∧ after = again := by
  obtain rfl := h.grows.unique h'.grows
  exact ⟨rfl, h.length.trans h'.length.symm, h.script.trans h'.script.symm⟩

variable (h : s.LaidOut roots stop laid) (hafter : after.untargeted = laid.untargeted)
include h hafter

end LaidOut

end Script

end ScriptContainer
