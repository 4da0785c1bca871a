import ScriptContainer.Fixup
import ScriptContainer.Json.Field

/-!
# Choices given as text

What a caller may choose for containers and for documents is read from objects whose members may
be missing.
-/

namespace ScriptContainer

open Json

/-- Choices in writing a document. -/
structure ExportOptions where
  /-- The text is indented. -/
  pretty : Bool
  deriving DecidableEq, Repr

namespace ExportOptions

/-- The choices of a text; indentation is the rule. -/
def ofText? (text : String) : Option ExportOptions := do
  let value ← Json.parse? text.toList
  let fields ← fields? value
  let pretty ← fields.optional "pretty" bool? true
  return ⟨pretty⟩

end ExportOptions

namespace Options

/-- The choices of a text; leniency is the rule. -/
def ofText? (text : String) : Option Options := do
  let value ← Json.parse? text.toList
  let fields ← fields? value
  let strictLabels ← fields.optional "strict_labels" bool? false
  return ⟨strictLabels⟩

end Options

end ScriptContainer
