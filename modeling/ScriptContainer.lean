import ScriptContainer.Container
import ScriptContainer.Document.Choices
import ScriptContainer.Document.Export
import ScriptContainer.Document.Import
import ScriptContainer.Proofs.Accounting
import ScriptContainer.Proofs.Agreement
import ScriptContainer.Proofs.BuildFrame
import ScriptContainer.Proofs.Declared
import ScriptContainer.Proofs.DeclaredSizes
import ScriptContainer.Proofs.DocumentText
import ScriptContainer.Proofs.Imported
import ScriptContainer.Proofs.Importing
import ScriptContainer.Proofs.Labels
import ScriptContainer.Proofs.Landing
import ScriptContainer.Proofs.Lookups
import ScriptContainer.Proofs.Prefixes
import ScriptContainer.Proofs.Produced
import ScriptContainer.Proofs.Rebuilding
import ScriptContainer.Proofs.Recomputing
import ScriptContainer.Proofs.Reencoding
import ScriptContainer.Proofs.Regrowing
import ScriptContainer.Proofs.Reparsing
import ScriptContainer.Proofs.Replaying
import ScriptContainer.Proofs.Revisiting
import ScriptContainer.Proofs.RoundTrip
import ScriptContainer.Proofs.WrittenScopes
