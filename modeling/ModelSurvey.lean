import ModelSurvey.Analysis
import ModelSurvey.Proofs.Expansion.Order
import ModelSurvey.Proofs.Expansion.Reach
import ModelSurvey.Settings.Load
import ModelSurvey.Proofs.Declaration.Exposed
import ModelSurvey.Proofs.Syntax.Nodes
import ModelSurvey.Proofs.Syntax.SourceOrder
import ModelSurvey.Proofs.Syntax.MethodBodies
import ModelSurvey.Proofs.Declaration.PlainNames
import ModelSurvey.Proofs.Disk.Discovered
import ModelSurvey.Proofs.Disk.PathOrder
import ModelSurvey.Proofs.Registry.FirstDefinition
import ModelSurvey.Proofs.Registry.FileSet
import ModelSurvey.Proofs.Declaration.CompactNames
import ModelSurvey.Proofs.Registry.Agreement
import ModelSurvey.Proofs.Expansion.DeadArguments
import ModelSurvey.Proofs.Facts.Overriding
import ModelSurvey.Proofs.Registry.Lookup
import ModelSurvey.Proofs.Registry.RecordedNames
import ModelSurvey.Proofs.Syntax.Lowered
import ModelSurvey.Proofs.Value.Hashes
import ModelSurvey.Proofs.Syntax.Gathered
import ModelSurvey.Proofs.Syntax.Shape
import ModelSurvey.Proofs.Text.Numerals
import ModelSurvey.Proofs.Syntax.IntegerLiterals
import ModelSurvey.Proofs.Facts.Signatures
import ModelSurvey.Proofs.Syntax.DoubleQuoted
import ModelSurvey.Proofs.Value.Replacement
import ModelSurvey.Proofs.Facts.MethodNames
import ModelSurvey.Proofs.Text.SnakeCase
import ModelSurvey.Proofs.Disk.ModelPath
import ModelSurvey.Proofs.Syntax.SingleQuoted
import ModelSurvey.Proofs.Toml.Numbers
import ModelSurvey.Proofs.Toml.Strings
import ModelSurvey.Proofs.Toml.Values
import ModelSurvey.Proofs.Toml.Lines
import ModelSurvey.Proofs.Settings.RoundTrip
import ModelSurvey.Proofs.Settings.Overrides
import ModelSurvey.Proofs.Syntax.SignedLiterals
import ModelSurvey.Proofs.Syntax.Modifiers
import ModelSurvey.Proofs.Registry.LastAddition
import ModelSurvey.Proofs.Syntax.Faults
import ModelSurvey.Proofs.Syntax.Delimited
import ModelSurvey.Proofs.Declaration.RecoveredScopes
import ModelSurvey.Proofs.Expansion.OnePass
