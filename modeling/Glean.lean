import Glean.Box.Static
import Glean.Config.Read
import Glean.Extraction.Extract
import Glean.Proofs.Extraction.Attributes
import Glean.Proofs.Knowledge
import Glean.Proofs.PlainRecursion
import Glean.Proofs.Scope.Writes
import Glean.Proofs.SkipConditions
import Glean.Proofs.StarExports
import Glean.Syntax.Lookup
import Glean.Syntax.Reading
import Glean.Proofs.Evaluation.Following
import Glean.Proofs.WholeImports
import Glean.Proofs.Extraction.Logic
import Glean.Proofs.Failures
import Glean.Proofs.Evaluation.Confinement
import Glean.Proofs.Extraction.Boxes
import Glean.Proofs.Confinement
import Glean.Proofs.Extraction.Restricting
import Glean.Proofs.Restriction
import Glean.Proofs.Mediation
import Glean.Proofs.References
import Glean.Proofs.Origins
import Glean.Proofs.Syntax.Bare
import Glean.Proofs.Scope.Bare
import Glean.Proofs.Box.Rekeying
import Glean.Proofs.Evaluation.Avoiding
import Glean.Proofs.Evaluation.Rekeying
import Glean.Proofs.Evaluation.Rewrapping
import Glean.Proofs.Wrappers
import Glean.Proofs.Reassigned
import Glean.Proofs.ObjectOrder
import Glean.Proofs.Destructuring
import Glean.Proofs.Hygiene
import Glean.Proofs.Box.Merging
import Glean.Proofs.Box.Combining
import Glean.Proofs.Evaluation.Operands
import Glean.Proofs.Operators
import Glean.Proofs.Box.Inlining
import Glean.Proofs.Inlining
import Glean.Proofs.Restoring
import Glean.Proofs.Undivided
import Glean.Proofs.Extraction.Arguments
import Glean.Proofs.Indexing
import Glean.Proofs.Grouping
import Glean.Proofs.Evaluation.Members
import Glean.Proofs.Givers
import Glean.Proofs.Extraction.Collecting
import Glean.Proofs.Defaults
import Glean.Proofs.Extraction.Shapes
import Glean.Proofs.Components
import Glean.Proofs.Diagnostics
import Glean.Proofs.Imports
import Glean.Proofs.Aliases
import Glean.Proofs.Number.Position
import Glean.Proofs.Number.Rounding
import Glean.Proofs.Number.Conversion
import Glean.Proofs.Number.Grammar
import Glean.Proofs.TextNumbers
import Glean.Proofs.Complement
import Glean.Proofs.Extremes
import Glean.Proofs.Locations
import Glean.Proofs.PatternNames
import Glean.Proofs.Box.Congruence
