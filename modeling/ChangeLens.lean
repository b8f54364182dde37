import ChangeLens.Main
import ChangeLens.Proofs.Change.Annotated
import ChangeLens.Proofs.Change.EditScript
import ChangeLens.Proofs.Change.Hints
import ChangeLens.Proofs.Change.Invisible
import ChangeLens.Proofs.Change.Stems
import ChangeLens.Proofs.Change.Symmetry
import ChangeLens.Proofs.Config.Update
import ChangeLens.Proofs.ControlFlow.Attribution
import ChangeLens.Proofs.ControlFlow.DocumentOrder
import ChangeLens.Proofs.ControlFlow.Lines
import ChangeLens.Proofs.ControlFlow.Monotone
import ChangeLens.Proofs.ControlFlow.Shelters
import ChangeLens.Proofs.Dependency.Duality
import ChangeLens.Proofs.Dependency.Order
import ChangeLens.Proofs.Dependency.Placement
import ChangeLens.Proofs.Dependency.Reads
import ChangeLens.Proofs.Dependency.Unreadable
import ChangeLens.Proofs.Extraction.Named
import ChangeLens.Proofs.FileIndex.Snapshots
import ChangeLens.Proofs.Git.Log
import ChangeLens.Proofs.Git.OldSide
import ChangeLens.Proofs.Git.OwnHunks
import ChangeLens.Proofs.Git.Records
import ChangeLens.Proofs.Git.Retrieval
import ChangeLens.Proofs.Import.Ecmascript.Agreement
import ChangeLens.Proofs.Import.Ecmascript.Clause
import ChangeLens.Proofs.Import.Ecmascript.Patterns
import ChangeLens.Proofs.Import.Ecmascript.Scanned
import ChangeLens.Proofs.Import.Ecmascript.Statement
import ChangeLens.Proofs.Import.Layout
import ChangeLens.Proofs.Import.Names
import ChangeLens.Proofs.Import.Python.Agreement
import ChangeLens.Proofs.Import.Python.Commented
import ChangeLens.Proofs.Import.Python.Scanned
import ChangeLens.Proofs.Import.Python.Statement
import ChangeLens.Proofs.Import.Scanning
import ChangeLens.Proofs.Language.Families
import ChangeLens.Proofs.Patch.NewSide
import ChangeLens.Proofs.Patch.Tally
import ChangeLens.Proofs.Pool.FirstFailure
import ChangeLens.Proofs.Report.Counts
import ChangeLens.Proofs.Report.FileOrder
import ChangeLens.Proofs.Report.Truncation
import ChangeLens.Proofs.Resolution.Beside
import ChangeLens.Proofs.Resolution.Implied
import ChangeLens.Proofs.Resolution.Relative
import ChangeLens.Proofs.Resolution.Siblings
import ChangeLens.Proofs.Session.Isolation
import ChangeLens.Proofs.Syntax.Markup
import ChangeLens.Syntax.Span
