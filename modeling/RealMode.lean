import RealMode.Command.Run
import RealMode.Files.Tree
import RealMode.Main
import RealMode.Proofs.BaseNames
import RealMode.Proofs.Blocks
import RealMode.Proofs.CellContents
import RealMode.Proofs.CodeLabels
import RealMode.Proofs.CommandEffects
import RealMode.Proofs.ConfigEntries
import RealMode.Proofs.ConfigSearch
import RealMode.Proofs.ConfigSettings
import RealMode.Proofs.DataLabels
import RealMode.Proofs.DataOperands
import RealMode.Proofs.DataReferences
import RealMode.Proofs.DepthCounter
import RealMode.Proofs.DepthLimit
import RealMode.Proofs.Division
import RealMode.Proofs.DocumentRoundTrip
import RealMode.Proofs.EchoRoutines
import RealMode.Proofs.Evaluation
import RealMode.Proofs.Expressions
import RealMode.Proofs.FilePlaces
import RealMode.Proofs.FinalSymbols
import RealMode.Proofs.JsonText
import RealMode.Proofs.LabelSearch
import RealMode.Proofs.ListingLines
import RealMode.Proofs.ListingSymbols
import RealMode.Proofs.Lowering
import RealMode.Proofs.Machine
import RealMode.Proofs.NumberLiterals
import RealMode.Proofs.NumberPrinting
import RealMode.Proofs.NumberValues
import RealMode.Proofs.Outcome
import RealMode.Proofs.PathText
import RealMode.Proofs.Preservation
import RealMode.Proofs.RecordedValues
import RealMode.Proofs.Redeclaration
import RealMode.Proofs.Rounding
import RealMode.Proofs.Semantics
import RealMode.Proofs.StackDiscipline
import RealMode.Proofs.StaticData
import RealMode.Proofs.SymbolHistory
import RealMode.Proofs.SymbolKinds
import RealMode.Proofs.SymbolWarnings
import RealMode.Proofs.TextPieces
import RealMode.Proofs.TextPrinting
import RealMode.Proofs.Tree
import RealMode.Proofs.TwoRuns
import RealMode.Proofs.WarningOrder
import RealMode.Proofs.WorkList
