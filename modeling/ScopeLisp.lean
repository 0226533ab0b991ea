import ScopeLisp.Main
import ScopeLisp.Files.Tree
import ScopeLisp.Proofs.Comparison.Evaluation
import ScopeLisp.Proofs.Comparison.Control
import ScopeLisp.Proofs.Requests
import ScopeLisp.Proofs.Bookkeeping
import ScopeLisp.Proofs.DepthLimit
import ScopeLisp.Proofs.Forms
import ScopeLisp.Proofs.Termination
import ScopeLisp.Proofs.ImportGraph
import ScopeLisp.Proofs.Comparison.Invariant
import ScopeLisp.Proofs.Interposition
import ScopeLisp.Proofs.Reachability
import ScopeLisp.Proofs.ImportOnce
import ScopeLisp.Proofs.ObjectModel
import ScopeLisp.Proofs.Declarations
import ScopeLisp.Proofs.History
import ScopeLisp.Proofs.Syntax.Reading
import ScopeLisp.Proofs.Concatenation
import ScopeLisp.Proofs.LineByLine
import ScopeLisp.Proofs.Syntax.RoundTrip
import ScopeLisp.Proofs.OmittedName
import ScopeLisp.Proofs.Syntax.LexicalGrammar
import ScopeLisp.Proofs.Syntax.MaximalMunch
import ScopeLisp.Proofs.Syntax.FlatText
import ScopeLisp.Proofs.Syntax.Completion
import ScopeLisp.Proofs.Syntax.ErrorPlaces
import ScopeLisp.Proofs.Shadowing
import ScopeLisp.Proofs.Constructors
import ScopeLisp.Proofs.FailedImport
import ScopeLisp.Proofs.Classification
import ScopeLisp.Proofs.WritingOut
import ScopeLisp.Proofs.DirectReading
import ScopeLisp.Proofs.NativeCalls
import ScopeLisp.Proofs.ModuleFiles
import ScopeLisp.Proofs.Number.Fewest
import ScopeLisp.Proofs.Json.ReadBack
import ScopeLisp.Proofs.Number.Printing
import ScopeLisp.Proofs.Json.Dump
