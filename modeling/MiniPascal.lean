import MiniPascal.Main
import MiniPascal.Progress
import MiniPascal.Proofs.Parsing.Programs
import MiniPascal.Proofs.Listing.Balance
import MiniPascal.Proofs.Analysis.Assignments
import MiniPascal.Proofs.Analysis.Discipline
import MiniPascal.Proofs.Safety.Programs
import MiniPascal.Proofs.Handover.Programs
import MiniPascal.Proofs.Workload.Samples
import MiniPascal.Proofs.Analysis.KeywordCase
import MiniPascal.Proofs.Code.CountedLoops
import MiniPascal.Proofs.Negation
import MiniPascal.Proofs.Listing.Addresses
import MiniPascal.Proofs.Listing.Readability
import MiniPascal.Proofs.Listing.InnerBlocks
import MiniPascal.Proofs.Initial.DefaultChecks
import MiniPascal.Proofs.Initial.Circles
import MiniPascal.Proofs.Initial.Constants
import MiniPascal.Proofs.Analysis.FieldPaths
import MiniPascal.Proofs.Analysis.IndexBounds
import MiniPascal.Proofs.Analysis.ArrayParameters
import MiniPascal.Proofs.Code.Coverage
import MiniPascal.Proofs.Evaluation.Comparisons
import MiniPascal.Proofs.Lexing.LineEnds
import MiniPascal.Proofs.Scoping
import MiniPascal.Proofs.Plateau
import MiniPascal.Proofs.Lexing.Printing
