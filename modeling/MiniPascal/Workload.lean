import MiniPascal.Workload.Corner

/-!
# Running Workloads

The workloads by name, each with the value that it gives for a size.
-/

namespace MiniPascal

/-- The workloads. -/
inductive Workload where
  | lexing
  | lexErrors
  | parsing
  | parseErrors
  | layeredParsing
  | evaluation
  | scoping
  | initialisation
  | analysis
  | analysisErrors
  | generation
  | listing
  | statementListing
  | cornerCases
  deriving DecidableEq, Repr

namespace Workload

def countValue (n : Nat) : Tree := .int n

/-- Does the work of a workload of size `n` and gives its value. -/
def run (n : Nat) : Workload → Except StageError Tree
  | lexing => ((tokenCount n).map countValue).mapError .lex
  | lexErrors => .ok (countValue (lexFailures n))
  | parsing => do .text <$> (← parsedProgram n).plain.mapError .listing
  | parseErrors => .ok (countValue (parseFailures n))
  | layeredParsing =>
    match layeredTree? .program (layeredSample n) with
    | some tree => do
      let shown ← tree.plain.mapError .listing
      return .list [.text shown, countValue layeredFailures]
    | none => .ok .null
  | evaluation => ((nodeValues n).map .list).mapError .listing
  | scoping => .ok (countValue (scopeCount n))
  | initialisation => (initialValues n).map .list
  | analysis => (sampleCode n).map .list
  | analysisErrors => .ok (countValue (analysisFailures n))
  | generation => .ok (countValue (codeCount n))
  | listing => (listingLength n).map countValue
  | statementListing => (listedStatements n).map .text
  | cornerCases => (corners n).map .list

end Workload

end MiniPascal
