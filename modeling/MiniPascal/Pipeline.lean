import MiniPascal.Analysis.Declaration
import MiniPascal.Listing.Program
import MiniPascal.Syntax.Parser
import MiniPascal.Token.Lexer

/-!
# From Text to Listing

The stages of a whole run: tokens, syntax, analysis, listing. A run ends at the first stage that
fails, and the error tells which one it was.
-/

namespace MiniPascal

/-- The failure of a run, by the stage that failed. -/
inductive StageError where
  | lex (error : LexError)
  | parse (error : ParseError)
  | analysis (error : AnalysisError)
  | listing (fault : Fault)

/-- How the names of a program are handed to its listing. -/
inductive Handover where
  /-- What is known about a name is handed over as data. -/
  | data
  /-- What is known about a name is written out and read back. -/
  | written
  deriving DecidableEq, Repr

namespace Pipeline

def parse (tokens : List Token) : Except StageError Tree :=
  ((Program.parse tokens).map Program.toTree).mapError .parse

def analyzeTree (program : Tree) : Except StageError Analysis :=
  match (Declaring.analyzeProgram program).run.run Analysis.start with
  | (.ok (), state) => .ok state
  | (.error e, _) => .error (.analysis e)

def analyzeTokens (tokens : List Token) : Except StageError Analysis := do
  analyzeTree (← parse tokens)

def analyze (text : String) : Except StageError Analysis := do
  analyzeTokens (← (Token.lex text).mapError .lex)

/-- The names of a program after its analysis: those around the scope of its statements. -/
def symbols (a : Analysis) : List (String × Tree) :=
  a.scopes.symbolsOf ((a.scopes.parentOf a.scopes.current).getD a.scopes.current)

def statements (a : Analysis) : Except Fault (List Tree) := do
  (← (a.code.getD .null).entry "statements").elements

/-- The names of a program in the form in which they are handed to its listing. -/
def handOver (a : Analysis) : Handover → Except Fault (List (String × Tree))
  | .data => .ok (symbols a)
  | .written => (symbols a).mapM fun (name, info) => do
    return (name, .text (← Listing.writtenInfo a.scopes info))

def listingContext (a : Analysis) : Listing.Context :=
  { scopes := a.scopes, outermost := a.scopes.current }

def list (a : Analysis) (handover : Handover) : Except StageError String :=
  (do Listing.program (listingContext a) (← handOver a handover) (← statements a) :
    Except Fault String).mapError .listing

end Pipeline

end MiniPascal
