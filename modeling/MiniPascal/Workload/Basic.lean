import MiniPascal.Pipeline
import MiniPascal.Syntax.Production
import MiniPascal.Workload.Sample

/-!
# Workloads

Pieces of work of a given size for timing the stages of the library. A workload does its work and
gives a value by which two runs can be compared: a count, a text or the data that was made.
-/

namespace MiniPascal.Workload

def tokenText : String :=
  "program Sample;
type Range = array[1..20] of integer; Pair = record first, second: integer end;
const limit: integer = -100; title: string = \"sample text\"; mark: char = '*';
var total, index: integer; done: boolean; values: array[1..20] of integer;
procedure Show(const text: string; var count: integer);
begin count := count + 1; end;
begin
  total := 0;
  while not done and (total < limit) do
  begin
    if values[index] <> total then total := total * 2 else total := total div 3 mod 7;
    done := total = limit;
  end;
end.
"

/-- The number of tokens of a text that repeats `n` times. Nothing at all is no text. -/
def tokenCount (n : Nat) : Except LexError Nat :=
  (Token.lex (String.join (List.replicate n tokenText))).map (·.length)

def failures {ε α : Type} (steps : List (Except ε α)) : Nat :=
  steps.countP fun step => step matches .error _

def malformedTexts : List String := ["a $ b", "'", "'ab'", "a ? b", "x := @"]

/-- How many of the malformed texts are refused, each of them `n` times. -/
def lexFailures (n : Nat) : Nat := n * failures (malformedTexts.map Token.lex)

/-- The syntax of a sample program, as it is written. -/
def parsedProgram (n : Nat) : Except StageError Tree := do
  Pipeline.parse (← (Token.lex (parsedSample n)).mapError .lex)

def parsedAs (production : Production) (text : String) : Except StageError Tree := do
  let tokens ← (Token.lex text).mapError .lex
  return (← (production.parse tokens).mapError .parse).1

def malformedPrograms : List String :=
  ["begin end.", "program P begin end.", "program P; var x integer; begin end."]

/-- How many programs are refused: those above and `n` more, in each of which a statement lacks its
value. -/
def parseFailures (n : Nat) : Nat :=
  let generated := (List.range n).map fun i => s!"program P; begin x{i} := ; end."
  failures ((malformedPrograms ++ generated).map (parsedAs .program))

/-- A text of the layered grammar with `n` repetitions. -/
def layeredSample (n : Nat) : String :=
  "program Old; var
begin
  i := 1;
  s := i + 2;
  if i then i := 2 else i := 3;
  while i do i := i - 1;
  for i := 1 to 10 do begin j := i; end;
" ++ String.join ((List.range n).map fun i => s!"  i := i + {i};\n") ++ "end.\n"

def layeredTree? (production : Layered.Production) (text : String) : Option Tree := do
  let tokens ← (Token.lex text).toOption
  return (← (production.parse tokens).toOption).1

/-- Texts that are not programs of the layered grammar. -/
def malformedLayered : List String :=
  ["begin end.", "program ; var begin end.", "program P var begin end.",
    "program P; var begin x = 1; end.", "program P; var begin if x x := 1; end.",
    "program P; var begin while x x := 1; end."]

def layeredFailures : Nat := malformedLayered.countP fun text => (layeredTree? .program text).isNone

/-- Declares `n` names and counts those that are found from a scope further in, with a name that is
declared twice and one that is not declared at all. -/
def scopeCount (n : Nat) : Nat :=
  let names := (List.range n).map fun i => s!"v{i}"
  let declared := names.foldl
    (fun scopes name => (scopes.declareIn? scopes.current name (.int 1)).getD scopes) Scopes.empty
  let inner := declared.enter
  let found := names.countP fun name => (inner.lookup name).isSome
  let again := if (declared.declareIn? declared.current "v0" .null).isNone then 1 else 0
  let missing := if (inner.lookup "missing").isNone then 1 else 0
  found + again + missing

end MiniPascal.Workload
