import MiniPascal.Token.Lexer

/-!
# The Command Line

Prints the tokens of a sample of declarations, one on each line.
-/

/-- Prints the tokens of the sample file, or the error that its text has. -/
def main : IO UInt32 := do
  let content ← IO.FS.readFile "tests/lexer_tests/test_declarations.pas"
  match MiniPascal.Token.lexFile content with
  | .ok tokens =>
    IO.print (MiniPascal.Token.printAll tokens)
    return 0
  | .error e =>
    IO.eprintln e.message
    return 1
