import MiniPascal.Text.Case
import MiniPascal.Text.Letter
import MiniPascal.Text.Numeral
import MiniPascal.Token

/-!
# Reading Tokens

A cursor walks over the text and counts lines and columns. Each reader takes one token off the
front; a reader that fails leaves the cursor where it stopped. `Cursor.tokenize` reads a whole text
and closes it with an end mark.
-/

namespace MiniPascal

/-- Why no token could be read. -/
inductive LexCause where
  /-- A string literal ends in a backslash. -/
  | danglingEscape
  /-- The text ends right after the opening quote of a character literal. -/
  | unfinishedChar
  /-- A character literal, opened at a column, does not hold exactly one character. -/
  | malformedChar (openedAt : Nat)
  /-- A character that starts no token. -/
  | unexpected (c : Char)
  deriving DecidableEq, Repr

/-- What can go wrong while reading tokens. -/
inductive LexError where
  /-- A lexical error, with the place where it was noticed. -/
  | malformed (cause : LexCause) (line column : Nat)
  /-- A character was needed beyond the end of the text. -/
  | pastEnd
  /-- There is no text to read. -/
  | noText
  deriving DecidableEq, Repr

/-- The explanation of a lexical error that was noticed at a given place. -/
def LexCause.explain (line column : Nat) : LexCause → String
  | danglingEscape => s!"Неверная escape-последовательность в строке {line}, столбец {column}"
  | unfinishedChar => s!"Не завершён символьный литерал на строке {line}, столбце {column}"
  | malformedChar openedAt =>
    s!"Некорректный символьный литерал на строке {line}, столбце {openedAt}. " ++
      "Символьный литерал должен содержать ровно один символ"
  | unexpected c => s!"Неожиданный символ '{c}' на строке {line}, столбце {column}"

def LexError.headed (line column : Int) (explanation : String) : String :=
  s!"[Ошибка лексера] (строка {line}, позиция {column}): {explanation}"

def LexError.message : LexError → String
  | malformed cause line column => headed line column (cause.explain line column)
  | pastEnd => "unexpected end of text"
  | noText => "no text"

/-- A position in a text that is being read. -/
structure Cursor where
  /-- The characters still to be read. -/
  rest : List Char
  /-- How many characters were read. -/
  offset : Nat := 0
  /-- The line of the next character, from 1. -/
  line : Nat := 1
  /-- The column of the next character, from 1. -/
  column : Nat := 1
  deriving Repr

/-- Reading steps: a failed step keeps the cursor as it left it. -/
abbrev Reader := ExceptT LexError (StateM Cursor)

namespace Cursor

def start (text : String) : Cursor := { rest := text.toList }

/-- The cursor after the character `c`, with `rest` still to come. -/
def step (cur : Cursor) (c : Char) (rest : List Char) : Cursor :=
  if c = '\n' then { rest, offset := cur.offset + 1, line := cur.line + 1, column := 1 }
  else { rest, offset := cur.offset + 1, line := cur.line, column := cur.column + 1 }

@[simp]
theorem step_rest (cur : Cursor) (c : Char) (rest : List Char) : (cur.step c rest).rest = rest := by
  unfold step; split <;> rfl

/-- The cursor after the next character, if there is one. -/
def advance (cur : Cursor) : Cursor :=
  match cur.rest with
  | [] => cur
  | c :: rest => cur.step c rest

def skipWhile (p : Char → Bool) (cur : Cursor) : Cursor :=
  go cur cur.rest
where
  /-- Walks over `cs`, the characters left at `cur`. -/
  go (cur : Cursor) : List Char → Cursor
    | [] => cur
    | c :: rest => if p c then go (cur.step c rest) rest else cur

/-- The kind of a word. Every name of a kind is reserved, whatever its case, except that the three
names of literal kinds are ordinary words. -/
def wordKind (word : String) : TokenKind :=
  let lower := Text.toLower word
  if lower = "true" then .kwTrue
  else if lower = "false" then .kwFalse
  else if lower ∈ ["number", "string", "char"] then .identifier
  else (TokenKind.ofName? (Text.toUpper word)).getD .identifier

/-- Whether `c` continues a word. -/
def isWordChar (c : Char) : Bool := Text.isLetter c || Text.isNumeral c

def fail {α : Type} (cause : LexCause) : Reader α := do
  let cur ← get
  throw (.malformed cause cur.line cur.column)

/-- Takes the next character, if there is one. -/
def takeChar : Reader (Option Char) := do
  let cur ← get
  set cur.advance
  return cur.rest.head?

def skipBlanks : Reader Unit := modify (skipWhile Text.isBlank)

/-- Takes the longest run of characters of a class, with the column where it starts. -/
def takeRun (p : Char → Bool) : Reader (String × Nat) := do
  let cur ← get
  set (cur.skipWhile p)
  return (String.ofList (cur.rest.takeWhile p), cur.column)

def token (kind : TokenKind) (value : String) (column : Nat) : Reader Token := do
  return { kind, value, line := (← get).line, column }

def readWord : Reader Token := do
  let (word, column) ← takeRun isWordChar
  token (wordKind word) word column

def readNumber : Reader Token := do
  let (digits, column) ← takeRun Text.isDigit
  token .number digits column

/-- The inside of a string literal up to its closing quote or the end of the text, the characters
read so far being `seen` in reverse. A backslash stands for the character after it. -/
def stringBody (seen : List Char) (cur : Cursor) : List Char → Except LexError String × Cursor
  | [] => (.ok (String.ofList seen.reverse), cur)
  | '"' :: rest => (.ok (String.ofList seen.reverse), cur.step '"' rest)
  | '\\' :: [] =>
    let cur := cur.step '\\' []
    (.error (.malformed .danglingEscape cur.line cur.column), cur)
  | '\\' :: c :: rest => stringBody (c :: seen) ((cur.step '\\' (c :: rest)).step c rest) rest
  | c :: rest => stringBody (c :: seen) (cur.step c rest) rest

/-- Reads a string literal. Its closing quote may be missing at the end of the text. -/
def readString : Reader Token := do
  let column := (← get).column
  let _ ← takeChar
  let cur ← get
  let (body, after) := stringBody [] cur cur.rest
  set after
  token .string (← body) column

def readChar : Reader Token := do
  let column := (← get).column
  let _ ← takeChar
  match ← takeChar with
  | none => fail .unfinishedChar
  | some c =>
    if (← get).rest.head? = some '\'' then
      let _ ← takeChar
      token .char c.toString column
    else fail (.malformedChar column)

def signKind? : Char → Option TokenKind
  | '+' => some .plus
  | '-' => some .minus
  | '*' => some .asterisk
  | '/' => some .slash
  | ';' => some .semicolon
  | '(' => some .lparen
  | ')' => some .rparen
  | '[' => some .lbracket
  | ']' => some .rbracket
  | ',' => some .comma
  | '=' => some .eq
  | '>' => some .gt
  | _ => none

def signToken (kind : TokenKind) (value : String) : Reader Token := do
  token kind value (← get).column

/-- Reads a sign that is `short`, or `long` if `second` follows. A character has to follow. -/
def readPair (second : Char) (short long : TokenKind) (shortText longText : String) :
    Reader Token := do
  let _ ← takeChar
  match (← get).rest with
  | [] => throw .pastEnd
  | c :: _ =>
    if c = second then
      let _ ← takeChar
      signToken long longText
    else signToken short shortText

/-- Reads a dot or two dots, which are placed at the column where they start. -/
def readDots : Reader Token := do
  let column := (← get).column
  let _ ← takeChar
  if (← get).rest.head? = some '.' then
    let _ ← takeChar
    token .twoDots ".." column
  else token .dot "." column

/-- Reads an operator or a punctuation mark, if the next character starts one. -/
def readSign : Reader (Option Token) := do
  match (← get).rest with
  | [] => throw .pastEnd
  | '.' :: _ => some <$> readDots
  | ':' :: _ => some <$> readPair '=' .colon .assign ":" ":="
  | '<' :: _ => some <$> readPair '>' .lt .neq "<" "<>"
  | c :: _ =>
    match signKind? c with
    | none => return none
    | some kind =>
      let _ ← takeChar
      some <$> signToken kind c.toString

/-- Reads the token that starts with `c`, the next character; nothing is read for blanks. -/
def readToken (c : Char) : Reader (Option Token) := do
  if Text.isBlank c then
    skipBlanks
    return none
  else if c = '"' then some <$> readString
  else if c = '\'' then some <$> readChar
  else if Text.isDigit c then some <$> readNumber
  else if Text.isLetter c then some <$> readWord
  else
    match ← readSign with
    | some t => return some t
    | none => fail (.unexpected c)

/-- Reads tokens until the text ends, with fuel for each of them, after those in `seen`, the last
one first. -/
def readTokens (seen : List Token) : Nat → Reader (List Token)
  | 0 => return seen.reverse
  | fuel + 1 => do
    match (← get).rest with
    | [] =>
      let cur ← get
      return (⟨.eof, "EOF", cur.line, cur.column⟩ :: seen).reverse
    | c :: _ =>
      match ← readToken c with
      | some t => readTokens (t :: seen) fuel
      | none => readTokens seen fuel

/-- Reads all tokens of the text, and an end mark. Every step takes a character, so as many steps as
there are characters, and one for the end mark, are enough. -/
def tokenize : Reader (List Token) := do
  readTokens [] ((← get).rest.length + 1)

end Cursor

namespace Token

def lexAll (text : String) : Except LexError (List Token) :=
  (Cursor.tokenize.run.run (Cursor.start text)).1

def lex (text : String) : Except LexError (List Token) :=
  if text.isEmpty then .error .noText else lexAll text

/-- The tokens of a file, whose line ends are read in one form. -/
def lexFile (content : String) : Except LexError (List Token) :=
  lexAll (String.ofList (Text.unifyLineEnds content.toList))

def printAll (tokens : List Token) : String := String.join (tokens.map (·.render ++ "\n"))

end Token

end MiniPascal
