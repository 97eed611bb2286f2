import MiniPascal.Text.Quoted

/-!
# Tokens

The kinds of token, their names, and tokens with the place where they were read.
-/

namespace MiniPascal

/-- The kinds of token. Words of the language start with `kw`. -/
inductive TokenKind where
  | kwBegin | kwEnd
  | kwIf | kwThen | kwElse
  | kwFor | kwWhile | kwDo | kwTo
  | kwConst | kwVar
  | kwFunction | kwProcedure
  | kwTrue | kwFalse
  | kwOr | kwAnd | kwNot
  | eq | neq | lt | gt | lte | gte
  | plus | minus | asterisk | slash | kwDiv | kwMod
  | semicolon | colon | assign | dot | comma | twoDots
  | kwRecord | kwType | kwArray | kwOf
  | lparen | rparen | lbracket | rbracket
  | string | char | number | identifier
  | eof
  deriving DecidableEq, Repr, Inhabited

namespace TokenKind

def name : TokenKind → String
  | kwBegin => "BEGIN"
  | kwEnd => "END"
  | kwIf => "IF"
  | kwThen => "THEN"
  | kwElse => "ELSE"
  | kwFor => "FOR"
  | kwWhile => "WHILE"
  | kwDo => "DO"
  | kwTo => "TO"
  | kwConst => "CONST"
  | kwVar => "VAR"
  | kwFunction => "FUNCTION"
  | kwProcedure => "PROCEDURE"
  | kwTrue => "TRUE"
  | kwFalse => "FALSE"
  | kwOr => "OR"
  | kwAnd => "AND"
  | kwNot => "NOT"
  | eq => "EQ"
  | neq => "NEQ"
  | lt => "LT"
  | gt => "GT"
  | lte => "LTE"
  | gte => "GTE"
  | plus => "PLUS"
  | minus => "MINUS"
  | asterisk => "ASTERISK"
  | slash => "SLASH"
  | kwDiv => "DIV"
  | kwMod => "MOD"
  | semicolon => "SEMICOLON"
  | colon => "COLON"
  | assign => "ASSIGN"
  | dot => "DOT"
  | comma => "COMMA"
  | twoDots => "TWODOTS"
  | kwRecord => "RECORD"
  | kwType => "TYPE"
  | kwArray => "ARRAY"
  | kwOf => "OF"
  | lparen => "LPAREN"
  | rparen => "RPAREN"
  | lbracket => "LBRACKET"
  | rbracket => "RBRACKET"
  | string => "STRING"
  | char => "CHAR"
  | number => "NUMBER"
  | identifier => "IDENTIFIER"
  | eof => "EOF"

def all : List TokenKind :=
  [kwBegin, kwEnd, kwIf, kwThen, kwElse, kwFor, kwWhile, kwDo, kwTo, kwConst, kwVar, kwFunction,
    kwProcedure, kwTrue, kwFalse, kwOr, kwAnd, kwNot, eq, neq, lt, gt, lte, gte, plus, minus,
    asterisk, slash, kwDiv, kwMod, semicolon, colon, assign, dot, comma, twoDots, kwRecord, kwType,
    kwArray, kwOf, lparen, rparen, lbracket, rbracket, string, char, number, identifier, eof]

def ofName? (name : String) : Option TokenKind := all.find? (·.name == name)

def display (kind : TokenKind) : String := "TokenType." ++ kind.name

end TokenKind

/-- A token: its kind, the text it stands for, and where it was read. -/
structure Token where
  /-- What the token is. -/
  kind : TokenKind
  /-- The text the token stands for: a string literal without its quotes, all else as written. -/
  value : String
  /-- The line of the token, from 1. -/
  line : Int
  /-- The column of the token, from 1. -/
  column : Int
  deriving DecidableEq, Repr, Inhabited

namespace Token

def describe (kind : TokenKind) (value : String) (line column : Int) : String :=
  s!"Token(type={kind.display}, value={value}, line={line}, column={column})"

def render (t : Token) : String := describe t.kind (Text.quote t.value) t.line t.column

/-- The one-line form of what a reader sees next: past the last token stands an end mark without
text or place. -/
def renderNext : Option Token → String
  | some t => t.render
  | none => describe .eof "None" (-1) (-1)

end Token

end MiniPascal
