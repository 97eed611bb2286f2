import MiniPascal.Text.Case
import MiniPascal.Text.Numeral
import MiniPascal.Token
import MiniPascal.Tree.Render

/-!
# Walking over Tokens

The steps that the productions of the grammar are made of: looking at the next token, and taking it
if it has the expected kind. The state of a parser is the list of tokens still to be taken. Past the
last token stands an end mark without a place.
-/

namespace MiniPascal

/-- Why tokens do not form what was expected. -/
inductive ParseCause where
  | expected (wanted found : TokenKind)
  | notNumeric (value : String)
  | elementType
  | declaredType
  | equalsSign (names : List String)
  | colon (names : List String)
  | constValue
  | variableType
  | variableValue
  | routineWord
  | resultType (name : String)
  | statement (found : TokenKind)
  | fieldEnd (found : TokenKind)
  | loopDirection
  | factor (found : TokenKind)
  deriving DecidableEq, Repr

/-- What can go wrong while tokens are parsed. -/
inductive ParseError where
  /-- The tokens are rejected, at the place of the next token. -/
  | rejected (cause : ParseCause) (line column : Int)
  /-- A numeral is not a decimal number that can be read. -/
  | badNumber
  /-- The productions nest more deeply than was allowed for. -/
  | outOfFuel
  deriving DecidableEq, Repr

def displayNames (names : List String) : String :=
  "[" ++ ", ".intercalate (names.map Text.quote) ++ "]"

def ParseCause.explain (line column : Int) (cause : ParseCause) : String :=
  let place := s!" (строка {line}, позиция {column})"
  match cause with
  | expected wanted found => s!"Ожидался токен {wanted.display}, но получен {found.display}"
  | notNumeric value => s!"Ожидалось числовое значение, но получено '{value}'"
  | elementType => "Ожидался идентификатор типа после ключевого слова 'of'"
  | declaredType => "Ожидался тип (IDENTIFIER или STRING) после ':'" ++ place
  | equalsSign names => "Ожидался знак '=' после идентификатора(ов) " ++ displayNames names ++ place
  | colon names =>
    "Ожидался символ ':' или '=' после идентификатора(ов) " ++ displayNames names ++ place
  | constValue => "Ожидалось число, символ или конструкция '(...)' после '='" ++ place
  | variableType => "Ожидался тип (IDENTIFIER или Char) после ':'" ++ place
  | variableValue =>
    "Ожидалось '(' или число или строка после '=' в объявлении переменной" ++ place
  | routineWord => "Ожидалось ключевое слово PROCEDURE или FUNCTION" ++ place
  | resultType name =>
    s!"Ожидалось ':' и тип возвращаемого значения после FUNCTION {name}" ++ place
  | statement found => s!"Токен {found.display} не ожидается в этом месте" ++ place
  | fieldEnd found =>
    "Ожидался символ ';' или 'END' после объявления поля записи, получен токен " ++
      found.display ++ place
  | loopDirection => "Ожидалось ключевое слово TO в цикле FOR"
  | factor found => s!"Неожиданный токен {found.display}" ++ place

def ParseError.headed (line column : Int) (explanation : String) : String :=
  s!"[Ошибка парсера] (строка {line}, позиция {column}): {explanation}"

/-- Parsers: steps over a list of tokens. A failed step keeps the tokens as it left them. -/
abbrev Parse := ExceptT ParseError (StateM (List Token))

namespace Parse

/-- What a parser gives from a list of tokens, with the tokens that it leaves. -/
def run {α : Type} (p : Parse α) (tokens : List Token) : Except ParseError (α × List Token) :=
  match p tokens with
  | (.ok a, rest) => .ok (a, rest)
  | (.error e, _) => .error e

/-- The token that comes next, if there is one. -/
def next : Parse (Option Token) := do return (← get).head?

def kind : Parse TokenKind := do
  match ← next with
  | some t => return t.kind
  | none => return .eof

def atAny (kinds : List TokenKind) : Parse Bool := do return kinds.contains (← kind)

def at? (wanted : TokenKind) : Parse Bool := do return (← kind) == wanted

/-- Rejects the tokens at the place of the next one. -/
def reject {α : Type} (cause : ParseCause) : Parse α := do
  match ← next with
  | some t => throw (.rejected cause t.line t.column)
  | none => throw (.rejected cause (-1) (-1))

/-- Takes the next token, whatever it is, and gives its text. -/
def takeAny : Parse String := do
  match ← get with
  | [] => return ""
  | t :: rest =>
    set rest
    return t.value

def take (wanted : TokenKind) : Parse String := do
  let found ← kind
  if found = wanted then takeAny else reject (.expected wanted found)

/-- Takes a number. A numeral that is rejected has already been passed. -/
def takeNumber : Parse Nat := do
  let value ← take .number
  if value.isEmpty || !value.toList.all Text.isNumeral then reject (.notNumeric value)
  else
    match Text.readNat? value with
    | some n => return n
    | none => throw .badNumber

/-- Takes a token of a given kind if it comes next, and says whether it did. -/
def skip (wanted : TokenKind) : Parse Bool := do
  if ← at? wanted then
    let _ ← takeAny
    return true
  else return false

/-- Repeats `body` as long as `more` holds, at most as often as the fuel allows. -/
def repeatWhile {α : Type} (more : Parse Bool) (body : Parse α) : Nat → Parse (List α)
  | 0 => throw .outOfFuel
  | fuel + 1 => do
    if ← more then
      let first ← body
      return first :: (← repeatWhile more body fuel)
    else return []

/-- One or more of `body` with commas between them. -/
def commaList {α : Type} (body : Parse α) (fuel : Nat) : Parse (List α) := do
  let first ← body
  return first :: (← repeatWhile (skip .comma) body fuel)

def names (fuel : Nat) : Parse (List String) := commaList (take .identifier) fuel

/-- Zero or more of `body`, started while `more` holds, with one of `separators` after each one but
the last. -/
def separated {α : Type} (more : Parse Bool) (body : Parse α) (separators : List TokenKind) :
    Nat → Parse (List α)
  | 0 => throw .outOfFuel
  | fuel + 1 => do
    if ← more then
      let first ← body
      if ← atAny separators then
        let _ ← takeAny
        return first :: (← separated more body separators fuel)
      else return [first]
    else return []

end Parse

end MiniPascal
