import MiniPascal.Real
import MiniPascal.Text.Letter
import MiniPascal.Text.Numeral
import MiniPascal.Tree

/-!
# Pieces of Written Data

Written data is made of numbers, quoted texts, a few words, brackets, commas, colons and signs.
Lines count only outside brackets, where a line must not be indented.
-/

namespace MiniPascal

/-- The pieces that written data is made of. -/
inductive LiteralToken where
  | opening (bracket : Char)
  | closing (bracket : Char)
  | comma
  | colon
  | sign (negative : Bool)
  /-- A whole or a floating-point number. -/
  | number (value : Tree)
  /-- A number of imaginary units. -/
  | imaginary (count : Float)
  /-- A word that is data. -/
  | atom (value : Tree)
  /-- The name of the sets, by which an empty one is written. -/
  | setName
  /-- A quoted text. Texts that stand side by side are one text. -/
  | quoted (value : String)
  /-- A quoted sequence of bytes, each as the character with its code. -/
  | bytes (value : List Char)
  /-- The end of a line outside all brackets. -/
  | lineEnd

namespace LiteralToken

def isWordChar (c : Char) : Bool := Text.isLetter c || Text.isNumeral c || c = '_'

def hexValue? (c : Char) : Option Nat :=
  if '0' ≤ c ∧ c ≤ '9' then some (c.toNat - 48)
  else if 'a' ≤ c ∧ c ≤ 'f' then some (c.toNat - 87)
  else if 'A' ≤ c ∧ c ≤ 'F' then some (c.toNat - 55)
  else none

def digitsIn? (base : Nat) (digits : List Char) : Option Nat :=
  if digits.isEmpty then none
  else digits.foldlM (fun n c => do
    let d ← hexValue? c
    if d < base then some (n * base + d) else none) 0

/-- The number that decimal digits denote, low lines being allowed between them. -/
def decimal? (digits : List Char) : Option Nat := do
  digitsIn? 10 (← Text.withoutLowLines digits)

/-- The character that a code written with `count` hexadecimal digits stands for, and what
follows. -/
def codedChar? (count : Nat) (rest : List Char) : Option (Char × List Char) := do
  let digits := rest.take count
  let code ← digitsIn? 16 digits
  if digits.length = count ∧ code.isValidChar then some (Char.ofNat code, rest.drop count) else none

/-- What stands after a backslash, as the characters that it means, and what follows. In bytes a
code has two digits. -/
def escaped? (inBytes : Bool) : List Char → Option (List Char × List Char)
  | [] => none
  | c :: rest =>
    if inBytes && (c = 'u' || c = 'U' || c = 'N') then some (['\\', c], rest)
    else match c with
    | '\n' => some ([], rest)
    | '\\' => some (['\\'], rest)
    | '\'' => some (['\''], rest)
    | '"' => some (['"'], rest)
    | 'a' => some (['\x07'], rest)
    | 'b' => some (['\x08'], rest)
    | 'f' => some (['\x0c'], rest)
    | 'n' => some (['\n'], rest)
    | 'r' => some (['\r'], rest)
    | 't' => some (['\t'], rest)
    | 'v' => some (['\x0b'], rest)
    | 'x' => (codedChar? 2 rest).map fun (d, r) => ([d], r)
    | 'u' => (codedChar? 4 rest).map fun (d, r) => ([d], r)
    | 'U' => (codedChar? 8 rest).map fun (d, r) => ([d], r)
    | 'N' => none
    | _ =>
      if '0' ≤ c ∧ c ≤ '7' then
        let digits := (c :: rest).take 3 |>.takeWhile fun d => '0' ≤ d ∧ d ≤ '7'
        (digitsIn? 8 digits).map fun code =>
          ([Char.ofNat (if inBytes then code % 0x100 else code)], (c :: rest).drop digits.length)
      else some (['\\', c], rest)

/-- How a quoted text is to be read. -/
structure QuoteForm where
  /-- A backslash stands for itself. -/
  raw : Bool
  /-- The text is a sequence of bytes. -/
  inBytes : Bool

def QuoteForm.ofWord? : String → Option QuoteForm
  | "" | "u" => some { raw := false, inBytes := false }
  | "r" => some { raw := true, inBytes := false }
  | "b" => some { raw := false, inBytes := true }
  | "br" | "rb" => some { raw := true, inBytes := true }
  | _ => none

/-- The rest of a quoted text after its opening mark, and what follows its closing mark. A mark of
one character does not let the text run over the end of a line. -/
def quotedText? (mark : List Char) (form : QuoteForm) :
    Nat → List Char → Option (List Char × List Char)
  | 0, _ => none
  | _ + 1, [] => none
  | fuel + 1, c :: rest => do
    if mark.isPrefixOf (c :: rest) then some ([], (c :: rest).drop mark.length)
    else if c = '\n' ∧ mark.length = 1 then none
    else if form.inBytes ∧ 0x80 ≤ c.toNat then none
    else if c = '\\' then
      if form.inBytes ∧ rest.head?.any (0x80 ≤ ·.toNat) then none
      let (chars, after) ←
        if form.raw then rest.head?.map fun d => ([c, d], rest.drop 1)
        else escaped? form.inBytes rest
      let (text, following) ← quotedText? mark form fuel after
      some (chars ++ text, following)
    else
      let (text, following) ← quotedText? mark form fuel rest
      some (c :: text, following)

/-- A quoted text that starts with its mark, and what follows it. -/
def readQuoted? (form : QuoteForm) (cs : List Char) : Option (LiteralToken × List Char) := do
  match cs with
  | [] => none
  | c :: rest =>
    let mark := if [c, c].isPrefixOf rest then [c, c, c] else [c]
    let (text, following) ← quotedText? mark form (cs.length + 1) (cs.drop mark.length)
    some (if form.inBytes then bytes text else quoted (String.ofList text), following)

/-- The integer that a word of digits denotes. Only zero may start with a zero. -/
def integer? (word : List Char) : Option Tree := do
  match word with
  | '0' :: c :: digits =>
    let based (base : Nat) : Option Tree := do
      let digits := match digits with
        | '_' :: more => more
        | _ => digits
      some (.int (← digitsIn? base (← Text.withoutLowLines digits)))
    if c = 'x' ∨ c = 'X' then based 16
    else if c = 'o' ∨ c = 'O' then based 8
    else if c = 'b' ∨ c = 'B' then based 2
    else
      let n ← decimal? word
      if n = 0 then some (.int 0) else none
  | _ =>
    if word.length > Text.maxDigits then none else some (.int (← decimal? word))

/-- The exponent that stands after the mark of an exponent. -/
def exponent? (word : List Char) : Option Int := do
  match word with
  | '-' :: digits => return -((← decimal? digits : Nat) : Int)
  | '+' :: digits | digits => return ((← decimal? digits : Nat) : Int)

/-- The floating-point number that a word denotes; a point or an exponent is needed only where
`mayBeWhole` does not hold. -/
def real? (mayBeWhole : Bool) (word : List Char) : Option Float := do
  let isMark := fun c => c = 'e' || c = 'E'
  let mantissa := word.takeWhile (!isMark ·)
  let exponent ← match word.dropWhile (!isMark ·) with
    | [] => some 0
    | _ :: written => exponent? written
  let whole := mantissa.takeWhile (· != '.')
  let fraction := (mantissa.dropWhile (· != '.')).drop 1
  if !mayBeWhole ∧ mantissa.length = word.length ∧ !mantissa.contains '.' then none
  let readable (digits : List Char) : Option (List Char) :=
    if digits.isEmpty then some [] else Text.withoutLowLines digits
  let before ← readable whole
  let after ← readable fraction
  let digits ← digitsIn? 10 (before ++ after)
  some (Real.ofDecimal digits (exponent - after.length))

def ofNumeral? (word : List Char) : Option LiteralToken :=
  match word.getLast? with
  | some 'j' | some 'J' => (real? true word.dropLast).map imaginary
  | _ =>
    match integer? word with
    | some n => some (number n)
    | none => (real? false word).map fun x => number (.real x)

/-- A number at the start of a text, and what follows it. -/
def readNumber? (cs : List Char) : Option (LiteralToken × List Char) := do
  let isPart := fun c => isWordChar c || c = '.'
  let word := cs.takeWhile isPart
  let rest := cs.drop word.length
  let isHex := word.take 2 == ['0', 'x'] || word.take 2 == ['0', 'X']
  let (word, rest) :=
    match word.getLast?, rest with
    | some mark, s :: more =>
      if !isHex ∧ (mark = 'e' ∨ mark = 'E') ∧ (s = '+' ∨ s = '-') then
        let digits := more.takeWhile isPart
        (word ++ s :: digits, more.drop digits.length)
      else (word, rest)
    | _, _ => (word, rest)
  some (← ofNumeral? word, rest)

/-- A word at the start of a text, and what follows it. Few words are data; a word may also say how
the quoted text after it is to be read. -/
def readWord? (cs : List Char) : Option (LiteralToken × List Char) := do
  let word := cs.takeWhile isWordChar
  let rest := cs.drop word.length
  let isQuote := fun c => c = '\'' || c = '"'
  if rest.head?.any isQuote then
    readQuoted? (← QuoteForm.ofWord? (String.ofList (word.map Char.toLower))) rest
  else
    match String.ofList word with
    | "None" => some (atom .null, rest)
    | "True" => some (atom (.bool true), rest)
    | "False" => some (atom (.bool false), rest)
    | "set" => some (setName, rest)
    | _ => none

/-- The piece other than a single sign that a text starts with, and what follows it. -/
def readPiece? (cs : List Char) : Option (LiteralToken × List Char) := do
  match cs with
  | '.' :: '.' :: '.' :: rest => some (atom (.shown "ellipsis" "Ellipsis" false), rest)
  | c :: _ =>
    if c.isDigit ∨ c = '.' then readNumber? cs
    else if c = '\'' ∨ c = '"' ∨ isWordChar c then readWord? cs
    else none
  | [] => none

/-- Whether a character parts pieces on a line. -/
def isGap (c : Char) : Bool := c = ' ' || c = '\t' || c = '\x0c'

/-- Whether a line is indented that is the last one or holds more than a remark. A form feed starts
it anew. -/
def isIndented (line : List Char) : Bool :=
  let gaps := line.takeWhile isGap
  let hasIndent := !(gaps.reverse.takeWhile (· != '\x0c')).isEmpty
  match line.drop gaps.length with
  | [] => hasIndent
  | c :: _ => hasIndent && c != '\n' && c != '#'

/-- The most brackets that may be open at once. -/
def maxDepth : Nat := 200

/-- The pieces of written data, `depth` brackets being open. -/
def scan : Nat → Nat → List Char → Option (List LiteralToken)
  | 0, _, _ => none
  | _ + 1, _, [] => some []
  | fuel + 1, depth, c :: rest => do
    if isGap c then scan fuel depth rest
    else if c = '\n' then
      if depth = 0 then
        if isIndented rest then none else return lineEnd :: (← scan fuel depth rest)
      else scan fuel depth rest
    else if c = '#' then scan fuel depth (rest.dropWhile (· != '\n'))
    else if c = '\\' then
      match rest with
      | '\n' :: d :: following => scan fuel depth (d :: following)
      | _ => none
    else if c = '(' ∨ c = '[' ∨ c = '\x7b' then
      if depth = maxDepth then none else return opening c :: (← scan fuel (depth + 1) rest)
    else if c = ')' ∨ c = ']' ∨ c = '\x7d' then
      return closing c :: (← scan fuel (depth - 1) rest)
    else if c = ',' then return comma :: (← scan fuel depth rest)
    else if c = ':' then return colon :: (← scan fuel depth rest)
    else if c = '-' then return sign true :: (← scan fuel depth rest)
    else if c = '+' then return sign false :: (← scan fuel depth rest)
    else
      let (token, following) ← readPiece? (c :: rest)
      return token :: (← scan fuel depth following)

/-- The pieces of a text. -/
def scanAll (text : List Char) : Option (List LiteralToken) :=
  let chars := Text.unifyLineEnds (text.dropWhile fun c => c = ' ' || c = '\t')
  if chars.contains '\x00' || isIndented chars then none else scan (chars.length + 1) 0 chars

end LiteralToken

end MiniPascal
