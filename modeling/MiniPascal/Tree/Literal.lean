import MiniPascal.Tree.LiteralToken
import MiniPascal.Tree.Render

/-!
# Reading Trees Back

Plain data can be read back from its written form: numbers, quoted texts, truth values, the absent
value, lists, tuples and dictionaries, and also sets, bytes and complex numbers, of which only the
written form is kept. A written form that holds a node cannot be read, unless the node stands by a
single word as the value of an entry: such words are put between quotes before a second attempt.
-/

namespace MiniPascal

namespace Tree

/-- A part of a complex number: its shortest text, a whole number standing without a point. -/
def complexPart (x : Float) : String :=
  let shortest := Real.shortest x
  if shortest.endsWith ".0" then (shortest.dropEnd 2).toString else shortest

/-- A complex number. A real part that is zero is not shown. -/
def complex (re im : Float) : Tree :=
  let written :=
    if re == 0 && !Real.signBit re then complexPart im ++ "j"
    else
      let sign := if Real.signBit im && !im.isNaN then "" else "+"
      "(" ++ complexPart re ++ sign ++ complexPart im ++ "j)"
  shown "complex" written (re == 0 && im == 0)

def bytes (content : List Char) : Tree :=
  let mark := Text.quoteMark (String.ofList content)
  let written := content.map fun c =>
    if c.toNat < 0x7f then Text.escape mark c else Text.escapeCode c
  shown "bytes" ("b" ++ mark.toString ++ String.join written ++ mark.toString) content.isEmpty

/-- Trees without those that equal an earlier one. -/
def distinct (items : List Tree) : List Tree :=
  items.foldl (fun kept t => if kept.any (·.same t) then kept else kept ++ [t]) []

/-- Whether the first of two numbers is not the greater one. -/
def notGreater (a b : Tree) : Bool :=
  match number? a, number? b with
  | some m, some n => m.compare n != some .gt
  | _, _ => true

/-- The set of given items, which can be keys. Numbers are shown in ascending order. -/
def setOf? (items : List Tree) : Option Tree := do
  if items.all isKey then
    let kept := distinct items
    let ordered := if kept.all (·.number?.isSome) then kept.mergeSort notGreater else kept
    let forms ← (renderItems ordered).toOption
    some (shown "set" ("\x7b" ++ commas forms ++ "\x7d") false)
  else none

/-- Entries with keys of any kind, with the entry for `key` set. -/
def setTableEntry (key value : Tree) : List (Tree × Tree) → List (Tree × Tree)
  | [] => [(key, value)]
  | (k, v) :: rest =>
    if k.same key then (k, value) :: rest else (k, v) :: setTableEntry key value rest

/-- The entries whose keys are texts, if all are. -/
def textEntries? : List (Tree × Tree) → Option (List (String × Tree))
  | [] => some []
  | (text key, value) :: rest => (textEntries? rest).map ((key, value) :: ·)
  | _ :: _ => none

def dictOf? (entries : List (Tree × Tree)) : Option Tree :=
  if entries.all (·.1.isKey) then
    let kept := entries.foldl (fun es (key, value) => setTableEntry key value es) []
    some ((textEntries? kept).elim (table kept) dict)
  else none

end Tree

namespace LiteralToken

/-- The texts that stand side by side at the start, as one text, and what follows them. -/
def joinQuoted (text : String) : List LiteralToken → String × List LiteralToken
  | quoted next :: rest => joinQuoted (text ++ next) rest
  | rest => (text, rest)

/-- The bytes that stand side by side at the start, as one sequence, and what follows them. -/
def joinBytes (content : List Char) : List LiteralToken → List Char × List LiteralToken
  | bytes next :: rest => joinBytes (content ++ next) rest
  | rest => (content, rest)

/-- What has been read of a value. -/
inductive Reading where
  /-- A number, which may have a sign. -/
  | number (value : Tree) (isSigned : Bool)
  /-- Imaginary units, which may have a sign. -/
  | imaginary (count : Float) (isSigned : Bool)
  | data (value : Tree)

namespace Reading

def toTree : Reading → Tree
  | number value _ => value
  | imaginary count isSigned =>
    -- The sign changes both parts.
    Tree.complex (if isSigned && Real.signBit count then -0.0 else 0.0) count
  | data value => value

/-- A reading with a sign before it. Only numbers without one can have it. -/
def signed? (isNegative : Bool) : Reading → Option Reading
  | number (.int n) false => some (number (.int (if isNegative then -n else n)) true)
  | number (.real x) false => some (number (.real (if isNegative then -x else x)) true)
  | imaginary count false => some (imaginary (if isNegative then -count else count) true)
  | _ => none

/-- The complex number that a number and imaginary units without a sign make. -/
def plus? (isNegative : Bool) : Reading → Reading → Option Reading
  | number value _, imaginary count false => do
    let re ← (← value.number?).toReal.toOption
    some (data (if isNegative then Tree.complex (re - 0.0) (0.0 - count)
      else Tree.complex (re + 0.0) (0.0 + count)))
  | _, _ => none

end Reading

mutual

/-- The value that the pieces start with, and what follows it. -/
def value? : Nat → List LiteralToken → Option (Reading × List LiteralToken)
  | 0, _ => none
  | fuel + 1, tokens => do
    let (first, following) ←
      match tokens with
      | sign isNegative :: rest => do
        let (reading, following) ← single? fuel rest
        some (← reading.signed? isNegative, following)
      | _ => single? fuel tokens
    match following with
    | sign isNegative :: rest =>
      let (second, after) ← single? fuel rest
      some (← first.plus? isNegative second, after)
    | _ => some (first, following)

def single? : Nat → List LiteralToken → Option (Reading × List LiteralToken)
  | 0, _ => none
  | fuel + 1, tokens =>
    match tokens with
    | number value :: rest => some (.number value false, rest)
    | imaginary count :: rest => some (.imaginary count false, rest)
    | atom value :: rest => some (.data value, rest)
    | setName :: opening '(' :: closing ')' :: rest =>
      some (.data (.shown "set" "set()" true), rest)
    | quoted text :: rest =>
      let (whole, following) := joinQuoted text rest
      some (.data (.text whole), following)
    | bytes content :: rest =>
      let (whole, following) := joinBytes content rest
      some (.data (Tree.bytes whole), following)
    | opening '[' :: rest => do
      let (items, _, following) ← items? fuel ']' rest
      some (.data (.list (items.map Reading.toTree)), following)
    | opening '(' :: rest => do
      let (items, endsInComma, following) ← items? fuel ')' rest
      match items, endsInComma with
      | [item], false => some (item, following)
      | _, _ => some (.data (.tuple (items.map Reading.toTree)), following)
    | opening '\x7b' :: closing '\x7d' :: rest => some (.data (.dict []), rest)
    | opening '\x7b' :: rest => do
      let (first, following) ← value? fuel rest
      if following matches colon :: _ then
        let (entries, after) ← entriesFrom? fuel first following
        some (.data (← Tree.dictOf? entries), after)
      else
        let (items, _, after) ← itemsFrom? fuel '\x7d' first following
        some (.data (← Tree.setOf? (items.map Reading.toTree)), after)
    | _ => none

/-- The values up to a closing bracket, whether a comma stands before the bracket, and what
follows. -/
def items? : Nat → Char → List LiteralToken → Option (List Reading × Bool × List LiteralToken)
  | 0, _, _ => none
  | fuel + 1, bracket, tokens =>
    match tokens with
    | closing c :: rest => if c = bracket then some ([], false, rest) else none
    | _ => do
      let (item, following) ← value? fuel tokens
      itemsFrom? fuel bracket item following

def itemsFrom? : Nat → Char → Reading → List LiteralToken →
    Option (List Reading × Bool × List LiteralToken)
  | 0, _, _, _ => none
  | fuel + 1, bracket, item, following =>
    match following with
    | comma :: rest => do
      let (items, endsInComma, after) ← items? fuel bracket rest
      some (item :: items, items.isEmpty || endsInComma, after)
    | closing c :: rest => if c = bracket then some ([item], false, rest) else none
    | _ => none

def entries? : Nat → List LiteralToken → Option (List (Tree × Tree) × List LiteralToken)
  | 0, _ => none
  | fuel + 1, tokens =>
    match tokens with
    | closing c :: rest => if c = '\x7d' then some ([], rest) else none
    | _ => do
      let (key, following) ← value? fuel tokens
      entriesFrom? fuel key following

def entriesFrom? : Nat → Reading → List LiteralToken →
    Option (List (Tree × Tree) × List LiteralToken)
  | 0, _, _ => none
  | fuel + 1, key, following =>
    match following with
    | colon :: rest => do
      let (value, afterValue) ← value? fuel rest
      let entry := (key.toTree, value.toTree)
      match afterValue with
      | comma :: rest => do
        let (entries, after) ← entries? fuel rest
        some (entry :: entries, after)
      | closing c :: rest => if c = '\x7d' then some ([entry], rest) else none
      | _ => none
    | _ => none

end

end LiteralToken

namespace Tree

open LiteralToken

/-- The data whose written form a text is, possibly with lines or blanks around it. Values with
commas between them make a tuple also without brackets. -/
def ofLiteral? (text : List Char) : Option Tree := do
  let tokens := (← scanAll text).dropWhile (· matches .lineEnd)
  let line := tokens.takeWhile fun token => !(token matches .lineEnd)
  if (tokens.drop line.length).all (· matches .lineEnd) then
    let bracket := '\n'
    let fuel := 4 * line.length + 4
    let (items, endsInComma, rest) ← items? fuel bracket (line ++ [closing bracket])
    match items, endsInComma, rest with
    | [], _, _ => none
    | [item], false, [] => some item.toTree
    | _, _, [] => some (.tuple (items.map Reading.toTree))
    | _, _, _ => none
  else none

/-- A word that stands after a colon and before a comma or a closing brace, with what stands
between it and the sign after it, and what follows that sign. The words of data are not taken. -/
def entryWord? (afterColon : List Char) : Option (List Char × List Char × List Char) :=
  let start := afterColon.dropWhile Text.isBlank
  let word := start.takeWhile isWordChar
  let afterWord := start.drop word.length
  let blanks := afterWord.takeWhile Text.isBlank
  match word, afterWord.drop blanks.length with
  | c :: _, mark :: rest =>
    if (c.isAlpha || c = '_') && !(["True", "False", "None"].contains (String.ofList word)) &&
        (mark = ',' || mark = '\x7d') then
      some (word, blanks ++ [mark], rest)
    else none
  | _, _ => none

/-- Puts words that stand as values of entries between quotes. -/
def quoteWords : Nat → List Char → List Char
  | 0, cs => cs
  | _ + 1, [] => []
  | fuel + 1, c :: rest =>
    if c = ':' then
      match entryWord? rest with
      | some (word, tail, following) =>
        [':', ' ', '"'] ++ word ++ ['"'] ++ tail ++ quoteWords fuel following
      | none => c :: quoteWords fuel rest
    else c :: quoteWords fuel rest

/-- The data whose written form a text is, at the first or the second attempt, or else an empty
dictionary. -/
def readBack (text : List Char) : Tree :=
  match ofLiteral? text with
  | some t => t
  | none => (ofLiteral? (quoteWords (text.length + 1) text)).getD (dict [])

end Tree

end MiniPascal
