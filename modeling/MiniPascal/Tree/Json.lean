import MiniPascal.Tree.Literal

/-!
# Reading JSON

A JSON text as a tree. Numbers without a fraction and an exponent are integers, all others
floating-point numbers. The last of several entries with one key counts.
-/

namespace MiniPascal.Tree

open LiteralToken (digitsIn?)

def isJsonBlank (c : Char) : Bool := c = ' ' || c = '\t' || c = '\n' || c = '\r'

/-- The code of a character that is written with four hexadecimal digits, and what follows. -/
def jsonCode? (rest : List Char) : Option (Nat × List Char) := do
  let digits := rest.take 4
  if digits.length = 4 then some (← digitsIn? 16 digits, rest.drop 4) else none

/-- The character that a code stands for, alone or with the code that follows it if the two are
halves of one. -/
def jsonCoded? (rest : List Char) : Option (Char × List Char) := do
  let (code, after) ← jsonCode? rest
  if 0xD800 ≤ code ∧ code < 0xDC00 then
    match after with
    | '\\' :: 'u' :: more =>
      let (second, following) ← jsonCode? more
      if 0xDC00 ≤ second ∧ second < 0xE000 then
        some (Char.ofNat (0x10000 + (code - 0xD800) * 0x400 + (second - 0xDC00)), following)
      else some ('�', after)
    | _ => some ('�', after)
  else if 0xDC00 ≤ code ∧ code < 0xE000 then some ('�', after)
  else some (Char.ofNat code, after)

/-- The rest of a JSON string after its opening mark, and what follows its closing mark. -/
def jsonString? : Nat → List Char → Option (List Char × List Char)
  | 0, _ => none
  | _ + 1, [] => none
  | fuel + 1, c :: rest => do
    if c = '"' then some ([], rest)
    else if c = '\\' then
      let (char, after) ←
        match rest with
        | '"' :: r => some ('"', r)
        | '\\' :: r => some ('\\', r)
        | '/' :: r => some ('/', r)
        | 'b' :: r => some ('\x08', r)
        | 'f' :: r => some ('\x0c', r)
        | 'n' :: r => some ('\n', r)
        | 'r' :: r => some ('\r', r)
        | 't' :: r => some ('\t', r)
        | 'u' :: r => jsonCoded? r
        | _ => none
      let (chars, following) ← jsonString? fuel after
      some (char :: chars, following)
    else if c.toNat < 0x20 then none
    else
      let (chars, following) ← jsonString? fuel rest
      some (c :: chars, following)

def jsonNumber? (cs : List Char) : Option (Tree × List Char) := do
  let (isNegative, cs) := match cs with
    | '-' :: rest => (true, rest)
    | _ => (false, cs)
  let digits := cs.takeWhile Char.isDigit
  -- A number starts with a zero only if it is its whole integral part.
  let whole := if digits.head? = some '0' then digits.take 1 else digits
  if whole.isEmpty then none
  let afterWhole := cs.drop whole.length
  let (fraction, afterFraction) := match afterWhole with
    | '.' :: rest =>
      let places := rest.takeWhile Char.isDigit
      if places.isEmpty then ([], afterWhole) else (places, rest.drop places.length)
    | _ => ([], afterWhole)
  let (exponent, following) : Option Int × List Char :=
    match afterFraction with
    | mark :: rest =>
      if mark = 'e' ∨ mark = 'E' then
        let (below, places) := match rest with
          | '-' :: more => (true, more)
          | '+' :: more => (false, more)
          | _ => (false, rest)
        let written := places.takeWhile Char.isDigit
        match digitsIn? 10 written with
        | some n => (some (if below then -(n : Int) else n), places.drop written.length)
        | none => (none, afterFraction)
      else (none, afterFraction)
    | [] => (none, [])
  if fraction.isEmpty ∧ exponent.isNone then
    let n ← digitsIn? 10 whole
    some (int (if isNegative then -(n : Int) else n), following)
  else
    let n ← digitsIn? 10 (whole ++ fraction)
    let x := Real.ofDecimal n (exponent.getD 0 - fraction.length)
    some (real (if isNegative then -x else x), following)

def jsonWord? (cs : List Char) : Option (Tree × List Char) :=
  let words : List (String × Tree) :=
    [("null", null), ("true", bool true), ("false", bool false), ("NaN", real (0.0 / 0.0)),
      ("Infinity", real (1.0 / 0.0)), ("-Infinity", real (-1.0 / 0.0))]
  words.findSome? fun (word, value) =>
    if word.toList.isPrefixOf cs then some (value, cs.drop word.length) else none

mutual

def jsonValue? : Nat → List Char → Option (Tree × List Char)
  | 0, _ => none
  | fuel + 1, cs =>
    match cs with
    | '"' :: rest => do
      let (chars, following) ← jsonString? fuel rest
      some (text (String.ofList chars), following)
    | '[' :: rest =>
      match rest.dropWhile isJsonBlank with
      | ']' :: following => some (list [], following)
      | inner => do
        let (items, following) ← jsonItems? fuel inner
        some (list items, following)
    | '\x7b' :: rest =>
      match rest.dropWhile isJsonBlank with
      | '\x7d' :: following => some (dict [], following)
      | inner => do
        let (entries, following) ← jsonEntries? fuel [] inner
        some (dict entries, following)
    | _ =>
      match jsonWord? cs with
      | some result => some result
      | none => jsonNumber? cs

def jsonItems? : Nat → List Char → Option (List Tree × List Char)
  | 0, _ => none
  | fuel + 1, cs => do
    let (item, following) ← jsonValue? fuel cs
    match following.dropWhile isJsonBlank with
    | ',' :: rest =>
      let (items, after) ← jsonItems? fuel (rest.dropWhile isJsonBlank)
      some (item :: items, after)
    | ']' :: rest => some ([item], rest)
    | _ => none

def jsonEntries? : Nat → List (String × Tree) → List Char →
    Option (List (String × Tree) × List Char)
  | 0, _, _ => none
  | fuel + 1, entries, cs => do
    match cs with
    | '"' :: rest =>
      let (name, afterName) ← jsonString? fuel rest
      match afterName.dropWhile isJsonBlank with
      | ':' :: afterColon =>
        let (value, following) ← jsonValue? fuel (afterColon.dropWhile isJsonBlank)
        let entries := setEntry (String.ofList name) value entries
        match following.dropWhile isJsonBlank with
        | ',' :: rest => jsonEntries? fuel entries (rest.dropWhile isJsonBlank)
        | '\x7d' :: rest => some (entries, rest)
        | _ => none
      | _ => none
    | _ => none

end

def ofJson? (s : String) : Option Tree := do
  let cs := s.toList.dropWhile isJsonBlank
  let (value, rest) ← jsonValue? (2 * cs.length + 2) cs
  if rest.all isJsonBlank then some value else none

end MiniPascal.Tree
