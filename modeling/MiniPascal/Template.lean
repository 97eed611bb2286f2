import MiniPascal.Real.Digits
import MiniPascal.Text.Case
import MiniPascal.Text.Numeral
import MiniPascal.Tree.Render

/-!
# Templates

A template is a text with fields, each of which a value is written into. A field is a percent sign,
then possibly a key between parentheses, flags, a width, a precision after a point, a size mark
without meaning, and last the letter of a conversion. Two percent signs stand for one.

The values come from a tuple in turn, or there is one value, which is a dictionary where fields have
keys. Every value has to be used, and a width or precision may itself be taken from the values.
-/

namespace MiniPascal.Template

/-- The key of a field. -/
inductive FieldKey where
  | absent
  | named (key : String)
  /-- A key whose closing parenthesis is missing. -/
  | unclosed

/-- A width or a precision. -/
inductive Extent where
  | absent
  | given (n : Nat)
  /-- It is the next of the values. -/
  | fromValues

/-- The flags of a field. -/
structure Flags where
  /-- Blanks go after the value. -/
  alignLeft : Bool := false
  /-- A number that is not negative has a plus sign. -/
  plus : Bool := false
  /-- A number that is not negative has a blank for its sign. -/
  blank : Bool := false
  /-- The base of a number is shown, and its point is kept. -/
  alternate : Bool := false
  /-- A number is filled up with zeros. -/
  zero : Bool := false

/-- What a template says on one field. -/
structure Field where
  key : FieldKey
  flags : Flags
  width : Extent
  precision : Extent
  /-- The letter of the conversion, which is missing if the template ends before it. -/
  conversion : Option Char

/-- The characters up to the parenthesis that closes `depth + 1` open ones, and what follows. -/
def readKey : Nat → List Char → Option (List Char × List Char)
  | _, [] => none
  | depth, c :: rest =>
    if c = ')' then
      match depth with
      | 0 => some ([], rest)
      | depth + 1 => (readKey depth rest).map fun (key, following) => (c :: key, following)
    else
      (readKey (if c = '(' then depth + 1 else depth) rest).map fun (key, following) =>
        (c :: key, following)

/-- The flags at the start of a text, added to those already found, and what follows. -/
def readFlags (flags : Flags) : List Char → Flags × List Char
  | '-' :: rest => readFlags { flags with alignLeft := true } rest
  | '+' :: rest => readFlags { flags with plus := true } rest
  | ' ' :: rest => readFlags { flags with blank := true } rest
  | '#' :: rest => readFlags { flags with alternate := true } rest
  | '0' :: rest => readFlags { flags with zero := true } rest
  | rest => (flags, rest)

/-- A width or a precision at the start of a text, and what follows. -/
def readExtent : List Char → Extent × List Char
  | '*' :: rest => (.fromValues, rest)
  | cs =>
    match cs.takeWhile (·.isDigit) with
    | [] => (.absent, cs)
    | digits =>
      (.given (digits.foldl (fun n d => 10 * n + (d.toNat - 48)) 0), cs.drop digits.length)

/-- A point and the precision after it, which is zero if nothing is given. -/
def readPrecision : List Char → Extent × List Char
  | '.' :: rest =>
    match readExtent rest with
    | (.absent, following) => (.given 0, following)
    | found => found
  | cs => (.absent, cs)

/-- The field whose percent sign stands before a text, and what follows it. -/
def readField (cs : List Char) : Field × List Char :=
  let (key, afterKey) := match cs with
    | '(' :: rest =>
      match readKey 0 rest with
      | some (name, following) => (FieldKey.named (String.ofList name), following)
      | none => (.unclosed, [])
    | _ => (.absent, cs)
  let (flags, afterFlags) := readFlags {} afterKey
  let (width, afterWidth) := readExtent afterFlags
  let (precision, afterPrecision) := readPrecision afterWidth
  let afterMark := match afterPrecision with
    | 'h' :: rest | 'l' :: rest | 'L' :: rest | rest => rest
  ({ key, flags, width, precision, conversion := afterMark.head? }, afterMark.drop 1)

/-- The values that the fields of a template still take. -/
structure Values where
  /-- The values to be taken in turn. -/
  pending : List Tree
  /-- What keys are looked up in. -/
  source : Option Tree

def Values.of (t : Tree) : Values :=
  match t with
  | .tuple xs => { pending := xs, source := none }
  | .list _ | .dict _ | .table _ => { pending := [t], source := some t }
  | _ => { pending := [t], source := none }

/-- A step that takes values. -/
abbrev Filling := StateT Values (Except Fault)

def next : Filling Tree := do
  let values ← get
  match values.pending with
  | [] => throw .wrongKind
  | t :: rest =>
    set { values with pending := rest }
    return t

/-- Looks up the key of a field: its value is then the only one. -/
def select : FieldKey → Filling Unit
  | .absent => return
  | key => do
    match (← get).source, key with
    | none, _ => throw .wrongKind
    | _, .unclosed => throw .badValue
    | some source, .named name => do
      let value ← (source.entry name : Except Fault Tree)
      modify ({ · with pending := [value] })
    | _, .absent => return

def maxPrecision : Nat := Nat.pow 2 31 - 1

/-- The number that a width or a precision of at most `greatest` is. -/
def measure (greatest : Nat) : Extent → Filling (Option Int)
  | .absent => return none
  | .given n => if n ≤ greatest then return some n else throw .badValue
  | .fromValues => do
    match (← next).toInt? with
    | none => throw .wrongKind
    | some n => if -(greatest : Int) - 1 ≤ n ∧ n ≤ greatest then return some n else throw .tooLarge

/-- A value as a field shows it before it is filled up. -/
inductive Shown where
  | plain (form : String)
  /-- A number, with the mark of its base. -/
  | number (isNegative : Bool) (mark digits : String)

/-- Enough copies of a character to fill `form` up to a width. -/
def filler (width : Nat) (c : Char) (form : String) : String :=
  String.ofList (List.replicate (width - form.length) c)

def Shown.fill (flags : Flags) (width : Nat) (shown : Shown) : String :=
  let padded (form : String) : String :=
    if flags.alignLeft then form ++ filler width ' ' form else filler width ' ' form ++ form
  match shown with
  | .plain form => padded form
  | .number isNegative mark digits =>
    let sign :=
      if isNegative then "-" else if flags.plus then "+" else if flags.blank then " " else ""
    let form := sign ++ mark ++ digits
    if flags.zero && !flags.alignLeft then sign ++ mark ++ filler width '0' form ++ digits
    else padded form

/-- The written form of a text with all but the basic characters escaped. -/
def basicOnly (s : String) : String :=
  String.join (s.toList.map fun c =>
    if c.toNat < 0x80 then c.toString else Text.escapeCode c)

def character (t : Tree) : Except Fault Char :=
  match t with
  | .text s =>
    match s.toList with
    | [c] => .ok c
    | _ => .error .wrongKind
  | _ =>
    match t.toInt? with
    | none => .error .wrongKind
    | some n => if 0 ≤ n ∧ n < 0x110000 then .ok (Char.ofNat n.toNat) else .error .tooLarge

/-- The whole number that a value is; a fraction is dropped. -/
def whole (t : Tree) : Except Fault Int :=
  match t.number? with
  | none => .error .wrongKind
  | some (.whole n) => .ok n
  | some (.real x) =>
    if x.isNaN then .error .badValue
    else if x.isInf then .error .tooLarge
    else
      let (num, den) := Real.toRatio x
      .ok (num.tdiv den)

/-- A whole number with at least as many digits as the precision says. -/
def showWhole (base : Nat) (mark : String) (precision : Option Nat) (n : Int) :
    Except Fault Shown :=
  let digits := String.ofList (Nat.toDigits base n.natAbs)
  if base = 10 ∧ Text.maxDigits < digits.length then .error .badValue
  else .ok (.number (n < 0) mark (filler (precision.getD 0) '0' digits ++ digits))

/-- A whole number in a base that only whole numbers are shown in. -/
def showBased (base : Nat) (mark : String) (flags : Flags) (precision : Option Nat) (t : Tree) :
    Except Fault Shown :=
  match t.toInt? with
  | none => .error .wrongKind
  | some n => showWhole base (if flags.alternate then mark else "") precision n

/-- A number as a double. -/
def showReal (style : Real.Style) (flags : Flags) (precision : Option Nat) (t : Tree) :
    Except Fault Shown := do
  match t.number? with
  | none => throw .wrongKind
  | some n =>
    let x ← n.toReal
    return .number (Real.signBit x && !x.isNaN) ""
      (Real.styled style (precision.getD 6) flags.alternate x)

def Shown.capital : Shown → Shown
  | .plain form => .plain (Text.toUpper form)
  | .number isNegative mark digits =>
    .number isNegative (Text.toUpper mark) (Text.toUpper digits)

def cut (precision : Option Nat) (form : String) : Shown :=
  match precision with
  | none => .plain form
  | some n => .plain (String.ofList (form.toList.take n))

def convert (conversion : Char) (flags : Flags) (precision : Option Nat) (t : Tree) :
    Except Fault Shown :=
  match conversion with
  | 's' => do return cut precision (← t.render false)
  | 'r' => do return cut precision (← t.render true)
  | 'a' => do return cut precision (basicOnly (← t.render true))
  | 'c' => do return .plain (← character t).toString
  | 'd' | 'i' | 'u' => do showWhole 10 "" precision (← whole t)
  | 'o' => showBased 8 "0o" flags precision t
  | 'x' => showBased 16 "0x" flags precision t
  | 'X' => do return (← showBased 16 "0x" flags precision t).capital
  | 'e' => showReal .exponent flags precision t
  | 'E' => do return (← showReal .exponent flags precision t).capital
  | 'f' => showReal .fixed flags precision t
  | 'F' => do return (← showReal .fixed flags precision t).capital
  | 'g' => showReal .general flags precision t
  | 'G' => do return (← showReal .general flags precision t).capital
  | _ => .error .badValue

def fillField (field : Field) : Filling String := do
  select field.key
  let width := (← measure Tree.maxCount field.width).getD 0
  let precision := (← measure maxPrecision field.precision).map Int.toNat
  let flags :=
    if width < 0 then { field.flags with alignLeft := true } else field.flags
  match field.conversion with
  | none => throw .badValue
  | some conversion =>
    let shown ← (convert conversion flags precision (← next) : Except Fault Shown)
    let values ← get
    if values.source.isSome && !values.pending.isEmpty then throw .wrongKind
    if Tree.maxLength < width.natAbs then throw .outOfMemory
    return shown.fill flags width.natAbs

def fillAll : Nat → List Char → Filling String
  | 0, _ => throw .badValue
  | _ + 1, [] => return ""
  | fuel + 1, '%' :: '%' :: rest => do return "%" ++ (← fillAll fuel rest)
  | fuel + 1, '%' :: rest => do
    let (field, following) := readField rest
    let form ← fillField field
    return form ++ (← fillAll fuel following)
  | fuel + 1, c :: rest => do return c.toString ++ (← fillAll fuel rest)

def fill (template : String) (t : Tree) : Except Fault String := do
  let (form, values) ← (fillAll (template.length + 1) template.toList).run (.of t)
  if values.source.isNone && !values.pending.isEmpty then throw .wrongKind
  return form

end MiniPascal.Template
