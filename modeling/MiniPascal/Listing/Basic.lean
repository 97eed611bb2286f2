import MiniPascal.Tree.Render
import MiniPascal.Scope

/-!
# Listings

A listing is the text of a program as s-expressions. The names in intermediate code are looked up
in tables: the outermost one unless a routine gives its own.
-/

namespace MiniPascal.Listing

/-- The scopes that names are looked up in. -/
structure Context where
  /-- The scopes. -/
  scopes : Scopes
  /-- The scope that stands for the whole program. -/
  outermost : Nat

/-- A table that names are looked up in. -/
inductive Table where
  /-- The table of the whole program. -/
  | outermost
  /-- A scope, with those around it. -/
  | scope (number : Nat)
  /-- Names by themselves, with nothing around them. -/
  | loose (entries : List (String × Tree))

namespace Table

def isGiven : Table → Bool
  | outermost => false
  | _ => true

/-- What a block is indented by if a table stands in place of its indentation. -/
def asIndent : Table → String
  | outermost => ""
  | _ => "<semantic.symbol_table.SymbolTable object at 0x0>"

def symbols (context : Context) : Table → List (String × Tree)
  | outermost => context.scopes.symbolsOf context.outermost
  | scope number => context.scopes.symbolsOf number
  | loose entries => entries

/-- What a table says about a name, before tables among its entries are resolved. -/
def entryOf (context : Context) (table : Table) (name : Tree) : Except Fault Tree :=
  match table with
  | outermost => context.scopes.lookupTree context.outermost name
  | scope number => context.scopes.lookupTree number name
  | loose entries =>
    match name with
    | .text n => .ok ((entries.lookup n).getD .null)
    | _ => if name.isKey then .ok .null else .error .wrongKind

/-- What a table says about a name, or the absent value. An entry that is itself a table is asked
for the name once more. -/
def lookup (context : Context) (table : Table) (name : Tree) : Except Fault Tree := do
  match ← table.entryOf context name with
  | .scope inner =>
    match name with
    | .text n => return ((context.scopes.symbolsOf inner).lookup n).getD .null
    | _ => return .null
  | info => return info

end Table

def load (code : String) : String := s!"(L {code})"

def wrap (code : String) : String := s!"({code})"

/-- The call that copies a value. Without a type it is left open. -/
def copyCall (target source : String) (type : Tree) : Except Fault String :=
  if type.isTruthy then do
    let shown ← type.plain
    return s!"(call memcpy_ {target} {source} {shown})"
  else .ok s!"(call memcpy_ {target} {source}"

/-- What an entry says about the value of a name: its information, or else the entry itself. -/
def valueInfo (symbol : Tree) : Except Fault Tree := do
  let info ← symbol.get "info"
  return if info.isNull then symbol else info

def textOf (code : Tree) : Except Fault String :=
  match code with
  | .text s => .ok s
  | _ => .error .wrongKind

def isOneOf (t : Tree) (names : List String) : Bool := names.any t.isTextOf

def firstBounds (info : Tree) : Except Fault (Tree × Tree) := do
  let dimension ← (← info.get "dimensions").item 0
  return (← dimension.item 0, ← dimension.item 1)

end MiniPascal.Listing
