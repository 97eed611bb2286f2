import MiniPascal.Tree

/-!
# Scopes

Names are declared in scopes. Every scope but the outermost lies in another one, and a name that is
not declared in a scope is looked up in the one around it. Scopes are numbered in the order in which
they were opened and stay accessible by their number when they are left.
-/

namespace MiniPascal

/-- One scope: the scope around it, and its names in the order of their declaration. -/
structure Scope where
  /-- The number of the scope around this one. -/
  parent : Option Nat
  /-- The names declared here, with what is known about each. -/
  symbols : List (String × Tree)

/-- All scopes opened so far, and the one that is current. -/
structure Scopes where
  /-- The scopes by their numbers. -/
  all : Array Scope
  /-- The number of the current scope. -/
  current : Nat

namespace Scopes

def empty : Scopes := { all := #[{ parent := none, symbols := [] }], current := 0 }

/-- The names declared in a scope, in order. -/
def symbolsOf (s : Scopes) (number : Nat) : List (String × Tree) :=
  match s.all[number]? with
  | some scope => scope.symbols
  | none => []

def parentOf (s : Scopes) (number : Nat) : Option Nat := s.all[number]?.bind (·.parent)

/-- Opens a scope inside `parent` that has the given names, without entering it. -/
def openIn (s : Scopes) (parent : Option Nat) (symbols : List (String × Tree)) : Nat × Scopes :=
  (s.all.size, { s with all := s.all.push { parent, symbols } })

def enter (s : Scopes) : Scopes :=
  let (number, opened) := s.openIn (some s.current) []
  { opened with current := number }

/-- Returns to the scope around the current one; the outermost scope is not left. -/
def leave (s : Scopes) : Scopes :=
  { s with current := (s.parentOf s.current).getD s.current }

/-- The scope that declares a name, looked for in a scope and around it, with what is known about
the name. The search climbs at most as far as the fuel allows. -/
def find (s : Scopes) (name : String) : Nat → Nat → Option (Nat × Tree)
  | 0, _ => none
  | fuel + 1, number =>
    match (s.symbolsOf number).lookup name with
    | some info => some (number, info)
    | none =>
      match s.parentOf number with
      | some parent => s.find name fuel parent
      | none => none

/-- The scope that declares a name, looked for in a scope and around it, with what is known about
the name. No chain of scopes is longer than the number of scopes. -/
def resolve (s : Scopes) (number : Nat) (name : String) : Option (Nat × Tree) :=
  s.find name s.all.size number

def lookupIn (s : Scopes) (number : Nat) (name : String) : Option Tree :=
  (s.resolve number name).map (·.2)

def lookup (s : Scopes) (name : String) : Option Tree := s.lookupIn s.current name

/-- What is known about a name given as a tree. Only texts name anything, and lists and dictionaries
cannot be looked up at all. -/
def lookupTree (s : Scopes) (number : Nat) (name : Tree) : Except Fault Tree :=
  match name with
  | .text n => .ok ((s.lookupIn number n).getD .null)
  | t => if t.isKey then .ok .null else .error .wrongKind

def setSymbols (s : Scopes) (number : Nat) (symbols : List (String × Tree)) : Scopes :=
  { s with all := s.all.modify number fun scope => { scope with symbols } }

/-- Declares a name in a scope, unless the scope has it already. -/
def declareIn? (s : Scopes) (number : Nat) (name : String) (info : Tree) : Option Scopes :=
  let symbols := s.symbolsOf number
  if (symbols.lookup name).isSome then none
  else some (s.setSymbols number (symbols ++ [(name, info)]))

def duplicateText (name : String) : String :=
  s!"Duplicate identifier '{name}' in the same scope."

def update (s : Scopes) (number : Nat) (name : String) (info : Tree) : Scopes :=
  s.setSymbols number (Tree.setEntry name info (s.symbolsOf number))

end Scopes

end MiniPascal
