import MiniPascal.Pipeline
import MiniPascal.Proofs.Success

/-!
# The Spelling of Programs

Every program can be written down token by token: one section for each declaration, a semicolon
after each statement, and no parentheses but those that the program itself has. This file gives


The spelling has no place for the mark that a variable was declared in one group with the one before
it; `ungrouped` takes the mark away.

A text can be read by its characters (`Token.lex_eq_lexChars`): to take it apart is costly to
evaluate, and they are known beforehand if it is written out.
-/

namespace MiniPascal

/-- What a token says: its kind and its text. -/
abbrev Lexeme := TokenKind × String

/-- What a token says, apart from the place where it was read. -/
def Token.lexeme (t : Token) : Lexeme := (t.kind, t.value)

namespace Lexeme

def name (n : String) : Lexeme := (.identifier, n)

def number (n : Nat) : Lexeme := (.number, toString n)

/-- The lexeme of a literal: a single character stands for itself, all else is a string. -/
def literal (s : String) : Lexeme := (if s.length = 1 then .char else .string, s)

def truth (b : Bool) : Lexeme := if b then (.kwTrue, "true") else (.kwFalse, "false")

/-- The kind of an operator. All but the signs are words. -/
def operatorKind : String → TokenKind
  | "+" => .plus
  | "-" => .minus
  | "*" => .asterisk
  | "/" => .slash
  | "=" => .eq
  | "<>" => .neq
  | "<" => .lt
  | ">" => .gt
  | "<=" => .lte
  | ">=" => .gte
  | word => Cursor.wordKind word

def operator (op : String) : Lexeme := (operatorKind op, op)

/-- The lexeme of the direction of a loop. Counting down has no keyword. -/
def direction (d : String) : Lexeme :=
  (if Text.toUpper d = "DOWNTO" then .identifier else .kwTo, d)

/-- Signs and words that always have the same text. -/
def lparen : Lexeme := (.lparen, "(")
@[inherit_doc lparen] def rparen : Lexeme := (.rparen, ")")
@[inherit_doc lparen] def lbracket : Lexeme := (.lbracket, "[")
@[inherit_doc lparen] def rbracket : Lexeme := (.rbracket, "]")
@[inherit_doc lparen] def dot : Lexeme := (.dot, ".")
@[inherit_doc lparen] def comma : Lexeme := (.comma, ",")
@[inherit_doc lparen] def colon : Lexeme := (.colon, ":")
@[inherit_doc lparen] def semicolon : Lexeme := (.semicolon, ";")
@[inherit_doc lparen] def equals : Lexeme := (.eq, "=")
@[inherit_doc lparen] def assign : Lexeme := (.assign, ":=")
@[inherit_doc lparen] def kwEnd : Lexeme := (.kwEnd, "end")

def separated (mark : Lexeme) : List (List Lexeme) → List Lexeme
  | [] => []
  | [last] => last
  | first :: second :: rest => first ++ mark :: separated mark (second :: rest)

end Lexeme

/-! ### Expressions -/

mutual

def Expr.lexemes : Expr → List Lexeme
  | .operand value => value.lexemes
  | .compare left op right => left.lexemes ++ .operator op :: right.lexemes

def Operand.lexemes : Operand → List Lexeme
  | .number n => [.number n]
  | .literal s => [.literal s]
  | .truth b => [.truth b]
  | .designator place => place.lexemes
  | .group inner => .lparen :: (inner.lexemes ++ [.rparen])
  | .negation inner => (.kwNot, "not") :: inner.lexemes
  | .binary left op right => left.lexemes ++ .operator op :: right.lexemes

def Designator.lexemes : Designator → List Lexeme
  | .name n => [.name n]
  | .element base index => base.lexemes ++ .lbracket :: (index.lexemes ++ [.rbracket])
  | .field base n => base.lexemes ++ [.dot, .name n]
  | .call base arguments =>
    base.lexemes ++ .lparen :: (Lexeme.separated .comma (exprSpellings arguments) ++ [.rparen])

def exprSpellings : List Expr → List (List Lexeme)
  | [] => []
  | e :: es => e.lexemes :: exprSpellings es

end

/-- Whether an operand can stand after an operator without parentheses: all but a chain can. -/
def Operand.IsFactor : Operand → Prop
  | .binary .. => False
  | _ => True

/-- A name with indices alone. -/
def Designator.IsElement : Designator → Prop
  | .name _ => True
  | .element base _ => base.IsElement
  | _ => False

/-- What a designator is in an expression: a name with indices, of which one field may be taken or
which may be called. -/
def Designator.IsValue : Designator → Prop
  | .field base _ | .call base _ => base.IsElement
  | place => place.IsElement

/-- What can be assigned to: a name with indices and fields. -/
def Designator.IsTarget : Designator → Prop
  | .name _ => True
  | .element base _ | .field base _ => base.IsTarget
  | .call .. => False

/-- A number with so few digits that it can be read back. -/
def IsNumeral (n : Nat) : Prop := (toString n).length ≤ Text.maxDigits

def JoinsOperands (op : String) : Prop := Lexeme.operatorKind op ∈ Grammar.joiningKinds

/-- An operator that compares two chains; one that can join operands never gets to it. -/
def ComparesOperands (op : String) : Prop :=
  Lexeme.operatorKind op ∈ Grammar.comparingKinds ∧ Lexeme.operatorKind op ∉ Grammar.joiningKinds

instance (n : Nat) : Decidable (IsNumeral n) := inferInstanceAs (Decidable (_ ≤ _))

instance (op : String) : Decidable (JoinsOperands op) := inferInstanceAs (Decidable (_ ∈ _))

instance (op : String) : Decidable (ComparesOperands op) := inferInstanceAs (Decidable (_ ∧ _))

instance : DecidablePred Operand.IsFactor
  | .binary .. => .isFalse id
  | .number _ | .literal _ | .truth _ | .designator _ | .group _ | .negation _ => .isTrue trivial

def Designator.decidableIsElement : (d : Designator) → Decidable d.IsElement
  | .name _ => .isTrue trivial
  | .element base _ => base.decidableIsElement
  | .field .. | .call .. => .isFalse id

instance : DecidablePred Designator.IsElement := Designator.decidableIsElement

instance : DecidablePred Designator.IsValue
  | .field base _ | .call base _ => inferInstanceAs (Decidable base.IsElement)
  | .name n => inferInstanceAs (Decidable (Designator.name n).IsElement)
  | .element base index => inferInstanceAs (Decidable (Designator.element base index).IsElement)

def Designator.decidableIsTarget : (d : Designator) → Decidable d.IsTarget
  | .name _ => .isTrue trivial
  | .element base _ | .field base _ => base.decidableIsTarget
  | .call .. => .isFalse id

instance : DecidablePred Designator.IsTarget := Designator.decidableIsTarget

mutual

def Expr.WellFormed : Expr → Prop
  | .operand value => value.WellFormed
  | .compare left op right => left.WellFormed ∧ ComparesOperands op ∧ right.WellFormed

def Operand.WellFormed : Operand → Prop
  | .number n => IsNumeral n
  | .literal _ => True
  | .truth _ => True
  | .designator place => place.IsValue ∧ place.WellFormed
  | .group inner => inner.WellFormed
  | .negation inner => inner.IsFactor ∧ inner.WellFormed
  | .binary left op right =>
    left.WellFormed ∧ JoinsOperands op ∧ right.IsFactor ∧ right.WellFormed

def Designator.WellFormed : Designator → Prop
  | .name _ => True
  | .element base index => base.WellFormed ∧ index.WellFormed
  | .field base _ => base.WellFormed
  | .call base arguments => base.WellFormed ∧ exprsWellFormed arguments

def exprsWellFormed : List Expr → Prop
  | [] => True
  | e :: es => e.WellFormed ∧ exprsWellFormed es

end

mutual

def Expr.decidableWellFormed : (e : Expr) → Decidable e.WellFormed
  | .operand value => value.decidableWellFormed
  | .compare left op right =>
    have := left.decidableWellFormed
    have := right.decidableWellFormed
    inferInstanceAs (Decidable (left.WellFormed ∧ ComparesOperands op ∧ right.WellFormed))

def Operand.decidableWellFormed : (o : Operand) → Decidable o.WellFormed
  | .number n => inferInstanceAs (Decidable (IsNumeral n))
  | .literal _ | .truth _ => .isTrue trivial
  | .designator place =>
    have := place.decidableWellFormed
    inferInstanceAs (Decidable (place.IsValue ∧ place.WellFormed))
  | .group inner => inner.decidableWellFormed
  | .negation inner =>
    have := inner.decidableWellFormed
    inferInstanceAs (Decidable (inner.IsFactor ∧ inner.WellFormed))
  | .binary left op right =>
    have := left.decidableWellFormed
    have := right.decidableWellFormed
    inferInstanceAs (Decidable
      (left.WellFormed ∧ JoinsOperands op ∧ right.IsFactor ∧ right.WellFormed))

def Designator.decidableWellFormed : (d : Designator) → Decidable d.WellFormed
  | .name _ => .isTrue trivial
  | .element base index =>
    have := base.decidableWellFormed
    have := index.decidableWellFormed
    inferInstanceAs (Decidable (base.WellFormed ∧ index.WellFormed))
  | .field base _ => base.decidableWellFormed
  | .call base arguments =>
    have := base.decidableWellFormed
    have := decidableExprsWellFormed arguments
    inferInstanceAs (Decidable (base.WellFormed ∧ exprsWellFormed arguments))

def decidableExprsWellFormed : (es : List Expr) → Decidable (exprsWellFormed es)
  | [] => .isTrue trivial
  | e :: es =>
    have := e.decidableWellFormed
    have := decidableExprsWellFormed es
    inferInstanceAs (Decidable (e.WellFormed ∧ exprsWellFormed es))

end

instance : DecidablePred Expr.WellFormed := Expr.decidableWellFormed

instance : DecidablePred Designator.WellFormed := Designator.decidableWellFormed

instance : DecidablePred exprsWellFormed := decidableExprsWellFormed

/-! ### Statements -/

mutual

/-- The spelling of a statement. A call without arguments has no parentheses. -/
def Stmt.lexemes : Stmt → List Lexeme
  | .compound statements => (.kwBegin, "begin") :: (stmtsLexemes statements ++ [.kwEnd])
  | .assign target value => target.lexemes ++ .assign :: value.lexemes
  | .ifThen condition thenBranch =>
    (.kwIf, "if") :: (condition.lexemes ++ (.kwThen, "then") :: thenBranch.lexemes)
  | .ifElse condition thenBranch elseBranch =>
    (.kwIf, "if") :: (condition.lexemes ++ (.kwThen, "then") ::
      (thenBranch.lexemes ++ (.kwElse, "else") :: elseBranch.lexemes))
  | .whileLoop condition body =>
    (.kwWhile, "while") :: (condition.lexemes ++ (.kwDo, "do") :: body.lexemes)
  | .forLoop n start way stop body =>
    (.kwFor, "for") :: .name n :: .assign :: (start.lexemes ++ .direction way ::
      (stop.lexemes ++ (.kwDo, "do") :: body.lexemes))
  | .call n [] => [.name n]
  | .call n (a :: as) =>
    .name n :: .lparen :: (Lexeme.separated .comma (exprSpellings (a :: as)) ++ [.rparen])

def stmtsLexemes : List Stmt → List Lexeme
  | [] => []
  | s :: ss => s.lexemes ++ .semicolon :: stmtsLexemes ss

end

/-- Whether a statement ends in an `if` without `else`, to which a further `else` would belong. -/
def Stmt.endsOpen : Stmt → Bool
  | .ifThen .. => true
  | .ifElse _ _ elseBranch => elseBranch.endsOpen
  | .whileLoop _ body | .forLoop _ _ _ _ body => body.endsOpen
  | _ => false

mutual

/-- The shape of statements. -/
def Stmt.WellFormed : Stmt → Prop
  | .compound statements => stmtsWellFormed statements
  | .assign target value => target.IsTarget ∧ target.WellFormed ∧ value.WellFormed
  | .ifThen condition thenBranch => condition.WellFormed ∧ thenBranch.WellFormed
  | .ifElse condition thenBranch elseBranch =>
    condition.WellFormed ∧ thenBranch.WellFormed ∧ thenBranch.endsOpen = false ∧
      elseBranch.WellFormed
  | .whileLoop condition body => condition.WellFormed ∧ body.WellFormed
  | .forLoop _ start _ stop body => start.WellFormed ∧ stop.WellFormed ∧ body.WellFormed
  | .call _ arguments => exprsWellFormed arguments

def stmtsWellFormed : List Stmt → Prop
  | [] => True
  | s :: ss => s.WellFormed ∧ stmtsWellFormed ss

end

mutual

def Stmt.decidableWellFormed : (s : Stmt) → Decidable s.WellFormed
  | .compound statements => decidableStmtsWellFormed statements
  | .assign target value =>
    inferInstanceAs (Decidable (target.IsTarget ∧ target.WellFormed ∧ value.WellFormed))
  | .ifThen condition thenBranch =>
    have := thenBranch.decidableWellFormed
    inferInstanceAs (Decidable (condition.WellFormed ∧ thenBranch.WellFormed))
  | .ifElse condition thenBranch elseBranch =>
    have := thenBranch.decidableWellFormed
    have := elseBranch.decidableWellFormed
    inferInstanceAs (Decidable (condition.WellFormed ∧ thenBranch.WellFormed ∧
      thenBranch.endsOpen = false ∧ elseBranch.WellFormed))
  | .whileLoop condition body =>
    have := body.decidableWellFormed
    inferInstanceAs (Decidable (condition.WellFormed ∧ body.WellFormed))
  | .forLoop _ start _ stop body =>
    have := body.decidableWellFormed
    inferInstanceAs (Decidable (start.WellFormed ∧ stop.WellFormed ∧ body.WellFormed))
  | .call _ arguments => inferInstanceAs (Decidable (exprsWellFormed arguments))

def decidableStmtsWellFormed : (ss : List Stmt) → Decidable (stmtsWellFormed ss)
  | [] => .isTrue trivial
  | s :: ss =>
    have := s.decidableWellFormed
    have := decidableStmtsWellFormed ss
    inferInstanceAs (Decidable (s.WellFormed ∧ stmtsWellFormed ss))

end

instance : DecidablePred stmtsWellFormed := decidableStmtsWellFormed

/-! ### Constant values and types -/

mutual

def ConstValue.lexemes : ConstValue → List Lexeme
  | .number n => [.number n]
  | .literal s => [.literal s]
  | .list values => .lparen :: (Lexeme.separated .comma (constSpellings values) ++ [.rparen])
  | .record fields => .lparen :: (Lexeme.separated .semicolon (fieldSpellings fields) ++ [.rparen])

def constSpellings : List ConstValue → List (List Lexeme)
  | [] => []
  | v :: vs => v.lexemes :: constSpellings vs

def fieldSpellings : List (String × ConstValue) → List (List Lexeme)
  | [] => []
  | (n, v) :: rest => (.name n :: .colon :: v.lexemes) :: fieldSpellings rest

end

mutual

/-- The shape of constant values: a record has a field, since empty parentheses are an empty
list. -/
def ConstValue.WellFormed : ConstValue → Prop
  | .number n => IsNumeral n
  | .literal _ => True
  | .list values => constsWellFormed values
  | .record fields => fields ≠ [] ∧ fieldsWellFormed fields

def constsWellFormed : List ConstValue → Prop
  | [] => True
  | v :: vs => v.WellFormed ∧ constsWellFormed vs

def fieldsWellFormed : List (String × ConstValue) → Prop
  | [] => True
  | (_, v) :: rest => v.WellFormed ∧ fieldsWellFormed rest

end

def dimensionLexemes (d : Nat × Nat) : List Lexeme :=
  [.number d.1, (.twoDots, ".."), .number d.2]

def initialLexemes : Option (List ConstValue) → List Lexeme
  | none => []
  | some values =>
    .equals :: .lparen :: (Lexeme.separated .comma (constSpellings values) ++ [.rparen])

def ArrayType.lexemes (a : ArrayType) : List Lexeme :=
  (.kwArray, "array") :: .lbracket ::
    (Lexeme.separated .comma (a.dimensions.map dimensionLexemes) ++
      Lexeme.rbracket :: (.kwOf, "of") :: Lexeme.name a.element :: initialLexemes a.initial)

def ArrayType.WellFormed (a : ArrayType) : Prop :=
  (∀ d ∈ a.dimensions, IsNumeral d.1 ∧ IsNumeral d.2) ∧
    ∀ values ∈ a.initial, constsWellFormed values

mutual

def TypeExpr.lexemes : TypeExpr → List Lexeme
  | .named n => [.name n]
  | .array type => type.lexemes
  | .record fields => (.kwRecord, "record") :: (membersLexemes fields ++ [.kwEnd])
  | .omitted => []

def membersLexemes : List (String × TypeExpr) → List Lexeme
  | [] => []
  | (n, type) :: rest =>
    .name n :: .colon :: (type.lexemes ++ .semicolon :: membersLexemes rest)

end

mutual

def TypeExpr.WellFormed : TypeExpr → Prop
  | .named _ => True
  | .array type => type.WellFormed
  | .record fields => membersWellFormed fields
  | .omitted => True

def membersWellFormed : List (String × TypeExpr) → Prop
  | [] => True
  | (_, type) :: rest => type.WellFormed ∧ membersWellFormed rest

end

def DeclaredType.lexemes : DeclaredType → List Lexeme
  | .named n => [.name n]
  | .array type => type.lexemes

def DeclaredType.WellFormed : DeclaredType → Prop
  | .named _ => True
  | .array type => type.WellFormed

/-! ### Declarations and programs -/

def valueLexemes : Option ConstValue → List Lexeme
  | none => []
  | some value => .equals :: value.lexemes

/-- The values that can follow a type in a declaration. After an array type the first equals sign
belongs to the type; after the name of a type a constant has to have a value. -/
def ValueFits (isConst : Bool) (type : DeclaredType) (value : Option ConstValue) : Prop :=
  (∀ v ∈ value, v.WellFormed) ∧
    match type with
    | .named _ => isConst = true → value ≠ none
    | .array a => a.initial = none → value = none

/-- The spelling of the way a parameter is passed. -/
def modeLexemes : Option String → List Lexeme
  | some "var" => [(.kwVar, "var")]
  | some "const" => [(.kwConst, "const")]
  | _ => []

def Parameter.lexemes (p : Parameter) : List Lexeme :=
  modeLexemes p.mode ++ .name p.name :: .colon :: p.type.lexemes

def Parameter.WellFormed (p : Parameter) : Prop :=
  (p.mode = none ∨ p.mode = some "var" ∨ p.mode = some "const") ∧ p.type.WellFormed

/-- The spelling of the parameters of a routine; without any there are no parentheses. -/
def parametersLexemes : List Parameter → List Lexeme
  | [] => []
  | p :: ps =>
    .lparen :: (Lexeme.separated .semicolon ((p :: ps).map Parameter.lexemes) ++ [.rparen])

/-- The word that a routine is declared with: a function has the type of a result. -/
def routineLexeme (kind : String) : TypeExpr → Lexeme
  | .omitted => (.kwProcedure, kind)
  | _ => (.kwFunction, kind)

def resultLexemes : TypeExpr → List Lexeme
  | .omitted => []
  | type => .colon :: type.lexemes

mutual

def Decl.lexemes : Decl → List Lexeme
  | .type n type => (.kwType, "type") :: .name n :: .equals :: (type.lexemes ++ [.semicolon])
  | .const n type value =>
    (.kwConst, "const") :: .name n :: .colon ::
      (type.lexemes ++ (valueLexemes value ++ [.semicolon]))
  | .var n type initial _ =>
    (.kwVar, "var") :: .name n :: .colon ::
      (type.lexemes ++ (valueLexemes initial ++ [.semicolon]))
  | .routine kind n parameters body result =>
    routineLexeme kind result :: .name n ::
      (parametersLexemes parameters ++ (resultLexemes result ++ .semicolon ::
        (body.lexemes ++ [.semicolon])))

def Block.lexemes : Block → List Lexeme
  | .mk declarations statements =>
    declsLexemes declarations ++ (Stmt.compound statements).lexemes

def declsLexemes : List Decl → List Lexeme
  | [] => []
  | d :: ds => d.lexemes ++ declsLexemes ds

end

mutual

def Decl.WellFormed : Decl → Prop
  | .type _ type => type.WellFormed
  | .const _ type value => type.WellFormed ∧ ValueFits true type value
  | .var _ type initial _ => type.WellFormed ∧ ValueFits false type initial
  | .routine _ _ parameters body result =>
    (∀ p ∈ parameters, p.WellFormed) ∧ body.WellFormed ∧ result.WellFormed

def Block.WellFormed : Block → Prop
  | .mk declarations statements => declsWellFormed declarations ∧ stmtsWellFormed statements

def declsWellFormed : List Decl → Prop
  | [] => True
  | d :: ds => d.WellFormed ∧ declsWellFormed ds

end

mutual

/-- A declaration by itself, in no group with the one before it. -/
def Decl.ungrouped : Decl → Decl
  | .var n type initial _ => .var n type initial false
  | .routine kind n parameters body result => .routine kind n parameters body.ungrouped result
  | d => d

def Block.ungrouped : Block → Block
  | .mk declarations statements => .mk (ungroupedDecls declarations) statements

def ungroupedDecls : List Decl → List Decl
  | [] => []
  | d :: ds => d.ungrouped :: ungroupedDecls ds

end

namespace Program

def lexemes (p : Program) : List Lexeme :=
  .name "program" :: .name p.name :: .semicolon :: (p.block.lexemes ++ [.dot])

def WellFormed (p : Program) : Prop := p.block.WellFormed

/-- A program each of whose declarations stands by itself. -/
def ungrouped (p : Program) : Program := { p with block := p.block.ungrouped }

end Program

/-! ### Texts by their characters -/

theorem Text.toList_append_eq {s t : String} {cs ds : List Char} (hs : s.toList = cs)
    (ht : t.toList = ds) : (s ++ t).toList = cs ++ ds := by
  rw [String.toList_append, hs, ht]

/-- The characters of a text. Those of an ASCII text are its bytes, which is quick to evaluate. -/
def Text.chars (s : String) : List Char :=
  if s.toByteArray.data.toList.all (·.toNat < 128) then
    s.toByteArray.data.toList.map fun b => Char.ofNat b.toNat
  else s.toList

theorem Text.map_utf8EncodeChar {c : Char}
    (h : (String.utf8EncodeChar c).all (·.toNat < 128) = true) :
    (String.utf8EncodeChar c).map (fun b => Char.ofNat b.toNat) = [c] := by
  by_cases hc : c.val.toNat ≤ 127
  · have hbyte : String.utf8EncodeChar c = [UInt8.ofNat c.toNat] := if_pos hc
    have hlt : c.toNat < 256 := Nat.lt_of_le_of_lt hc (by decide)
    simp [hbyte, Nat.mod_eq_of_lt hlt]
  · simp only [String.utf8EncodeChar, if_neg hc] at h
    split at h
    · simp at h
      omega
    · split at h <;> simp at h <;> omega

theorem Text.chars_eq_toList (s : String) : Text.chars s = s.toList := by
  have hbytes : s.toByteArray.data.toList = s.toList.flatMap String.utf8EncodeChar := by
    conv_lhs => rw [← String.ofList_toList (s := s), String.toByteArray_ofList, List.utf8Encode]
    simp
  unfold Text.chars
  split
  next h =>
    rw [hbytes] at h ⊢
    rw [List.all_flatMap, List.all_eq_true] at h
    rw [List.map_flatMap, List.flatMap_congr fun c hc => map_utf8EncodeChar (h c hc),
      List.flatMap_singleton']
  next => rfl

section Characters

variable {s : String} {chars : List Char}

/-- The tokens of a text, by its characters. -/
def Token.lexChars (chars : List Char) : Except LexError (List Token) :=
  if chars.isEmpty then .error .noText else (Cursor.tokenize.run.run { rest := chars }).1

theorem Token.lex_eq_lexChars (h : s.toList = chars) : Token.lex s = Token.lexChars chars := by
  have hempty : s.isEmpty = chars.isEmpty := by
    rw [← h, Bool.eq_iff_iff, String.isEmpty_iff, List.isEmpty_iff, String.toList_eq_nil_iff]
  rw [Token.lex, Token.lexChars, hempty, Token.lexAll, Cursor.start, h]

/-- The analysis of a text, by its characters. -/
def Pipeline.analyzeChars (chars : List Char) : Except StageError Analysis := do
  analyzeTokens (← (Token.lexChars chars).mapError .lex)

theorem Pipeline.analyze_eq_analyzeChars (h : s.toList = chars) :
    Pipeline.analyze s = Pipeline.analyzeChars chars := by
  rw [Pipeline.analyze, Pipeline.analyzeChars, Token.lex_eq_lexChars h]

/-- The analysis of a text is found by running it on the characters. -/
theorem Pipeline.exists_of_analyzeChars (hs : s.toList = chars) (test : Analysis → Bool)
    (h : (Pipeline.analyzeChars chars).toOption.any test = true) :
    ∃ a, Pipeline.analyze s = .ok a ∧ test a = true := by
  rw [Pipeline.analyze_eq_analyzeChars hs]
  exact Except.exists_of_any h

/-- A program is found by reading and parsing the characters of its text. -/
theorem Program.exists_of_lexChars (hs : s.toList = chars) (test : Program → Bool)
    (h : ((Token.lexChars chars).toOption.any fun tokens =>
      (Program.parse tokens).toOption.any test) = true) :
    ∃ tokens p, Token.lex s = .ok tokens ∧ Program.parse tokens = .ok p ∧ test p = true := by
  rw [Token.lex_eq_lexChars hs]
  obtain ⟨tokens, htokens, h⟩ := Except.exists_of_any h
  obtain ⟨p, hparse, h⟩ := Except.exists_of_any h
  exact ⟨tokens, p, htokens, hparse, h⟩

/-- An expression is found by reading and parsing the characters of its text. -/
theorem Expr.exists_of_lexChars (hs : s.toList = chars) (test : Expr → Bool)
    (h : ((Token.lexChars chars).toOption.any fun tokens =>
      ((Grammar.expression 60).run tokens).toOption.any (test ·.1)) = true) :
    ∃ tokens e rest, Token.lex s = .ok tokens ∧
      (Grammar.expression 60).run (tokens.drop 0) = .ok (e, rest) ∧ test e = true := by
  rw [Token.lex_eq_lexChars hs]
  obtain ⟨tokens, htokens, h⟩ := Except.exists_of_any h
  obtain ⟨⟨e, rest⟩, hparse, h⟩ := Except.exists_of_any h
  exact ⟨tokens, e, rest, htokens, hparse, h⟩

end Characters

end MiniPascal
