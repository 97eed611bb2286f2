import MiniPascal.Proofs.Code.Values
import MiniPascal.Proofs.Parsing.Expressions
import MiniPascal.Syntax.Production

/-!
# Operator Precedence

Sums of products of numbers, names and sums in parentheses, with a product binding tighter than a
sum. The grammar of programs puts the operators of both layers into one chain and groups it from the
left, so that the code of such a sum does not always compute its value. This file fixes the two
readings of a sum and proves which of them the code follows:

* `Sum.value`: the conventional value, in which products are formed first;
* `Sum.leftValue`: the value of all operators applied from left to right;
* `compiledValue?_eq_leftValue`: the code that is generated for a sum computes the second one;
* `Sum.leftValue_eq_value`: both agree where each product after an additive operator is a single
  factor, within parentheses as well;
* `Sum.exists_ne_of_not_inOrder`: everywhere else some choice of numbers tells them apart.
-/

namespace MiniPascal

open Execution

/-- The value of the code that is generated for the expression at the front of the tokens, where all
names stand for numbers. -/
def compiledValue? (ρ : String → Int) (tokens : List Token) : Option Value := do
  let (tree, _) ← (Production.expression.parse tokens).toOption
  let code ← tree.generate.toOption
  value? noRoutines (.ofNumbers ρ) code

namespace Precedence

/-! ### Sums, products and factors -/

/-- The operators between the products of a sum. -/
inductive Additive where
  | plus
  | minus
  deriving DecidableEq

namespace Additive

def sign : Additive → String
  | plus => "+"
  | minus => "-"

def apply : Additive → Int → Int → Int
  | plus, a, b => a + b
  | minus, a, b => a - b

end Additive

mutual

/-- `E → T {("+" | "-") T}`. -/
inductive Sum where
  | product (p : Product)
  | more (s : Sum) (op : Additive) (p : Product)

/-- `T → F {"*" F}`. -/
inductive Product where
  | factor (f : Factor)
  | more (p : Product) (f : Factor)

/-- `F → NUMBER | IDENTIFIER | "(" E ")"`. A number is given as it is written. -/
inductive Factor where
  | number (written : String)
  | name (name : String)
  | group (s : Sum)

end

mutual

def Sum.lexemes : Sum → List Lexeme
  | .product p => p.lexemes
  | .more s op p => s.lexemes ++ .operator op.sign :: p.lexemes

def Product.lexemes : Product → List Lexeme
  | .factor f => f.lexemes
  | .more p f => p.lexemes ++ .operator "*" :: f.lexemes

def Factor.lexemes : Factor → List Lexeme
  | .number written => [(.number, written)]
  | .name n => [.name n]
  | .group s => .lparen :: (s.lexemes ++ [.rparen])

end

mutual

/-- A sum whose numbers can be read and whose names are not empty, as all names in texts are. -/
def Sum.Readable : Sum → Prop
  | .product p => p.Readable
  | .more s _ p => s.Readable ∧ p.Readable

@[inherit_doc Sum.Readable]
def Product.Readable : Product → Prop
  | .factor f => f.Readable
  | .more p f => p.Readable ∧ f.Readable

@[inherit_doc Sum.Readable]
def Factor.Readable : Factor → Prop
  | .number written => (Text.readNat? written).isSome = true
  | .name n => n ≠ ""
  | .group s => s.Readable

end

def numberOf (written : String) : Nat := (Text.readNat? written).getD 0

mutual

/-- The conventional value of a sum: products are formed first. -/
def Sum.value (ρ : String → Int) : Sum → Int
  | .product p => p.value ρ
  | .more s op p => op.apply (s.value ρ) (p.value ρ)

def Product.value (ρ : String → Int) : Product → Int
  | .factor f => f.value ρ
  | .more p f => p.value ρ * f.value ρ

def Factor.value (ρ : String → Int) : Factor → Int
  | .number written => numberOf written
  | .name n => ρ n
  | .group s => s.value ρ

end

mutual

/-- The value of a sum when its operators are applied from left to right. -/
def Sum.leftValue (ρ : String → Int) : Sum → Int
  | .product p => p.leftValueAfter ρ id
  | .more s op p => p.leftValueAfter ρ (op.apply (s.leftValue ρ))

/-- The value of what has been read so far, joined with the first factor of a product and then
multiplied by the others. -/
def Product.leftValueAfter (ρ : String → Int) (start : Int → Int) : Product → Int
  | .factor f => start (f.leftValue ρ)
  | .more p f => p.leftValueAfter ρ start * f.leftValue ρ

def Factor.leftValue (ρ : String → Int) : Factor → Int
  | .number written => numberOf written
  | .name n => ρ n
  | .group s => s.leftValue ρ

end

/-! ### The code of a sum -/

mutual

/-- The operand that a sum is parsed to: one chain that groups from the left. -/
def Sum.operand : Sum → Operand
  | .product p => p.operandAfter id
  | .more s op p => p.operandAfter (.binary s.operand op.sign ·)

def Product.operandAfter (start : Operand → Operand) : Product → Operand
  | .factor f => start f.operand
  | .more p f => .binary (p.operandAfter start) "*" f.operand

def Factor.operand : Factor → Operand
  | .number written => .number (numberOf written)
  | .name n => .designator (.name n)
  | .group s => .group (.operand s.operand)

end

theorem Additive.joinsOperands (op : Additive) : JoinsOperands op.sign := by
  cases op <;> decide

mutual

theorem Sum.chainRead : ∀ s : Sum, s.Readable → ChainRead s.lexemes s.operand
  | .product p, h => p.chainRead [] id (fun hf => factor_chainRead hf) h
  | .more s op p, ⟨hs, hp⟩ => by
    have hread := p.chainRead (s.lexemes ++ [.operator op.sign]) (.binary s.operand op.sign ·)
      (fun hf => by
        rw [List.append_assoc]
        exact binary_chainRead (s.chainRead hs) op.joinsOperands hf) hp
    rwa [List.append_assoc] at hread

theorem Product.chainRead : ∀ (p : Product) (before : List Lexeme) (start : Operand → Operand),
    (∀ {ls o}, Parses Grammar.factor 2 selectingKinds ls o → ChainRead (before ++ ls) (start o)) →
      p.Readable → ChainRead (before ++ p.lexemes) (p.operandAfter start)
  | .factor f, _, _, hstart, h => hstart (f.parses h)
  | .more p f, before, start, hstart, ⟨hp, hf⟩ => by
    have hmul : JoinsOperands "*" := by decide
    have hread := binary_chainRead (p.chainRead before start hstart hp) hmul (f.parses hf)
    rwa [List.append_assoc] at hread

theorem Factor.parses : ∀ f : Factor, f.Readable →
    Parses Grammar.factor 2 selectingKinds f.lexemes f.operand
  | .number written, h => by
    obtain ⟨n, hn⟩ := Option.isSome_iff_exists.1 h
    have hvalue : numberOf written = n := by rw [numberOf, hn, Option.getD_some]
    rw [Factor.operand, hvalue]
    exact number_parses hn
  | .name n, _ => element_parses (.name _ n)
  | .group s, h => group_parses (operand_parses (chain_parses (s.chainRead h)))

end

/-- The code of an operand computes a value, whatever numbers the names stand for. -/
def Compiles (o : Operand) (value : (String → Int) → Int) : Prop :=
  ∃ code, o.toTree.generate = .ok code ∧
    ∀ ρ, value? noRoutines (.ofNumbers ρ) code = some (.int (value ρ))

theorem number_compiles (n : Nat) : Compiles (.number n) fun _ => n :=
  ⟨.integer (.int n), rfl, fun _ => rfl⟩

theorem name_compiles {n : String} (h : n ≠ "") :
    Compiles (.designator (.name n)) fun ρ => ρ n := by
  refine ⟨.name (.text n), ?_, fun _ => rfl⟩
  have hname : (Tree.text n).isTruthy = true := by simpa [Tree.isTruthy] using h
  rw [Operand.toTree, Tree.generate, if_neg (by decide), if_pos hname]
  rfl

/-- Parentheses leave no trace. -/
theorem group_compiles {o : Operand} {value : (String → Int) → Int} (h : Compiles o value) :
    Compiles (.group (.operand o)) value := by
  obtain ⟨code, hcode, hvalue⟩ := h
  refine ⟨code, ?_, hvalue⟩
  have hinner : (Tree.expression o.toTree .null .null).isTruthy = true := rfl
  rw [Operand.toTree, Expr.toTree, Tree.generate, if_pos hinner, Tree.generate,
    if_neg (by decide), hcode]

/-- An operator applies to the values of its operands. -/
theorem binary_compiles {left right : Operand} {v w : (String → Int) → Int} {op : String}
    {apply : Int → Int → Int} (hop : arithmetic? op = some apply) (hl : Compiles left v)
    (hr : Compiles right w) : Compiles (.binary left op right) fun ρ => apply (v ρ) (w ρ) := by
  obtain ⟨cl, hcl, hvl⟩ := hl
  obtain ⟨cr, hcr, hvr⟩ := hr
  refine ⟨.binary (.text op) cl cr, ?_, fun ρ => ?_⟩
  · rw [Operand.toTree, Tree.generate, Tree.generateTerms, hcl]
    change Tree.joinTerms cl [.text op, right.toTree] = _
    rw [Tree.joinTerms, hcr]
    rfl
  · rw [value?, hvl, hvr]
    exact result?_of_arithmetic? hop rfl rfl

theorem Additive.arithmetic?_sign (op : Additive) : arithmetic? op.sign = some op.apply := by
  cases op <;> rfl

mutual

theorem Sum.compiles : ∀ s : Sum, s.Readable → Compiles s.operand fun ρ => s.leftValue ρ
  | .product p, h => p.compiles id (fun _ => id) id h
  | .more s op p, ⟨hs, hp⟩ =>
    p.compiles _ (fun ρ => op.apply (s.leftValue ρ))
      (fun hf => binary_compiles op.arithmetic?_sign (s.compiles hs) hf) hp

theorem Product.compiles : ∀ (p : Product) (start : Operand → Operand)
    (value : (String → Int) → Int → Int),
    (∀ {o v}, Compiles o v → Compiles (start o) fun ρ => value ρ (v ρ)) → p.Readable →
      Compiles (p.operandAfter start) fun ρ => p.leftValueAfter ρ (value ρ)
  | .factor f, _, _, hstart, h => hstart (f.compiles h)
  | .more p f, start, value, hstart, ⟨hp, hf⟩ => by
    have hmul : arithmetic? "*" = some (· * ·) := rfl
    exact binary_compiles hmul (p.compiles start value hstart hp) (f.compiles hf)

theorem Factor.compiles : ∀ f : Factor, f.Readable → Compiles f.operand fun ρ => f.leftValue ρ
  | .number written, _ => number_compiles (numberOf written)
  | .name _, h => name_compiles h
  | .group s, h => group_compiles (s.compiles h)

end

/-- The code that is generated for a sum computes its value from left to right. -/
theorem compiledValue?_eq_leftValue {s : Sum} (h : s.Readable) {tokens : List Token}
    (htokens : tokens.map Token.lexeme = s.lexemes) (ρ : String → Int) :
    compiledValue? ρ tokens = some (.int (s.leftValue ρ)) := by
  obtain ⟨code, hcode, hvalue⟩ := s.compiles h
  have hlength : s.lexemes.length = tokens.length := by rw [← htokens, List.length_map]
  have hspells : Spells s.lexemes tokens [] := by
    have hrest := spells_of_map_eq htokens []
    rwa [List.append_nil] at hrest
  have hfuel : 8 * s.lexemes.length + 4 ≤ Grammar.depthFor tokens := by
    rw [Grammar.depthFor]
    omega
  -- The tokens are parsed to one chain, and the tree of the chain is what code is generated from.
  have hparse := operand_parses (chain_parses (s.chainRead h)) _ hfuel hspells (by decide)
  have htree : Parse.Gives (Production.expression.parser (Grammar.depthFor tokens)) tokens
      (Expr.operand s.operand).toTree [] := hparse.map
  have hgenerate : (Expr.operand s.operand).toTree.generate = .ok code := by
    rw [Expr.toTree, Tree.generate, if_neg (by decide), hcode]
  rw [compiledValue?, Production.parse, htree.run_eq]
  change ((Expr.operand s.operand).toTree.generate.toOption >>= value? _ _) = _
  rw [hgenerate]
  exact hvalue ρ

/-! ### Where both readings agree -/

def Product.IsSingle : Product → Prop
  | .factor _ => True
  | .more .. => False

mutual

/-- No product of several factors stands after an additive operator, within parentheses as
well. -/
def Sum.InOrder : Sum → Prop
  | .product p => p.InOrder
  | .more s _ p => s.InOrder ∧ p.IsSingle ∧ p.InOrder

@[inherit_doc Sum.InOrder]
def Product.InOrder : Product → Prop
  | .factor f => f.InOrder
  | .more p f => p.InOrder ∧ f.InOrder

@[inherit_doc Sum.InOrder]
def Factor.InOrder : Factor → Prop
  | .number _ => True
  | .name _ => True
  | .group s => s.InOrder

end

mutual

/-- Both readings of a sum agree if no product of several factors stands after an additive
operator. -/
theorem Sum.leftValue_eq_value (ρ : String → Int) : ∀ s : Sum, s.InOrder → s.leftValue ρ = s.value ρ
  | .product p, h => p.leftValueAfter_id ρ h
  | .more s op (.factor f), ⟨hs, _, hf⟩ => by
    rw [Sum.leftValue, Product.leftValueAfter, s.leftValue_eq_value ρ hs, f.leftValue_eq_value ρ hf,
      Sum.value, Product.value]

theorem Product.leftValueAfter_id (ρ : String → Int) :
    ∀ p : Product, p.InOrder → p.leftValueAfter ρ id = p.value ρ
  | .factor f, h => f.leftValue_eq_value ρ h
  | .more p f, ⟨hp, hf⟩ => by
    rw [Product.leftValueAfter, p.leftValueAfter_id ρ hp, f.leftValue_eq_value ρ hf, Product.value]

@[inherit_doc Sum.leftValue_eq_value]
theorem Factor.leftValue_eq_value (ρ : String → Int) :
    ∀ f : Factor, f.InOrder → f.leftValue ρ = f.value ρ
  | .number _, _ => rfl
  | .name _, _ => rfl
  | .group s, h => s.leftValue_eq_value ρ h

end

/-! ### Where numbers tell them apart -/

mutual

/-- The shape of a sum: what is left of it if numbers and names are not looked at. -/
def Sum.shape : Sum → Sum
  | .product p => .product p.shape
  | .more s op p => .more s.shape op p.shape

def Product.shape : Product → Product
  | .factor f => .factor f.shape
  | .more p f => .more p.shape f.shape

def Factor.shape : Factor → Factor
  | .number _ | .name _ => .number "0"
  | .group s => .group s.shape

end

mutual

/-- The order of operators is seen from the shape. -/
theorem Sum.inOrder_shape : ∀ s : Sum, s.shape.InOrder ↔ s.InOrder
  | .product p => p.inOrder_shape
  | .more s _ p => by
    have hsingle : p.shape.IsSingle ↔ p.IsSingle := by cases p <;> exact Iff.rfl
    rw [Sum.shape, Sum.InOrder, Sum.InOrder, s.inOrder_shape, hsingle, p.inOrder_shape]

@[inherit_doc Sum.inOrder_shape]
theorem Product.inOrder_shape : ∀ p : Product, p.shape.InOrder ↔ p.InOrder
  | .factor f => f.inOrder_shape
  | .more p f => by
    rw [Product.shape, Product.InOrder, Product.InOrder, p.inOrder_shape, f.inOrder_shape]

@[inherit_doc Sum.inOrder_shape]
theorem Factor.inOrder_shape : ∀ f : Factor, f.shape.InOrder ↔ f.InOrder
  | .number _ | .name _ => Iff.rfl
  | .group s => s.inOrder_shape

end

/-- Some numbers in place of those of a sum give it the value `a`, and `b` from left to right. -/
def Sum.Takes (s : Sum) (a b : Int) : Prop :=
  ∃ s' : Sum, s'.shape = s.shape ∧ s'.Readable ∧ ∀ ρ, s'.value ρ = a ∧ s'.leftValue ρ = b

/-- Some numbers in place of those of a product give it the value `a`, and act as `b` from left to
right after each of the given beginnings. -/
def Product.Takes (p : Product) (starts : (Int → Int) → Prop) (a b : Int) : Prop :=
  ∃ p' : Product, p'.shape = p.shape ∧ p'.Readable ∧
    ∀ ρ, p'.value ρ = a ∧ ∀ start, starts start → p'.leftValueAfter ρ start = start b

/-- Some numbers in place of those of a factor give it the value `a`, and `b` from left to right. -/
def Factor.Takes (f : Factor) (a b : Int) : Prop :=
  ∃ f' : Factor, f'.shape = f.shape ∧ f'.Readable ∧ ∀ ρ, f'.value ρ = a ∧ f'.leftValue ρ = b

/-- Any beginning. -/
def AnyStart (_ : Int → Int) : Prop := True

/-- A beginning that only multiplies. -/
def LinearStart (start : Int → Int) : Prop := ∃ c, ∀ x, start x = c * x

variable {s : Sum} {p : Product} {f : Factor} {op : Additive} {starts : (Int → Int) → Prop}
  {a b c d : Int}

theorem Product.Takes.sum (hp : p.Takes starts a b) (hid : starts id) :
    (Sum.product p).Takes a b := by
  obtain ⟨p', hshape, hread, hvalue⟩ := hp
  refine ⟨.product p', ?_, hread, fun ρ => ⟨(hvalue ρ).1, (hvalue ρ).2 id hid⟩⟩
  rw [Sum.shape, hshape, Sum.shape]

theorem Sum.Takes.more (hs : s.Takes a b) (hp : p.Takes starts c d)
    (hstart : starts (op.apply b)) : (Sum.more s op p).Takes (op.apply a c) (op.apply b d) := by
  obtain ⟨s', hshape, hread, hvalue⟩ := hs
  obtain ⟨p', hshape', hread', hvalue'⟩ := hp
  refine ⟨.more s' op p', ?_, ⟨hread, hread'⟩, fun ρ => ⟨?_, ?_⟩⟩
  · rw [Sum.shape, hshape, hshape', Sum.shape]
  · rw [Sum.value, (hvalue ρ).1, (hvalue' ρ).1]
  · rw [Sum.leftValue, (hvalue ρ).2, (hvalue' ρ).2 _ hstart]

theorem Factor.Takes.product (hf : f.Takes a b) : (Product.factor f).Takes starts a b := by
  obtain ⟨f', hshape, hread, hvalue⟩ := hf
  refine ⟨.factor f', ?_, hread, fun ρ => ⟨(hvalue ρ).1, fun start _ => ?_⟩⟩
  · rw [Product.shape, hshape, Product.shape]
  · rw [Product.leftValueAfter, (hvalue ρ).2]

theorem Product.Takes.more {e : Int} (hp : p.Takes starts a b) (hf : f.Takes c d)
    (hstarts : ∀ start, starts start → start b * d = start e) :
    (Product.more p f).Takes starts (a * c) e := by
  obtain ⟨p', hshape, hread, hvalue⟩ := hp
  obtain ⟨f', hshape', hread', hvalue'⟩ := hf
  refine ⟨.more p' f', ?_, ⟨hread, hread'⟩, fun ρ => ⟨?_, fun start hstart => ?_⟩⟩
  · rw [Product.shape, hshape, hshape', Product.shape]
  · rw [Product.value, (hvalue ρ).1, (hvalue' ρ).1]
  · rw [Product.leftValueAfter, (hvalue ρ).2 start hstart, (hvalue' ρ).2, hstarts start hstart]

/-- A factor that acts as 1 changes nothing. -/
theorem Product.Takes.more_one (hp : p.Takes starts a b) (hf : f.Takes c 1) :
    (Product.more p f).Takes starts (a * c) b :=
  hp.more hf fun _ _ => Int.mul_one _

/-- A factor can be moved past a beginning that only multiplies. -/
theorem Product.Takes.more_linear (hp : p.Takes LinearStart a b) (hf : f.Takes c d) :
    (Product.more p f).Takes LinearStart (a * c) (b * d) := by
  refine hp.more hf fun start hstart => ?_
  obtain ⟨k, hk⟩ := hstart
  rw [hk, hk, Int.mul_assoc]

theorem Product.Takes.linear (hp : p.Takes AnyStart a b) : p.Takes LinearStart a b := by
  obtain ⟨p', hshape, hread, hvalue⟩ := hp
  exact ⟨p', hshape, hread, fun ρ => ⟨(hvalue ρ).1, fun start _ => (hvalue ρ).2 start trivial⟩⟩

theorem Sum.Takes.group (hs : s.Takes a b) : (Factor.group s).Takes a b := by
  obtain ⟨s', hshape, hread, hvalue⟩ := hs
  refine ⟨.group s', ?_, hread, hvalue⟩
  rw [Factor.shape, hshape, Factor.shape]

theorem Additive.apply_zero (op : Additive) (x : Int) : op.apply x 0 = x := by
  cases op
  · exact Int.add_zero x
  · exact Int.sub_zero x

/-- A written number is such a number. -/
theorem numeral_takes {n : Nat} (hn : IsNumeral n) (h : f.shape = .number "0") : f.Takes n n := by
  have hread := Text.readNat?_toString hn
  have hvalue : numberOf (toString n) = n := by rw [numberOf, hread, Option.getD_some]
  refine ⟨.number (toString n), h.symm, ?_, fun ρ => ⟨?_, ?_⟩⟩
  · rw [Factor.Readable, hread, Option.isSome_some]
  · rw [Factor.value, hvalue]
  · rw [Factor.leftValue, hvalue]

mutual

/-- A sum can be given any value in both readings at once: its first number is the value, every
further product starts with 0, and all else is 1. -/
theorem Sum.takes_self {n : Nat} (hn : IsNumeral n) : ∀ s : Sum, s.Takes n n
  | .product p => (p.takes_self hn).sum trivial
  | .more s op p => by
    have hzero : p.Takes AnyStart 0 0 := p.takes_self (n := 0) (by decide)
    have hmore : (Sum.more s op p).Takes (op.apply n 0) (op.apply n 0) :=
      (s.takes_self hn).more hzero trivial
    rwa [op.apply_zero] at hmore

@[inherit_doc Sum.takes_self]
theorem Product.takes_self {n : Nat} (hn : IsNumeral n) : ∀ p : Product, p.Takes AnyStart n n
  | .factor f => (f.takes_self hn).product
  | .more p f => by
    have hone : f.Takes 1 1 := f.takes_self (n := 1) (by decide)
    have hmore := (p.takes_self hn).more_one hone
    rwa [Int.mul_one] at hmore

@[inherit_doc Sum.takes_self]
theorem Factor.takes_self {n : Nat} (hn : IsNumeral n) : ∀ f : Factor, f.Takes n n
  | .number _ | .name _ => numeral_takes hn rfl
  | .group s => (s.takes_self hn).group

end

theorem Additive.linearStart_zero (op : Additive) : LinearStart (op.apply 0) := by
  cases op with
  | plus => exact ⟨1, fun x => by rw [Additive.apply, Int.zero_add, Int.one_mul]⟩
  | minus => exact ⟨-1, fun x => by rw [Additive.apply, Int.zero_sub, Int.neg_one_mul]⟩

theorem Additive.apply_zero_injective (op : Additive) : Function.Injective (op.apply 0) := by
  intro x y h
  cases op <;> simp only [Additive.apply] at h <;> omega

/-- A product of several factors after an additive operator: `1 + 0 * 2` is 1, and 2 from left to
right. -/
theorem Sum.takes_of_more (s : Sum) (op : Additive) (p : Product) (f : Factor) :
    (Sum.more s op (.more p f)).Takes 1 2 := by
  obtain ⟨s', hshape, hread, hvalue⟩ := s.takes_self (n := 1) (by decide)
  obtain ⟨p', hshape', hread', hvalue'⟩ := p.takes_self (n := 0) (by decide)
  obtain ⟨f', hshape'', hread'', hvalue''⟩ := f.takes_self (n := 2) (by decide)
  refine ⟨.more s' op (.more p' f'), ?_, ⟨hread, hread', hread''⟩, fun ρ => ⟨?_, ?_⟩⟩
  · rw [Sum.shape, Product.shape, hshape, hshape', hshape'', Sum.shape, Product.shape]
  · rw [Sum.value, Product.value, (hvalue ρ).1, (hvalue' ρ).1, (hvalue'' ρ).1]
    exact op.apply_zero 1
  · rw [Sum.leftValue, Product.leftValueAfter, (hvalue ρ).2, (hvalue' ρ).2 _ trivial,
      (hvalue'' ρ).2]
    exact congrArg (· * 2) (op.apply_zero 1)

mutual

/-- A sum in which a product of several factors stands after an additive operator can be given
different values in the two readings. -/
theorem Sum.exists_ne_of_not_inOrder : ∀ s : Sum, ¬s.InOrder → ∃ a b, a ≠ b ∧ s.Takes a b
  | .product p, h => by
    obtain ⟨a, b, hne, hp⟩ := p.exists_ne_of_not_inOrder h
    exact ⟨a, b, hne, hp.sum ⟨1, fun x => (Int.one_mul x).symm⟩⟩
  | .more s op p, h => by
    by_cases hs : s.InOrder
    · cases p with
      | more p f => exact ⟨1, 2, by decide, s.takes_of_more op p f⟩
      | factor f =>
        have hf : ¬f.InOrder := fun hf => h ⟨hs, trivial, hf⟩
        obtain ⟨a, b, hne, hf⟩ := f.exists_ne_of_not_inOrder hf
        have hzero : s.Takes 0 0 := s.takes_self (n := 0) (by decide)
        exact ⟨_, _, op.apply_zero_injective.ne hne, hzero.more hf.product op.linearStart_zero⟩
    · obtain ⟨a, b, hne, hs⟩ := s.exists_ne_of_not_inOrder hs
      have hzero : p.Takes AnyStart 0 0 := p.takes_self (n := 0) (by decide)
      have hmore : (Sum.more s op p).Takes (op.apply a 0) (op.apply b 0) := hs.more hzero trivial
      rw [op.apply_zero, op.apply_zero] at hmore
      exact ⟨a, b, hne, hmore⟩

@[inherit_doc Sum.exists_ne_of_not_inOrder]
theorem Product.exists_ne_of_not_inOrder :
    ∀ p : Product, ¬p.InOrder → ∃ a b, a ≠ b ∧ p.Takes LinearStart a b
  | .factor f, h => by
    obtain ⟨a, b, hne, hf⟩ := f.exists_ne_of_not_inOrder h
    exact ⟨a, b, hne, hf.product⟩
  | .more p f, h => by
    by_cases hp : p.InOrder
    · have hf : ¬f.InOrder := fun hf => h ⟨hp, hf⟩
      obtain ⟨a, b, hne, hf⟩ := f.exists_ne_of_not_inOrder hf
      have hone : p.Takes AnyStart 1 1 := p.takes_self (n := 1) (by decide)
      have hmore := hone.linear.more_linear hf
      rw [Int.one_mul, Int.one_mul] at hmore
      exact ⟨a, b, hne, hmore⟩
    · obtain ⟨a, b, hne, hp⟩ := p.exists_ne_of_not_inOrder hp
      have hone : f.Takes 1 1 := f.takes_self (n := 1) (by decide)
      have hmore := hp.more_one hone
      rw [Int.mul_one] at hmore
      exact ⟨a, b, hne, hmore⟩

@[inherit_doc Sum.exists_ne_of_not_inOrder]
theorem Factor.exists_ne_of_not_inOrder :
    ∀ f : Factor, ¬f.InOrder → ∃ a b, a ≠ b ∧ f.Takes a b
  | .number _, h | .name _, h => absurd trivial h
  | .group s, h => by
    obtain ⟨a, b, hne, hs⟩ := s.exists_ne_of_not_inOrder h
    exact ⟨a, b, hne, hs.group⟩

end

/-- What the code of sums computes. It always applies the operators from left to right. This is the
conventional value, whatever the numbers and names, exactly for those sums in which no product of
several factors stands after an additive operator. -/
theorem compiledValue?_sum (s : Sum) :
    (s.Readable → ∀ tokens : List Token, tokens.map Token.lexeme = s.lexemes →
      ∀ ρ, compiledValue? ρ tokens = some (.int (s.leftValue ρ))) ∧
    (s.InOrder ↔ ∀ s' : Sum, s'.shape = s.shape → s'.Readable → ∀ tokens : List Token,
      tokens.map Token.lexeme = s'.lexemes →
        ∀ ρ, compiledValue? ρ tokens = some (.int (s'.value ρ))) := by
  refine ⟨fun hread tokens htokens ρ => compiledValue?_eq_leftValue hread htokens ρ, ?_, ?_⟩
  · intro horder s' hshape hread tokens htokens ρ
    have horder' : s'.InOrder := by rwa [← s'.inOrder_shape, hshape, s.inOrder_shape]
    rw [compiledValue?_eq_leftValue hread htokens ρ, s'.leftValue_eq_value ρ horder']
  · intro hall
    by_contra horder
    obtain ⟨a, b, hne, s', hshape, hread, hvalue⟩ := s.exists_ne_of_not_inOrder horder
    have htokens := map_lexeme_tokensAt 1 1 s'.lexemes
    have hleft := compiledValue?_eq_leftValue hread htokens fun _ => 0
    have hright := hall s' hshape hread _ htokens fun _ => 0
    rw [hleft, (hvalue _).1, (hvalue _).2] at hright
    exact hne (Value.int.inj (Option.some.inj hright)).symm

/-- `2 + 3 * 4`. -/
def twoPlusThreeTimesFour : Sum :=
  .more (.product (.factor (.number "2"))) .plus (.more (.factor (.number "3")) (.number "4"))

/-- The code of `2 + 3 * 4` computes 20, and not 14. -/
theorem compiledValue?_twoPlusThreeTimesFour :
    twoPlusThreeTimesFour.Readable ∧ ¬twoPlusThreeTimesFour.InOrder ∧
      compiledValue? (fun _ => 0) (tokensAt 1 1 twoPlusThreeTimesFour.lexemes) =
        some (.int 20) ∧
      twoPlusThreeTimesFour.value (fun _ => 0) = 14 := by
  have hread : twoPlusThreeTimesFour.Readable := ⟨rfl, rfl, rfl⟩
  have hvalue := (compiledValue?_sum twoPlusThreeTimesFour).1 hread _
    (map_lexeme_tokensAt 1 1 twoPlusThreeTimesFour.lexemes) fun _ => 0
  exact ⟨hread, fun horder => horder.2.1, hvalue, rfl⟩

end Precedence

end MiniPascal
