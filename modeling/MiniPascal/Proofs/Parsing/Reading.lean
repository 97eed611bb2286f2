import MiniPascal.Proofs.Parsing.Texts

/-!
# Reading Expressions off Their Trees

The tree of an expression keeps every token that the expression was parsed from, in order. Read from
left to right it gives the tokens back, up to what it never stores: the digits of a numeral, the
spelling of `TRUE`, `FALSE` and `NOT`, and whether a literal was a string or a character.

Nothing is asked of the tokens. An operator may have any text, as long as its kind is one of an
operator, and what follows the expression may be anything.

* `Grammar.expressions_read`: what the productions of expressions take, by induction on the fuel;
* `Production.expression_reading`: the tokens that an expression takes are those of its tree.
-/

namespace MiniPascal

/-! ### Marks -/

/-- What the tree of an expression keeps of a token. -/
inductive Mark where
  /-- A sign or a word that is told by its kind alone. -/
  | sign (kind : TokenKind)
  | name (n : String)
  | number (n : Int)
  /-- A string or character literal. -/
  | literal (s : String)
  /-- An operator that joins operands to a chain. -/
  | joining (operator : String)
  /-- An operator that compares two chains. -/
  | comparing (operator : String)
  deriving DecidableEq

/-- The kinds of the operators that compare two chains. `AND` and `OR` are not among them. -/
def relationalKinds : List TokenKind := [.eq, .neq, .lt, .gt, .lte, .gte]

def Mark.Fits (m : Mark) (t : Token) : Prop :=
  match m with
  | sign kind => t.kind = kind
  | name n => t.kind = .identifier ∧ t.value = n
  | number n => t.kind = .number ∧ ∃ k : Nat, Text.readNat? t.value = some k ∧ n = k
  | literal s => t.kind ∈ [.string, .char] ∧ t.value = s
  | joining operator => t.kind ∈ Grammar.joiningKinds ∧ t.value = operator
  | comparing operator => t.kind ∈ relationalKinds ∧ t.value = operator

/-- The tokens up to `rest` are those of the marks, one for each. -/
def Mark.Covers (ms : List Mark) (ts rest : List Token) : Prop :=
  ∃ used, ts = used ++ rest ∧ List.Forall₂ Mark.Fits ms used

namespace Mark

variable {ms ms' : List Mark} {ts mid rest : List Token} {t : Token}

theorem Covers.nil (ts : List Token) : Covers [] ts ts := ⟨[], rfl, .nil⟩

theorem Covers.cons {m : Mark} (ht : m.Fits t) (h : Covers ms ts rest) :
    Covers (m :: ms) (t :: ts) rest := by
  obtain ⟨used, rfl, hused⟩ := h
  exact ⟨t :: used, rfl, .cons ht hused⟩

theorem Covers.single {m : Mark} (ht : m.Fits t) : Covers [m] (t :: rest) rest :=
  (Covers.nil rest).cons ht

theorem Covers.sign {kind : TokenKind} (h : Covers ms ts rest) (ht : t.kind = kind) :
    Covers (.sign kind :: ms) (t :: ts) rest :=
  h.cons (m := .sign kind) ht

theorem Covers.append (h : Covers ms ts mid) (h' : Covers ms' mid rest) :
    Covers (ms ++ ms') ts rest := by
  obtain ⟨used, rfl, hused⟩ := h
  obtain ⟨used', rfl, hused'⟩ := h'
  exact ⟨used ++ used', (List.append_assoc _ _ _).symm, List.rel_append hused hused'⟩

theorem Covers.enclosed {opening closing : TokenKind} {u : Token} (h : Covers ms ts (u :: rest))
    (ht : t.kind = opening) (hu : u.kind = closing) :
    Covers (.sign opening :: (ms ++ [.sign closing])) (t :: ts) rest :=
  (h.append ((nil rest).sign hu)).sign ht

end Mark

/-! ### Trees -/

namespace Tree

mutual

/-- The tokens that an expression is read from, from left to right. -/
def reading : Tree → List Mark
  | expression left null _ => left.reading
  | expression left (text operator) right =>
    left.reading ++ .comparing operator :: right.reading
  | simple (list [left, text operator, right]) _ =>
    left.reading ++ .joining operator :: right.reading
  | factor (int n) _ _ _ => [.number n]
  | factor (text s) _ _ _ => [.literal s]
  | factor (bool b) _ _ _ => [.sign (if b then .kwTrue else .kwFalse)]
  | factor null (text n) _ _ => [.name n]
  | factor null null inner (bool false) => .sign .lparen :: (inner.reading ++ [.sign .rparen])
  | factor null null inner (bool true) => .sign .kwNot :: inner.reading
  | text n => [.name n]
  | arrayAccess array index =>
    array.reading ++ .sign .lbracket :: (index.reading ++ [.sign .rbracket])
  | fieldAccess record (text n) => record.reading ++ [.sign .dot, .name n]
  | functionCall name (list arguments) =>
    name.reading ++ .sign .lparen :: (readings arguments ++ [.sign .rparen])
  | _ => []

def readings : List Tree → List Mark
  | [] => []
  | [last] => last.reading
  | first :: second :: rest => first.reading ++ .sign .comma :: readings (second :: rest)

end

/-- The node is the whole tree, or it stands in one of its parts. -/
inductive StandsIn (node : Tree) : Tree → Prop
  | self : StandsIn node node
  | part {name : String} {inner whole : Tree} (hpart : (name, inner) ∈ whole.parts)
      (h : StandsIn node inner) : StandsIn node whole
  | item {item : Tree} {items : List Tree} (hitem : item ∈ items) (h : StandsIn node item) :
      StandsIn node (list items)

def isChain : Tree → Bool
  | simple .. => true
  | _ => false

/-- How operators stand in the node of an expression: a chain has two operands with the operator
between them, of which the right one is no chain, and a comparison has an operator if it has a right
side. -/
def JoinsInOrder : Tree → Prop
  | simple terms operator =>
    ∃ left right, terms = list [left, operator, right] ∧ right.isChain = false
  | expression _ operator right => operator = null ↔ right = null
  | _ => True

/-- Operators stand in order in all nodes of the tree. -/
def InOrder (t : Tree) : Prop := ∀ node : Tree, node.StandsIn t → node.JoinsInOrder

/-- The nodes of a tree that is no list are the tree and those of its parts. -/
theorem InOrder.of_parts {t : Tree} (ht : t.JoinsInOrder) (hlist : ∀ items, t ≠ list items)
    (hparts : ∀ part ∈ t.parts, part.2.InOrder) : t.InOrder := by
  intro node hnode
  cases hnode with
  | self => exact ht
  | part hpart h => exact hparts _ hpart node h
  | item => exact absurd rfl (hlist _)

theorem InOrder.list {items : List Tree} (h : ∀ item ∈ items, item.InOrder) :
    (list items).InOrder := by
  intro node hnode
  cases hnode with
  | self => trivial
  | part hpart => exact absurd hpart List.not_mem_nil
  | item hitem h' => exact h _ hitem node h'

@[simp]
theorem inOrder_null : null.InOrder := .of_parts trivial nofun nofun

@[simp]
theorem inOrder_bool (b : Bool) : (bool b).InOrder := .of_parts trivial nofun nofun

@[simp]
theorem inOrder_text (s : String) : (text s).InOrder := .of_parts trivial nofun nofun

@[simp]
theorem inOrder_int (n : Int) : (int n).InOrder := .of_parts trivial nofun nofun

theorem inOrder_factor {value name inner negated : Tree} (hvalue : value.InOrder)
    (hname : name.InOrder) (hinner : inner.InOrder) (hnegated : negated.InOrder) :
    (factor value name inner negated).InOrder :=
  .of_parts trivial nofun (by simp [parts, hvalue, hname, hinner, hnegated])

theorem inOrder_expression {left operator right : Tree} (hleft : left.InOrder)
    (hoperator : operator.InOrder) (hright : right.InOrder)
    (hboth : operator = null ↔ right = null) : (expression left operator right).InOrder :=
  .of_parts hboth nofun (by simp [parts, hleft, hoperator, hright])

theorem inOrder_simple {left right : Tree} (operator : String) (hleft : left.InOrder)
    (hright : right.InOrder) (hfactor : right.isChain = false) :
    (simple (.list [left, .text operator, right]) (.text operator)).InOrder := by
  have hterms : (Tree.list [left, .text operator, right]).InOrder :=
    .list (by simp [hleft, hright])
  exact .of_parts ⟨left, right, rfl, hfactor⟩ nofun (by simp [parts, hterms])

end Tree

/-! ### What the productions take -/

namespace Parse

variable {β : Type} {ts rest : List Token} {f : Bool → Parse β} {b : β}

/-- Asking for one of some kinds takes nothing. -/
theorem gives_atAny_bind {kinds : List TokenKind} :
    Gives (atAny kinds >>= f) ts b rest ↔ Gives (f (kinds.contains (kindOf ts))) ts b rest := by
  unfold Gives
  rw [(gives_atAny kinds ts).bind_eq]

variable {wanted : TokenKind}

theorem gives_at?_bind :
    Gives (at? wanted >>= f) ts b rest ↔ Gives (f (kindOf ts == wanted)) ts b rest := by
  unfold Gives
  rw [(gives_at? wanted ts).bind_eq]

/-- What is taken after its kind has been seen is a token of that kind. -/
theorem gives_takeAny_bind {f : String → Parse β} (hts : kindOf ts ≠ .eof)
    (h : Gives (takeAny >>= f) ts b rest) :
    ∃ t mid, ts = t :: mid ∧ Gives (f t.value) mid b rest := by
  cases ts with
  | nil => exact absurd rfl hts
  | cons t mid =>
    refine ⟨t, mid, rfl, ?_⟩
    unfold Gives at h
    rwa [(gives_takeAny t mid).bind_eq] at h

/-- A token that may be left out was taken, or there is none. -/
theorem gives_skip_bind (hwanted : wanted ≠ .eof) (h : Gives (skip wanted >>= f) ts b rest) :
    (∃ t mid, ts = t :: mid ∧ t.kind = wanted ∧ Gives (f true) mid b rest) ∨
      kindOf ts ≠ wanted ∧ Gives (f false) ts b rest := by
  by_cases hkind : kindOf ts = wanted
  · cases ts with
    | nil => exact absurd hkind.symm hwanted
    | cons t mid =>
      refine .inl ⟨t, mid, rfl, hkind, ?_⟩
      unfold Gives at h
      rwa [(gives_skip mid hkind).bind_eq] at h
  · refine .inr ⟨hkind, ?_⟩
    unfold Gives at h
    rwa [(gives_skip_of_ne hkind).bind_eq] at h

theorem gives_take_bind (hwanted : wanted ≠ .eof) {f : String → Parse β}
    (h : Gives (take wanted >>= f) ts b rest) :
    ∃ t mid, ts = t :: mid ∧ t.kind = wanted ∧ Gives (f t.value) mid b rest := by
  obtain ⟨value, mid, hvalue, h⟩ := gives_bind.1 h
  obtain ⟨t, rfl, hkind, rfl⟩ := (gives_take_iff hwanted).1 hvalue
  exact ⟨t, mid, rfl, hkind, h⟩

theorem gives_takeNumber_bind {f : Nat → Parse β} (h : Gives (takeNumber >>= f) ts b rest) :
    ∃ t mid n, ts = t :: mid ∧ t.kind = .number ∧ Text.readNat? t.value = some n ∧
      Gives (f n) mid b rest := by
  obtain ⟨n, mid, hn, h⟩ := gives_bind.1 h
  obtain ⟨t, mid', rfl, hkind, hn⟩ := gives_take_bind (by decide) hn
  split at hn
  next => exact absurd hn not_gives_reject
  next =>
    cases hread : Text.readNat? t.value with
    | none =>
      rw [hread] at hn
      exact absurd hn not_gives_throw
    | some k =>
      rw [hread] at hn
      obtain ⟨rfl, rfl⟩ := gives_pure.1 hn
      exact ⟨t, mid', k, rfl, hkind, hread, h⟩

end Parse

namespace Grammar

open Parse MiniPascal.Tree

/-- The tree is read from the tokens `ts` up to `rest`, and operators stand in order in it. -/
structure Read (tree : Tree) (ts rest : List Token) : Prop where
  covers : Mark.Covers tree.reading ts rest
  inOrder : tree.InOrder

/-- A name alone has another tree as an operand than as a designator, with the same reading. -/
theorem Read.designator {place : Designator} {ts rest : List Token}
    (h : Read place.toTree ts rest) : Read (Operand.designator place).toTree ts rest := by
  cases place with
  | name n =>
    exact ⟨h.covers, inOrder_factor inOrder_null (inOrder_text n) inOrder_null (inOrder_bool false)⟩
  | element | field | call => exact h

theorem isChain_designator (place : Designator) :
    (Operand.designator place).toTree.isChain = false := by
  cases place <;> rfl

theorem operand_ne_null (o : Operand) : o.toTree ≠ .null := by
  cases o with
  | designator place => cases place <;> exact nofun
  | _ => exact nofun

/-- What the productions of expressions take, given this fuel. The loops carry along what has been
read from some earlier place on: they read on from there. -/
structure ReadsOn (fuel : Nat) : Prop where
  expression : ∀ ⦃ts e rest⦄, Gives (expression fuel) ts e rest → Read e.toTree ts rest
  operand : ∀ ⦃ts o rest⦄, Gives (operand fuel) ts o rest →
    Read o.toTree ts rest ∧ kindOf rest ∉ joiningKinds
  joined : ∀ ⦃left start ts o rest⦄,
    Read left.toTree start ts → Gives (joined left fuel) ts o rest →
    Read o.toTree start rest ∧ kindOf rest ∉ joiningKinds
  factor : ∀ ⦃ts o rest⦄, Gives (factor fuel) ts o rest →
    Read o.toTree ts rest ∧ o.toTree.isChain = false
  elements : ∀ ⦃base start ts d rest⦄, Read base.toTree start ts →
    Gives (elements base fuel) ts d rest → Read d.toTree start rest
  arguments : ∀ ⦃ts es rest⦄, Gives (callArguments fuel) ts es rest →
    Mark.Covers (.sign .lparen :: (readings (exprTrees es) ++ [.sign .rparen])) ts rest ∧
      ∀ t ∈ exprTrees es, t.InOrder
  expressions : ∀ ⦃ts es rest⦄, Gives (expressions fuel) ts es rest →
    Mark.Covers (readings (exprTrees es)) ts rest ∧ (∀ t ∈ exprTrees es, t.InOrder) ∧ es ≠ []

namespace ReadsOn

variable {fuel : Nat} {ts rest : List Token}

/-- Without fuel nothing is read. -/
theorem zero : ReadsOn 0 where
  expression _ _ _ h := absurd h not_gives_throw
  operand _ _ _ h := absurd h not_gives_throw
  joined _ _ _ _ _ _ h := absurd h not_gives_throw
  factor _ _ _ h := absurd h not_gives_throw
  elements _ _ _ _ _ _ h := absurd h not_gives_throw
  arguments _ _ _ h := absurd h not_gives_throw
  expressions _ _ _ h := absurd h not_gives_throw

/-- A comparing operator that comes after a chain is none that could have joined it. -/
theorem relational_of_comparing : ∀ kind ∈ comparingKinds, kind ∉ joiningKinds →
    kind ∈ relationalKinds := by
  decide

theorem kindOf_ne_eof {kinds : List TokenKind} (heof : .eof ∉ kinds) (h : kindOf ts ∈ kinds) :
    kindOf ts ≠ .eof :=
  fun hkind => heof (hkind ▸ h)

theorem expression_succ (ih : ReadsOn fuel) {e : Expr}
    (h : Gives (Grammar.expression (fuel + 1)) ts e rest) : Read e.toTree ts rest := by
  obtain ⟨left, mid, hleft, h⟩ := gives_bind.1 h
  obtain ⟨hread, hstop⟩ := ih.operand hleft
  rw [gives_atAny_bind] at h
  split at h
  next hcompares =>
    -- The chain before the operator has ended, so the operator is neither `AND` nor `OR`.
    have hkind : kindOf mid ∈ comparingKinds := by simpa using hcompares
    obtain ⟨t, mid, rfl, hafter⟩ := gives_takeAny_bind (kindOf_ne_eof (by decide) hkind) h
    obtain ⟨right, hright, rfl⟩ := gives_bind_pure.1 hafter
    obtain ⟨hread', -⟩ := ih.operand hright
    have hfits : (Mark.comparing t.value).Fits t := ⟨relational_of_comparing _ hkind hstop, rfl⟩
    refine ⟨hread.covers.append (hread'.covers.cons hfits), ?_⟩
    refine inOrder_expression hread.inOrder (inOrder_text _) hread'.inOrder ?_
    exact iff_of_false nofun (operand_ne_null right)
  next =>
    obtain ⟨rfl, rfl⟩ := gives_pure.1 h
    exact ⟨hread.covers, inOrder_expression hread.inOrder inOrder_null inOrder_null Iff.rfl⟩

variable {o : Operand} {start : List Token}

theorem operand_succ (ih : ReadsOn fuel) (h : Gives (Grammar.operand (fuel + 1)) ts o rest) :
    Read o.toTree ts rest ∧ kindOf rest ∉ joiningKinds := by
  obtain ⟨first, mid, hfirst, h⟩ := gives_bind.1 h
  exact ih.joined (ih.factor hfirst).1 h

theorem joined_succ (ih : ReadsOn fuel) {left : Operand} (hleft : Read left.toTree start ts)
    (h : Gives (Grammar.joined left (fuel + 1)) ts o rest) :
    Read o.toTree start rest ∧ kindOf rest ∉ joiningKinds := by
  rw [Grammar.joined, gives_atAny_bind] at h
  split at h
  next hjoins =>
    have hkind : kindOf ts ∈ joiningKinds := by simpa using hjoins
    obtain ⟨t, mid, rfl, hafter⟩ := gives_takeAny_bind (kindOf_ne_eof (by decide) hkind) h
    obtain ⟨right, mid, hright, h⟩ := gives_bind.1 hafter
    obtain ⟨hread, hfactor⟩ := ih.factor hright
    have hfits : (Mark.joining t.value).Fits t := ⟨hkind, rfl⟩
    -- With the operator and its right operand the chain goes on as the left one of the next.
    have hchain : Read (Operand.binary left t.value right).toTree start mid :=
      ⟨hleft.covers.append (hread.covers.cons hfits),
        inOrder_simple t.value hleft.inOrder hread.inOrder hfactor⟩
    exact ih.joined hchain h
  next hstop =>
    obtain ⟨rfl, rfl⟩ := gives_pure.1 h
    exact ⟨hleft, by simpa using hstop⟩

/-- A name with its indices, and the field or the arguments after it. -/
theorem designator_read (ih : ReadsOn fuel) {place : Designator}
    (hplace : Read place.toTree start ts) (h : Gives (do
      if ← skip .dot then return Operand.designator (.field place (← take .identifier))
      else if ← at? .lparen then return .designator (.call place (← callArguments fuel))
      else return .designator place) ts o rest) :
    Read o.toTree start rest ∧ o.toTree.isChain = false := by
  obtain ⟨dot, mid, rfl, hdot, h⟩ | ⟨-, h⟩ := gives_skip_bind (by decide) h
  · obtain ⟨field, mid, rfl, hfield, h⟩ := gives_take_bind (by decide) h
    obtain ⟨rfl, rfl⟩ := gives_pure.1 h
    have hname : (Mark.name field.value).Fits field := ⟨hfield, rfl⟩
    refine ⟨⟨hplace.covers.append ((Mark.Covers.single hname).sign hdot), ?_⟩, rfl⟩
    exact .of_parts trivial (fun _ h => by cases h) (by
      simp [Operand.toTree, Designator.toTree, parts, hplace.inOrder])
  · rw [if_neg Bool.false_ne_true, gives_at?_bind] at h
    split at h
    next =>
      obtain ⟨es, hes, rfl⟩ := gives_bind_pure.1 h
      obtain ⟨hcovers, hinOrder⟩ := ih.arguments hes
      refine ⟨⟨hplace.covers.append hcovers, ?_⟩, rfl⟩
      exact .of_parts trivial (fun _ h => by cases h) (by
        simp [Operand.toTree, Designator.toTree, parts, hplace.inOrder, InOrder.list hinOrder])
    next =>
      obtain ⟨rfl, rfl⟩ := gives_pure.1 h
      exact ⟨hplace.designator, isChain_designator place⟩

theorem read_value {value : Tree} {m : Mark} {t : Token} (hvalue : value.InOrder)
    (hreading : (Tree.factor value .null .null (.bool false)).reading = [m]) (ht : m.Fits t) :
    Read (.factor value .null .null (.bool false)) (t :: rest) rest := by
  refine ⟨?_, inOrder_factor hvalue inOrder_null inOrder_null (inOrder_bool false)⟩
  rw [hreading]
  exact .single ht

theorem literal_read {wanted : TokenKind} (hwanted : wanted ∈ [.string, .char])
    (h : Gives (do return Operand.literal (← take wanted)) ts o rest) :
    Read o.toTree ts rest ∧ o.toTree.isChain = false := by
  have hsome : wanted ≠ .eof := by
    rintro rfl
    exact absurd hwanted (by decide)
  obtain ⟨t, mid, rfl, hkind, h⟩ := gives_take_bind hsome h
  obtain ⟨rfl, rfl⟩ := gives_pure.1 h
  have hfits : (Mark.literal t.value).Fits t := ⟨hkind ▸ hwanted, rfl⟩
  exact ⟨read_value (inOrder_text _) rfl hfits, rfl⟩

theorem factor_succ (ih : ReadsOn fuel) (h : Gives (Grammar.factor (fuel + 1)) ts o rest) :
    Read o.toTree ts rest ∧ o.toTree.isChain = false := by
  rw [Grammar.factor, gives_kind_bind] at h
  split at h
  next =>
    obtain ⟨t, mid, n, rfl, hkind, hn, h⟩ := gives_takeNumber_bind h
    obtain ⟨rfl, rfl⟩ := gives_pure.1 h
    have hfits : (Mark.number n).Fits t := ⟨hkind, n, hn, rfl⟩
    exact ⟨read_value (inOrder_int n) rfl hfits, rfl⟩
  next => exact literal_read (by decide) h
  next => exact literal_read (by decide) h
  next =>
    obtain ⟨t, mid, rfl, hkind, h⟩ := gives_take_bind (by decide) h
    obtain ⟨place, mid', hplace, h⟩ := gives_bind.1 h
    have hname : (Mark.name t.value).Fits t := ⟨hkind, rfl⟩
    have hstart : Read (Designator.name t.value).toTree (t :: mid) mid :=
      ⟨.single hname, inOrder_text _⟩
    exact ih.designator_read (ih.elements hstart hplace) h
  next hkind =>
    obtain ⟨t, mid, rfl, hafter⟩ := gives_takeAny_bind (by rw [hkind]; decide) h
    obtain ⟨rfl, rfl⟩ := gives_pure.1 hafter
    exact ⟨read_value (inOrder_bool true) rfl hkind, rfl⟩
  next hkind =>
    obtain ⟨t, mid, rfl, hafter⟩ := gives_takeAny_bind (by rw [hkind]; decide) h
    obtain ⟨rfl, rfl⟩ := gives_pure.1 hafter
    exact ⟨read_value (inOrder_bool false) rfl hkind, rfl⟩
  next hkind =>
    obtain ⟨t, mid, rfl, hafter⟩ := gives_takeAny_bind (by rw [hkind]; decide) h
    obtain ⟨inner, mid, hinner, h⟩ := gives_bind.1 hafter
    obtain ⟨close, mid, rfl, hclose, h⟩ := gives_take_bind (by decide) h
    obtain ⟨rfl, rfl⟩ := gives_pure.1 h
    have hread := ih.expression hinner
    refine ⟨⟨hread.covers.enclosed hkind hclose, ?_⟩, rfl⟩
    exact inOrder_factor inOrder_null inOrder_null hread.inOrder (inOrder_bool false)
  next hkind =>
    obtain ⟨t, mid, rfl, hafter⟩ := gives_takeAny_bind (by rw [hkind]; decide) h
    obtain ⟨inner, hinner, rfl⟩ := gives_bind_pure.1 hafter
    have hread := (ih.factor hinner).1
    refine ⟨⟨hread.covers.sign hkind, ?_⟩, rfl⟩
    exact inOrder_factor inOrder_null inOrder_null hread.inOrder (inOrder_bool true)
  next => exact absurd h not_gives_reject

theorem elements_succ (ih : ReadsOn fuel) {base d : Designator} (hbase : Read base.toTree start ts)
    (h : Gives (Grammar.elements base (fuel + 1)) ts d rest) : Read d.toTree start rest := by
  obtain ⟨opening, mid, rfl, hopening, h⟩ | ⟨-, h⟩ := gives_skip_bind (by decide) h
  · obtain ⟨index, mid, hindex, h⟩ := gives_bind.1 h
    obtain ⟨close, mid, rfl, hclose, h⟩ := gives_take_bind (by decide) h
    have hread := ih.expression hindex
    -- The element with this index is what the next index is taken of.
    have helement : Read (Designator.element base index).toTree start mid :=
      ⟨hbase.covers.append (hread.covers.enclosed hopening hclose),
        .of_parts trivial nofun (by
          simp [Designator.toTree, parts, hbase.inOrder, hread.inOrder])⟩
    exact ih.elements helement h
  · obtain ⟨rfl, rfl⟩ := gives_pure.1 h
    exact hbase

theorem arguments_succ (ih : ReadsOn fuel) {es : List Expr}
    (h : Gives (callArguments (fuel + 1)) ts es rest) :
    Mark.Covers (.sign .lparen :: (readings (exprTrees es) ++ [.sign .rparen])) ts rest ∧
      ∀ t ∈ exprTrees es, t.InOrder := by
  obtain ⟨opening, mid, rfl, hopening, h⟩ := gives_take_bind (by decide) h
  rw [gives_at?_bind] at h
  obtain ⟨given, mid', hgiven, h⟩ : ∃ given mid',
      (Mark.Covers (readings (exprTrees given)) mid mid' ∧ ∀ t ∈ exprTrees given, t.InOrder) ∧
        Gives (do let _ ← take .rparen; return given) mid' es rest := by
    split at h
    next =>
      have h : Gives (do let _ ← take .rparen; return []) mid es rest := h
      exact ⟨[], mid, ⟨.nil mid, nofun⟩, h⟩
    next =>
      obtain ⟨given, mid', hgiven, h⟩ := gives_bind.1 h
      obtain ⟨hcovers, hinOrder, -⟩ := ih.expressions hgiven
      exact ⟨given, mid', ⟨hcovers, hinOrder⟩, h⟩
  obtain ⟨close, mid', rfl, hclose, h⟩ := gives_take_bind (by decide) h
  obtain ⟨rfl, rfl⟩ := gives_pure.1 h
  exact ⟨hgiven.1.enclosed hopening hclose, hgiven.2⟩

theorem expressions_succ (ih : ReadsOn fuel) {es : List Expr}
    (h : Gives (Grammar.expressions (fuel + 1)) ts es rest) :
    Mark.Covers (readings (exprTrees es)) ts rest ∧ (∀ t ∈ exprTrees es, t.InOrder) ∧ es ≠ [] := by
  obtain ⟨first, mid, hfirst, h⟩ := gives_bind.1 h
  have hread := ih.expression hfirst
  obtain ⟨comma, mid, rfl, hcomma, h⟩ | ⟨-, h⟩ := gives_skip_bind (by decide) h
  · obtain ⟨others, hothers, rfl⟩ := gives_bind_pure.1 h
    obtain ⟨hcovers, hinOrder, hne⟩ := ih.expressions hothers
    obtain ⟨second, others, rfl⟩ := List.exists_cons_of_ne_nil hne
    refine ⟨hread.covers.append (hcovers.sign hcomma), ?_, List.cons_ne_nil _ _⟩
    exact List.forall_mem_cons.2 ⟨hread.inOrder, hinOrder⟩
  · obtain ⟨rfl, rfl⟩ := gives_pure.1 h
    exact ⟨hread.covers, List.forall_mem_singleton.2 hread.inOrder, List.cons_ne_nil _ _⟩

end ReadsOn

theorem expressions_read : ∀ fuel, ReadsOn fuel
  | 0 => .zero
  | fuel + 1 =>
    have ih := expressions_read fuel
    { expression := fun _ _ _ => ih.expression_succ
      operand := fun _ _ _ => ih.operand_succ
      joined := fun _ _ _ _ _ => ih.joined_succ
      factor := fun _ _ _ => ih.factor_succ
      elements := fun _ _ _ _ _ => ih.elements_succ
      arguments := fun _ _ _ => ih.arguments_succ
      expressions := fun _ _ _ => ih.expressions_succ }

end Grammar

/-! ### Expressions -/

/-- The tokens that an expression takes are those of its tree from left to right, wherever in a list
of tokens it starts. In the tree each chain is an operand, an operator and an operand that is no
chain, and a comparison has an operator if and only if it has a right side. -/
theorem Production.expression_reading {tokens : List Token} {start taken : Nat} {tree : Tree}
    (h : Production.expression.parse (tokens.drop start) = .ok (tree, taken)) :
    start + taken ≤ tokens.length ∧
      List.Forall₂ Mark.Fits tree.reading ((tokens.drop start).take taken) ∧
      (∀ terms operator, (Tree.simple terms operator).StandsIn tree →
        ∃ left right, terms = .list [left, operator, right] ∧ right.isChain = false) ∧
      ∀ left operator right, (Tree.expression left operator right).StandsIn tree →
        (operator = .null ↔ right = .null) := by
  obtain ⟨e, mid, he, rfl, rfl⟩ := (Production.parse_eq_ok rfl).1 h
  obtain ⟨⟨used, hused, hfits⟩, hinOrder⟩ := (Grammar.expressions_read _).expression he
  have htaken : (tokens.drop start).length - mid.length = used.length := by
    rw [hused, List.length_append, Nat.add_sub_cancel]
  have hlength : (tokens.drop start).length = tokens.length - start := List.length_drop
  refine ⟨?_, ?_, fun _ _ hchain => hinOrder _ hchain, fun _ _ _ hcompare => hinOrder _ hcompare⟩
  · -- There is a token where the expression starts, since none is formed by no tokens.
    have hsome : tokens.drop start ≠ [] := by
      intro hnil
      rw [hnil] at he
      exact absurd (congrArg Prod.fst he) nofun
    have hpos := List.length_pos_iff.2 hsome
    omega
  · rwa [htaken, hused, List.take_left]

/-- Tokens that no text has: an end mark at the start, operators with odd texts, and more tokens
after the expression. -/
def oddTokens : List Token :=
  [⟨.eof, "", 0, 0⟩, ⟨.identifier, "x", 1, 1⟩, ⟨.lbracket, "(.", 1, 2⟩, ⟨.number, "٣", 1, 3⟩,
    ⟨.rbracket, ".)", 1, 4⟩, ⟨.dot, ".", 1, 5⟩, ⟨.identifier, "y", 1, 6⟩, ⟨.kwAnd, "&&", 1, 7⟩,
    ⟨.kwNot, "!", 1, 8⟩, ⟨.identifier, "f", 1, 9⟩, ⟨.lparen, "(", 1, 10⟩, ⟨.char, "c", 1, 11⟩,
    ⟨.comma, ",", 1, 12⟩, ⟨.kwTrue, "yes", 1, 13⟩, ⟨.rparen, ")", 1, 14⟩, ⟨.neq, "#", 1, 15⟩,
    ⟨.number, "02", 1, 16⟩, ⟨.lt, "<", 1, 17⟩]

/-- The marks of the tokens from the second one up to the last but one. -/
theorem Production.expression_reading_oddTokens :
    ∃ tree, Production.expression.parse (oddTokens.drop 1) = .ok (tree, 16) ∧
      tree.reading = [.name "x", .sign .lbracket, .number 3, .sign .rbracket, .sign .dot, .name "y",
        .joining "&&", .sign .kwNot, .name "f", .sign .lparen, .literal "c", .sign .comma,
        .sign .kwTrue, .sign .rparen, .comparing "#", .number 2] ∧
      List.Forall₂ Mark.Fits tree.reading ((oddTokens.drop 1).take 16) := by
  have hreading : (Production.expression.parse (oddTokens.drop 1)).toOption.map (fun result =>
      (result.1.reading, result.2)) = some ([.name "x", .sign .lbracket, .number 3, .sign .rbracket,
        .sign .dot, .name "y", .joining "&&", .sign .kwNot, .name "f", .sign .lparen, .literal "c",
        .sign .comma, .sign .kwTrue, .sign .rparen, .comparing "#", .number 2], 16) := by
    decide
  cases h : Production.expression.parse (oddTokens.drop 1) with
  | error e =>
    rw [h] at hreading
    exact absurd hreading nofun
  | ok result =>
    obtain ⟨tree, taken⟩ := result
    rw [h] at hreading
    obtain ⟨hmarks, rfl⟩ := Prod.mk.inj (Option.some.inj hreading)
    exact ⟨tree, rfl, hmarks, (Production.expression_reading h).2.1⟩

end MiniPascal
