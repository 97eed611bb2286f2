import MiniPascal.Proofs.Code.Shape
import MiniPascal.Proofs.Listing.Nesting
import MiniPascal.Proofs.Rendering

/-!
# Which Expressions Have Outlines

An element, a field and a call have no outline. Most of what stands around one shows its written
form instead, but a negation needs an outline of what it negates.

* `Expr.outline_misses`: this is all that keeps an expression from having an outline.
-/

namespace MiniPascal

open MiniPascal.Tree

/-- Whether an operand is an element, a field or a call. -/
def Operand.isAccess : Operand → Bool
  | .designator (.name _) => false
  | .designator _ => true
  | _ => false

mutual

/-- Whether an element, a field or a call is negated, where only comparisons, operators, parentheses
and negations stand around it. -/
def Expr.negatesAccess : Expr → Bool
  | .operand value => value.negatesAccess
  | .compare left _ right => left.negatesAccess || right.negatesAccess

def Operand.negatesAccess : Operand → Bool
  | .group inner => inner.negatesAccess
  | .negation inner => inner.isAccess || inner.negatesAccess
  | .binary left _ right => left.negatesAccess || right.negatesAccess
  | _ => false

end

section MissesIf

variable {α β : Type} {lacks lacks' : Bool} {x : Except Fault α} {f : α → Except Fault β}

/-- A step finds that a part is missing, or it ends well. -/
def MissesIf (lacks : Bool) (x : Except Fault α) : Prop :=
  if lacks then x = .error .noSuchPart else Succeeds x

namespace MissesIf

theorem pure (v : α) : MissesIf false (Pure.pure v : Except Fault α) := succeeds_pure v

theorem bind (hx : MissesIf lacks x) (hf : ∀ v, MissesIf lacks' (f v)) :
    MissesIf (lacks || lacks') (x >>= f) := by
  cases lacks with
  | true =>
    rw [show x = .error .noSuchPart from hx]
    exact rfl
  | false =>
    obtain ⟨v, rfl⟩ : Succeeds x := hx
    exact hf v

theorem before (hx : MissesIf lacks x) (hf : ∀ v, MissesIf false (f v)) :
    MissesIf lacks (x >>= f) :=
  Bool.or_false lacks ▸ hx.bind hf

theorem iff (hx : MissesIf lacks x) :
    (x = .error .noSuchPart ↔ lacks = true) ∧ (Succeeds x ↔ lacks = false) := by
  cases lacks with
  | true =>
    rw [show x = .error .noSuchPart from hx]
    exact ⟨iff_of_true rfl rfl, iff_of_false (not_succeeds_error _) fun h => by cases h⟩
  | false =>
    obtain ⟨v, rfl⟩ : Succeeds x := hx
    exact ⟨iff_of_false (fun h => by cases h) Bool.false_ne_true, iff_of_true (succeeds_ok v) rfl⟩

end MissesIf

end MissesIf

theorem Operand.hasOutline_toTree (o : Operand) : o.toTree.hasOutline = !o.isAccess := by
  cases o with
  | designator place => cases place <;> rfl
  | _ => rfl

theorem Operand.negatesAccess_of_isAccess {o : Operand} (h : o.isAccess = true) :
    o.negatesAccess = false := by
  cases o with
  | designator place => rfl
  | _ => cases h

theorem Operand.succeeds_plain_of_isAccess {o : Operand} (h : o.isAccess = true) :
    Succeeds o.toTree.plain := by
  cases o with
  | designator place =>
    cases place with
    | name n => cases h
    | element base index => exact (Designator.element base index).succeeds_render
    | field base f => exact (Designator.field base f).succeeds_render
    | call base arguments => exact (Designator.call base arguments).succeeds_render
  | _ => cases h

/-- An operand is shown by its outline, or in another way that never fails. -/
theorem Operand.misses_part {o : Operand} {shown : Except Fault Tree} {α : Type}
    {next : Tree → Except Fault α} {lacks : Bool}
    (h : MissesIf (o.isAccess || o.negatesAccess) o.toTree.outline)
    (hshown : o.isAccess = true → Succeeds shown) (hnext : ∀ t, MissesIf lacks (next t)) :
    MissesIf (o.negatesAccess || lacks)
      (if o.toTree.hasOutline then o.toTree.outline >>= next else shown >>= next) := by
  rw [hasOutline_toTree]
  cases haccess : o.isAccess with
  | false =>
    rw [haccess] at h
    exact h.bind hnext
  | true =>
    rw [negatesAccess_of_isAccess haccess]
    obtain ⟨t, rfl⟩ := hshown haccess
    exact hnext t

theorem Operand.misses_shown {o : Operand} {α : Type} {next : Tree → Except Fault α} {lacks : Bool}
    (h : MissesIf (o.isAccess || o.negatesAccess) o.toTree.outline)
    (hnext : ∀ t, MissesIf lacks (next t)) :
    MissesIf (o.negatesAccess || lacks) (if o.toTree.hasOutline then o.toTree.outline >>= next
      else (Tree.text <$> o.toTree.plain) >>= next) :=
  misses_part h
    (fun haccess => (succeeds_plain_of_isAccess haccess).bind fun _ _ => succeeds_pure _) hnext

theorem misses_outlineItems_cons {o : Operand} {rest : List Tree} {lacks : Bool}
    (h : MissesIf (o.isAccess || o.negatesAccess) o.toTree.outline)
    (hrest : MissesIf lacks (outlineItems rest)) :
    MissesIf (o.negatesAccess || lacks) (outlineItems (o.toTree :: rest)) := by
  exact Operand.misses_part h (fun _ => succeeds_ok _) fun _ => hrest.before fun _ => .pure _

theorem misses_outline_inner {inner : Tree} {lacks : Bool} (hinner : inner.isNull = false)
    (h : MissesIf lacks inner.outline) (negated : Bool) :
    MissesIf lacks (outline (.factor .null .null inner (.bool negated))) := by
  have hnull : ¬(!Tree.null.isNull) = true := Bool.false_ne_true
  rw [outline, if_neg hnull, if_neg hnull, hinner]
  exact h.before fun _ => .pure _

section

variable {V : Vocabulary}

-- An operator without a text would hide what follows it. No such operator stands beside something
-- negated if the expression is made from the words of a text.
mutual

theorem Expr.misses_outline (hV : ¬V.operator "") : ∀ {e : Expr},
    (e.negatesAccess = true → e.Within V) → MissesIf e.negatesAccess e.toTree.outline
  | .operand o, h => by
    rw [Expr.toTree, outline, Expr.negatesAccess, ← Bool.or_false o.negatesAccess]
    exact Operand.misses_shown (o.misses_outline hV h) fun _ => .pure _
  | .compare left operator right, h => by
    have hleft := left.misses_outline hV fun hl => (h (Bool.or_eq_true_iff.2 (.inl hl))).1
    have hright := right.misses_outline hV fun hr => (h (Bool.or_eq_true_iff.2 (.inr hr))).2.2
    rw [Expr.toTree, outline, right.isTruthy_toTree, Bool.and_true, Expr.negatesAccess]
    refine Operand.misses_shown hleft fun l => ?_
    by_cases hoperator : operator = ""
    · have hnone : right.negatesAccess = false := by
        by_contra hr
        have hwithin := h (Bool.or_eq_true_iff.2 (.inr (eq_true_of_ne_false hr)))
        exact hV (hoperator ▸ hwithin.2.1)
      rw [hnone, hoperator]
      exact .pure _
    · have htruthy : (Tree.text operator).isTruthy = true := by simpa [isTruthy] using hoperator
      rw [htruthy, ← Bool.or_false right.negatesAccess]
      exact Operand.misses_shown hright fun _ => .pure _

theorem Operand.misses_outline (hV : ¬V.operator "") : ∀ (o : Operand),
    (o.negatesAccess = true → o.Within V) →
      MissesIf (o.isAccess || o.negatesAccess) o.toTree.outline
  | .number _, _ | .literal _, _ | .truth _, _ | .designator (.name _), _ => succeeds_ok _
  | .designator (.element _ _), _ | .designator (.field _ _), _ | .designator (.call _ _), _ => rfl
  | .group inner, h =>
    misses_outline_inner inner.isNull_toTree (Expr.misses_outline hV (e := inner) h) false
  | .negation inner, h =>
    misses_outline_inner inner.isNull_toTree
      (inner.misses_outline hV fun hi => (h (Bool.or_eq_true_iff.2 (.inr hi))).2) true
  | .binary left operator right, h => by
    have hleft := left.misses_outline hV fun hl => (h (Bool.or_eq_true_iff.2 (.inl hl))).1
    have hright := right.misses_outline hV fun hr => (h (Bool.or_eq_true_iff.2 (.inr hr))).2.2.2
    have hlast : MissesIf right.negatesAccess (outlineItems [right.toTree]) :=
      Bool.or_false right.negatesAccess ▸ misses_outlineItems_cons hright (succeeds_ok [])
    have hoperator : MissesIf right.negatesAccess (outlineItems [.text operator, right.toTree]) :=
      hlast.before fun _ => .pure _
    exact (misses_outlineItems_cons hleft hoperator).before fun _ => .pure _

end

/-- An operand that is no access and negates none has an outline. -/
theorem Operand.succeeds_outline {o : Operand} (haccess : o.isAccess = false)
    (h : o.negatesAccess = false) : Succeeds o.toTree.outline := by
  have hmisses := o.misses_outline (V := .plain) (fun hempty => hempty.1 rfl)
    fun htrue => absurd (h.symm.trans htrue) Bool.false_ne_true
  exact hmisses.iff.2.2 (Bool.or_eq_false_iff.2 ⟨haccess, h⟩)

end

/-- An expression that is parsed from a text, wherever it starts, lacks an outline if and only if an
element, a field or a call is negated in it, where only comparisons, operators, parentheses and
negations stand around; then a part is missing. In every other case there is an outline. -/
theorem Expr.outline_misses {text : String} {tokens rest : List Token} {start fuel : Nat} {e : Expr}
    (htokens : Token.lex text = .ok tokens)
    (hparse : (Grammar.expression fuel).run (tokens.drop start) = .ok (e, rest)) :
    (e.toTree.outline = .error .noSuchPart ↔ e.negatesAccess = true) ∧
      (Succeeds e.toTree.outline ↔ e.negatesAccess = false) :=
  (Expr.misses_outline (V := .plain) (fun hempty => hempty.1 rfl)
    fun _ => Expr.within_of_run htokens hparse).iff

/-- There is no outline of `1 < (2 + not a[3])`. There is one of `not (a[not f(1)])`, where a group
is negated, and a call in an index. -/
theorem Expr.outline_misses_index :
    (∃ tokens e rest, Token.lex "1 < (2 + not a[3])" = .ok tokens ∧
      (Grammar.expression 60).run tokens = .ok (e, rest) ∧
      e.toTree.outline = .error .noSuchPart) ∧
    ∃ tokens e rest, Token.lex "not (a[not f(1)])" = .ok tokens ∧
      (Grammar.expression 60).run tokens = .ok (e, rest) ∧ Succeeds e.toTree.outline := by
  obtain ⟨tokens, e, rest, htokens, hparse, hlacks⟩ := Expr.exists_of_lexChars
    (s := "1 < (2 + not a[3])") String.toList_ofList Expr.negatesAccess (by decide +kernel)
  obtain ⟨tokens', e', rest', htokens', hparse', hlacks'⟩ := Expr.exists_of_lexChars
    (s := "not (a[not f(1)])") String.toList_ofList (!·.negatesAccess) (by decide +kernel)
  exact ⟨⟨tokens, e, rest, htokens, hparse, (Expr.outline_misses htokens hparse).1.2 hlacks⟩,
    tokens', e', rest', htokens', hparse',
    (Expr.outline_misses htokens' hparse').2.2 (by simpa using hlacks')⟩

end MiniPascal
