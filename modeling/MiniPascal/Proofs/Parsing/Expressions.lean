import MiniPascal.Proofs.Parsing.Steps

/-!
# Parsing Spelled Expressions

Every production of expressions gives back what was spelled. Operators and indices are read from
left to right by `joined` and `elements`, which carry along what has been read; for these a spelling
leads to the state in which all of it has been read, with fuel to spare.

* `exprs_parses`: so are the arguments of a call.
-/

namespace MiniPascal

open Parse Grammar

/-- The kinds of token that go on with a name: an index, a field or arguments. -/
def selectingKinds : List TokenKind := [.lbracket, .dot, .lparen]

def operandStop : List TokenKind := selectingKinds ++ joiningKinds

def expressionStop : List TokenKind := operandStop ++ comparingKinds

/-! ### First tokens -/

def startingKinds : List TokenKind :=
  [.number, .string, .char, .kwTrue, .kwFalse, .identifier, .lparen, .kwNot]

def StartsWith (kinds : List TokenKind) (ls : List Lexeme) : Prop :=
  ∃ l ls', ls = l :: ls' ∧ l.1 ∈ kinds

variable {kinds : List TokenKind} {ls : List Lexeme} {e : Expr} {o : Operand} {d : Designator}

theorem StartsWith.append (h : StartsWith kinds ls) (ms : List Lexeme) :
    StartsWith kinds (ls ++ ms) := by
  obtain ⟨l, ls', rfl, hl⟩ := h
  exact ⟨l, ls' ++ ms, rfl, hl⟩

theorem StartsWith.separated {kinds : List TokenKind} {ls : List Lexeme} (h : StartsWith kinds ls)
    (mark : Lexeme) (more : List (List Lexeme)) :
    StartsWith kinds (Lexeme.separated mark (ls :: more)) := by
  cases more with
  | nil => exact h
  | cons => exact h.append _

theorem StartsWith.heads {next P : TokenKind → Prop} (h : StartsWith kinds ls)
    (hP : ∀ k ∈ kinds, P k) : Heads ls next P := by
  obtain ⟨l, ls', rfl, hl⟩ := h
  exact .cons (hP _ hl)

theorem Designator.startsWith : ∀ d : Designator, StartsWith [.identifier] d.lexemes
  | .name n => ⟨.name n, [], rfl, List.mem_singleton_self _⟩
  | .element base _ | .field base _ | .call base _ => base.startsWith.append _

theorem Operand.startsWith : ∀ o : Operand, StartsWith startingKinds o.lexemes
  | .number n => ⟨.number n, [], rfl, by simp [Lexeme.number, startingKinds]⟩
  | .literal s => ⟨.literal s, [], rfl, by simp [Lexeme.literal, startingKinds]; tauto⟩
  | .truth b => ⟨.truth b, [], rfl, by cases b <;> decide⟩
  | .designator place => by
    obtain ⟨l, ls, hls, hl⟩ := place.startsWith
    exact ⟨l, ls, hls, by rw [List.mem_singleton.1 hl]; decide⟩
  | .group _ => ⟨.lparen, _, rfl, by decide⟩
  | .negation _ => ⟨_, _, rfl, by decide⟩
  | .binary left _ _ => left.startsWith.append _

theorem Expr.startsWith : ∀ e : Expr, StartsWith startingKinds e.lexemes
  | .operand value => value.startsWith
  | .compare left _ _ => left.startsWith.append _

/-! ### Factors -/

theorem number_parses {written : String} {n : Nat} (h : Text.readNat? written = some n) :
    Parses factor 2 selectingKinds [(.number, written)] (.number n) :=
  .succ fun _ _ => .kind .number (.cons rfl) (.takeNumber h .pure)

theorem literal_parses (s : String) :
    Parses factor 2 selectingKinds [.literal s] (.literal s) := by
  refine .succ fun _ _ => ?_
  by_cases hs : s.length = 1
  · exact .kind .char (.cons (if_pos hs)) (.take (if_pos hs) .pure)
  · exact .kind .string (.cons (if_neg hs)) (.take (if_neg hs) .pure)

theorem truth_parses (b : Bool) : Parses factor 2 selectingKinds [.truth b] (.truth b) := by
  refine .succ fun _ _ => ?_
  cases b with
  | true => exact .kind .kwTrue (.cons rfl) (.takeAny .pure)
  | false => exact .kind .kwFalse (.cons rfl) (.takeAny .pure)

theorem group_parses (he : Parses expression 4 expressionStop ls e) :
    Parses factor 2 selectingKinds (.lparen :: (ls ++ [.rparen])) (.group e) := by
  refine .succ fun fuel hfuel => .kind .lparen (.cons rfl) (.takeAny ?_)
  rw [List.length_cons, List.length_append] at hfuel
  exact (he fuel (by omega)).bind (.cons (by decide)) (.take rfl .pure)

theorem negation_parses (ho : Parses factor 2 selectingKinds ls o) :
    Parses factor 2 selectingKinds ((.kwNot, "not") :: ls) (.negation o) := by
  refine .succ fun fuel hfuel => .kind .kwNot (.cons rfl) (.takeAny ?_)
  rw [List.length_cons] at hfuel
  exact (ho fuel (by omega)).give

/-! ### Names with indices, fields and arguments -/

/-- A production that adds to a designator what follows it comes, from the name that a spelling
starts with, to the state in which all of the spelling has been read. -/
def ReadBy (more : Designator → Nat → Parse Designator) (d : Designator) : Prop :=
  ∀ fuel ts rest, 8 * d.lexemes.length ≤ fuel → Spells d.lexemes ts rest →
    ∃ t ts' left, ts = t :: ts' ∧ t.kind = .identifier ∧ fuel ≤ left + 8 * d.lexemes.length ∧
      more (.name t.value) fuel ts' = more d left rest

/-- A production that goes on with the element where an index follows. -/
def AddsIndex (more : Designator → Nat → Parse Designator) : Prop :=
  ∀ (base : Designator) (index : Expr) (fuel : Nat) (b u : Token) (mid rest : List Token),
    b.kind = .lbracket → Gives (expression fuel) mid index (u :: rest) → u.kind = .rbracket →
      more base (fuel + 1) (b :: mid) = more (.element base index) fuel rest

theorem ReadBy.name (more : Designator → Nat → Parse Designator) (n : String) :
    ReadBy more (.name n) := by
  intro fuel ts rest _ hts
  obtain ⟨t, ts', rfl, hk, (hv : t.value = n), rfl⟩ := spells_cons.1 hts
  refine ⟨t, ts', fuel, rfl, hk, by omega, ?_⟩
  rw [hv]

theorem ReadBy.element {more : Designator → Nat → Parse Designator} (hmore : AddsIndex more)
    {base : Designator} {index : Expr} (hbase : ReadBy more base)
    (hindex : Parses expression 4 expressionStop index.lexemes index) :
    ReadBy more (.element base index) := by
  intro fuel ts rest hfuel hts
  simp only [Designator.lexemes, List.length_append, List.length_cons, List.length_nil]
    at hfuel hts ⊢
  obtain ⟨mid, hb, hts⟩ := spells_append.1 hts
  obtain ⟨b, mid, rfl, (hbk : b.kind = .lbracket), -, hts⟩ := spells_cons.1 hts
  obtain ⟨mid', hi, hts⟩ := spells_append.1 hts
  obtain ⟨u, rest, rfl, (hu : u.kind = .rbracket), -, rfl⟩ := spells_cons.1 hts
  obtain ⟨t, ts', left, rfl, hk, hleft, hread⟩ := hbase fuel ts _ (by omega) hb
  -- The brackets alone leave fuel for this step.
  obtain ⟨left, rfl⟩ : ∃ l, left = l + 1 := ⟨left - 1, by omega⟩
  refine ⟨t, ts', left, rfl, hk, by omega, ?_⟩
  have hstop : kindOf (u :: rest) ∉ expressionStop := by
    rw [kindOf_cons, hu]
    decide
  have hgives := hindex left (by omega) hi hstop
  rw [hread, hmore base index left b u mid rest hbk hgives hu]

theorem elements_addsIndex : AddsIndex elements := by
  intro base index fuel b u mid rest hb hindex hu
  rw [elements, (gives_skip mid hb).bind_eq, if_pos rfl, hindex.bind_eq,
    (gives_take rest hu).bind_eq]

/-- What a factor does after a name with indices. -/
def designated (place : Designator) (fuel : Nat) : Parse Operand := do
  if ← skip .dot then return .designator (.field place (← take .identifier))
  else if ← at? .lparen then return .designator (.call place (← callArguments fuel))
  else return .designator place

section

variable (hd : ReadBy elements d)

include hd

/-- A factor that starts with a name reads all indices first. -/
theorem factor_eq_designated {fuel : Nat} {ts mid : List Token}
    (hfuel : 8 * d.lexemes.length + 1 ≤ fuel) (hts : Spells d.lexemes ts mid)
    (hmid : kindOf mid ≠ .lbracket) : factor (fuel + 1) ts = designated d fuel mid := by
  obtain ⟨t, ts', left, rfl, hk, hleft, hread⟩ := hd fuel ts mid (by omega) hts
  obtain ⟨left, rfl⟩ : ∃ l, left = l + 1 := ⟨left - 1, by omega⟩
  have hgives : Gives (elements (.name t.value) fuel) ts' d mid := by
    unfold Gives
    rw [hread, elements, (gives_skip_of_ne hmid).bind_eq]
    rfl
  rw [factor, (gives_kind _).bind_eq, kindOf_cons, hk]
  change (take .identifier >>= _) (t :: ts') = _
  rw [(gives_take ts' hk).bind_eq, hgives.bind_eq]
  rfl

/-- A factor that starts with a name goes on after its indices. -/
theorem factor_accepts {fuel : Nat} (hfuel : 8 * d.lexemes.length + 1 ≤ fuel) {ms : List Lexeme}
    {next : TokenKind → Prop} (hms : Heads ms next (· ≠ .lbracket))
    (h : Accepts (designated d fuel) next ms o) :
    Accepts (factor (fuel + 1)) next (d.lexemes ++ ms) o := by
  intro ts rest hts hrest
  obtain ⟨mid, hbase, hts⟩ := spells_append.1 hts
  exact (factor_eq_designated hd hfuel hbase (hms hts hrest)).trans (h hts hrest)

theorem element_parses :
    Parses factor 2 selectingKinds d.lexemes (.designator d) := by
  refine .succ fun fuel hfuel => ?_
  rw [← List.append_nil d.lexemes]
  refine factor_accepts hd hfuel (.stop (by decide)) ?_
  exact .skip_neg (.stop (by decide)) (.at?_neg (.stop (by decide)) .pure)

/-- A field of a name with indices. -/
theorem field_parses (n : String) :
    Parses factor 2 selectingKinds (Designator.field d n).lexemes (.designator (.field d n)) := by
  refine .succ fun fuel hfuel => ?_
  rw [Designator.lexemes, List.length_append] at hfuel
  exact factor_accepts hd (by omega) (.cons (by decide)) (.skip rfl (.take rfl .pure))

theorem call_parses {arguments : List Expr}
    (hargs : arguments ≠ [] → Parses expressions 5 (.comma :: expressionStop)
      (Lexeme.separated .comma (exprSpellings arguments)) arguments) :
    Parses factor 2 selectingKinds (Designator.call d arguments).lexemes
      (.designator (.call d arguments)) := by
  refine .succ fun fuel hfuel => ?_
  simp only [Designator.lexemes, List.length_append, List.length_cons, List.length_nil] at hfuel
  obtain ⟨fuel, rfl⟩ : ∃ f, fuel = f + 1 := ⟨fuel - 1, by omega⟩
  refine factor_accepts hd (by omega) (.cons (by decide)) ?_
  refine .skip_neg (.cons (by decide)) (.at?_pos (.cons rfl) (Accepts.give (.take rfl ?_)))
  cases arguments with
  | nil => exact .at?_pos (.cons rfl) (.pure_bind (.take rfl .pure))
  | cons e es =>
    -- No argument starts with the closing parenthesis, so that the list is not taken for empty.
    have hstart := (e.startsWith.separated .comma (exprSpellings es)).append [.rparen]
    refine .at?_neg (hstart.heads (by decide)) ?_
    exact (hargs (List.cons_ne_nil _ _) fuel (by omega)).bind (.cons (by decide)) (.take rfl .pure)

end

/-! ### Arguments -/

theorem lastArgument_parses (he : Parses expression 4 expressionStop e.lexemes e) :
    Parses expressions 5 (.comma :: expressionStop) e.lexemes [e] := by
  refine .succ fun fuel hfuel => ((he fuel hfuel).weaken (List.subset_cons_self _ _)).last ?_
  exact .skip_neg (.stop List.mem_cons_self) .pure

/-- An argument with further ones after a comma. -/
theorem argument_parses {es : List Expr} (he : Parses expression 4 expressionStop e.lexemes e)
    (hes : Parses expressions 5 (.comma :: expressionStop) ls es) :
    Parses expressions 5 (.comma :: expressionStop) (e.lexemes ++ .comma :: ls) (e :: es) := by
  refine .succ fun fuel hfuel => ?_
  rw [List.length_append, List.length_cons] at hfuel
  exact (he fuel (by omega)).bind (.cons (by decide)) (.skip rfl (hes fuel (by omega)).give)

/-! ### Chains and comparisons -/

/-- Reading an operand leads to the state in which all its operators have been read. -/
def ChainRead (ls : List Lexeme) (o : Operand) : Prop :=
  ∀ fuel ts rest, 8 * ls.length + 2 ≤ fuel → Spells ls ts rest → kindOf rest ∉ selectingKinds →
    ∃ left, fuel ≤ left + 8 * ls.length ∧ operand (fuel + 1) ts = joined o left rest

theorem factor_chainRead (ho : Parses factor 2 selectingKinds ls o) : ChainRead ls o := by
  intro fuel ts rest hfuel hts hrest
  refine ⟨fuel, by omega, ?_⟩
  rw [operand, (ho fuel hfuel hts hrest).bind_eq]

theorem binary_chainRead {rs : List Lexeme} {left right : Operand} {op : String}
    (hleft : ChainRead ls left) (hop : JoinsOperands op)
    (hright : Parses factor 2 selectingKinds rs right) :
    ChainRead (ls ++ .operator op :: rs) (.binary left op right) := by
  intro fuel ts rest hfuel hts hrest
  simp only [List.length_append, List.length_cons] at hfuel ⊢
  obtain ⟨mid, hl, hts⟩ := spells_append.1 hts
  obtain ⟨t, mid, rfl, (ht : t.kind = Lexeme.operatorKind op), (hv : t.value = op), hr⟩ :=
    spells_cons.1 hts
  -- The operator ends the factor before it, and is taken up by `joined`.
  have hjoins : t.kind ∈ joiningKinds := ht ▸ hop
  have hselects : kindOf (t :: mid) ∉ selectingKinds := by
    rw [kindOf_cons]
    revert hjoins
    cases t.kind <;> decide
  obtain ⟨spare, hspare, hread⟩ := hleft fuel ts _ (by omega) hl hselects
  obtain ⟨spare, rfl⟩ : ∃ l, spare = l + 1 := ⟨spare - 1, by omega⟩
  refine ⟨spare, by omega, ?_⟩
  have hmore : joiningKinds.contains (kindOf (t :: mid)) = true := List.contains_iff_mem.2 hjoins
  rw [hread, joined, (gives_atAny _ _).bind_eq, if_pos hmore, (gives_takeAny t mid).bind_eq, hv,
    (hright spare (by omega) hr hrest).bind_eq]

theorem chain_parses (ho : ChainRead ls o) : Parses operand 3 operandStop ls o := by
  refine .succ fun fuel hfuel ts rest hts hrest => ?_
  rw [operandStop, List.mem_append, not_or] at hrest
  obtain ⟨left, hleft, hread⟩ := ho fuel ts rest (by omega) hts hrest.1
  obtain ⟨left, rfl⟩ : ∃ l, left = l + 1 := ⟨left - 1, by omega⟩
  unfold Gives
  rw [hread, joined, (gives_atAny _ _).bind_eq, if_neg (by simpa using hrest.2)]
  rfl

theorem operand_parses (ho : Parses operand 3 operandStop ls o) :
    Parses expression 4 expressionStop ls (.operand o) := by
  refine .succ fun fuel hfuel => ((ho fuel hfuel).weaken (List.subset_append_left _ _)).last ?_
  exact .atAny_neg (.nil fun _ hk hmem => hk (List.mem_append_right _ hmem)) .pure

theorem compare_parses {rs : List Lexeme} {left right : Operand} {op : String}
    (hleft : Parses operand 3 operandStop ls left) (hop : ComparesOperands op)
    (hright : Parses operand 3 operandStop rs right) :
    Parses expression 4 expressionStop (ls ++ .operator op :: rs) (.compare left op right) := by
  -- A sign of comparison ends the operand before it, since it does not join operands.
  have hstop : Lexeme.operatorKind op ∉ operandStop := by
    unfold ComparesOperands at hop
    revert hop
    cases Lexeme.operatorKind op <;> decide
  refine .succ fun fuel hfuel => ?_
  rw [List.length_append, List.length_cons] at hfuel
  refine (hleft fuel (by omega)).bind (.cons hstop) (.atAny_pos (.cons hop.1) (.takeAny ?_))
  exact ((hright fuel (by omega)).weaken (List.subset_append_left _ _)).give

/-! ### All expressions -/

mutual

/-- An expression is read back from its spelling. -/
theorem Expr.parses : ∀ e : Expr, e.WellFormed → Parses expression 4 expressionStop e.lexemes e
  | .operand value, h => operand_parses (chain_parses (value.reads h).2)
  | .compare left _ right, ⟨hl, hop, hr⟩ =>
    compare_parses (chain_parses (left.reads hl).2) hop (chain_parses (right.reads hr).2)

theorem Operand.reads : ∀ o : Operand, o.WellFormed →
    (o.IsFactor → Parses factor 2 selectingKinds o.lexemes o) ∧ ChainRead o.lexemes o
  | .number _, h =>
    have hnumber := number_parses (Text.readNat?_toString h)
    ⟨fun _ => hnumber, factor_chainRead hnumber⟩
  | .literal s, _ => ⟨fun _ => literal_parses s, factor_chainRead (literal_parses s)⟩
  | .truth b, _ => ⟨fun _ => truth_parses b, factor_chainRead (truth_parses b)⟩
  | .designator place, ⟨hvalue, h⟩ =>
    have hplace := (place.reads h).2 hvalue
    ⟨fun _ => hplace, factor_chainRead hplace⟩
  | .group inner, h =>
    have hgroup := group_parses (inner.parses h)
    ⟨fun _ => hgroup, factor_chainRead hgroup⟩
  | .negation inner, ⟨hfactor, h⟩ =>
    have hnegation := negation_parses ((inner.reads h).1 hfactor)
    ⟨fun _ => hnegation, factor_chainRead hnegation⟩
  | .binary left _ right, ⟨hl, hop, hfactor, hr⟩ =>
    ⟨False.elim, binary_chainRead (left.reads hl).2 hop ((right.reads hr).1 hfactor)⟩

theorem Designator.reads : ∀ d : Designator, d.WellFormed →
    (d.IsElement → ReadBy elements d) ∧
      (d.IsValue → Parses factor 2 selectingKinds d.lexemes (.designator d))
  | .name n, _ => ⟨fun _ => .name _ n, fun _ => element_parses (.name _ n)⟩
  | .element base index, ⟨hb, hi⟩ =>
    have hread : base.IsElement → ReadBy elements (.element base index) := fun he =>
      .element elements_addsIndex ((base.reads hb).1 he) (index.parses hi)
    ⟨hread, fun he => element_parses (hread he)⟩
  | .field base n, hb => ⟨False.elim, fun he => field_parses ((base.reads hb).1 he) n⟩
  | .call base arguments, ⟨hb, ha⟩ =>
    ⟨False.elim, fun he => call_parses ((base.reads hb).1 he) (exprs_parses arguments ha)⟩

theorem exprs_parses : ∀ es : List Expr, exprsWellFormed es → es ≠ [] →
    Parses expressions 5 (.comma :: expressionStop)
      (Lexeme.separated .comma (exprSpellings es)) es
  | [], _, h => absurd rfl h
  | [e], ⟨he, _⟩, _ => lastArgument_parses (e.parses he)
  | e :: e' :: es, ⟨he, hes⟩, _ =>
    argument_parses (e.parses he) (exprs_parses (e' :: es) hes (List.cons_ne_nil _ _))

end

end MiniPascal
