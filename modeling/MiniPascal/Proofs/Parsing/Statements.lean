import MiniPascal.Proofs.Parsing.Expressions

/-!
# Parsing Spelled Statements

Statements are read back from their spelling, given that what follows cannot go on with them. Only a
statement that ends in an `if` without `else` can go on with an `else`.
-/

namespace MiniPascal

open Parse Grammar

def Stmt.stop (s : Stmt) : List TokenKind :=
  (if s.endsOpen then [.kwElse] else []) ++ .assign :: expressionStop

theorem Stmt.semicolon_notMem_stop (s : Stmt) : .semicolon ∉ s.stop := by
  rw [Stmt.stop]
  split <;> decide

variable {s : Stmt} {c : Expr} {ss : List Stmt} {next : TokenKind → Prop} {ls : List Lexeme}
  {n : String}

/-- An `else` ends a statement that has no open `if`. -/
theorem Stmt.kwElse_notMem_stop (h : s.endsOpen = false) : .kwElse ∉ s.stop := by
  rw [Stmt.stop, h]
  decide

/-- Whatever goes on with some statement goes on with one that has an open `if`. -/
theorem Stmt.stop_subset {s' : Stmt} (h : s'.endsOpen = true) : s.stop ⊆ s'.stop := by
  rw [Stmt.stop, Stmt.stop, h]
  refine List.append_subset.2 ⟨fun k hk => ?_, List.subset_append_right _ _⟩
  split at hk
  · exact List.mem_append_left _ hk
  · exact absurd hk List.not_mem_nil

/-- What cannot go on with a statement is no assignment sign and cannot go on with an expression. -/
theorem Stmt.notMem_of_notMem_stop {k : TokenKind} (h : k ∉ s.stop) :
    k ∉ TokenKind.assign :: expressionStop := fun hk =>
  h (List.mem_append_right _ hk)

theorem Stmt.notMem_expressionStop {k : TokenKind} (h : k ∉ s.stop) :
    k ∉ expressionStop := fun hk =>
  notMem_of_notMem_stop h (List.mem_cons_of_mem _ hk)

/-! ### Targets of assignments -/

theorem selectors_addsIndex : AddsIndex selectors := by
  intro base index fuel b u mid rest hb hindex hu
  rw [selectors, (gives_skip mid hb).bind_eq, if_pos rfl, hindex.bind_eq,
    (gives_take rest hu).bind_eq]

theorem field_selectorsRead {base : Designator} (hbase : ReadBy selectors base) (n : String) :
    ReadBy selectors (.field base n) := by
  intro fuel ts rest hfuel hts
  simp only [Designator.lexemes, List.length_append, List.length_cons, List.length_nil]
    at hfuel hts ⊢
  obtain ⟨mid, hb, hts⟩ := spells_append.1 hts
  obtain ⟨b, _, rfl, (hbk : b.kind = .dot), -, hts⟩ := spells_cons.1 hts
  obtain ⟨u, rest, rfl, (hu : u.kind = .identifier), (hv : u.value = n), rfl⟩ := spells_cons.1 hts
  obtain ⟨t, ts', left, rfl, hk, hleft, hread⟩ := hbase fuel ts _ (by omega) hb
  obtain ⟨left, rfl⟩ : ∃ l, left = l + 1 := ⟨left - 1, by omega⟩
  refine ⟨t, ts', left, rfl, hk, by omega, ?_⟩
  have hkind : kindOf (b :: u :: rest) ≠ .lbracket := by
    rw [kindOf_cons, hbk]
    decide
  rw [hread, selectors, (gives_skip_of_ne hkind).bind_eq, if_neg (by decide),
    (gives_skip _ hbk).bind_eq, if_pos rfl, (gives_take rest hu).bind_eq, hv]

theorem Designator.selectorsRead :
    ∀ d : Designator, d.IsTarget → d.WellFormed → ReadBy selectors d
  | .name n, _, _ => .name _ n
  | .element base index, ht, ⟨hb, hi⟩ =>
    .element selectors_addsIndex (base.selectorsRead ht hb) (index.parses hi)
  | .field base n, ht, hb => field_selectorsRead (base.selectorsRead ht hb) n

/-- A target is a name, and a selector or what follows the target comes next. -/
theorem Designator.second_of_spells :
    ∀ (d : Designator), d.IsTarget → ∀ {ts rest : List Token}, Spells d.lexemes ts rest →
      ∃ t ts', ts = t :: ts' ∧ t.kind = .identifier ∧
        (kindOf ts' ∈ [TokenKind.lbracket, .dot] ∨ ts' = rest)
  | .name n, _, ts, rest, h => by
    obtain ⟨t, ts', rfl, hk, -, rfl⟩ := spells_cons.1 h
    exact ⟨t, ts', rfl, hk, .inr rfl⟩
  | .element base index, ht, ts, rest, h | .field base n, ht, ts, rest, h => by
    obtain ⟨mid, hb, h⟩ := spells_append.1 h
    obtain ⟨t, ts', rfl, hk, hnext | rfl⟩ := base.second_of_spells ht hb
    · exact ⟨t, ts', rfl, hk, .inl hnext⟩
    · exact ⟨t, ts', rfl, hk, .inl (by rw [kindOf_of_spells h]; decide)⟩

theorem target_parses {d : Designator} (hd : ReadBy selectors d) :
    Parses target 1 selectingKinds d.lexemes d := by
  intro fuel hfuel ts rest hts hrest
  have hkinds : kindOf rest ≠ .lbracket ∧ kindOf rest ≠ .dot ∧ kindOf rest ≠ .lparen := by
    simpa [selectingKinds] using hrest
  obtain ⟨t, ts', left, rfl, hk, hleft, hread⟩ := hd fuel ts rest (by omega) hts
  obtain ⟨left, rfl⟩ : ∃ l, left = l + 1 := ⟨left - 1, by omega⟩
  refine (gives_take _ hk).bind ?_
  unfold Gives
  rw [hread, selectors, (gives_skip_of_ne hkinds.1).bind_eq, if_neg (by decide),
    (gives_skip_of_ne hkinds.2.1).bind_eq]
  rfl

/-! ### Statements that start with a name -/

/-- A name starts an assignment if an assignment sign or a selector follows, and a call
otherwise. -/
theorem statement_name {t : Token} (ht : t.kind = .identifier) (ts : List Token) (fuel : Nat) :
    statement (fuel + 1) (t :: ts) =
      if kindOf ts ∈ [TokenKind.assign, .lbracket, .dot] then assignment fuel (t :: ts)
      else procedureCall fuel (t :: ts) := by
  rw [statement, (gives_kind _).bind_eq, kindOf_cons, ht]
  refine ((gives_get _).bind_eq _).trans ?_
  cases ts with
  | nil => rfl
  | cons u ts =>
    change (if u.kind ∈ _ then assignment fuel else procedureCall fuel) _ = _
    rw [kindOf_cons]
    split <;> rfl

theorem assign_parses {d : Designator} {e : Expr} (htarget : d.IsTarget) (hd : ReadBy selectors d)
    (he : Parses expression 4 expressionStop e.lexemes e) :
    Parses statement 1 (Stmt.assign d e).stop (Stmt.assign d e).lexemes (.assign d e) := by
  refine .succ fun fuel hfuel ts rest hts hrest => ?_
  simp only [Stmt.lexemes, List.length_append, List.length_cons] at hfuel
  have hvalue := (he fuel (by omega)).mono fun _ => Stmt.notMem_expressionStop (s := .assign d e)
  have hread : Accepts (assignment fuel) (· ∉ (Stmt.assign d e).stop) (Stmt.assign d e).lexemes
      (.assign d e) :=
    (target_parses hd fuel (by omega)).bind (.cons (by decide)) (.take rfl hvalue.give)
  have hgives := hread hts hrest
  -- The second token tells the assignment from a call: a selector, or the sign itself.
  obtain ⟨mid, hplace, hts⟩ := spells_append.1 hts
  obtain ⟨t, ts', rfl, hk, hnext⟩ := d.second_of_spells htarget hplace
  have hsecond : kindOf ts' ∈ [TokenKind.assign, .lbracket, .dot] := by
    rcases hnext with hnext | rfl
    · exact List.mem_cons_of_mem _ hnext
    · rw [kindOf_of_spells hts]
      decide
  unfold Gives
  rw [statement_name hk, if_pos hsecond]
  exact hgives

theorem name_statement_accepts {fuel : Nat} (hls : Heads ls next (· ∉ [.assign, .lbracket, .dot]))
    (h : Accepts (procedureCall fuel) next (.name n :: ls) s) :
    Accepts (statement (fuel + 1)) next (.name n :: ls) s := by
  intro ts rest hts hrest
  have hgives := h hts hrest
  obtain ⟨t, ts, rfl, ht, -, hts⟩ := spells_cons.1 hts
  unfold Gives
  rw [statement_name ht, if_neg (hls hts hrest)]
  exact hgives

/-- A call without arguments. -/
theorem bareCall_parses (n : String) :
    Parses statement 1 (Stmt.call n []).stop [.name n] (.call n []) := by
  have hsigns : [TokenKind.assign, .lbracket, .dot] ⊆ .assign :: expressionStop := by decide
  refine .succ fun _ _ => name_statement_accepts (.nil fun _ hk hmem => ?_) ?_
  · exact Stmt.notMem_of_notMem_stop hk (hsigns hmem)
  · exact .take rfl (.skip_neg (.stop (List.mem_append_right _ (by decide))) .pure)

theorem call_statement_parses {e : Expr} {es : List Expr}
    (hargs : Parses expressions 5 (.comma :: expressionStop)
      (Lexeme.separated .comma (exprSpellings (e :: es))) (e :: es)) :
    Parses statement 1 (Stmt.call n (e :: es)).stop (Stmt.call n (e :: es)).lexemes
      (.call n (e :: es)) := by
  refine .succ fun fuel hfuel => name_statement_accepts (.cons (by decide)) ?_
  simp only [Stmt.lexemes, List.length_append, List.length_cons, List.length_nil] at hfuel
  refine .take rfl (.skip rfl ?_)
  exact (hargs fuel (by omega)).bind (.cons (by decide)) (.take rfl .pure)

/-! ### Conditionals and loops -/

section

variable (hc : Parses expression 4 expressionStop c.lexemes c)
  (hs : Parses statement 1 s.stop s.lexemes s)

include hc hs

/-- A conditional statement without `else`. -/
theorem ifThen_parses :
    Parses statement 1 (Stmt.ifThen c s).stop (Stmt.ifThen c s).lexemes (.ifThen c s) := by
  refine .succ fun fuel hfuel => .kind .kwIf (.cons rfl) ?_
  simp only [Stmt.lexemes, List.length_append, List.length_cons] at hfuel
  obtain ⟨fuel, rfl⟩ : ∃ f, fuel = f + 1 := ⟨fuel - 1, by omega⟩
  refine .take rfl ((hc fuel (by omega)).bind (.cons (by decide)) (.take rfl ?_))
  refine ((hs fuel (by omega)).weaken (Stmt.stop_subset rfl)).last ?_
  exact .skip_neg (.stop (List.mem_append_left _ (List.mem_singleton_self _))) .pure

/-- A conditional statement with `else`. The first branch leaves the `else` to it. -/
theorem ifElse_parses {s' : Stmt} (hclosed : s.endsOpen = false)
    (hs' : Parses statement 1 s'.stop s'.lexemes s') :
    Parses statement 1 (Stmt.ifElse c s s').stop (Stmt.ifElse c s s').lexemes (.ifElse c s s') := by
  refine .succ fun fuel hfuel => .kind .kwIf (.cons rfl) ?_
  simp only [Stmt.lexemes, List.length_append, List.length_cons] at hfuel
  obtain ⟨fuel, rfl⟩ : ∃ f, fuel = f + 1 := ⟨fuel - 1, by omega⟩
  refine .take rfl ((hc fuel (by omega)).bind (.cons (by decide)) (.take rfl ?_))
  -- An open `if` at the end of the first branch would take the `else` for its own.
  refine (hs fuel (by omega)).bind (.cons (Stmt.kwElse_notMem_stop hclosed)) ?_
  exact .skip rfl (hs' fuel (by omega)).give

theorem whileLoop_parses :
    Parses statement 1 (Stmt.whileLoop c s).stop (Stmt.whileLoop c s).lexemes (.whileLoop c s) := by
  refine .succ fun fuel hfuel => .kind .kwWhile (.cons rfl) ?_
  simp only [Stmt.lexemes, List.length_append, List.length_cons] at hfuel
  obtain ⟨fuel, rfl⟩ : ∃ f, fuel = f + 1 := ⟨fuel - 1, by omega⟩
  refine .take rfl ((hc fuel (by omega)).bind (.cons (by decide)) (.take rfl ?_))
  exact (hs fuel (by omega)).give

end

theorem direction_cases (way : String) :
    (Lexeme.direction way).1 = .kwTo ∨
      (Lexeme.direction way).1 = .identifier ∧ Text.toUpper way = "DOWNTO" := by
  rw [Lexeme.direction]
  split
  · exact .inr ⟨rfl, ‹_›⟩
  · exact .inl rfl

/-- The direction of a loop ends the expression before it. -/
theorem direction_notMem_stop (way : String) : (Lexeme.direction way).1 ∉ expressionStop := by
  rcases direction_cases way with h | ⟨h, -⟩ <;> rw [h] <;> decide

theorem direction_accepts {α : Type} {f : String → Parse α} {a : α} {way : String}
    (hf : Accepts (f way) next ls a) :
    Accepts (direction >>= f) next (.direction way :: ls) a := by
  intro ts rest hts hrest
  obtain ⟨t, ts, rfl, hk, (hv : t.value = way), hmore⟩ := spells_cons.1 hts
  subst hv
  have hway := direction_cases t.value
  rw [← hk] at hway
  exact Gives.bind ((gives_next _).bind (.ite_pos hway (gives_takeAny t ts))) (hf hmore hrest)

/-- A loop over a range. -/
theorem forLoop_parses {way : String} {a b : Expr}
    (ha : Parses expression 4 expressionStop a.lexemes a)
    (hb : Parses expression 4 expressionStop b.lexemes b)
    (hs : Parses statement 1 s.stop s.lexemes s) :
    Parses statement 1 (Stmt.forLoop n a way b s).stop (Stmt.forLoop n a way b s).lexemes
      (.forLoop n a way b s) := by
  refine .succ fun fuel hfuel => .kind .kwFor (.cons rfl) ?_
  simp only [Stmt.lexemes, List.length_append, List.length_cons] at hfuel
  obtain ⟨fuel, rfl⟩ : ∃ f, fuel = f + 1 := ⟨fuel - 1, by omega⟩
  refine .take rfl (.take rfl (.take rfl ?_))
  refine (ha fuel (by omega)).bind (.cons (direction_notMem_stop way)) (direction_accepts ?_)
  refine (hb fuel (by omega)).bind (.cons (by decide)) (.take rfl ?_)
  exact (hs fuel (by omega)).give

/-! ### Sequences of statements -/

def statementStart : List TokenKind := [.kwIf, .kwWhile, .kwFor, .kwBegin, .identifier]

theorem Stmt.startsWith : ∀ s : Stmt, StartsWith statementStart s.lexemes
  | .compound _ => ⟨_, _, rfl, by decide⟩
  | .assign target _ => by
    obtain ⟨l, ls, hls, hl⟩ := target.startsWith.append (.assign :: _)
    exact ⟨l, ls, hls, by rw [List.mem_singleton.1 hl]; decide⟩
  | .ifThen .. | .ifElse .. | .whileLoop .. | .forLoop .. => ⟨_, _, rfl, by decide⟩
  | .call n [] | .call n (_ :: _) => ⟨.name n, _, rfl, by simp [Lexeme.name, statementStart]⟩

/-- Statements are read back from their spelling, up to the `END` after them. -/
def StatementsRead (ss : List Stmt) : Prop :=
  Reads statements 1 (· = .kwEnd) (stmtsLexemes ss) ss

theorem nil_statementsRead : StatementsRead [] :=
  .succ fun _ _ => .atAny_pos (.next (by decide)) .pure

/-- One more statement before the others. -/
theorem cons_statementsRead (hs : Parses statement 1 s.stop s.lexemes s) (hss : StatementsRead ss) :
    StatementsRead (s :: ss) := by
  refine .succ fun fuel hfuel => .atAny_neg ((s.startsWith.append _).heads (by decide)) ?_
  simp only [stmtsLexemes, List.length_append, List.length_cons] at hfuel
  refine (hs fuel (by omega)).bind (.cons s.semicolon_notMem_stop) (.skip rfl ?_)
  exact (hss fuel (by omega)).give

/-- The statements between `BEGIN` and `END`. -/
theorem compound_parses (hss : StatementsRead ss) :
    Parses compound 0 [] (Stmt.compound ss).lexemes ss := by
  intro fuel hfuel
  simp only [Stmt.lexemes, List.length_append, List.length_cons, List.length_nil] at hfuel
  obtain ⟨fuel, rfl⟩ : ∃ f, fuel = f + 1 := ⟨fuel - 1, by omega⟩
  exact .take rfl ((hss fuel (by omega)).bind (.cons rfl) (.take rfl .pure))

theorem compound_statement_parses (hss : StatementsRead ss) :
    Parses statement 1 (Stmt.compound ss).stop (Stmt.compound ss).lexemes (.compound ss) := by
  refine .succ fun fuel hfuel => .kind .kwBegin (.cons rfl) ?_
  exact ((compound_parses hss fuel (by omega)).weaken (List.nil_subset _)).give

mutual

/-- A statement is read back from its spelling. -/
theorem Stmt.parses : ∀ s : Stmt, s.WellFormed → Parses statement 1 s.stop s.lexemes s
  | .compound ss, h => compound_statement_parses (stmts_read ss h)
  | .assign target value, ⟨ht, hd, hv⟩ =>
    assign_parses ht (target.selectorsRead ht hd) (value.parses hv)
  | .ifThen c s, ⟨hc, hs⟩ => ifThen_parses (c.parses hc) (s.parses hs)
  | .ifElse c s s', ⟨hc, hs, hclosed, hs'⟩ =>
    ifElse_parses (c.parses hc) (s.parses hs) hclosed (s'.parses hs')
  | .whileLoop c s, ⟨hc, hs⟩ => whileLoop_parses (c.parses hc) (s.parses hs)
  | .forLoop _ a _ b s, ⟨ha, hb, hs⟩ => forLoop_parses (a.parses ha) (b.parses hb) (s.parses hs)
  | .call n [], _ => bareCall_parses n
  | .call _ (e :: es), h => call_statement_parses (exprs_parses (e :: es) h (List.cons_ne_nil _ _))

theorem stmts_read : ∀ ss : List Stmt, stmtsWellFormed ss → StatementsRead ss
  | [], _ => nil_statementsRead
  | s :: ss, ⟨hs, hss⟩ => cons_statementsRead (s.parses hs) (stmts_read ss hss)

end

end MiniPascal
