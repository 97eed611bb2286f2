import MiniPascal.Proofs.Parsing.Totality

/-!
# The Texts in a Program

The texts in a program that has been parsed are texts of its tokens. So a program keeps to the
vocabulary of its tokens, and so do the expressions in it.
-/

namespace MiniPascal

variable {V : Vocabulary} {tokens : List Token}

theorem Expr.within_of_gives {fuel : Nat} {e : Expr} {ts rest : List Token}
    (hts : ∀ t ∈ ts, V.Admits t) (h : (Grammar.expression fuel).Gives ts e rest) : e.Within V :=
  (Grammar.EndsBy.of_gives .same 0 hts h Grammar.ends_expression).1

/-- A production gives the tree of what its parser gives. -/
theorem Production.parse_eq_ok {p : Production} {α : Type} {toTree : α → Tree} {parser : Parse α}
    (hparser : p.parser (Grammar.depthFor tokens) = toTree <$> parser) {tree : Tree} {taken : Nat} :
    p.parse tokens = .ok (tree, taken) ↔
      ∃ a rest, parser.Gives tokens a rest ∧ tree = toTree a ∧
        taken = tokens.length - rest.length := by
  rw [Production.parse, hparser]
  constructor
  · intro h
    obtain ⟨⟨t, rest⟩, hrun, h⟩ := Except.bind_eq_ok.1 h
    obtain ⟨rfl, rfl⟩ := Prod.mk.inj (Except.ok.inj h)
    have hgives := Parse.gives_of_run hrun
    obtain ⟨a, ha, rfl⟩ := Parse.gives_bind_pure.1 hgives
    exact ⟨a, rest, ha, rfl, rfl⟩
  · rintro ⟨a, rest, ha, rfl, rfl⟩
    have hmap : Parse.Gives (toTree <$> parser) tokens (toTree a) rest := ha.map
    rw [hmap.run_eq]
    rfl

/-- A list of tokens forms a program if the production of programs gives it. -/
theorem Program.parse_eq_ok {p : Program} :
    Program.parse tokens = .ok p ↔
      ∃ rest, (Grammar.program (Grammar.depthFor tokens)).Gives tokens p rest := by
  refine ⟨fun h => ?_, fun ⟨rest, h⟩ => congrArg (Except.map Prod.fst) h.run_eq⟩
  unfold Program.parse at h
  cases hrun : (Grammar.program (Grammar.depthFor tokens)).run tokens with
  | error => rw [hrun] at h; exact absurd h nofun
  | ok result =>
    rw [hrun] at h
    exact ⟨result.2, Except.ok.inj h ▸ Parse.gives_of_run hrun⟩

theorem Program.within_of_parse {p : Program} (htokens : ∀ t ∈ tokens, V.Admits t)
    (h : Program.parse tokens = .ok p) : p.block.Within V (stmtsWithin V) := by
  obtain ⟨rest, h⟩ := Program.parse_eq_ok.1 h
  exact (Grammar.EndsBy.of_gives .same 0 htokens h Grammar.ends_program).1

end MiniPascal
