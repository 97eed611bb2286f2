import MiniPascal.Proofs.Lexing.Endings

/-!
# Texts Put Together

Lines that end in a semicolon can be read one by one: nothing that stands in one of them goes on in
the next. So the lexemes of a text that is put together from such lines are those of the lines.
-/

namespace MiniPascal

/-- What follows a lexeme may go on in any way after its first character. -/
theorem Token.FromLexeme.append {t : Token} {lexeme rest : List Char} (h : t.FromLexeme lexeme rest)
    (hrest : rest ≠ []) (more : List Char) : t.FromLexeme lexeme (rest ++ more) := by
  have hhead : (rest ++ more).head? = rest.head? := by
    obtain ⟨c, cs, rfl⟩ := List.exists_cons_of_ne_nil hrest
    rfl
  obtain ⟨c, cs, rfl⟩ := List.exists_cons_of_ne_nil h.ne_nil
  by_cases hquote : c = '"'
  · subst hquote
    obtain ⟨hkind, body, hbody, hvalue, hclosed | ⟨-, hend⟩⟩ := h
    · exact ⟨hkind, body, hbody, hvalue, .inl hclosed⟩
    · exact absurd hend hrest
  by_cases hchar : c = '\''
  · subst hchar
    exact h
  rw [Token.fromLexeme_cons hquote hchar] at h ⊢
  rwa [hhead]

theorem Token.FromLexeme.eq_semicolon {t : Token} {lexeme : List Char} (h : t.FromLexeme lexeme [])
    (ht : t.lexeme = .semicolon) : lexeme = [';'] := by
  have hkind : t.kind = .semicolon := congrArg Prod.fst ht
  have hvalue : t.value = ";" := congrArg Prod.snd ht
  obtain ⟨c, cs, rfl⟩ := List.exists_cons_of_ne_nil h.ne_nil
  by_cases hquote : c = '"'
  · subst hquote
    exact absurd (hkind.symm.trans h.1) (by decide)
  by_cases hchar : c = '\''
  · subst hchar
    exact absurd (hkind.symm.trans h.1) (by decide)
  rw [Token.fromLexeme_cons hquote hchar] at h
  exact String.ofList_injective (h.1.symm.trans hvalue)

namespace Segments

theorem eq_nil {ts : List Token} (h : Segments [] ts) : ts = [] := by
  generalize htext : [] = text at h
  cases h with
  | last => rfl
  | next hgap hlexeme =>
    exact absurd (List.append_eq_nil_iff.1 (List.append_eq_nil_iff.1 htext.symm).2).1 hlexeme.ne_nil

/-- After lines that end in a semicolon and a line break, a text is cut as it would be alone. -/
theorem append_line {lines text : List Char} {ts us : List Token} (h : Segments lines ts)
    (hbreak : lines.getLast? = some '\n') (hend : ∀ t ∈ ts.getLast?, t.lexeme = .semicolon)
    (htext : Segments text us) : Segments (lines ++ text) (ts ++ us) := by
  induction h with
  | last hgap => exact htext.append_gap hgap
  | @next gap lexeme rest t ts hgap hlexeme hrest ih =>
    by_cases hnil : rest = []
    · -- The last lexeme is a semicolon, and then a line break would have to follow it.
      subst hnil
      obtain rfl := hrest.eq_nil
      obtain rfl := hlexeme.eq_semicolon (hend t rfl)
      rw [List.append_nil, List.getLast?_append] at hbreak
      exact absurd (Option.some.inj hbreak) (by decide)
    have hbreak : rest.getLast? = some '\n' := by
      rw [List.getLast?_append, List.getLast?_append] at hbreak
      obtain ⟨c, hc⟩ := Option.ne_none_iff_exists'.1 (mt List.getLast?_eq_none_iff.1 hnil)
      rwa [hc] at hbreak ⊢
    have hends : ∀ t' ∈ ts.getLast?, t'.lexeme = .semicolon := by
      intro t' ht'
      refine hend t' ?_
      rw [List.getLast?_cons, Option.mem_def.1 ht']
      rfl
    rw [List.append_assoc, List.append_assoc]
    exact .next hgap (hlexeme.append hnil text) (ih hbreak hends)

end Segments

end MiniPascal
