import MiniPascal.Scope
import Mathlib.Data.List.Nodup
import Mathlib.Tactic.Common

/-!
# What Happens to Scopes

An analysis works in one scope at a time. Names come to the scope in which it works and to scopes
that it opens itself; no other scope changes. `Scopes.Grows` says so, with the names that have come,
and it composes along the steps of an analysis.

* `Scopes.Grows.trans`: what two steps add together.
-/

namespace MiniPascal.Scopes

variable {s s' s'' : Scopes} {k j : Nat} {symbols added more : List (String × Tree)}

/-! ### Names and parents of scopes -/

theorem symbolsOf_congr (h : s'.all[j]? = s.all[j]?) : s'.symbolsOf j = s.symbolsOf j := by
  rw [symbolsOf, symbolsOf, h]

theorem parentOf_congr (h : s'.all[j]? = s.all[j]?) : s'.parentOf j = s.parentOf j := by
  rw [parentOf, parentOf, h]

@[simp]
theorem size_setSymbols : (s.setSymbols k symbols).all.size = s.all.size := by
  rw [setSymbols, Array.size_modify]

theorem symbolsOf_setSymbols (h : k < s.all.size) :
    (s.setSymbols k symbols).symbolsOf k = symbols := by
  simp [symbolsOf, setSymbols, Array.getElem_modify, h]

theorem getElem?_setSymbols_of_ne (h : j ≠ k) :
    (s.setSymbols k symbols).all[j]? = s.all[j]? := by
  simp [setSymbols, Array.getElem?_modify, h.symm]

theorem parentOf_setSymbols : (s.setSymbols k symbols).parentOf j = s.parentOf j := by
  by_cases h : j = k
  · subst h
    simp only [parentOf, setSymbols, Array.getElem?_modify, if_pos]
    cases s.all[j]? <;> rfl
  · exact parentOf_congr (getElem?_setSymbols_of_ne h)

@[simp]
theorem size_openIn (parent : Option Nat) :
    (s.openIn parent symbols).2.all.size = s.all.size + 1 := by
  rw [openIn, Array.size_push]

theorem getElem?_openIn (parent : Option Nat) (h : j < s.all.size) :
    (s.openIn parent symbols).2.all[j]? = s.all[j]? := by
  rw [openIn, Array.getElem?_push_lt h, Array.getElem?_eq_getElem h]

theorem symbolsOf_openIn (parent : Option Nat) :
    (s.openIn parent symbols).2.symbolsOf s.all.size = symbols := by
  rw [symbolsOf, openIn, Array.getElem?_push_size]

theorem parentOf_openIn (parent : Option Nat) :
    (s.openIn parent symbols).2.parentOf s.all.size = parent := by
  rw [parentOf, openIn, Array.getElem?_push_size]
  rfl

/-! ### Entries of names -/

variable {n : String} {info : Tree}

theorem lookup_eq_none : symbols.lookup n = none ↔ n ∉ symbols.map Prod.fst := by
  induction symbols with
  | nil => simp
  | cons e rest ih =>
    obtain ⟨m, info⟩ := e
    by_cases h : n = m
    · simp [h]
    · simp [List.lookup_cons, h, ih, beq_eq_false_iff_ne.2 h]

/-- A name that has been declared once is found with its entry. -/
theorem lookup_of_mem (hnodup : (symbols.map Prod.fst).Nodup) (h : (n, info) ∈ symbols) :
    symbols.lookup n = some info := by
  induction symbols with
  | nil => exact absurd h List.not_mem_nil
  | cons e rest ih =>
    obtain ⟨hnew, hrest⟩ := List.nodup_cons.1 hnodup
    rcases List.mem_cons.1 h with rfl | h
    · exact List.lookup_cons_self
    · have hne : n ≠ e.1 := fun heq => hnew (heq ▸ List.mem_map_of_mem h)
      rw [List.lookup_cons, beq_eq_false_iff_ne.2 hne]
      exact ih hrest h

/-- Replacing the entry of a name that comes last. -/
theorem setEntry_append {old : Tree} (h : n ∉ symbols.map Prod.fst) :
    Tree.setEntry n info (symbols ++ [(n, old)]) = symbols ++ [(n, info)] := by
  induction symbols with
  | nil => simp [Tree.setEntry]
  | cons e rest ih =>
    rw [List.map_cons, List.mem_cons, not_or] at h
    rw [List.cons_append, Tree.setEntry, if_neg (Ne.symm h.1), ih h.2, List.cons_append]

/-- A name is declared in a scope unless the scope has it already. -/
theorem declareIn?_eq_some :
    s.declareIn? k n info = some s' ↔
      n ∉ (s.symbolsOf k).map Prod.fst ∧ s' = s.setSymbols k (s.symbolsOf k ++ [(n, info)]) := by
  rw [← lookup_eq_none, ← Option.not_isSome_iff_eq_none, declareIn?]
  split
  next h => simp [h]
  next h => simp [h, eq_comm]

/-! ### Properties of entries -/

/-- `P` holds of all names and their entries. -/
def Each (P : String → Tree → Prop) (s : Scopes) : Prop := ∀ k, ∀ e ∈ s.symbolsOf k, P e.1 e.2

section Each

variable {P : String → Tree → Prop}

theorem Each.find (h : s.Each P) {n : String} {found : Nat × Tree} :
    ∀ {fuel k : Nat}, s.find n fuel k = some found → P n found.2 := by
  intro fuel
  induction fuel with
  | zero => exact nofun
  | succ fuel ih =>
    intro k hfind
    rw [Scopes.find] at hfind
    split at hfind
    next info hlookup =>
      obtain rfl := Option.some.inj hfind
      obtain ⟨before, after, hsymbols, -⟩ := List.lookup_eq_some_iff.1 hlookup
      exact h k (n, info) (by simp [hsymbols])
    next =>
      split at hfind
      · exact ih hfind
      · exact absurd hfind nofun

theorem Each.lookupIn (h : s.Each P) {n : String} {entry : Tree}
    (hlookup : s.lookupIn k n = some entry) : P n entry := by
  obtain ⟨found, hfind, rfl⟩ := Option.map_eq_some_iff.1 hlookup
  exact h.find hfind

/-- Names that have the property take nothing from it. -/
theorem Each.setSymbols (hs : s.Each P) (h : ∀ e ∈ symbols, P e.1 e.2) :
    (s.setSymbols k symbols).Each P := by
  intro j e he
  by_cases hj : j = k
  · subst hj
    by_cases hlt : j < s.all.size
    · rw [symbolsOf_setSymbols hlt] at he
      exact h e he
    · rw [symbolsOf, Array.getElem?_eq_none (by simpa using hlt)] at he
      exact absurd he List.not_mem_nil
  · rw [symbolsOf_congr (getElem?_setSymbols_of_ne hj)] at he
    exact hs j e he

/-- A new scope without names takes nothing from the property. -/
theorem Each.openIn (hs : s.Each P) (parent : Option Nat) : (s.openIn parent []).2.Each P := by
  intro j e he
  rcases Nat.lt_trichotomy j s.all.size with hlt | rfl | hgt
  · rw [symbolsOf_congr (getElem?_openIn parent hlt)] at he
    exact hs j e he
  · rw [symbolsOf_openIn] at he
    exact absurd he List.not_mem_nil
  · rw [symbolsOf, Array.getElem?_eq_none] at he
    · exact absurd he List.not_mem_nil
    · rw [size_openIn]
      omega

end Each

/-! ### Growth of scopes -/

/-- `s'` comes from `s` by work in the scope `k`: the scope has got new names after those that it
had, and all other scopes of `s` are as they were. -/
structure Grows (k : Nat) (s s' : Scopes) (added : List (String × Tree)) : Prop where
  size_le : s.all.size ≤ s'.all.size
  symbols : s'.symbolsOf k = s.symbolsOf k ++ added
  parent : s'.parentOf k = s.parentOf k
  others : ∀ j < s.all.size, j ≠ k → s'.all[j]? = s.all[j]?
  nodup : ((s.symbolsOf k).map Prod.fst).Nodup → ((s'.symbolsOf k).map Prod.fst).Nodup

namespace Grows

theorem refl (k : Nat) (s : Scopes) : Grows k s s [] :=
  ⟨Nat.le_refl _, (List.append_nil _).symm, rfl, fun _ _ _ => rfl, id⟩

theorem trans (h : Grows k s s' added) (h' : Grows k s' s'' more) :
    Grows k s s'' (added ++ more) := by
  refine ⟨Nat.le_trans h.size_le h'.size_le, ?_, h'.parent.trans h.parent, fun j hj hne => ?_,
    h'.nodup ∘ h.nodup⟩
  · rw [h'.symbols, h.symbols, List.append_assoc]
  · rw [h'.others j (Nat.lt_of_lt_of_le hj h.size_le) hne, h.others j hj hne]

theorem declareIn? {n : String} {info : Tree} (hk : k < s.all.size)
    (h : s.declareIn? k n info = some s') : Grows k s s' [(n, info)] := by
  obtain ⟨hnew, rfl⟩ := declareIn?_eq_some.1 h
  have hsymbols : (s.setSymbols k (s.symbolsOf k ++ [(n, info)])).symbolsOf k = _ :=
    symbolsOf_setSymbols hk
  refine ⟨by simp, hsymbols, parentOf_setSymbols, fun j _ hne => ?_, fun hnodup => ?_⟩
  · exact getElem?_setSymbols_of_ne hne
  · rw [hsymbols, List.map_append]
    exact hnodup.append (List.nodup_singleton n) (List.disjoint_singleton.2 hnew)

theorem openIn (parent : Option Nat) (hk : k < s.all.size) :
    Grows k s (s.openIn parent []).2 [] := by
  have hsame : ∀ j < s.all.size, (s.openIn parent []).2.all[j]? = s.all[j]? :=
    fun j hj => getElem?_openIn parent hj
  refine ⟨?_, ?_, parentOf_congr (hsame k hk), fun j hj _ => hsame j hj, ?_⟩
  · rw [size_openIn]
    exact Nat.le_succ _
  · rw [symbolsOf_congr (hsame k hk), List.append_nil]
  · rw [symbolsOf_congr (hsame k hk)]
    exact id

theorem withCurrent (h : Grows k s s' added) (current : Nat) :
    Grows k s { s' with current } added :=
  ⟨h.size_le, h.symbols, h.parent, h.others, h.nodup⟩

/-- Replacing the entry of the name that was added. -/
theorem update {n : String} {old info : Tree} (h : Grows k s s' [(n, old)]) (hk : k < s.all.size)
    (hnew : n ∉ (s.symbolsOf k).map Prod.fst) : Grows k s (s'.update k n info) [(n, info)] := by
  have hsymbols : (s'.update k n info).symbolsOf k = s.symbolsOf k ++ [(n, info)] := by
    rw [Scopes.update, symbolsOf_setSymbols (Nat.lt_of_lt_of_le hk h.size_le), h.symbols,
      setEntry_append hnew]
  refine ⟨?_, hsymbols, parentOf_setSymbols.trans h.parent, fun i hi hne => ?_, fun hnodup => ?_⟩
  · rw [Scopes.update, size_setSymbols]
    exact h.size_le
  · rw [Scopes.update, getElem?_setSymbols_of_ne hne, h.others i hi hne]
  · have hnames := h.nodup hnodup
    rw [h.symbols, List.map_append] at hnames
    rw [hsymbols, List.map_append]
    exact hnames

end Grows

end MiniPascal.Scopes
