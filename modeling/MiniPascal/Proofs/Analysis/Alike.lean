import MiniPascal.Proofs.Analysis.Scopes
import MiniPascal.Proofs.Code.Rewording

/-!
# Analyses Alike

Two analyses of programs that differ in words have the same names in the same scopes. The entries of
the names are the same too, except for those of routines: they keep the word that the routine was
declared with, and the code of its body.

* `Check.lookup_tracks`: looking up a name gives entries that are alike.
-/

namespace MiniPascal

open Declaring

section

variable (R : String → String → Prop)

/-- What is kept as the code of a body. -/
inductive BodyAlike : Tree → Tree → Prop
  /-- There is no code yet. -/
  | none : BodyAlike .null .null
  | code {cs cs' : List Code} (hcs : CodesReworded R cs cs') :
      BodyAlike (Code.bodyTree cs) (Code.bodyTree cs')

/-- The entries of a name differ at most in the word that a routine was declared with and in the
operators of its code. -/
inductive EntryAlike : Tree → Tree → Prop
  | same (e : Tree) : EntryAlike e e
  | routine {w w' : String} (hw : R w w') (result : Tree) {code code' : Tree}
      (hcode : BodyAlike R code code') (locals : Tree) (parameters : List (Tree × Tree)) :
      EntryAlike (routineInfo (.text w) result code locals parameters)
        (routineInfo (.text w') result code' locals parameters)

/-- The names are the same, and their entries are alike. -/
abbrev SymbolsAlike : List (String × Tree) → List (String × Tree) → Prop :=
  List.Forall₂ fun e e' => e.1 = e'.1 ∧ EntryAlike R e.2 e'.2

/-- The scopes lie in the same one and have the same names, with entries alike. -/
structure Scope.Alike (s s' : Scope) : Prop where
  parent : s.parent = s'.parent
  symbols : SymbolsAlike R s.symbols s'.symbols

/-- The same scopes have been opened, and the same one is current. -/
structure Scopes.Alike (s s' : Scopes) : Prop where
  current : s.current = s'.current
  scopes : ∀ k : Nat, Option.Rel (Scope.Alike R) s.all[k]? s'.all[k]?

/-- The analyses differ at most in the words of routines and in the operators of code. -/
structure Analysis.Alike (a a' : Analysis) : Prop where
  scopes : a.scopes.Alike R a'.scopes
  code : Option.Rel (BodyAlike R) a.code a'.code

end

variable {R : String → String → Prop} {K : Prop}

/-! ### Entries -/

namespace EntryAlike

variable {e e' : Tree}

section

variable (h : EntryAlike R e e')

include h

theorem isTruthy_eq : e.isTruthy = e'.isTruthy := by
  cases h <;> rfl

theorem isNull_eq : e.isNull = e'.isNull := by
  cases h <;> rfl

/-- All that is asked for is the same but for the word and the code of a routine. -/
theorem get?_eq {key : String} (hkind : key ≠ "kind") (hcode : key ≠ "block_code") :
    e.get? key = e'.get? key := by
  cases h with
  | same => rfl
  | routine hw result hbody locals parameters =>
    simp [routineInfo, Tree.get?, List.lookup_cons, beq_eq_false_iff_ne.2 hkind,
      beq_eq_false_iff_ne.2 hcode]

theorem get_eq {key : String} (hkind : key ≠ "kind") (hcode : key ≠ "block_code") :
    e.get key = e'.get key := by
  rw [Tree.get, Tree.get, h.get?_eq hkind hcode]

theorem info_eq : e.info = e'.info := by
  rw [Tree.info, Tree.info, h.get?_eq (by decide) (by decide)]

theorem isRecordEntry_eq : e.isRecordEntry = e'.isRecordEntry := by
  rw [Tree.isRecordEntry, Tree.isRecordEntry, h.isTruthy_eq, h.get_eq (by decide) (by decide)]

end

/-- No word of a routine makes it a parameter. -/
theorem isParameterEntry_eq (hR : Respells R) (h : EntryAlike R e e') :
    e.isParameterEntry = e'.isParameterEntry := by
  cases h with
  | same => rfl
  | @routine w w' hw result code code' hbody locals parameters =>
    have hword : w = "parameter" ↔ w' = "parameter" :=
      (hR.respelled hw).eq_iff (by decide)
    change Except.ok (decide (w = "parameter")) = Except.ok (decide (w' = "parameter"))
    rw [decide_eq_decide.2 hword]

end EntryAlike

/-! ### Names -/

namespace SymbolsAlike

variable {symbols symbols' : List (String × Tree)}

variable (h : SymbolsAlike R symbols symbols')

include h

theorem lookup (n : String) :
    Option.Rel (EntryAlike R) (symbols.lookup n) (symbols'.lookup n) := by
  induction h with
  | nil => exact .none
  | @cons e e' rest rest' he _ ih =>
    rw [List.lookup_cons, List.lookup_cons, he.1]
    cases n == e'.1 with
    | true => exact .some he.2
    | false => exact ih

theorem append {n : String} {info info' : Tree} (hinfo : EntryAlike R info info') :
    SymbolsAlike R (symbols ++ [(n, info)]) (symbols' ++ [(n, info')]) :=
  List.rel_append h (.cons ⟨rfl, hinfo⟩ .nil)

theorem setEntry {n : String} {info info' : Tree} (hinfo : EntryAlike R info info') :
    SymbolsAlike R (Tree.setEntry n info symbols) (Tree.setEntry n info' symbols') := by
  induction h with
  | nil => exact .cons ⟨rfl, hinfo⟩ .nil
  | @cons e e' rest rest' he hrest ih =>
    rw [Tree.setEntry, Tree.setEntry, he.1]
    split
    · exact .cons ⟨rfl, hinfo⟩ hrest
    · exact .cons ⟨rfl, he.2⟩ ih

end SymbolsAlike

/-! ### Scopes -/

namespace Scopes.Alike

variable {s s' : Scopes}

theorem refl (s : Scopes) : s.Alike R s := by
  refine ⟨rfl, fun k => ?_⟩
  cases s.all[k]? with
  | some scope => exact .some ⟨rfl, List.forall₂_same.2 fun _ _ => ⟨rfl, .same _⟩⟩
  | none => exact .none

section

variable (h : s.Alike R s')

include h

theorem size_eq : s.all.size = s'.all.size := by
  refine Nat.le_antisymm (Nat.le_of_not_lt fun hlt => ?_) (Nat.le_of_not_lt fun hlt => ?_)
  · have hscope := h.scopes s'.all.size
    rw [Array.getElem?_eq_getElem hlt, Array.getElem?_eq_none (Nat.le_refl _)] at hscope
    exact nomatch hscope
  · have hscope := h.scopes s.all.size
    rw [Array.getElem?_eq_getElem hlt, Array.getElem?_eq_none (Nat.le_refl _)] at hscope
    exact nomatch hscope

theorem parentOf_eq (k : Nat) : s.parentOf k = s'.parentOf k := by
  have hk := h.scopes k
  unfold parentOf
  generalize s.all[k]? = scope at hk ⊢
  generalize s'.all[k]? = scope' at hk ⊢
  cases hk with
  | some hscope => exact hscope.parent
  | none => rfl

theorem symbolsOf (k : Nat) :
    SymbolsAlike R (s.symbolsOf k) (s'.symbolsOf k) := by
  have hk := h.scopes k
  unfold Scopes.symbolsOf
  generalize s.all[k]? = scope at hk ⊢
  generalize s'.all[k]? = scope' at hk ⊢
  cases hk with
  | some hscope => exact hscope.symbols
  | none => exact .nil

/-- The search for a name ends in the same scope. -/
theorem find (n : String) : ∀ fuel k,
    Option.Rel (fun found found' => found.1 = found'.1 ∧ EntryAlike R found.2 found'.2)
      (s.find n fuel k) (s'.find n fuel k)
  | 0, _ => .none
  | fuel + 1, k => by
    have hlookup := (h.symbolsOf k).lookup n
    rw [Scopes.find, Scopes.find, ← h.parentOf_eq k]
    generalize (s.symbolsOf k).lookup n = entry at hlookup ⊢
    generalize (s'.symbolsOf k).lookup n = entry' at hlookup ⊢
    cases hlookup with
    | some he => exact .some ⟨rfl, he⟩
    | none =>
      cases s.parentOf k with
      | some parent => exact find n fuel parent
      | none => exact .none

theorem resolve (k : Nat) (n : String) :
    Option.Rel (fun found found' => found.1 = found'.1 ∧ EntryAlike R found.2 found'.2)
      (s.resolve k n) (s'.resolve k n) := by
  rw [Scopes.resolve, Scopes.resolve, ← h.size_eq]
  exact h.find n _ k

theorem lookupIn (k : Nat) (n : String) :
    EntryAlike R ((s.lookupIn k n).getD .null) ((s'.lookupIn k n).getD .null) := by
  have hfound := h.resolve k n
  unfold Scopes.lookupIn
  generalize s.resolve k n = found at hfound ⊢
  generalize s'.resolve k n = found' at hfound ⊢
  cases hfound with
  | some he => exact he.2
  | none => exact .same _

/-- It does not matter which scope is current. -/
theorem withCurrent (current : Nat) :
    Alike R { s with current } { s' with current } :=
  ⟨rfl, h.scopes⟩

theorem setSymbols {symbols symbols' : List (String × Tree)} (k : Nat)
    (hsymbols : SymbolsAlike R symbols symbols') :
    (s.setSymbols k symbols).Alike R (s'.setSymbols k symbols') := by
  refine ⟨h.current, fun j => ?_⟩
  have hj := h.scopes j
  simp only [Scopes.setSymbols, Array.getElem?_modify]
  generalize s.all[j]? = scope at hj ⊢
  generalize s'.all[j]? = scope' at hj ⊢
  split
  · cases hj with
    | some hscope => exact .some ⟨hscope.parent, hsymbols⟩
    | none => exact .none
  · exact hj

/-- A name is declared in both or in neither. -/
theorem declareIn? (k : Nat) (n : String) {info info' : Tree} (hinfo : EntryAlike R info info') :
    Option.Rel (Alike R) (s.declareIn? k n info) (s'.declareIn? k n info') := by
  have hlookup := (h.symbolsOf k).lookup n
  have hset := h.setSymbols k ((h.symbolsOf k).append (n := n) hinfo)
  simp only [Scopes.declareIn?]
  generalize (s.symbolsOf k).lookup n = entry at hlookup ⊢
  generalize (s'.symbolsOf k).lookup n = entry' at hlookup ⊢
  cases hlookup with
  | some => exact .none
  | none => exact .some hset

theorem update (k : Nat) (n : String) {info info' : Tree} (hinfo : EntryAlike R info info') :
    (s.update k n info).Alike R (s'.update k n info') :=
  h.setSymbols k ((h.symbolsOf k).setEntry hinfo)

theorem openIn (parent : Option Nat) :
    (s.openIn parent []).2.Alike R (s'.openIn parent []).2 := by
  refine ⟨h.current, fun j => ?_⟩
  simp only [Scopes.openIn, Array.getElem?_push, ← h.size_eq]
  split
  · exact .some ⟨rfl, .nil⟩
  · exact h.scopes j

theorem enter : s.enter.Alike R s'.enter := by
  have hopen := (h.openIn (some s.current)).withCurrent s.all.size
  unfold Scopes.enter
  rw [← h.current]
  unfold Scopes.openIn at hopen ⊢
  rw [← h.size_eq]
  exact hopen

end

end Scopes.Alike

/-! ### Analyses -/

namespace Analysis.Alike

variable {a a' : Analysis}

/-- As many names have been declared in both. -/
theorem symbolCount_eq (h : a.Alike R a') : a.symbolCount = a'.symbolCount := by
  have hlengths : a.scopes.all.toList.map (·.symbols.length) =
      a'.scopes.all.toList.map (·.symbols.length) := by
    refine List.ext_getElem? fun k => ?_
    have hk := h.scopes.scopes k
    rw [List.getElem?_map, List.getElem?_map, Array.getElem?_toList, Array.getElem?_toList]
    generalize a.scopes.all[k]? = scope at hk ⊢
    generalize a'.scopes.all[k]? = scope' at hk ⊢
    cases hk with
    | some hscope => exact congrArg some hscope.symbols.length_eq
    | none => rfl
  have hcount : ∀ scopes : Array Scope,
      scopes.foldl (fun count scope => count + scope.symbols.length) 0 =
        (scopes.toList.map (·.symbols.length)).foldl (· + ·) 0 := fun scopes => by
    rw [← Array.foldl_toList, List.foldl_map]
  rw [symbolCount, symbolCount, hcount, hcount, hlengths]

theorem withScopes {scopes scopes' : Scopes} (h : a.Alike R a') (hscopes : scopes.Alike R scopes') :
    Alike R { a with scopes } { a' with scopes := scopes' } :=
  ⟨hscopes, h.code⟩

end Analysis.Alike

namespace Check

variable {a a' : Analysis}

theorem lookup_tracks (h : a.Alike R a') (name : Tree) :
    Tracks K (EntryAlike R) (lookup name) (lookup name) a a' := by
  change MiniPascal.Tracks K _ ((a.scopes.lookupTree a.scopes.current name).mapError _)
    ((a'.scopes.lookupTree a'.scopes.current name).mapError _)
  refine .mapError ?_
  rw [← h.scopes.current]
  cases name with
  | text n => exact .ok (h.scopes.lookupIn _ n)
  | _ => exact (MiniPascal.Tracks.of_eq rfl).mono fun _ _ hxy => hxy ▸ .same _

end Check

end MiniPascal
