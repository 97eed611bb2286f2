import MiniPascal.Proofs.Analysis.Programs
import MiniPascal.Proofs.Analysis.RespelledPrograms
import MiniPascal.Proofs.Lexing.Recasing
import Mathlib.Data.List.Zip

/-!
# Keywords in Another Case

Texts that differ in the case of keywords only are read as programs that differ in the words that
programs keep, and so their analyses are alike if both are accepted. One of them may be accepted and
the other one not, though: some keywords are compared as they are written (`comparedWords`). As long
as these are spelled in the same way, the second text is accepted if the first one is.

* `Program.parse_reworded`: tokens that differ in words form programs that differ in words;
* `analyze_keywordsRecased`: the law of the two texts.
-/

namespace MiniPascal

open Declaring

/-- Where both texts can be read, `P` holds of any two tokens that stand in one place. -/
def Token.InPairs (P : Token → Token → Prop) (text text' : String) : Prop :=
  ∀ ⦃ts ts'⦄, Token.lex text = .ok ts → Token.lex text' = .ok ts' →
    ∀ pair ∈ ts.zip ts', P pair.1 pair.2

/-- The plain texts differ in the case of letters only, and names and literals are the same. -/
structure KeywordsRecased (text text' : String) : Prop where
  letters : SameLetters text.toList text'.toList
  names : Token.InPairs (fun t t' => t.kind ∈ namedKinds → t.value = t'.value) text text'

/-- The words that checks ask for as they are written are found in the second text where they stand
in the first one. -/
def ComparedKept : String → String → Prop :=
  Token.InPairs fun t t' => t.value ∈ comparedWords → t'.value = t.value

section

variable {text text' : String}

instance {P : Token → Token → Prop} [∀ t t', Decidable (P t t')] :
    Decidable (Token.InPairs P text text') :=
  match hlex : Token.lex text, hlex' : Token.lex text' with
  | .ok ts, .ok ts' =>
    decidable_of_iff (∀ pair ∈ ts.zip ts', P pair.1 pair.2) (by
      simp only [Token.InPairs, hlex, hlex', Except.ok.injEq]
      exact ⟨fun h _ _ hts hts' => hts ▸ hts' ▸ h, fun h => h rfl rfl⟩)
  | .error _, _ => .isTrue fun _ _ h => absurd (hlex.symm.trans h) nofun
  | .ok _, .error _ => .isTrue fun _ _ _ h => absurd (hlex'.symm.trans h) nofun

instance : Decidable (KeywordsRecased text text') :=
  decidable_of_iff (SameLetters text.toList text'.toList ∧
      Token.InPairs (fun t t' => t.kind ∈ namedKinds → t.value = t'.value) text text')
    ⟨fun h => ⟨h.1, h.2⟩, fun h => ⟨h.letters, h.names⟩⟩

instance : Decidable (ComparedKept text text') :=
  inferInstanceAs (Decidable (Token.InPairs _ text text'))

instance {ε α : Type} {x : Except ε α} : Decidable (Succeeds x) :=
  match x with
  | .ok v => .isTrue ⟨v, rfl⟩
  | .error e => .isFalse (not_succeeds_error e)

end

/-! ### Tokens -/

theorem Token.Beside.reworded {t t' : Token} (h : t.Beside SameLetter 0 t')
    (hname : t.kind ∈ namedKinds → t.value = t'.value) : t.Reworded Respelled t' := by
  refine ⟨h.kind_eq, hname, ?_⟩
  by_cases hnamed : t.kind ∈ namedKinds
  · exact .inl (hname hnamed)
  obtain hsame | ⟨-, hkind | hkind | ⟨hword, hword'⟩⟩ := h.value
  · exact .inl hsame
  · exact absurd (by rw [hkind]; decide) hnamed
  · exact absurd (by rw [hkind]; decide) hnamed
  · have hidentifier : t.kind ≠ .identifier := fun hkind => hnamed (by rw [hkind]; decide)
    exact .inr ⟨h.toLower_eq, hword.trans_ne hidentifier, hword'.trans_ne hidentifier⟩

namespace KeywordsRecased

variable {text text' : String} {ts : List Token}

/-- The tokens of the second text beside those of the first one. -/
theorem tokens (h : KeywordsRecased text text') (hlex : Token.lex text = .ok ts) :
    ∃ ts', Token.lex text' = .ok ts' ∧ List.Forall₂ (Token.Reworded Respelled) ts ts' := by
  obtain ⟨_, ts', hts, hlex', hrecased⟩ | ⟨e, he, -⟩ := Token.lex_recase h.letters
  rotate_left
  · cases hlex.symm.trans he
  obtain rfl := Except.ok.inj (hlex.symm.trans hts)
  obtain ⟨hlength, hpairs⟩ := List.forall₂_iff_zip.1 hrecased
  refine ⟨ts', hlex', List.forall₂_iff_zip.2 ⟨hlength, fun hpair => ?_⟩⟩
  exact (hpairs hpair).reworded (h.names hlex hlex' _ hpair)

theorem symm (h : KeywordsRecased text text') : KeywordsRecased text' text := by
  refine ⟨h.letters.flip.imp fun _ _ => SameLetter.symm, ?_⟩
  intro ts' ts hlex' hlex pair hpair hnamed
  obtain ⟨us, hus, htokens⟩ := h.tokens hlex
  obtain rfl := Except.ok.inj (hlex'.symm.trans hus)
  have hswap : pair.swap ∈ ts.zip ts' := by
    rw [← List.zip_swap]
    exact List.mem_map_of_mem hpair
  have hreworded := (List.forall₂_iff_zip.1 htokens).2 hswap
  exact (hreworded.value_eq (hreworded.kind_eq ▸ hnamed)).symm

end KeywordsRecased

/-! ### Programs -/

section

variable {R : String → String → Prop}

/-- Tokens beside tokens that differ in words. -/
def Pairing.rewording (hR : ∀ w, R w w) : Pairing where
  Words := R
  Paired := List.Forall₂ (Token.Reworded R)
  Ample _ := True
  words_refl := hR
  ample_cons _ := trivial
  kinds_eq {ts us} _ h i _ := by
    have hkinds : ts.map Token.kind = us.map Token.kind := by
      induction h with
      | nil => rfl
      | cons ht _ ih => rw [List.map_cons, List.map_cons, ht.kind_eq, ih]
    rw [← List.getElem?_map, hkinds, List.getElem?_map]
  paired_cons _ h := by
    obtain _ | ⟨ht, hts⟩ := h
    exact ⟨_, _, rfl, ht, hts⟩

theorem Program.parse_reworded (hR : ∀ w, R w w) {ts ts' : List Token} {p : Program}
    (hts : List.Forall₂ (Token.Reworded R) ts ts') (h : Program.parse ts = .ok p) :
    ∃ p', Program.parse ts' = .ok p' ∧ p.Reworded R p' := by
  obtain ⟨rest, hgives⟩ := Program.parse_eq_ok.1 h
  obtain ⟨-, -, hsecond⟩ := Grammar.EndsBy.of_gives (V := .any) (.rewording hR) 0
    (fun t _ => Vocabulary.any_admits t) hgives Grammar.ends_program
  obtain ⟨p', rest', hgives', hp, -⟩ := hsecond trivial hts
  refine ⟨p', Program.parse_eq_ok.2 ⟨rest', ?_⟩, hp⟩
  rw [Nat.zero_add, Grammar.depthFor, hts.length_eq] at hgives'
  exact hgives'

theorem Block.Reworded.analyzes_start (hR : Respells R) {K : Prop} (hK : K → Kept R) {b b' : Block}
    (hb : b.Reworded R b') : Declare.Tracks R K (BodyAlike R) (analyzeBlock b.toTree)
      (analyzeBlock b'.toTree) .start .start :=
  Block.Reworded.analyzes hR hK b hb ⟨.refl _, .none⟩

end

/-! ### Texts -/

/-- Keywords may be spelled in another case, those that are compared excepted. -/
def RespelledKept (w w' : String) : Prop := Respelled w w' ∧ (w ∈ comparedWords → w' = w)

theorem RespelledKept.respells : Respells RespelledKept :=
  ⟨fun _ => ⟨.inl rfl, fun _ => rfl⟩, fun h => h.1⟩

theorem Respelled.respells : Respells Respelled := ⟨fun _ => .inl rfl, id⟩

namespace KeywordsRecased

variable {text text' : String}

/-- The second text is read as a program if the first one is. -/
theorem reads (h : KeywordsRecased text text')
    (hreads : ∃ ts p, Token.lex text = .ok ts ∧ Program.parse ts = .ok p) :
    ∃ ts p, Token.lex text' = .ok ts ∧ Program.parse ts = .ok p := by
  obtain ⟨ts, p, hlex, hparse⟩ := hreads
  obtain ⟨ts', hlex', htokens⟩ := h.tokens hlex
  obtain ⟨p', hparse', -⟩ := Program.parse_reworded Respelled.respells.refl htokens hparse
  exact ⟨ts', p', hlex', hparse'⟩

/-- The second text is accepted if the first one is and the words that are compared are kept. -/
theorem accepts (h : KeywordsRecased text text') (hkept : ComparedKept text text')
    (haccepted : Succeeds (Pipeline.analyze text)) : Succeeds (Pipeline.analyze text') := by
  obtain ⟨a, ha⟩ := haccepted
  obtain ⟨ts, p, code, hlex, hparse, hrun⟩ := analyze_eq_ok ha
  obtain ⟨ts', hlex', htokens⟩ := h.tokens hlex
  obtain ⟨hlength, hpairs⟩ := List.forall₂_iff_zip.1 htokens
  have hwords : List.Forall₂ (Token.Reworded RespelledKept) ts ts' := by
    refine List.forall₂_iff_zip.2 ⟨hlength, fun hpair => ?_⟩
    obtain ⟨hkind, hvalue, hword⟩ := hpairs hpair
    exact ⟨hkind, hvalue, hword, hkept hlex hlex' _ hpair⟩
  obtain ⟨p', hparse', -, hblock⟩ :=
    Program.parse_reworded RespelledKept.respells.refl hwords hparse
  have htracks := Block.Reworded.analyzes_start (K := True) RespelledKept.respells
    (fun _ _ _ hw => hw.2) hblock
  obtain ⟨code', a', hrun'⟩ := (htracks hrun).1 trivial
  exact ⟨a', analyze_of_runs hlex' hparse' hrun'⟩

theorem alike (h : KeywordsRecased text text') {a a' : Analysis}
    (ha : Pipeline.analyze text = .ok a) (ha' : Pipeline.analyze text' = .ok a') :
    a.Alike Respelled a' := by
  obtain ⟨ts, p, code, hlex, hparse, hrun⟩ := analyze_eq_ok ha
  obtain ⟨ts', p', code', hlex', hparse', hrun'⟩ := analyze_eq_ok ha'
  obtain ⟨us, hus, htokens⟩ := h.tokens hlex
  obtain rfl := Except.ok.inj (hlex'.symm.trans hus)
  obtain ⟨q, hq, -, hblock⟩ := Program.parse_reworded Respelled.respells.refl htokens hparse
  obtain rfl := Except.ok.inj (hparse'.symm.trans hq)
  -- That the second run succeeds is known here, so nothing is asked of the words.
  have htracks := Block.Reworded.analyzes_start (K := False) Respelled.respells False.elim hblock
  exact ((htracks hrun).2 hrun').2

end KeywordsRecased

/-- Of two texts that differ in the case of keywords only, both are read as programs or neither. If
one of them is accepted, so is the other one as long as it keeps the words that are compared. If
both are accepted, they declare the same names, and the entries of the names and the code are the
same up to the case of the words of routines and of operators. -/
theorem analyze_keywordsRecased {text text' : String} (h : KeywordsRecased text text') :
    ((∃ ts p, Token.lex text = .ok ts ∧ Program.parse ts = .ok p) ↔
      ∃ ts p, Token.lex text' = .ok ts ∧ Program.parse ts = .ok p) ∧
    (ComparedKept text text' → Succeeds (Pipeline.analyze text) →
      Succeeds (Pipeline.analyze text')) ∧
    (ComparedKept text' text → Succeeds (Pipeline.analyze text') →
      Succeeds (Pipeline.analyze text)) ∧
    ∀ a a', Pipeline.analyze text = .ok a → Pipeline.analyze text' = .ok a' →
      a.Alike Respelled a' :=
  ⟨⟨h.reads, h.symm.reads⟩, h.accepts, h.symm.accepts, fun _ _ => h.alike⟩

def smallCall : String := "program p; procedure q; begin end; begin q; end."

/-- The same call, with keywords in upper case, those that are compared excepted. -/
def largeCall : String := "program p; procedure q; BEGIN END; BEGIN q; END."

/-- Both calls are accepted, and their analyses are alike. -/
theorem analyze_keywordsRecased_calls :
    KeywordsRecased smallCall largeCall ∧ ComparedKept smallCall largeCall ∧
      ∃ a a', Pipeline.analyze smallCall = .ok a ∧ Pipeline.analyze largeCall = .ok a' ∧
        a.Alike Respelled a' := by
  have hrecased : KeywordsRecased smallCall largeCall := by decide +kernel
  have hkept : ComparedKept smallCall largeCall := by decide +kernel
  have hsmall : Succeeds (Pipeline.analyze smallCall) := by decide +kernel
  obtain ⟨-, haccepts, -, halike⟩ := analyze_keywordsRecased hrecased
  obtain ⟨a', ha'⟩ := haccepts hkept hsmall
  obtain ⟨a, ha⟩ := hsmall
  exact ⟨hrecased, hkept, a, a', ha, ha', halike a a' ha ha'⟩

/-- A procedure that is declared in upper case cannot be called. -/
example :
    KeywordsRecased smallCall "program p; PROCEDURE q; begin end; begin q; end." ∧
      ¬Succeeds (Pipeline.analyze "program p; PROCEDURE q; begin end; begin q; end.") := by
  decide +kernel

end MiniPascal
