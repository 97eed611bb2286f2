import MiniPascal.Proofs.Lexing.Plain

/-!
# Texts in Another Case

Plain texts that differ in the case of letters only are read in step: no character changes its class
with its case, and the kind of a word does not depend on it. So the tokens are of the same kinds at
the same places, and where one text has an error, the other one has the same.

* `Indistinct.sameLetter`: reading does not tell such characters apart;
* `Token.lex_sameLetters`: what the case of letters can change.
-/

namespace MiniPascal

/-- The plain characters are the same, or one letter in two cases. -/
structure SameLetter (c c' : Char) : Prop where
  plain : Text.isAscii c
  plain' : Text.isAscii c'
  lower_eq : c.toLower = c'.toLower

/-- The plain texts differ in the case of letters only. -/
abbrev SameLetters : List Char → List Char → Prop := List.Forall₂ SameLetter

instance {c c' : Char} : Decidable (SameLetter c c') :=
  decidable_of_iff (Text.isAscii c ∧ Text.isAscii c' ∧ c.toLower = c'.toLower)
    ⟨fun h => ⟨h.1, h.2.1, h.2.2⟩, fun h => ⟨h.plain, h.plain', h.lower_eq⟩⟩

/-- The class of a plain character is that of its lower case, and all but letters have no case. -/
theorem toLower_class : ∀ n < 128,
    Text.isDigit (Char.ofNat n) = Text.isDigit (Char.ofNat n).toLower ∧
    Text.isLetter (Char.ofNat n) = Text.isLetter (Char.ofNat n).toLower ∧
    Cursor.isWordChar (Char.ofNat n) = Cursor.isWordChar (Char.ofNat n).toLower ∧
    Text.isBlank (Char.ofNat n) = Text.isBlank (Char.ofNat n).toLower ∧
    (Char.ofNat n).toUpper = (Char.ofNat n).toLower.toUpper ∧
    ((Char.ofNat n).toLower = Char.ofNat n ∨
      Text.isLetter (Char.ofNat n) ∧ ¬Text.isDigit (Char.ofNat n)) := by
  decide

namespace SameLetter

variable {c c' : Char}

theorem symm (h : SameLetter c c') : SameLetter c' c := ⟨h.plain', h.plain, h.lower_eq.symm⟩

/-- What is the same for a plain character and its lower case is the same for both characters. -/
theorem eq_of_toLower {α : Type} {f : Char → α} (hf : ∀ n < 128, f (Char.ofNat n) =
    f (Char.ofNat n).toLower) (h : SameLetter c c') : f c = f c' := by
  have hlower : ∀ {d : Char}, Text.isAscii d → f d = f d.toLower :=
    fun hd => Text.forall_isAscii (p := fun d => f d = f d.toLower) hf hd
  rw [hlower h.plain, hlower h.plain', h.lower_eq]

theorem toUpper_eq : SameLetter c c' → c.toUpper = c'.toUpper :=
  eq_of_toLower fun n hn => (toLower_class n hn).2.2.2.2.1

theorem isLetter_eq : SameLetter c c' → Text.isLetter c = Text.isLetter c' :=
  eq_of_toLower fun n hn => (toLower_class n hn).2.1

theorem isDigit_eq : SameLetter c c' → Text.isDigit c = Text.isDigit c' :=
  eq_of_toLower fun n hn => (toLower_class n hn).1

theorem eq_or_letter (h : SameLetter c c') : c = c' ∨ Text.isLetter c ∧ ¬Text.isDigit c := by
  have hlower : ∀ {d : Char}, Text.isAscii d →
      d.toLower = d ∨ Text.isLetter d ∧ ¬Text.isDigit d := fun hd =>
    Text.forall_isAscii (p := fun d => d.toLower = d ∨ Text.isLetter d ∧ ¬Text.isDigit d)
      (fun n hn => (toLower_class n hn).2.2.2.2.2) hd
  obtain hc | hletter := hlower h.plain
  · obtain hc' | hletter := hlower h.plain'
    · exact .inl (hc.symm.trans (h.lower_eq.trans hc'))
    · rw [← h.isLetter_eq, ← h.isDigit_eq] at hletter
      exact .inr hletter
  · exact .inr hletter

end SameLetter

namespace SameLetters

variable {cs cs' : List Char}

theorem plain (h : SameLetters cs cs') :
    (∀ c ∈ cs, Text.isAscii c) ∧ ∀ c ∈ cs', Text.isAscii c := by
  induction h with
  | nil => exact ⟨List.forall_mem_nil _, List.forall_mem_nil _⟩
  | cons hc _ ih =>
    exact ⟨List.forall_mem_cons.2 ⟨hc.plain, ih.1⟩, List.forall_mem_cons.2 ⟨hc.plain', ih.2⟩⟩

theorem map_eq {α : Type} {f : Char → α} (hf : ∀ {c c'}, SameLetter c c' → f c = f c')
    (h : SameLetters cs cs') : cs.map f = cs'.map f := by
  induction h with
  | nil => rfl
  | cons hc _ ih => rw [List.map_cons, List.map_cons, hf hc, ih]

theorem toLower_eq (h : SameLetters cs cs') :
    Text.toLower (String.ofList cs) = Text.toLower (String.ofList cs') := by
  rw [Text.toLower_ofList h.plain.1, Text.toLower_ofList h.plain.2, h.map_eq SameLetter.lower_eq]

end SameLetters

theorem Indistinct.sameLetter : Indistinct SameLetter where
  eq_or_letter := SameLetter.eq_or_letter
  isBlank_eq := SameLetter.eq_of_toLower fun n hn => (toLower_class n hn).2.2.2.1
  isDigit_eq := SameLetter.isDigit_eq
  isLetter_eq := SameLetter.isLetter_eq
  isWordChar_eq := SameLetter.eq_of_toLower fun n hn => (toLower_class n hn).2.2.1
  wordKind_eq h := by
    rw [Cursor.wordKind_ofList (SameLetters.plain h).1,
      Cursor.wordKind_ofList (SameLetters.plain h).2, Cursor.plainKind, Cursor.plainKind,
      SameLetters.map_eq SameLetter.lower_eq h, SameLetters.map_eq SameLetter.toUpper_eq h]

namespace Token

variable {t t' : Token} {text text' : String}

theorem Beside.toLower_eq (h : t.Beside SameLetter 0 t') :
    Text.toLower t.value = Text.toLower t'.value := by
  obtain hsame | ⟨hletters, -⟩ := h.value
  · rw [hsame]
  · simpa using SameLetters.toLower_eq hletters

/-- Plain texts that differ in the case of letters only are both read, into tokens side by side, or
they have the same error. -/
theorem lex_recase (h : SameLetters text.toList text'.toList) :
    (∃ ts ts', lex text = .ok ts ∧ lex text' = .ok ts' ∧
      List.Forall₂ (Beside SameLetter 0) ts ts') ∨
    ∃ e, lex text = .error e ∧ lex text' = .error e := by
  have hempty : text.isEmpty = text'.isEmpty := by
    rw [Bool.eq_iff_iff, String.isEmpty_iff, String.isEmpty_iff, ← String.toList_eq_nil_iff,
      ← String.toList_eq_nil_iff, ← List.length_eq_zero_iff, ← List.length_eq_zero_iff,
      h.length_eq]
  rw [lex, lex, hempty]
  split
  · exact .inr ⟨.noText, rfl, rfl⟩
  have hstart : Cursor.Beside SameLetter 0 0 (Cursor.start text) (Cursor.start text') :=
    ⟨h, rfl, rfl, rfl⟩
  have hanswers := (Cursor.Walks.readTokens .sameLetter [] (text.toList.length + 1) .nil hstart).2
  have hlex : lexAll text = (Cursor.readTokens [] (text.toList.length + 1) (Cursor.start text)).1 :=
    rfl
  have hlex' : lexAll text' =
      (Cursor.readTokens ([] ++ []) (text.toList.length + 1) (Cursor.start text')).1 := by
    rw [h.length_eq]
    rfl
  rw [hlex, hlex']
  revert hanswers
  generalize Cursor.readTokens [] (text.toList.length + 1) (Cursor.start text) = result
  generalize Cursor.readTokens ([] ++ []) (text.toList.length + 1) (Cursor.start text') = result'
  rintro (⟨⟨us, rfl, hus⟩, -⟩ | ⟨e, -⟩)
  · exact .inl ⟨_, _, rfl, rfl, hus⟩
  · refine .inr ⟨e, rfl, ?_⟩
    cases e <;> rfl

/-- The tokens differ in the case of letters only, and stand in one place. -/
structure SameButCase (t t' : Token) : Prop where
  kind_eq : t.kind = t'.kind
  line_eq : t.line = t'.line
  column_eq : t.column = t'.column
  toLower_eq : Text.toLower t.value = Text.toLower t'.value

/-- Of two plain texts that differ in the case of letters only, both are read or neither is. Their
tokens are as many, of the same kinds and in the same places, with values that differ in the case of
letters only; and the error of one text is that of the other, noticed in the same place. -/
theorem lex_sameLetters (h : SameLetters text.toList text'.toList) :
    (∃ ts ts', lex text = .ok ts ∧ lex text' = .ok ts' ∧ List.Forall₂ SameButCase ts ts') ∨
    ∃ e, lex text = .error e ∧ lex text' = .error e := by
  refine (lex_recase h).imp_left ?_
  rintro ⟨ts, ts', hts, hts', hall⟩
  refine ⟨ts, ts', hts, hts', hall.imp fun t t' ht => ?_⟩
  exact ⟨ht.kind_eq, by simpa using ht.line_eq.symm, ht.column_eq, ht.toLower_eq⟩

/-- Letters in words, in literals and behind escapes, and a literal that is not finished. -/
theorem lex_sameLetters_literals :
    (∃ ts ts', lex "If 'n' \"a\\\"B\" TRUE" = .ok ts ∧ lex "iF 'N' \"A\\\"b\" true" = .ok ts' ∧
      List.Forall₂ SameButCase ts ts') ∧
    ∃ e, lex "string 'Ab" = .error e ∧ lex "STRING 'aB" = .error e := by
  have hread : SameLetters "If 'n' \"a\\\"B\" TRUE".toList "iF 'N' \"A\\\"b\" true".toList := by
    decide +kernel
  have hunread : SameLetters "string 'Ab".toList "STRING 'aB".toList := by decide +kernel
  refine ⟨(lex_sameLetters hread).resolve_right ?_, (lex_sameLetters hunread).resolve_left ?_⟩
  · rintro ⟨e, he, -⟩
    have hok : (lex "If 'n' \"a\\\"B\" TRUE").isOk = true := by decide +kernel
    rw [he] at hok
    exact Bool.false_ne_true hok
  · rintro ⟨ts, -, hts, -⟩
    have hfails : (lex "string 'Ab").isOk = false := by decide +kernel
    rw [hts] at hfails
    exact Bool.false_ne_true hfails.symm

end Token

end MiniPascal
