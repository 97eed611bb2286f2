import MiniPascal.Proofs.Lexing.Positions

/-!
# The Kinds of Words

The kind of a token is that of its lexeme: literals and signs have kinds of their own, and words are
names or words of the language. But a word that spells the name of another kind is taken for a token
of that kind, as `eof` is taken for the end mark.

* `Token.kinds_of_lexAll`: these are the only tokens that have another kind than they should.
-/

namespace MiniPascal

/-- The kinds of words: those of the language, and names. -/
def TokenKind.words : List TokenKind :=
  [.kwBegin, .kwEnd, .kwIf, .kwThen, .kwElse, .kwFor, .kwWhile, .kwDo, .kwTo, .kwConst, .kwVar,
    .kwFunction, .kwProcedure, .kwTrue, .kwFalse, .kwOr, .kwAnd, .kwNot, .kwDiv, .kwMod, .kwRecord,
    .kwType, .kwArray, .kwOf, .identifier]

/-- A token with the lexeme should have the kind: words have the kinds of words, and literals and
signs have those of their quotes, digits and symbols. -/
def TokenKind.Suits (kind : TokenKind) : List Char → Prop
  | [] => False
  | c :: cs =>
    if c = '"' then kind = .string
    else if c = '\'' then kind = .char
    else if Text.isDigit c then kind = .number
    else if Text.isLetter c then kind ∈ TokenKind.words
    else (String.ofList (c :: cs), kind) ∈ signs

def startsWord : List Char → Bool
  | [] => false
  | c :: _ => !Text.isDigit c && Text.isLetter c

/-- Words that are known in small letters. -/
def smallWords : List String := ["true", "false", "number", "string", "char"]

/-- In capitals, the word is the name of a kind that is not one of words, and in small letters it is
not known. -/
def SpellsKind (word : String) : Prop :=
  Text.toLower word ∉ smallWords ∧ ∃ kind : TokenKind, kind ∉ TokenKind.words ∧
    kind.name = Text.toUpper word

/-- The lexeme is a word that is taken for something else. -/
def IsMisread (lexeme : List Char) : Prop :=
  startsWord lexeme = true ∧ SpellsKind (String.ofList lexeme)

theorem TokenKind.ofName?_name (kind : TokenKind) : ofName? kind.name = some kind := by
  cases kind <;> rfl

/-- The kind of a word is one of words, or the kind that the word spells. -/
theorem wordKind_cases (word : String) :
    Cursor.wordKind word ∈ TokenKind.words ∧ ¬SpellsKind word ∨
      SpellsKind word ∧ Cursor.wordKind word ∉ TokenKind.words ∧
        (Cursor.wordKind word).name = Text.toUpper word := by
  by_cases hsmall : Text.toLower word ∈ smallWords
  · refine .inl ⟨?_, fun h => h.1 hsmall⟩
    unfold Cursor.wordKind
    dsimp only
    split
    · decide
    split
    · decide
    next htrue hfalse =>
      rw [if_pos (by simpa [smallWords, htrue, hfalse] using hsmall)]
      decide
  have hkind : Cursor.wordKind word = (TokenKind.ofName? (Text.toUpper word)).getD .identifier := by
    simp only [smallWords, List.mem_cons, not_or] at hsmall
    obtain ⟨htrue, hfalse, hothers⟩ := hsmall
    rw [Cursor.wordKind, if_neg htrue, if_neg hfalse, if_neg (by simpa using hothers)]
  cases hname : TokenKind.ofName? (Text.toUpper word) with
  | none =>
    rw [hkind, hname]
    refine .inl ⟨by decide, fun ⟨_, kind, _, heq⟩ => ?_⟩
    rw [← heq, kind.ofName?_name] at hname
    cases hname
  | some kind =>
    rw [hkind, hname]
    have hfound := List.find?_some hname
    have heq : kind.name = Text.toUpper word := beq_iff_eq.1 hfound
    by_cases hword : kind ∈ TokenKind.words
    · refine .inl ⟨hword, fun ⟨_, other, hother, hsame⟩ => ?_⟩
      rw [← hsame, other.ofName?_name] at hname
      exact hother (Option.some.inj hname ▸ hword)
    · exact .inr ⟨⟨hsmall, kind, hword, heq⟩, hword, heq⟩

theorem sign_notMem_words : ∀ sign ∈ signs, sign.2 ∉ TokenKind.words ∧ sign.2 ≠ .eof := by decide

namespace Token.FromLexeme

variable {t : Token} {lexeme after : List Char}

/-- A token has the kind that it should have, unless it is a word that spells another one. -/
theorem suits_iff (h : t.FromLexeme lexeme after) :
    (t.kind.Suits lexeme ↔ ¬IsMisread lexeme) ∧
      (IsMisread lexeme → t.kind.name = Text.toUpper (String.ofList lexeme)) := by
  obtain ⟨c, cs, rfl⟩ := List.exists_cons_of_ne_nil h.ne_nil
  have hother (hsuits : t.kind.Suits (c :: cs)) (hword : startsWord (c :: cs) = false) :
      (t.kind.Suits (c :: cs) ↔ ¬IsMisread (c :: cs)) ∧
        (IsMisread (c :: cs) → t.kind.name = Text.toUpper (String.ofList (c :: cs))) := by
    have hmisread : ¬IsMisread (c :: cs) := fun hmis => Bool.false_ne_true (hword.symm.trans hmis.1)
    exact ⟨iff_of_true hsuits hmisread, fun hmis => absurd hmis hmisread⟩
  by_cases hquote : c = '"'
  · subst hquote
    exact hother h.1 rfl
  by_cases hchar : c = '\''
  · subst hchar
    exact hother h.1 rfl
  rw [Token.fromLexeme_cons hquote hchar] at h
  obtain ⟨hvalue, h⟩ := h
  split at h
  next hdigit =>
    refine hother ?_ (by simp [startsWord, hdigit])
    rw [TokenKind.Suits, if_neg hquote, if_neg hchar, if_pos hdigit]
    exact h.1
  split at h
  next hdigit hletter =>
    have hstarts : startsWord (c :: cs) = true := by simp [startsWord, hdigit, hletter]
    rw [TokenKind.Suits, if_neg hquote, if_neg hchar, if_neg hdigit, if_pos hletter, h.1, hvalue]
    rcases wordKind_cases (String.ofList (c :: cs)) with ⟨hword, hspells⟩ | ⟨hspells, hword, hname⟩
    · exact ⟨iff_of_true hword fun hmis => hspells hmis.2, fun hmis => absurd hmis.2 hspells⟩
    · exact ⟨iff_of_false hword fun hmis => hmis ⟨hstarts, hspells⟩, fun _ => hname⟩
  next hdigit hletter =>
    refine hother ?_ (by simp [startsWord, hletter])
    rw [TokenKind.Suits, if_neg hquote, if_neg hchar, if_neg hdigit, if_neg hletter, ← hvalue]
    exact h.1

theorem not_suits_eof : ¬TokenKind.eof.Suits lexeme := by
  cases lexeme with
  | nil => exact id
  | cons c cs =>
    rw [TokenKind.Suits]
    split
    · decide
    split
    · decide
    split
    · decide
    split
    · decide
    · exact fun hsign => (sign_notMem_words (String.ofList (c :: cs), .eof) hsign).2 rfl

/-- A token with the kind of a word is a word of that kind. -/
theorem eq_wordKind (h : t.FromLexeme lexeme after) (hkind : t.kind ∈ TokenKind.words) :
    t.kind = Cursor.wordKind t.value := by
  obtain ⟨c, cs, rfl⟩ := List.exists_cons_of_ne_nil h.ne_nil
  by_cases hquote : c = '"'
  · subst hquote
    exact absurd (h.1 ▸ hkind) (by decide)
  by_cases hchar : c = '\''
  · subst hchar
    exact absurd (h.1 ▸ hkind) (by decide)
  rw [Token.fromLexeme_cons hquote hchar] at h
  obtain ⟨-, h⟩ := h
  split at h
  next => exact absurd (h.1 ▸ hkind) (by decide)
  split at h
  next => exact h.1
  next => exact absurd hkind (sign_notMem_words _ h.1).1

end Token.FromLexeme

theorem LaidOut.exists_lexeme {read text : List Char} {ts : List Token} (h : LaidOut read text ts) :
    ∀ t ∈ ts, ∃ lexeme after, lexeme ++ after <:+ text ∧ t.FromLexeme lexeme after := by
  induction h with
  | last => exact fun t ht => absurd ht List.not_mem_nil
  | @next read gap lexeme rest t ts _ hlexeme _ _ _ ih =>
    refine List.forall_mem_cons.2 ⟨⟨lexeme, rest, List.suffix_append _ _, hlexeme⟩, fun u hu => ?_⟩
    obtain ⟨other, after, hsuffix, hother⟩ := ih u hu
    exact ⟨other, after, hsuffix.trans
      ((List.suffix_append lexeme rest).trans (List.suffix_append gap _)), hother⟩

/-- A token of a text is an end mark, or it has a lexeme. -/
theorem Token.exists_lexeme_of_lex {text : String} {tokens : List Token}
    (h : Token.lex text = .ok tokens) :
    ∀ t ∈ tokens, t.kind = .eof ∨ ∃ lexeme after, t.FromLexeme lexeme after := by
  unfold Token.lex at h
  split at h
  next => cases h
  obtain ⟨ts, rfl, hts⟩ := laidOut_of_lexAll h
  intro t ht
  rcases List.mem_append.1 ht with ht | ht
  · obtain ⟨lexeme, after, -, hlexeme⟩ := hts.exists_lexeme t ht
    exact .inr ⟨lexeme, after, hlexeme⟩
  · exact .inl (List.mem_singleton.1 ht ▸ rfl)

/-- The tokens of a text end in an end mark. Each of the others has the kind that suits its lexeme,
unless this is a word that spells the name of a kind which is not one of words. Such a word has the
kind that it spells, and so an end mark before the last one is a word that spells it. -/
theorem Token.kinds_of_lexAll {text : String} {tokens : List Token}
    (h : Token.lexAll text = .ok tokens) :
    ∃ ts line column, tokens = ts ++ [⟨.eof, "EOF", line, column⟩] ∧ LaidOut [] text.toList ts ∧
      ∀ t ∈ ts, ∃ lexeme after, lexeme ++ after <:+ text.toList ∧ t.FromLexeme lexeme after ∧
        (t.kind.Suits lexeme ↔ ¬IsMisread lexeme) ∧
        (IsMisread lexeme → t.kind.name = Text.toUpper (String.ofList lexeme)) ∧
        (t.kind = .eof → IsMisread lexeme) := by
  obtain ⟨ts, htokens, hts⟩ := laidOut_of_lexAll h
  refine ⟨ts, _, _, htokens, hts, fun t ht => ?_⟩
  obtain ⟨lexeme, after, hsuffix, hlexeme⟩ := hts.exists_lexeme t ht
  obtain ⟨hsuits, hname⟩ := hlexeme.suits_iff
  refine ⟨lexeme, after, hsuffix, hlexeme, hsuits, hname, fun heof => ?_⟩
  by_contra hmisread
  exact Token.FromLexeme.not_suits_eof (heof ▸ hsuits.2 hmisread)

/-- The word `Eof` is taken for the end mark. -/
theorem Token.kinds_of_lexAll_eof :
    Token.lexAll "x Eof" =
      .ok [⟨.identifier, "x", 1, 1⟩, ⟨.eof, "Eof", 1, 3⟩, ⟨.eof, "EOF", 1, 6⟩] ∧
      ∃ lexeme after, lexeme ++ after <:+ "x Eof".toList ∧
        (⟨.eof, "Eof", 1, 3⟩ : Token).FromLexeme lexeme after ∧ IsMisread lexeme := by
  have hlex : Token.lexAll "x Eof" = .ok ([⟨.identifier, "x", 1, 1⟩, ⟨.eof, "Eof", 1, 3⟩] ++
      [⟨.eof, "EOF", 1, 6⟩]) := by decide +kernel
  obtain ⟨ts, line, column, htokens, -, hkinds⟩ := Token.kinds_of_lexAll hlex
  obtain ⟨rfl, -⟩ := List.append_inj' htokens rfl
  obtain ⟨lexeme, after, hsuffix, hlexeme, -, -, heof⟩ :=
    hkinds ⟨.eof, "Eof", 1, 3⟩ (List.mem_cons_of_mem _ List.mem_cons_self)
  exact ⟨hlex, lexeme, after, hsuffix, hlexeme, heof rfl⟩

end MiniPascal
