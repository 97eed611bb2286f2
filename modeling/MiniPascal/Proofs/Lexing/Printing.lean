import MiniPascal.Proofs.Lexing.Endings

/-!
# Printed Tokens

Tokens can be printed on one line with a blank around each of them, and what is printed is read back
as the same tokens. A token is printed as its text, a string or a character literal with its quotes.

* `Token.lex_printLine`: printing and reading again gives the same tokens.
-/

namespace MiniPascal

/-! ### Printing -/

/-- The inside of a string literal for a text: a backslash stands before each quote and
backslash. -/
def escapeQuotes : List Char → List Char
  | [] => []
  | c :: cs => if c = '"' ∨ c = '\\' then '\\' :: c :: escapeQuotes cs else c :: escapeQuotes cs

/-- A token as it is printed: its text, with quotes if it is a literal that has them. -/
def Token.printed (t : Token) : List Char :=
  match t.kind with
  | .string => '"' :: (escapeQuotes t.value.toList ++ ['"'])
  | .char => '\'' :: (t.value.toList ++ ['\''])
  | _ => t.value.toList

def Token.spacedOut (ts : List Token) : List Char := ts.flatMap fun t => t.printed ++ [' ']

/-- Tokens on one line, with a blank before the first one and after each of them. -/
def Token.printLine (ts : List Token) : String := String.ofList (' ' :: spacedOut ts)

theorem unescape_escapeQuotes (cs : List Char) : unescape (escapeQuotes cs) = cs := by
  induction cs with
  | nil => rfl
  | cons c cs ih =>
    rw [escapeQuotes]
    split
    next => rw [unescape, ih]
    next h => rw [unescape_cons fun hc => h (.inr hc), ih]

theorem isStringInside_escapeQuotes (cs : List Char) : IsStringInside (escapeQuotes cs) := by
  induction cs with
  | nil => exact .nil
  | cons c cs ih =>
    rw [escapeQuotes]
    split
    next => exact ih.escaped c
    next h =>
      rw [not_or] at h
      exact ih.plain h.1 h.2

/-! ### Words that are no character literals -/

namespace Text

def charLetters : List Char := ['C', 'H', 'A', 'R']

theorem exists_run_of_shiftOn {code image : Nat} {runs : List CaseRun}
    (h : shiftOn code runs = image) : code = image ∨
      ∃ run ∈ runs, run.2.2.2 ≤ image ∧ code = run.1 + (image - run.2.2.2) ∧ code ≤ run.2.1 := by
  induction runs with
  | nil => exact .inl h
  | cons run runs ih =>
    obtain ⟨first, last, step, start⟩ := run
    rw [shiftOn] at h
    split at h
    next hrun =>
      refine .inr ⟨_, List.mem_cons_self, ?_, ?_, hrun.2.1⟩
      · rw [← h]
        exact Nat.le_add_right _ _
      · simp only [← h]
        omega
    next =>
      refine (ih h).imp_right ?_
      rintro ⟨other, hother, hcode⟩
      exact ⟨other, List.mem_cons_of_mem _ hother, hcode⟩

theorem exists_run_of_shiftBy {code image : Nat} {runs : List CaseRun}
    (h : shiftBy code runs = image) : code = image ∨
      ∃ run ∈ runs, run.2.2.2 ≤ image ∧ code = run.1 + (image - run.2.2.2) ∧ code ≤ run.2.1 := by
  refine (exists_run_of_shiftOn h).imp_right ?_
  rintro ⟨run, hrun, hcode⟩
  split at hrun
  · exact ⟨run, List.mem_of_mem_take hrun, hcode⟩
  · exact ⟨run, hrun, hcode⟩

/-- The only run that leads to one of the letters is that of the small letters. -/
theorem upperRuns_charLetters : ∀ run ∈ upperRuns, ∀ l ∈ charLetters, run.2.2.2 ≤ l.toNat →
    run.1 + (l.toNat - run.2.2.2) ≤ run.2.1 → run.1 + (l.toNat - run.2.2.2) = l.toNat + 32 := by
  decide +kernel

theorem upperExpansions_charLetters : ∀ expansion ∈ upperExpansions,
    ∃ x ∈ expansion.2.head?, ∃ y ∈ expansion.2.tail.head?,
      ¬(Char.ofNat x ∈ charLetters ∧ Char.ofNat y ∈ charLetters) := by
  decide +kernel

theorem eq_of_ofNat_eq {n : Nat} {l : Char} (hl : l ∈ charLetters) (h : Char.ofNat n = l) :
    n = l.toNat := by
  unfold Char.ofNat at h
  by_cases hvalid : n.isValidChar
  · rw [dif_pos hvalid] at h
    rw [← h]
    rfl
  · rw [dif_neg hvalid] at h
    subst h
    exact absurd hl (by decide)

/-- What has one of the letters as its upper case is that letter or the small one. -/
theorem eq_of_upper_append {c l : Char} {more rest : List Char} (hl : l ∈ charLetters)
    (hrest : ∀ d ∈ rest.head?, d ∈ charLetters)
    (h : mapCase upperRuns upperExpansions c ++ more = l :: rest) :
    (c = l ∨ c.toNat = l.toNat + 32) ∧ more = rest := by
  unfold mapCase at h
  split at h
  next codes hcodes =>
    -- Two letters at once would have to be the next two.
    obtain ⟨before, after, hall, -⟩ := List.lookup_eq_some_iff.1 hcodes
    obtain ⟨x, hx, y, hy, hxy⟩ := upperExpansions_charLetters (c.toNat, codes) (by simp [hall])
    obtain ⟨tail, rfl⟩ : ∃ tail, codes = x :: y :: tail := by
      cases codes with
      | nil => exact absurd hx nofun
      | cons x' tail =>
        obtain rfl := Option.some.inj hx
        exact ⟨tail.tail, congrArg _ (List.cons_head?_tail hy).symm⟩
    simp only [List.map_cons, List.cons_append, List.cons.injEq] at h
    refine absurd ⟨h.1 ▸ hl, hrest _ ?_⟩ hxy
    rw [← h.2]
    rfl
  next =>
    simp only [List.singleton_append, List.cons.injEq] at h
    refine ⟨?_, h.2⟩
    obtain hsame | ⟨run, hrun, himage, hcode, hlast⟩ :=
      exists_run_of_shiftBy (eq_of_ofNat_eq hl h.1)
    · exact .inl (Char.toNat_inj.1 hsame)
    · exact .inr (hcode.trans (upperRuns_charLetters run hrun l hl himage (hcode ▸ hlast)))

theorem upper_ne_nil (c : Char) : mapCase upperRuns upperExpansions c ≠ [] := by
  unfold mapCase
  split
  next codes hcodes =>
    obtain ⟨before, after, hall, -⟩ := List.lookup_eq_some_iff.1 hcodes
    obtain ⟨x, hx, -⟩ := upperExpansions_charLetters (c.toNat, codes) (by simp [hall])
    rintro hnil
    rw [List.map_eq_nil_iff.1 hnil] at hx
    exact absurd hx nofun
  next => exact List.cons_ne_nil _ _

/-- What has some of the letters as its upper case has them as they are or as small ones. -/
theorem forall₂_of_upper : ∀ {cs ls : List Char}, (∀ l ∈ ls, l ∈ charLetters) →
    cs.flatMap (mapCase upperRuns upperExpansions) = ls →
    List.Forall₂ (fun c l => c = l ∨ c.toNat = l.toNat + 32) cs ls
  | [], _, _, h => h ▸ .nil
  | c :: _, [], _, h => absurd (List.append_eq_nil_iff.1 h).1 (upper_ne_nil c)
  | c :: cs, l :: ls, hls, h => by
    rw [List.forall_mem_cons] at hls
    obtain ⟨hc, hcs⟩ := eq_of_upper_append hls.1 (fun d hd => hls.2 d (List.mem_of_mem_head? hd)) h
    exact .cons hc (forall₂_of_upper hls.2 hcs)

/-- What is `CHAR` in capitals is `char` in small letters. -/
theorem toLower_of_toUpper_char {word : String} (h : toUpper word = "CHAR") :
    toLower word = "char" := by
  have hsmall : ∀ c ∈ ['C', 'c'], ∀ h ∈ ['H', 'h'], ∀ a ∈ ['A', 'a'], ∀ r ∈ ['R', 'r'],
      toLower (String.ofList [c, h, a, r]) = "char" := by decide +kernel
  have heither : ∀ {x l : Char}, x = l ∨ x.toNat = l.toNat + 32 →
      x ∈ [l, Char.ofNat (l.toNat + 32)] := by
    rintro x l (rfl | hx)
    · exact List.mem_cons_self
    · rw [← hx, Char.ofNat_toNat]
      exact List.mem_cons_of_mem _ List.mem_cons_self
  rw [toUpper, ← String.toList_inj, String.toList_ofList] at h
  have hallowed : ∀ l ∈ ['C', 'H', 'A', 'R'], l ∈ charLetters := by decide
  have hletters := forall₂_of_upper hallowed h
  rw [← String.ofList_toList (s := word)]
  generalize word.toList = cs at hletters
  obtain _ | ⟨hc, _ | ⟨hh, _ | ⟨ha, _ | ⟨hr, _ | _⟩⟩⟩⟩ := hletters
  exact hsmall _ (heither hc) _ (heither hh) _ (heither ha) _ (heither hr)

end Text

theorem wordKind_ne_char (word : String) : Cursor.wordKind word ≠ .char := by
  intro h
  unfold Cursor.wordKind at h
  dsimp only at h
  split at h
  next => exact absurd h nofun
  split at h
  next => exact absurd h nofun
  split at h
  next => exact absurd h nofun
  next hnames =>
    cases hkind : TokenKind.ofName? (Text.toUpper word) with
    | none =>
      rw [hkind] at h
      exact absurd h nofun
    | some kind =>
      rw [hkind] at h
      obtain rfl : kind = .char := h
      have hname := List.find?_some hkind
      rw [Text.toLower_of_toUpper_char (beq_iff_eq.1 hname).symm] at hnames
      exact hnames (by decide)

/-! ### Printed tokens are lexemes -/

theorem sign_kind_plain : ∀ sign ∈ signs, sign.2 ≠ .string ∧ sign.2 ≠ .char := by decide

theorem Token.printed_of_ne {t : Token} (hstring : t.kind ≠ .string) (hchar : t.kind ≠ .char) :
    t.printed = t.value.toList := by
  unfold Token.printed
  split
  next h => exact absurd h hstring
  next h => exact absurd h hchar
  next => rfl

theorem Token.fromLexeme_printed_string {t : Token} (h : t.kind = .string) (after : List Char) :
    t.FromLexeme t.printed after := by
  rw [Token.printed, h]
  refine ⟨h, escapeQuotes t.value.toList, isStringInside_escapeQuotes _, ?_, .inl rfl⟩
  rw [unescape_escapeQuotes, String.ofList_toList]

theorem Token.FromLexeme.printed {t : Token} {lexeme after : List Char}
    (h : t.FromLexeme lexeme after) (rest : List Char) : t.FromLexeme t.printed (' ' :: rest) := by
  have hblank : ∀ {p : Char → Prop}, ¬p ' ' → ∀ d ∈ (' ' :: rest).head?, ¬p d := by
    intro p hp d hd
    rwa [← Option.some.inj hd]
  by_cases hstring : t.kind = .string
  · exact Token.fromLexeme_printed_string hstring _
  obtain ⟨c, cs, rfl⟩ := List.exists_cons_of_ne_nil h.ne_nil
  by_cases hquote : c = '"'
  · subst hquote
    exact absurd h.1 hstring
  by_cases hchar : c = '\''
  · subst hchar
    obtain ⟨hkind, x, rfl, hvalue⟩ := h
    rw [Token.printed, hkind, hvalue]
    exact ⟨hkind, x, by simp, hvalue⟩
  -- Numbers, words and signs are printed as they are, and a blank does not go on with them.
  rw [Token.fromLexeme_cons hquote hchar] at h
  obtain ⟨hvalue, h⟩ := h
  have hprinted : t.kind ≠ .char → t.printed = c :: cs := fun hkind => by
    rw [Token.printed_of_ne hstring hkind, hvalue, String.toList_ofList]
  split at h
  next hdigit =>
    rw [hprinted (by rw [h.1]; decide), Token.fromLexeme_cons hquote hchar, if_pos hdigit]
    exact ⟨hvalue, h.1, h.2.1, hblank (p := fun d => Text.isDigit d) (by decide)⟩
  split at h
  next hdigit hletter =>
    rw [hprinted (h.1 ▸ wordKind_ne_char _), Token.fromLexeme_cons hquote hchar, if_neg hdigit,
      if_pos hletter]
    exact ⟨hvalue, h.1, h.2.1, hblank (p := fun d => Cursor.isWordChar d) (by decide)⟩
  next hdigit hletter =>
    rw [hprinted (sign_kind_plain _ h.1).2, Token.fromLexeme_cons hquote hchar, if_neg hdigit,
      if_neg hletter]
    refine ⟨hvalue, h.1, hblank (p := fun d => String.ofList (c :: cs ++ [d]) ∈ _) fun hmem => ?_⟩
    obtain ⟨sign, hsign, heq⟩ := List.mem_map.1 hmem
    refine sign_not_isBlank sign hsign ' ' ?_ (by decide)
    rw [heq, String.toList_ofList]
    exact List.mem_append_right _ List.mem_cons_self

/-- The tokens of a text, printed with blanks between them, are the segments of what is printed. -/
theorem Segments.spacedOut {text : List Char} {ts : List Token} (h : Segments text ts) :
    Segments (' ' :: Token.spacedOut ts) ts := by
  have hgap : ∀ c ∈ [' '], Text.isBlank c := by decide
  induction h with
  | last => exact .last hgap
  | @next gap lexeme rest t ts _ hlexeme _ ih =>
    rw [Token.spacedOut, List.flatMap_cons, List.append_assoc, List.singleton_append]
    exact .next hgap (hlexeme.printed _) ih

/-! ### Printed tokens are read again -/

/-- What is printed on a line ends in a blank. -/
theorem Token.getLast?_spacedOut : ∀ ts : List Token,
    (' ' :: Token.spacedOut ts).getLast? = some ' '
  | [] => rfl
  | t :: ts => by
    have hsplit : ' ' :: Token.spacedOut (t :: ts) =
        ' ' :: t.printed ++ ' ' :: Token.spacedOut ts := by
      simp [Token.spacedOut]
    rw [hsplit, List.getLast?_append, Token.getLast?_spacedOut ts]
    rfl

/-- The tokens of a text that can be read are read again from their printed form, up to the end mark
and apart from the places where they stand. -/
theorem Token.lex_printLine {text : String} {tokens : List Token}
    (h : Token.lexAll text = .ok tokens) :
    ∃ ts line column again, tokens = ts ++ [⟨.eof, "EOF", line, column⟩] ∧
      Token.lex (Token.printLine ts) = .ok again ∧
      again.map Token.lexeme = tokens.map Token.lexeme := by
  obtain ⟨ts, htokens, hts⟩ := Token.laidOut_of_lexAll h
  -- What is printed is cut into the same lexemes and ends in a blank, so it can be read.
  have hprinted : (Token.printLine ts).toList = ' ' :: Token.spacedOut ts := String.toList_ofList
  obtain ⟨us, line, column, hlex, hus⟩ := Token.lex_of_segments (hprinted ▸ hts.segments.spacedOut)
    (hprinted ▸ Token.getLast?_spacedOut ts) (by decide)
  refine ⟨ts, _, _, _, htokens, hlex, ?_⟩
  rw [htokens, List.map_append, List.map_append, hus]
  rfl

/-- A text whose printed form looks different: a word that is a string literal by its kind, one that
is an end mark, an escaped quote, a quote as a character, signs without blanks between them and a
string literal that is not closed. -/
def crampedText : String := "ſtring:=\"a\\\"b\"'''eof<=٣x..\n\"open\\\\"

/-- The tokens of `crampedText` before the end mark, where they stand. -/
def crampedTokens : List Token :=
  [⟨.string, "ſtring", 1, 1⟩, ⟨.assign, ":=", 1, 9⟩, ⟨.string, "a\"b", 1, 9⟩, ⟨.char, "'", 1, 15⟩,
    ⟨.eof, "eof", 1, 18⟩, ⟨.lt, "<", 1, 22⟩, ⟨.eq, "=", 1, 23⟩, ⟨.number, "٣", 1, 23⟩,
    ⟨.identifier, "x", 1, 24⟩, ⟨.twoDots, "..", 1, 25⟩, ⟨.string, "open\\", 2, 1⟩]

theorem Token.lex_printLine_crampedText :
    Token.lexAll crampedText = .ok (crampedTokens ++ [⟨.eof, "EOF", 2, 8⟩]) ∧
      Token.printLine crampedTokens =
        " \"ſtring\" := \"a\\\"b\" ''' eof < = ٣ x .. \"open\\\\\" " ∧
      ∃ again, Token.lex (Token.printLine crampedTokens) = .ok again ∧
        again.map Token.lexeme = crampedTokens.map Token.lexeme ++ [(.eof, "EOF")] := by
  have hlex : Token.lexAll crampedText = .ok (crampedTokens ++ [⟨.eof, "EOF", 2, 8⟩]) := by
    decide +kernel
  obtain ⟨ts, line, column, again, htokens, hagain, hsame⟩ := Token.lex_printLine hlex
  obtain ⟨rfl, -⟩ := List.append_inj' htokens rfl
  exact ⟨hlex, by decide +kernel, again, hagain, hsame.trans List.map_append⟩

end MiniPascal
