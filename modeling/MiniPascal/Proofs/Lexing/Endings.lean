import MiniPascal.Proofs.Lexing.Segments

/-!
# How Reading Ends

A text is cut into blanks and complete lexemes, from its start as far as this goes. What is left at
the place where it stops decides how reading ends:

* nothing is left: there are tokens, unless the text ends in a `:` or `<`, which are read together
  with the character after them. At the end of the text there is none, and reading goes past it;
* a string literal without its closing quote is left: there are tokens all the same;
* anything else is reported as a lexical error.

Which texts have tokens, which are reported, and for which reading goes past the end is stated in
`Token.lex_ends`.
-/

namespace MiniPascal

/-! ### Texts that are cut into lexemes -/

def IsClosed (lexeme : List Char) : Prop := ∀ body, IsStringInside body → lexeme ≠ '"' :: body

/-- The text is a sequence of blanks and complete lexemes, followed by `stop`. -/
inductive CutUpTo (stop : List Char) : List Char → Prop
  | here {gap : List Char} (hgap : ∀ c ∈ gap, Text.isBlank c) : CutUpTo stop (gap ++ stop)
  | next {gap lexeme rest : List Char} {t : Token} (hgap : ∀ c ∈ gap, Text.isBlank c)
      (hlexeme : t.FromLexeme lexeme rest) (hclosed : IsClosed lexeme)
      (hrest : CutUpTo stop rest) : CutUpTo stop (gap ++ (lexeme ++ rest))

/-- The text is a sequence of blanks and complete lexemes. -/
def IsLexical (text : List Char) : Prop := CutUpTo [] text

/-- The text is a sequence of blanks and complete lexemes, of which the last one is a sign that is
read together with the character after it. -/
def EndsInPair (text : List Char) : Prop := CutUpTo [':'] text ∨ CutUpTo ['<'] text

/-- After blanks and complete lexemes the text ends inside a string literal. -/
def EndsInString (text : List Char) : Prop :=
  ∃ body, IsStringInside body ∧ CutUpTo ('"' :: body) text

theorem isClosed_of_head {c : Char} {cs : List Char} (h : c ≠ '"') : IsClosed (c :: cs) :=
  fun _ _ hopen => h (List.cons.inj hopen).1

variable {text lexeme rest stop read : List Char} {ts : List Token} {t : Token}

/-- Only at the end of a text a lexeme may lack its closing quote. -/
theorem Token.FromLexeme.isClosed (ht : t.FromLexeme lexeme rest) (hrest : rest ≠ []) :
    IsClosed lexeme := by
  rintro body hbody rfl
  obtain ⟨-, inside, hinside, -, hquote | ⟨-, hend⟩⟩ := ht
  · cases ((SplitsAt.of_open hbody).unique (hquote ▸ SplitsAt.of_closed hinside [])).2
  · exact hrest hend

theorem Token.FromLexeme.exists_inside (ht : t.FromLexeme lexeme rest) (h : ¬IsClosed lexeme) :
    rest = [] ∧ ∃ body, IsStringInside body ∧ lexeme = '"' :: body := by
  refine ⟨by_contra fun hrest => h (ht.isClosed hrest), ?_⟩
  unfold IsClosed at h
  push Not at h
  exact h

/-- A string literal with its closing quote is no beginning of one that lacks it. -/
theorem IsClosed.not_inside {body : List Char} (hclosed : IsClosed lexeme)
    (ht : t.FromLexeme lexeme rest) (hbody : IsStringInside body) :
    '"' :: body ≠ lexeme ++ rest := by
  intro heq
  obtain ⟨c, cs, rfl⟩ := List.exists_cons_of_ne_nil ht.ne_nil
  obtain ⟨rfl, htail⟩ := List.cons.inj heq
  obtain ⟨-, inside, hinside, -, rfl | ⟨rfl, -⟩⟩ := ht
  · -- The inside up to the quote would be all of the open literal.
    have htail : body = inside ++ '"' :: rest := by simpa using htail
    cases ((SplitsAt.of_open hbody).unique (htail ▸ SplitsAt.of_closed hinside rest)).2
  · exact hclosed _ hinside rfl

namespace CutUpTo

variable {stop text gap lexeme rest : List Char} {t : Token}

theorem refl (stop : List Char) : CutUpTo stop stop := @here stop [] (List.forall_mem_nil _)

theorem suffix (h : CutUpTo stop text) : stop <:+ text := by
  induction h with
  | here hgap => exact List.suffix_append _ _
  | next _ _ _ _ ih => exact (ih.trans (List.suffix_append _ _)).trans (List.suffix_append _ _)

theorem append_gap (hgap : ∀ c ∈ gap, Text.isBlank c) (h : CutUpTo stop text) :
    CutUpTo stop (gap ++ text) := by
  cases h with
  | here hfirst =>
    rw [← List.append_assoc]
    exact .here (List.forall_mem_append.2 ⟨hgap, hfirst⟩)
  | next hfirst hlexeme hclosed hrest =>
    rw [← List.append_assoc]
    exact .next (List.forall_mem_append.2 ⟨hgap, hfirst⟩) hlexeme hclosed hrest

theorem cons_cases {c : Char} {cs : List Char} (hc : ¬Text.isBlank c)
    (h : CutUpTo stop (c :: cs)) :
    stop = c :: cs ∨ ∃ (t : Token) (lexeme rest : List Char), c :: cs = lexeme ++ rest ∧
      t.FromLexeme lexeme rest ∧ IsClosed lexeme ∧ CutUpTo stop rest := by
  generalize hwhole : c :: cs = whole at h
  have hnone : ∀ {gap rest : List Char}, (∀ d ∈ gap, Text.isBlank d) → c :: cs = gap ++ rest →
      gap = [] := by
    intro gap rest hgap heq
    cases gap with
    | nil => rfl
    | cons d gap =>
      obtain ⟨rfl, -⟩ := List.cons.inj heq
      exact absurd (hgap c List.mem_cons_self) hc
  cases h with
  | here hgap =>
    obtain rfl := hnone hgap hwhole
    exact .inl rfl
  | @next _ lexeme rest t hgap hlexeme hclosed hrest =>
    obtain rfl := hnone hgap hwhole
    exact .inr ⟨t, lexeme, rest, rfl, hlexeme, hclosed, hrest⟩

/-- Blanks before a text may be left out, if it is not cut up to a blank. -/
theorem of_append_gap (hstop : ∀ d ∈ stop.head?, ¬Text.isBlank d) (hgap : ∀ c ∈ gap, Text.isBlank c)
    (h : CutUpTo stop (gap ++ text)) : CutUpTo stop text := by
  induction gap with
  | nil => exact h
  | cons c gap ih =>
    obtain ⟨hc, hgap⟩ := List.forall_mem_cons.1 hgap
    refine ih hgap ?_
    generalize hwhole : c :: gap ++ text = whole at h
    cases h with
    | @here first hfirst =>
      cases first with
      | nil =>
        rw [List.nil_append] at hwhole
        exact absurd hc (hstop c (hwhole ▸ rfl))
      | cons d first =>
        have htail : gap ++ text = first ++ stop := (List.cons.inj hwhole).2
        rw [htail]
        exact .here (List.forall_mem_cons.1 hfirst).2
    | @next first lexeme rest t hfirst hlexeme hclosed hrest =>
      cases first with
      | nil =>
        exact absurd hc (hlexeme.head?_not_isBlank c (hwhole ▸ rfl))
      | cons d first =>
        have htail : gap ++ text = first ++ (lexeme ++ rest) := (List.cons.inj hwhole).2
        rw [htail]
        exact .next (List.forall_mem_cons.1 hfirst).2 hlexeme hclosed hrest

/-- The first lexeme of a text may be left out, if the text is not cut up to this lexeme. -/
theorem of_append_lexeme (hlexeme : t.FromLexeme lexeme rest) (hstop : stop ≠ lexeme ++ rest)
    (h : CutUpTo stop (lexeme ++ rest)) : CutUpTo stop rest := by
  obtain ⟨c, cs, rfl⟩ := List.exists_cons_of_ne_nil hlexeme.ne_nil
  obtain heq | ⟨t', lexeme', rest', heq, hlexeme', -, hrest⟩ := cons_cases hlexeme.not_isBlank h
  · exact absurd heq hstop
  · obtain ⟨-, rfl⟩ := hlexeme.unique hlexeme' heq
    exact hrest

theorem eq_of_startsNothing {c : Char} {cs : List Char} (hc : ¬Text.isBlank c)
    (hnothing : StartsNothing (c :: cs)) (h : CutUpTo stop (c :: cs)) : stop = c :: cs := by
  obtain heq | ⟨t, lexeme, rest, heq, hlexeme, -⟩ := cons_cases hc h
  · exact heq
  · exact absurd hlexeme (hnothing t lexeme rest heq)

/-- Of two places that a text is cut up to, one lies before the other. -/
theorem linear {stop' : List Char} (hhead : ∀ d ∈ stop'.head?, ¬Text.isBlank d)
    (h : CutUpTo stop text) (h' : CutUpTo stop' text) :
    CutUpTo stop' stop ∨ CutUpTo stop stop' := by
  induction h with
  | here hgap => exact .inl (h'.of_append_gap hhead hgap)
  | @next gap lexeme rest t hgap hlexeme hclosed hrest ih =>
    have hfirst := h'.of_append_gap hhead hgap
    by_cases hstop : stop' = lexeme ++ rest
    · rw [hstop]
      exact .inr (@next stop [] _ _ _ (List.forall_mem_nil _) hlexeme hclosed hrest)
    · exact ih (hfirst.of_append_lexeme hlexeme hstop)

end CutUpTo

theorem not_endsInPair_nil : ¬EndsInPair [] := by
  rintro (h | h)
  · exact absurd (List.suffix_nil.1 h.suffix) nofun
  · exact absurd (List.suffix_nil.1 h.suffix) nofun

/-- Up to a lexeme that is all that is left, a text is a sequence of lexemes. -/
theorem CutUpTo.isLexical (ht : t.FromLexeme lexeme []) (hclosed : IsClosed lexeme)
    (h : CutUpTo lexeme text) : IsLexical text := by
  induction h with
  | here hgap =>
    rw [← List.append_nil lexeme]
    exact .next hgap ht hclosed (.refl [])
  | next hgap hlexeme hclosed' _ ih => exact .next hgap hlexeme hclosed' ih

theorem EndsInPair.isLexical (h : EndsInPair text) : IsLexical text := by
  have hcolon : (⟨.colon, ":", 0, 0⟩ : Token).FromLexeme [':'] [] := by
    rw [Token.fromLexeme_cons (by decide) (by decide)]
    decide
  have hless : (⟨.lt, "<", 0, 0⟩ : Token).FromLexeme ['<'] [] := by
    rw [Token.fromLexeme_cons (by decide) (by decide)]
    decide
  rcases h with h | h
  · exact h.isLexical hcolon (isClosed_of_head (by decide))
  · exact h.isLexical hless (isClosed_of_head (by decide))

/-- What is left of a text that ends inside a string literal is no sequence of lexemes. -/
theorem EndsInString.not_isLexical (h : EndsInString text) :
    ¬IsLexical text := by
  intro hall
  obtain ⟨body, hbody, h⟩ := h
  obtain hinside | hbefore := h.linear (by simp) hall
  · obtain heq | ⟨t, lexeme, rest, heq, ht, hclosed, -⟩ := hinside.cons_cases (by decide)
    · exact absurd heq nofun
    · exact hclosed.not_inside ht hbody heq
  · exact absurd (List.suffix_nil.1 hbefore.suffix) nofun

/-! ### Reading to the end -/

/-- The places that decide how reading ends: the end of the text, a sign that is read together with
the next character, or a string literal without its closing quote. -/
def IsStop (stop : List Char) : Prop :=
  stop = [] ∨ stop = [':'] ∨ stop = ['<'] ∨ ∃ body, IsStringInside body ∧ stop = '"' :: body

theorem IsStop.head?_not_isBlank (h : IsStop stop) :
    ∀ d ∈ stop.head?, ¬Text.isBlank d := by
  rcases h with rfl | rfl | rfl | ⟨body, -, rfl⟩
  · exact nofun
  all_goals
    intro d hd
    obtain rfl := Option.some.inj hd
    decide

def CutAlike (text text' : List Char) : Prop :=
  ∀ stop, IsStop stop → (CutUpTo stop text ↔ CutUpTo stop text')

namespace CutAlike

variable {text text' gap lexeme rest : List Char}

theorem isLexical_iff (h : CutAlike text text') : IsLexical text ↔ IsLexical text' :=
  h [] (.inl rfl)

theorem endsInPair_iff (h : CutAlike text text') : EndsInPair text ↔ EndsInPair text' :=
  or_congr (h _ (.inr (.inl rfl))) (h _ (.inr (.inr (.inl rfl))))

theorem endsInString_iff (h : CutAlike text text') : EndsInString text ↔ EndsInString text' :=
  exists_congr fun body => and_congr_right fun hbody => h _ (.inr (.inr (.inr ⟨body, hbody, rfl⟩)))

theorem append_gap (hgap : ∀ c ∈ gap, Text.isBlank c) : CutAlike (gap ++ rest) rest :=
  fun _ hstop => ⟨.of_append_gap hstop.head?_not_isBlank hgap, .append_gap hgap⟩

theorem append_lexeme {t : Token} (ht : t.FromLexeme lexeme rest) (hclosed : IsClosed lexeme)
    (hpair : ¬IsPair (lexeme ++ rest)) : CutAlike (lexeme ++ rest) rest := by
  intro stop hstop
  have hnone : ∀ c ∈ ([] : List Char), Text.isBlank c := by simp
  refine ⟨fun h => h.of_append_lexeme ht ?_, fun h => .next hnone ht hclosed h⟩
  rcases hstop with rfl | rfl | rfl | ⟨body, hbody, rfl⟩
  · exact fun hnil => ht.ne_nil (List.append_eq_nil_iff.1 hnil.symm).1
  · exact fun heq => hpair (.inl heq.symm)
  · exact fun heq => hpair (.inr heq.symm)
  · exact hclosed.not_inside ht hbody

end CutAlike

theorem Cursor.ReadUpTo.suffix (h : ReadUpTo stop read text ts) : stop <:+ text := by
  induction h with
  | stop => exact List.suffix_rfl
  | gap _ _ ih | lexeme _ _ ih => exact ih.trans (List.suffix_append _ _)

/-- A text is cut like what is left of it where reading stops, unless reading goes to its end inside
a string literal. -/
theorem Cursor.ReadUpTo.cutAlike (h : ReadUpTo stop read text ts) :
    CutAlike text stop ∨ stop = [] ∧ EndsInString text := by
  have hstep {text rest : List Char} (halike : CutAlike text rest)
      (h : CutAlike rest stop ∨ stop = [] ∧ EndsInString rest) :
      CutAlike text stop ∨ stop = [] ∧ EndsInString text :=
    h.imp (fun h s hs => (halike s hs).trans (h s hs)) (.imp_right halike.endsInString_iff.2)
  induction h with
  | stop => exact .inl fun _ _ => Iff.rfl
  | gap hgap _ ih => exact hstep (.append_gap hgap) ih
  | @lexeme _ lexeme _ _ _ h hrest ih =>
    by_cases hclosed : IsClosed lexeme
    · exact hstep (.append_lexeme h.fromLexeme hclosed h.not_isPair) ih
    · obtain ⟨rfl, body, hbody, rfl⟩ := h.fromLexeme.exists_inside hclosed
      rw [List.append_nil]
      exact .inr ⟨List.suffix_nil.1 hrest.suffix, body, hbody, .refl _⟩

/-- A text that is cut into lexemes is a sequence of complete ones, or it ends inside a string
literal. -/
theorem Segments.isLexical_or (h : Segments text ts) :
    IsLexical text ∨ EndsInString text := by
  induction h with
  | @last gap hgap =>
    rw [← List.append_nil gap]
    exact .inl (.here hgap)
  | @next _ lexeme _ _ _ hgap hlexeme _ ih =>
    by_cases hclosed : IsClosed lexeme
    · refine ih.imp (.next hgap hlexeme hclosed) ?_
      exact fun ⟨body, hbody, h⟩ => ⟨body, hbody, .next hgap hlexeme hclosed h⟩
    · obtain ⟨rfl, body, hbody, rfl⟩ := hlexeme.exists_inside hclosed
      rw [List.append_nil]
      exact .inr ⟨body, hbody, .here hgap⟩

namespace Token

/-- The ways in which reading ends, and the texts for which it ends so. -/
theorem lexAll_ends (text : String) :
    Succeeds (lexAll text) ∧
        (IsLexical text.toList ∧ ¬EndsInPair text.toList ∨ EndsInString text.toList) ∨
      lexAll text = .error .pastEnd ∧ EndsInPair text.toList ∨
      (∃ e, lexAll text = .error e ∧ e.IsMalformed) ∧
        ¬IsLexical text.toList ∧ ¬EndsInString text.toList := by
  obtain ⟨stop, ts, hread, hend⟩ := lexAll_cases text
  generalize lexAll text = result at hend
  obtain halike | ⟨rfl, hopen⟩ := hread.cutAlike
  · rw [halike.isLexical_iff, halike.endsInPair_iff, halike.endsInString_iff]
    cases hend with
    | finished => exact .inl ⟨⟨_, rfl⟩, .inl ⟨.refl [], not_endsInPair_nil⟩⟩
    | pair h =>
      refine .inr (.inl ⟨rfl, ?_⟩)
      rcases h with rfl | rfl
      · exact .inl (.refl _)
      · exact .inr (.refl _)
    | nothing hc he h =>
      -- The text is cut up to its start only, which is neither its end nor an open string.
      refine .inr (.inr ⟨⟨_, rfl, he⟩, fun hall => ?_, ?_⟩)
      · cases hall.eq_of_startsNothing hc h
      · rintro ⟨body, hbody, hcut⟩
        obtain ⟨rfl, rfl⟩ := List.cons.inj (hcut.eq_of_startsNothing hc h)
        exact h ⟨.string, String.ofList (unescape body), 0, 0⟩ _ [] (List.append_nil _).symm
          ⟨rfl, body, hbody, rfl, .inr ⟨rfl, rfl⟩⟩
  · cases hend with
    | finished => exact .inl ⟨⟨_, rfl⟩, .inr hopen⟩
    | pair h => rcases h with h | h <;> cases h

/-- A text that is cut into lexemes and ends in a blank is read into tokens that say just these. -/
theorem lex_of_segments {text : String} {ts : List Token} {d : Char} (h : Segments text.toList ts)
    (hlast : text.toList.getLast? = some d) (hd : Text.isBlank d) :
    ∃ us line column, lex text = .ok (us ++ [⟨.eof, "EOF", line, column⟩]) ∧
      us.map Token.lexeme = ts.map Token.lexeme := by
  have hnotPair {c : Char} (hc : ¬Text.isBlank c) : ¬CutUpTo [c] text.toList := by
    intro hcut
    obtain ⟨before, hbefore⟩ := hcut.suffix
    rw [← hbefore, List.getLast?_append] at hlast
    obtain rfl : c = d := Option.some.inj hlast
    exact hc hd
  have hsucceeds : Succeeds (lexAll text) := by
    obtain ⟨hok, -⟩ | ⟨-, hpair⟩ | ⟨-, hlexical, hopen⟩ := lexAll_ends text
    · exact hok
    · exact (hpair.elim (hnotPair (by decide)) (hnotPair (by decide))).elim
    · exact absurd h.isLexical_or (not_or.2 ⟨hlexical, hopen⟩)
  obtain ⟨tokens, hlex⟩ := hsucceeds
  obtain ⟨us, rfl, hus⟩ := laidOut_of_lexAll hlex
  have hne : text.isEmpty = false := by
    rw [← Bool.not_eq_true, String.isEmpty_iff]
    rintro rfl
    cases hlast
  refine ⟨us, _, _, Eq.trans ?_ hlex, hus.segments.unique h⟩
  rw [lex, hne]
  rfl

/-- The texts that have tokens are the sequences of complete lexemes that do not end in a sign read
together with the next character, and the texts that end inside a string literal. Reading goes past
the end after such a sign, and all other texts are reported. So it is for these two ends only that
a text has no tokens although it is complete, or is not reported although it is not. -/
theorem lex_ends {text : String} (h : text.isEmpty = false) :
    (Succeeds (lex text) ↔
      IsLexical text.toList ∧ ¬EndsInPair text.toList ∨ EndsInString text.toList) ∧
    (lex text = .error .pastEnd ↔ EndsInPair text.toList) ∧
    ((∃ e, lex text = .error e ∧ e.IsMalformed) ↔
      ¬IsLexical text.toList ∧ ¬EndsInString text.toList) ∧
    ((IsLexical text.toList → Succeeds (lex text)) ∧
      (¬IsLexical text.toList → ∃ e, lex text = .error e ∧ e.IsMalformed) ↔
      ¬EndsInPair text.toList ∧ ¬EndsInString text.toList) := by
  have hlex : lex text = lexAll text := by
    rw [lex, h]
    rfl
  have hpair := @EndsInPair.isLexical text.toList
  have hstring := @EndsInString.not_isLexical text.toList
  -- The three ends exclude each other, and so do the texts that lead to them.
  rw [hlex]
  obtain ⟨hsucceeds, htext⟩ | ⟨hpast, htext⟩ | ⟨hreported, htext⟩ := lexAll_ends text
  · have hreported : ¬∃ e, lexAll text = .error e ∧ e.IsMalformed := by
      rintro ⟨e, he, -⟩
      exact not_succeeds_error _ (he ▸ hsucceeds)
    have hpast : lexAll text ≠ .error .pastEnd := fun he => not_succeeds_error _ (he ▸ hsucceeds)
    have hnoPair : ¬EndsInPair text.toList := fun hends =>
      htext.elim (fun hall => hall.2 hends) fun hopen => hstring hopen (hpair hends)
    refine ⟨iff_of_true hsucceeds htext, iff_of_false hpast hnoPair,
      iff_of_false hreported fun hnot => ?_, fun hlaw => ⟨hnoPair, fun hopen => ?_⟩,
      fun hends => ⟨fun _ => hsucceeds, fun hnot => ?_⟩⟩
    · exact htext.elim (fun hall => hnot.1 hall.1) hnot.2
    · exact hreported (hlaw.2 (hstring hopen))
    · exact absurd (htext.resolve_right hends.2).1 hnot
  · have hsucceeds : ¬Succeeds (lexAll text) := hpast ▸ not_succeeds_error _
    have hreported : ¬∃ e, lexAll text = .error e ∧ e.IsMalformed := by
      rintro ⟨e, he, cause, line, column, rfl⟩
      cases hpast.symm.trans he
    have hall : IsLexical text.toList := hpair htext
    refine ⟨iff_of_false hsucceeds ?_, iff_of_true hpast htext,
      iff_of_false hreported fun hnot => hnot.1 hall,
      iff_of_false (fun hlaw => hsucceeds (hlaw.1 hall)) fun hnot => hnot.1 htext⟩
    rintro (⟨-, hnot⟩ | hopen)
    · exact hnot htext
    · exact hstring hopen hall
  · obtain ⟨e, herror, cause, line, column, rfl⟩ := id hreported
    have hsucceeds : ¬Succeeds (lexAll text) := herror ▸ not_succeeds_error _
    have hpast : lexAll text ≠ .error .pastEnd := fun hpast => by cases herror.symm.trans hpast
    have hnoPair : ¬EndsInPair text.toList := fun hends => htext.1 (hpair hends)
    refine ⟨iff_of_false hsucceeds ?_, iff_of_false hpast hnoPair, iff_of_true hreported htext,
      iff_of_true ⟨fun hall => absurd hall htext.1, fun _ => hreported⟩ ⟨hnoPair, htext.2⟩⟩
    exact fun hends => hends.elim (fun hall => htext.1 hall.1) htext.2

/-- A text of lexemes only for which reading goes past the end, and one that ends inside a string
literal and has tokens all the same. -/
theorem lex_ends_pair_and_string :
    (lex "x :" = .error .pastEnd ∧ IsLexical "x :".toList) ∧
    (Succeeds (lex "\"a:") ∧ ¬IsLexical "\"a:".toList) := by
  have hpair : lex "x :" = .error .pastEnd := by decide
  have hinside : IsStringInside ['a', ':'] :=
    .plain (by decide) (by decide) (.plain (by decide) (by decide) .nil)
  have hstring : EndsInString "\"a:".toList := ⟨_, hinside, .refl _⟩
  obtain ⟨-, hpast, -⟩ := lex_ends (show "x :".isEmpty = false by decide)
  obtain ⟨hsucceeds, -⟩ := lex_ends (show "\"a:".isEmpty = false by decide)
  exact ⟨⟨hpair, (hpast.1 hpair).isLexical⟩, hsucceeds.2 (.inr hstring), hstring.not_isLexical⟩

end Token

end MiniPascal
