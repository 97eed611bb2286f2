import MiniPascal.Proofs.Lexing.Joining
import MiniPascal.Proofs.Lexing.Positions

/-!
# Texts Read Line by Line

A line end outside of string literals separates what stands before it from what stands behind it.
The tokens before it are read without looking behind it, and what stands behind it is read as it
would be alone, on lines further down.

* `Token.lexAll_lineEnd`: the tokens, or the error, of two texts with a line end between them.
-/

namespace MiniPascal

namespace Cursor

variable {lines chars : Nat} {α β : Type} {cur after : Cursor}

/-- Behind other tokens, the tokens of a text are those that are read alone, further down. -/
theorem readTokens_below (ts : List Token) (fuel : Nat) (h : Beside Eq lines chars cur after) :
    (readTokens ts.reverse fuel after).1 = ((readTokens [] fuel cur).1.map fun us =>
      ts ++ us.map (Token.below lines)).mapError (LexError.below lines) := by
  have hanswers := (Walks.readTokens .refl ts.reverse fuel .nil h).2
  rw [List.nil_append] at hanswers
  generalize readTokens [] fuel cur = result at hanswers
  generalize readTokens ts.reverse fuel after = result' at hanswers
  cases hanswers with
  | error e _ => rfl
  | @ok us _ _ _ hus _ =>
    obtain ⟨vs, rfl, hvs⟩ := hus
    obtain rfl : us.map (Token.below lines) = vs := by
      rw [← List.forall₂_eq_eq_eq, List.forall₂_map_left_iff]
      exact hvs.imp fun _ _ => Token.Beside.below_eq
    rw [List.reverse_reverse]
    rfl

/-! ### Reading up to a line end -/

variable {seen : List Token} {fuel fuel' : Nat} {c : Char} {cs read rest : List Char}

/-- More fuel than there are characters makes no difference. -/
theorem readTokens_fuel : ∀ {fuel fuel' : Nat} (seen : List Token) {cur : Cursor},
    cur.rest.length < fuel → cur.rest.length < fuel' →
      readTokens seen fuel cur = readTokens seen fuel' cur
  | 0, _, _, _, h, _ | _ + 1, 0, _, _, _, h => absurd h (Nat.not_lt_zero _)
  | fuel + 1, fuel' + 1, seen, cur, hfuel, hfuel' => by
    cases hcur : cur.rest with
    | nil => rw [readTokens_nil hcur, readTokens_nil hcur]
    | cons c cs =>
      rw [readTokens_cons hcur, readTokens_cons hcur]
      rcases hstep : readToken c cur with ⟨e | o, mid⟩
      · rw [bind_apply_of_error hstep, bind_apply_of_error hstep]
      · rw [bind_apply_of_ok hstep, bind_apply_of_ok hstep]
        have hless := length_lt_of_readToken hcur hstep
        exact readTokens_fuel (o.toList ++ seen) (by omega) (by omega)

theorem skipWhile_eq_self {p : Char → Bool} (hcur : cur.rest = c :: cs) (hc : ¬p c) :
    cur.skipWhile p = cur := by
  rw [skipWhile, hcur, skipWhile.go, if_neg hc]

/-- Reading starts with the first character that is not blank. -/
theorem readTokens_skipWhile (cur : Cursor) (hfuel : cur.rest.length < fuel)
    (hfuel' : cur.rest.length < fuel') :
    readTokens seen fuel cur = readTokens seen fuel' (cur.skipWhile Text.isBlank) := by
  have hskip : (cur.skipWhile Text.isBlank).rest.length ≤ cur.rest.length := by
    rw [skipWhile_rest]
    exact (List.dropWhile_suffix _).length_le
  cases hcur : cur.rest with
  | nil =>
    rw [skipWhile, hcur]
    exact readTokens_fuel seen hfuel hfuel'
  | cons c cs =>
    by_cases hc : Text.isBlank c
    · have hstep : readToken c cur = (.ok none, cur.skipWhile Text.isBlank) := by
        rw [readToken, if_pos hc]
        rfl
      have hless := length_lt_of_readToken hcur hstep
      rw [readTokens_fuel seen hfuel (Nat.lt_succ_self _), readTokens_cons hcur,
        bind_apply_of_ok hstep]
      exact readTokens_fuel seen hless (by omega)
    · rw [skipWhile_eq_self hcur hc]
      exact readTokens_fuel seen hfuel hfuel'

theorem skipWhile_behind {gap : List Char} (hgap : ∀ d ∈ gap, Text.isBlank d) :
    (behind read (gap ++ rest)).skipWhile Text.isBlank =
      (behind (read ++ gap) rest).skipWhile Text.isBlank := by
  induction gap generalizing read with
  | nil => rw [List.append_nil, List.nil_append]
  | cons c gap ih =>
    obtain ⟨hc, hgap⟩ := List.forall_mem_cons.1 hgap
    have hstep : (behind read (c :: gap ++ rest)).skipWhile Text.isBlank =
        (behind (read ++ [c]) (gap ++ rest)).skipWhile Text.isBlank := by
      rw [List.cons_append, skipWhile, skipWhile, ← behind_step]
      change skipWhile.go _ _ (c :: (gap ++ rest)) = _
      rw [skipWhile.go, if_pos hc, step_rest]
    rw [hstep, ih hgap, List.append_assoc, List.singleton_append]

/-- The step that reads a token is told by its lexeme. -/
theorem readToken_eq {t : Token} {lexeme : List Char} (ht : t.FromLexeme (c :: lexeme) rest)
    (hrest : rest ≠ []) (hline : t.line = lineBehind (read ++ c :: lexeme))
    (hcolumn : t.column = (if placedAtStart (c :: lexeme) then columnBehind read
      else columnBehind (read ++ c :: lexeme) : Nat)) :
    readToken c (behind read (c :: lexeme ++ rest)) =
      (.ok (some t), behind (read ++ c :: lexeme) rest) := by
  have hcur : (behind read (c :: lexeme ++ rest)).rest = c :: (lexeme ++ rest) := rfl
  obtain ⟨gap, mid, hne, hgap, heq, -⟩ | ⟨-, hmeets⟩ := readToken_cases hcur
  · obtain ⟨d, gap, rfl⟩ := List.exists_cons_of_ne_nil hne
    obtain ⟨rfl, -⟩ := List.cons.inj (hcur.symm.trans heq)
    exact absurd (hgap c List.mem_cons_self) ht.not_isBlank
  generalize hstep : readToken c (behind read (c :: lexeme ++ rest)) = result at hmeets
  cases hmeets with
  | @lexeme t' mid s h =>
    have hend := runs_behind (.readToken .refl rfl) hstep h.rest_eq
    obtain ⟨hsame, hleft⟩ := ht.unique h.fromLexeme h.rest_eq
    obtain rfl : c :: lexeme = s := List.append_cancel_right (h.rest_eq.trans (hleft ▸ rfl))
    rw [← hleft] at hend
    subst hend
    obtain ⟨kind, value, line, column⟩ := t
    obtain ⟨kind', value', line', column'⟩ := t'
    obtain ⟨rfl, rfl⟩ := Prod.mk.inj hsame
    obtain rfl : line = line' := hline.trans h.line_eq.symm
    obtain rfl : column = column' := hcolumn.trans h.column_eq.symm
    rfl
  | pair after h =>
    have hlength : (c :: lexeme ++ rest).length = 1 := by
      rcases h with h | h
      all_goals exact congrArg List.length h
    have hpos := List.length_pos_iff.2 hrest
    rw [List.length_append, List.length_cons] at hlength
    omega
  | nothing after he h => exact absurd ht (h t _ _ rfl)

/-- Whatever follows the characters, they are read into the tokens, and reading goes on behind
them. -/
def ReadsInto (read chars : List Char) (ts : List Token) : Prop :=
  ∀ (more : List Char) (seen : List Token) (fuel : Nat), (chars ++ more).length < fuel →
    readTokens seen fuel (behind read (chars ++ more)) =
      readTokens (ts.reverse ++ seen) (more.length + 1) (behind (read ++ chars) more)

namespace ReadsInto

variable {gap lexeme : List Char} {t : Token} {ts : List Token}

/-- Blanks do not matter to reading. -/
theorem blanks (hgap : ∀ d ∈ gap, Text.isBlank d) : ReadsInto read gap [] := by
  intro more seen fuel hfuel
  have hlength : more.length < fuel := by
    rw [List.length_append] at hfuel
    omega
  rw [readTokens_skipWhile (behind read (gap ++ more)) hfuel hfuel, skipWhile_behind hgap]
  exact (readTokens_skipWhile (behind (read ++ gap) more) (Nat.lt_succ_self _) hlength).symm

theorem append_gap (hgap : ∀ d ∈ gap, Text.isBlank d) (h : ReadsInto (read ++ gap) rest ts) :
    ReadsInto read (gap ++ rest) ts := by
  intro more seen fuel hfuel
  rw [List.append_assoc] at hfuel ⊢
  rw [ReadsInto.blanks hgap _ seen fuel hfuel, h more _ _ (Nat.lt_succ_self _), List.append_assoc]
  rfl

/-- A lexeme is read into its token, if something follows it. -/
theorem token (ht : t.FromLexeme lexeme rest) (hrest : rest ≠ [])
    (hline : t.line = lineBehind (read ++ lexeme))
    (hcolumn : t.column = (if placedAtStart lexeme then columnBehind read
      else columnBehind (read ++ lexeme) : Nat))
    (h : ReadsInto (read ++ lexeme) rest ts) : ReadsInto read (lexeme ++ rest) (t :: ts) := by
  intro more seen fuel hfuel
  obtain ⟨c, tail, rfl⟩ := List.exists_cons_of_ne_nil ht.ne_nil
  have hmore : rest ++ more ≠ [] := fun hnil => hrest (List.append_eq_nil_iff.1 hnil).1
  have hstep := readToken_eq (ht.append hrest more) hmore hline hcolumn
  rw [List.append_assoc] at hfuel ⊢
  have hless : (rest ++ more).length < (behind read (c :: tail ++ (rest ++ more))).rest.length := by
    change _ < (c :: tail ++ (rest ++ more)).length
    simp only [List.length_append, List.length_cons]
    omega
  rw [readTokens_fuel seen hfuel (Nat.lt_succ_self _), readTokens_cons rfl, bind_apply_of_ok hstep,
    h more _ _ hless, List.append_assoc read, List.reverse_cons, List.append_assoc ts.reverse]
  rfl

end ReadsInto

end Cursor

/-- No complete lexeme ends in a line end. -/
theorem Token.FromLexeme.getLast?_ne_lineEnd {t : Token} {lexeme rest : List Char}
    (h : t.FromLexeme lexeme rest) (hclosed : IsClosed lexeme) : lexeme.getLast? ≠ some '\n' := by
  intro hlast
  have hmem : '\n' ∈ lexeme := List.mem_of_getLast? hlast
  obtain ⟨c, cs, rfl⟩ := List.exists_cons_of_ne_nil h.ne_nil
  by_cases hquote : c = '"'
  · subst hquote
    obtain ⟨-, body, hbody, -, rfl | ⟨rfl, -⟩⟩ := h
    · rw [← List.cons_append, List.getLast?_append] at hlast
      exact absurd (Option.some.inj hlast) (by decide)
    · exact absurd rfl (hclosed _ hbody)
  by_cases hchar : c = '\''
  · subst hchar
    obtain ⟨-, d, rfl, -⟩ := h
    exact absurd (Option.some.inj hlast) (by decide : '\'' ≠ '\n')
  rw [Token.fromLexeme_cons hquote hchar] at h
  obtain ⟨hvalue, h⟩ := h
  split at h
  next => exact absurd (h.2.1 _ hmem) (by decide)
  split at h
  next => exact absurd (h.2.1 _ hmem) (by decide)
  next =>
    rw [hvalue] at h
    exact sign_not_isBlank _ h.1 '\n' (String.toList_ofList ▸ hmem) (by decide)

/-- A text that ends in a line end, and not inside a string literal, is read whatever follows. -/
theorem LaidOut.readsInto {read text : List Char} {ts : List Token} (h : LaidOut read text ts)
    (hlast : ∀ d ∈ text.getLast?, d = '\n') (hopen : ¬EndsInString text) :
    Cursor.ReadsInto read text ts := by
  induction h with
  | last hgap => exact .blanks hgap
  | @next read gap lexeme rest t ts hgap hlexeme hline hcolumn _ ih =>
    have hrest : rest ≠ [] := by
      rintro rfl
      by_cases hclosed : IsClosed lexeme
      · obtain ⟨d, hd⟩ := Option.ne_none_iff_exists'.1
          (mt List.getLast?_eq_none_iff.1 hlexeme.ne_nil)
        refine hlexeme.getLast?_ne_lineEnd hclosed ?_
        rw [hd, hlast d (by rw [List.append_nil, List.getLast?_append, hd]; rfl)]
      · obtain ⟨-, body, hbody, rfl⟩ := hlexeme.exists_inside hclosed
        exact hopen ⟨body, hbody, List.append_nil _ ▸ .here hgap⟩
    have hlast' : ∀ d ∈ rest.getLast?, d = '\n' := by
      intro d hd
      refine hlast d ?_
      rw [List.getLast?_append, List.getLast?_append, Option.mem_def.1 hd]
      rfl
    have hopen' : ¬EndsInString rest := fun ⟨body, hbody, hcut⟩ =>
      hopen ⟨body, hbody, .next hgap hlexeme (hlexeme.isClosed hrest) hcut⟩
    exact .append_gap hgap (.token hlexeme hrest hline hcolumn (ih hlast' hopen'))

namespace Token

/-- If a text can be read with a line end behind it, and this is not part of a string literal, then
another text behind the line end is read as it would be alone: its tokens follow those of the first
text, and its error is the error of the whole, each of them as many lines further down as end in the
first text. -/
theorem lexAll_lineEnd {s : String} {tokens : List Token}
    (h : lexAll (s ++ "\n") = .ok tokens) (hopen : ¬EndsInString (s ++ "\n").toList) (t : String) :
    ∃ ts line column, tokens = ts ++ [⟨.eof, "EOF", line, column⟩] ∧
      lexAll (s ++ "\n" ++ t) = ((lexAll t).map fun us =>
        ts ++ us.map (below ((s ++ "\n").toList.count '\n'))).mapError
          (LexError.below ((s ++ "\n").toList.count '\n')) := by
  obtain ⟨ts, htokens, hts⟩ := laidOut_of_lexAll h
  refine ⟨ts, _, _, htokens, ?_⟩
  have hchars : (s ++ "\n").toList = s.toList ++ ['\n'] := String.toList_append
  have hreads : Cursor.ReadsInto [] (s ++ "\n").toList ts := by
    refine hts.readsInto (fun d hd => ?_) hopen
    rw [hchars, List.getLast?_append] at hd
    exact (Option.some.inj hd).symm
  have hbeside : Cursor.Beside Eq ((s ++ "\n").toList.count '\n') (s ++ "\n").toList.length
      (Cursor.start t) (Cursor.behind (s ++ "\n").toList t.toList) := by
    refine ⟨List.forall₂_refl _, (Nat.zero_add _).symm, rfl, ?_⟩
    change 1 = columnBehind (s ++ "\n").toList
    rw [columnBehind, hchars, List.reverse_append]
    rfl
  have hwhole : lexAll (s ++ "\n" ++ t) = (Cursor.readTokens []
      ((s ++ "\n" ++ t).toList.length + 1) (Cursor.behind [] (s ++ "\n" ++ t).toList)).1 := rfl
  rw [hwhole, String.toList_append, hreads _ _ _ (Nat.lt_succ_self _), List.append_nil,
    List.nil_append]
  exact Cursor.readTokens_below ts _ hbeside

/-- A word and a character literal that is not finished, behind two lines. -/
theorem lexAll_lineEnd_unfinishedChar :
    lexAll ("x\n;" ++ "\n" ++ " y") = .ok [⟨.identifier, "x", 1, 1⟩, ⟨.semicolon, ";", 2, 2⟩,
      ⟨.identifier, "y", 3, 2⟩, ⟨.eof, "EOF", 3, 3⟩] ∧
    lexAll ("x\n;" ++ "\n" ++ " '") = .error (.malformed .unfinishedChar 3 3) := by
  have hlex : lexAll ("x\n;" ++ "\n") = .ok ([⟨.identifier, "x", 1, 1⟩, ⟨.semicolon, ";", 2, 2⟩] ++
      [⟨.eof, "EOF", 3, 1⟩]) := by decide +kernel
  have hopen : ¬EndsInString ("x\n;" ++ "\n").toList := by
    rintro ⟨body, -, h⟩
    exact absurd (h.suffix.subset List.mem_cons_self) (by decide)
  have hword : lexAll " y" = .ok [⟨.identifier, "y", 1, 2⟩, ⟨.eof, "EOF", 1, 3⟩] := by
    decide +kernel
  have hchar : lexAll " '" = .error (.malformed .unfinishedChar 1 3) := by decide +kernel
  obtain ⟨ts, line, column, heq, hy⟩ := lexAll_lineEnd hlex hopen " y"
  obtain ⟨rfl, -⟩ := List.append_inj' heq rfl
  obtain ⟨_, _, _, _, herror⟩ := lexAll_lineEnd hlex hopen " '"
  rw [hword] at hy
  rw [hchar] at herror
  exact ⟨hy, herror⟩

end Token

end MiniPascal
