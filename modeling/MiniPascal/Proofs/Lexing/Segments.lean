import MiniPascal.Proofs.Lexing.Walking
import MiniPascal.Proofs.Spelling
import Mathlib.Data.Nat.Basic

/-!
# The Segments of a Text

A text whose tokens can be read is cut into lexemes with blanks between them. Nothing of it is
dropped, repeated or moved, and each lexeme says by itself which token it is.

* `Cursor.readTokens_laidOut`: what reading to the end takes off the text;
* `Token.lexAll_segments`: the tokens of a text are those of its segments, and an end mark.
-/

namespace MiniPascal

/-- The characters that the inside of a string literal stands for: a backslash stands for the
character after it. -/
def unescape : List Char → List Char
  | '\\' :: c :: rest | c :: rest => c :: unescape rest
  | [] => []

theorem unescape_cons {c : Char} (h : c ≠ '\\') (cs : List Char) :
    unescape (c :: cs) = c :: unescape cs := by
  rw [unescape]
  exact fun _ _ hc => absurd hc h

/-- The inside of a string literal: a double quote stands only after a backslash, and a backslash
has a character after it. -/
inductive IsStringInside : List Char → Prop
  | nil : IsStringInside []
  | escaped (c : Char) {cs : List Char} (h : IsStringInside cs) : IsStringInside ('\\' :: c :: cs)
  | plain {c : Char} {cs : List Char} (hquote : c ≠ '"') (hescape : c ≠ '\\')
      (h : IsStringInside cs) : IsStringInside (c :: cs)

/-- The operators and punctuation marks. -/
def signs : List (String × TokenKind) :=
  [("+", .plus), ("-", .minus), ("*", .asterisk), ("/", .slash), (";", .semicolon), ("(", .lparen),
    (")", .rparen), ("[", .lbracket), ("]", .rbracket), (",", .comma), ("=", .eq), (">", .gt),
    (".", .dot), ("..", .twoDots), (":", .colon), (":=", .assign), ("<", .lt), ("<>", .neq)]

variable {c : Char} {cs after : List Char} {t : Token} {ts : List Token}
  {text lexeme read gap : List Char}

theorem pair_mem_signs {d : Char} : String.ofList [c, d] ∈ signs.map Prod.fst ↔
    c = '.' ∧ d = '.' ∨ c = ':' ∧ d = '=' ∨ c = '<' ∧ d = '>' := by
  simp [signs, ← String.toList_inj]

theorem long_notMem_signs {d e : Char} :
    String.ofList (c :: d :: e :: cs) ∉ signs.map Prod.fst := by
  simp [signs, ← String.toList_inj]

/-- A character that is a sign whatever follows it starts no longer sign. -/
theorem signKind?_sign {kind : TokenKind} (h : Cursor.signKind? c = some kind) :
    (c.toString, kind) ∈ signs ∧ c ∉ ['.', ':', '<'] := by
  unfold Cursor.signKind? at h
  split at h
  all_goals simp only [Option.some.injEq, reduceCtorEq] at h
  all_goals exact h ▸ by decide

/-- The lexeme, with `after` behind it in the text, is the token. Its first character tells what
kind of lexeme it is: a string literal, which may lack its closing quote at the end of the text, a
character literal, a number and a word, which go on as far as they can, or a sign. -/
def Token.FromLexeme (t : Token) (lexeme after : List Char) : Prop :=
  match lexeme with
  | [] => False
  | '"' :: inside =>
    t.kind = .string ∧ ∃ body, IsStringInside body ∧ t.value = String.ofList (unescape body) ∧
      (inside = body ++ ['"'] ∨ inside = body ∧ after = [])
  | '\'' :: inside => t.kind = .char ∧ ∃ c, inside = [c, '\''] ∧ t.value = c.toString
  | c :: _ =>
    t.value = String.ofList lexeme ∧
      if Text.isDigit c then
        t.kind = .number ∧ (∀ d ∈ lexeme, Text.isDigit d) ∧ ∀ d ∈ after.head?, ¬Text.isDigit d
      else if Text.isLetter c then
        t.kind = Cursor.wordKind t.value ∧ (∀ d ∈ lexeme, Cursor.isWordChar d) ∧
          ∀ d ∈ after.head?, ¬Cursor.isWordChar d
      else
        (t.value, t.kind) ∈ signs ∧
          ∀ d ∈ after.head?, String.ofList (lexeme ++ [d]) ∉ signs.map Prod.fst

/-- Whether the token of a lexeme is placed where the lexeme starts. All signs but dots are placed
where they end. -/
def placedAtStart : List Char → Bool
  | [] => false
  | c :: _ => c = '"' || c = '\'' || c = '.' || Text.isDigit c || Text.isLetter c

/-- The text is a gap of blanks, the lexeme of the first token, and so on to a last gap. -/
inductive Segments : List Char → List Token → Prop
  | last {gap : List Char} (hgap : ∀ c ∈ gap, Text.isBlank c) : Segments gap []
  | next {gap lexeme rest : List Char} {t : Token} {ts : List Token}
      (hgap : ∀ c ∈ gap, Text.isBlank c) (hlexeme : t.FromLexeme lexeme rest)
      (hrest : Segments rest ts) : Segments (gap ++ (lexeme ++ rest)) (t :: ts)

/-- After the characters `read` the text is a gap of blanks, the lexeme of the first token, and so
on to a last gap. A token has the line behind its lexeme, and the column before or behind it. -/
inductive LaidOut : List Char → List Char → List Token → Prop
  | last {read gap : List Char} (hgap : ∀ c ∈ gap, Text.isBlank c) : LaidOut read gap []
  | next {read gap lexeme rest : List Char} {t : Token} {ts : List Token}
      (hgap : ∀ c ∈ gap, Text.isBlank c) (hlexeme : t.FromLexeme lexeme rest)
      (hline : t.line = lineBehind (read ++ gap ++ lexeme))
      (hcolumn : t.column = if placedAtStart lexeme then columnBehind (read ++ gap)
        else columnBehind (read ++ gap ++ lexeme))
      (hrest : LaidOut (read ++ gap ++ lexeme) rest ts) :
      LaidOut read (gap ++ (lexeme ++ rest)) (t :: ts)

theorem Token.fromLexeme_cons (hquote : c ≠ '"') (hchar : c ≠ '\'') :
    t.FromLexeme (c :: cs) after ↔ t.value = String.ofList (c :: cs) ∧
      if Text.isDigit c then
        t.kind = .number ∧ (∀ d ∈ c :: cs, Text.isDigit d) ∧ ∀ d ∈ after.head?, ¬Text.isDigit d
      else if Text.isLetter c then
        t.kind = Cursor.wordKind t.value ∧ (∀ d ∈ c :: cs, Cursor.isWordChar d) ∧
          ∀ d ∈ after.head?, ¬Cursor.isWordChar d
      else
        (t.value, t.kind) ∈ signs ∧
          ∀ d ∈ after.head?, String.ofList (c :: cs ++ [d]) ∉ signs.map Prod.fst := by
  unfold Token.FromLexeme
  split
  next h => exact absurd h nofun
  next h => exact absurd (List.cons.inj h).1 hquote
  next h => exact absurd (List.cons.inj h).1 hchar
  next h =>
    obtain ⟨rfl, rfl⟩ := List.cons.inj h
    rfl

theorem Token.FromLexeme.ne_nil (h : t.FromLexeme lexeme after) :
    lexeme ≠ [] := by
  rintro rfl
  exact h

/-- Blanks before a text belong to its first gap. -/
theorem Segments.append_gap (hgap : ∀ c ∈ gap, Text.isBlank c) (h : Segments text ts) :
    Segments (gap ++ text) ts := by
  cases h with
  | last hlast => exact .last (List.forall_mem_append.2 ⟨hgap, hlast⟩)
  | @next first lexeme rest t ts hfirst hlexeme hrest =>
    rw [← List.append_assoc]
    exact .next (List.forall_mem_append.2 ⟨hgap, hfirst⟩) hlexeme hrest

theorem LaidOut.append_gap {rest : List Char} (hgap : ∀ c ∈ gap, Text.isBlank c)
    (h : LaidOut (read ++ gap) rest ts) :
    LaidOut read (gap ++ rest) ts := by
  cases h with
  | last hlast => exact .last (List.forall_mem_append.2 ⟨hgap, hlast⟩)
  | next hnext hlexeme hline hcolumn hrest =>
    rw [List.append_assoc read] at hline hcolumn hrest
    rw [← List.append_assoc]
    exact .next (List.forall_mem_append.2 ⟨hgap, hnext⟩) hlexeme hline hcolumn hrest

theorem LaidOut.segments (h : LaidOut read text ts) :
    Segments text ts := by
  induction h with
  | last hgap => exact .last hgap
  | next hgap hlexeme _ _ _ ih => exact .next hgap hlexeme ih

/-! ### One segmentation -/

theorem Text.Ranges.exists_range_of_contains {code : Nat} : ∀ {ranges : Ranges},
    ranges.contains code → ∃ range ∈ ranges, range.1 ≤ code ∧ code ≤ range.2
  | [], h => absurd h Bool.false_ne_true
  | (low, high) :: rest, h => by
    rw [Ranges.contains_cons] at h
    split at h
    next => exact absurd h Bool.false_ne_true
    split at h
    next hlow hhigh => exact ⟨_, List.mem_cons_self, not_lt.1 hlow, hhigh⟩
    next =>
      obtain ⟨range, hrange, hcode⟩ := exists_range_of_contains h
      exact ⟨range, List.mem_cons_of_mem _ hrange, hcode⟩

/-- No blank is a digit or a letter. -/
theorem Text.blank_disjoint : ∀ range ∈ Text.blankRanges, ∀ code, range.1 ≤ code → code ≤ range.2 →
    ¬Text.digitRanges.contains code ∧ ¬Text.letterRanges.contains code := by
  decide +kernel

theorem not_isDigit_of_isBlank (h : Text.isBlank c) : ¬Text.isDigit c ∧ ¬Text.isLetter c := by
  obtain ⟨range, hrange, hlow, hhigh⟩ := Text.Ranges.exists_range_of_contains h
  exact Text.blank_disjoint range hrange _ hlow hhigh

theorem sign_not_isBlank : ∀ sign ∈ signs, ∀ c ∈ sign.1.toList, ¬Text.isBlank c := by
  decide

theorem signs_functional : ∀ x ∈ signs, ∀ y ∈ signs, x.1 = y.1 → x.2 = y.2 := by decide

theorem Token.FromLexeme.not_isBlank (h : t.FromLexeme (c :: cs) after) : ¬Text.isBlank c := by
  intro hblank
  obtain ⟨hdigit, hletter⟩ := not_isDigit_of_isBlank hblank
  by_cases hquote : c = '"'
  · subst hquote
    exact absurd hblank (by decide)
  by_cases hchar : c = '\''
  · subst hchar
    exact absurd hblank (by decide)
  rw [Token.fromLexeme_cons hquote hchar, if_neg hdigit, if_neg hletter] at h
  obtain ⟨hvalue, hkind, -⟩ := h
  rw [hvalue] at hkind
  refine sign_not_isBlank _ hkind c ?_ hblank
  rw [String.toList_ofList]
  exact List.mem_cons_self

/-- The text is the inside of a string literal, followed by its closing quote or by nothing. -/
structure SplitsAt (text body rest : List Char) : Prop where
  inside : IsStringInside body
  stop : ∀ d ∈ rest.head?, d = '"'
  eq : text = body ++ rest

namespace SplitsAt

variable {text body body' rest rest' : List Char}

theorem of_open (h : IsStringInside body) : SplitsAt body body [] :=
  ⟨h, by simp, (List.append_nil body).symm⟩

theorem of_closed (h : IsStringInside body) (after : List Char) :
    SplitsAt (body ++ '"' :: after) body ('"' :: after) :=
  ⟨h, fun _ hd => (Option.some.inj hd).symm, rfl⟩

theorem escaped (c : Char) (h : SplitsAt cs body rest) :
    SplitsAt ('\\' :: c :: cs) ('\\' :: c :: body) rest :=
  ⟨h.inside.escaped c, h.stop, congrArg ('\\' :: c :: ·) h.eq⟩

theorem plain (hquote : c ≠ '"') (hescape : c ≠ '\\') (h : SplitsAt cs body rest) :
    SplitsAt (c :: cs) (c :: body) rest :=
  ⟨h.inside.plain hquote hescape, h.stop, congrArg (c :: ·) h.eq⟩

theorem of_quote (h : SplitsAt ('"' :: cs) body rest) : body = [] ∧ '"' :: cs = rest := by
  obtain ⟨hbody, -, heq⟩ := h
  cases hbody with
  | nil => exact ⟨rfl, heq⟩
  | escaped => exact absurd (List.cons.inj heq).1 (by decide)
  | plain hquote => exact absurd (List.cons.inj heq).1.symm hquote

theorem of_escaped (h : SplitsAt ('\\' :: cs) body rest) :
    ∃ c cs' body', cs = c :: cs' ∧ body = '\\' :: c :: body' ∧ SplitsAt cs' body' rest := by
  obtain ⟨hbody, hstop, heq⟩ := h
  cases hbody with
  | nil =>
    obtain rfl : '\\' :: cs = rest := heq
    exact absurd (hstop _ rfl) (by decide)
  | escaped c hbody => exact ⟨c, _, _, (List.cons.inj heq).2, rfl, hbody, hstop, rfl⟩
  | plain _ hescape => exact absurd (List.cons.inj heq).1.symm hescape

theorem of_plain (hquote : c ≠ '"') (hescape : c ≠ '\\') (h : SplitsAt (c :: cs) body rest) :
    ∃ body', body = c :: body' ∧ SplitsAt cs body' rest := by
  obtain ⟨hbody, hstop, heq⟩ := h
  cases hbody with
  | nil =>
    obtain rfl : c :: cs = rest := heq
    exact absurd (hstop _ rfl) hquote
  | escaped => exact absurd (List.cons.inj heq).1 hescape
  | plain _ _ hbody =>
    obtain ⟨rfl, hcs⟩ := List.cons.inj heq
    exact ⟨_, rfl, hbody, hstop, hcs⟩

/-- The inside of a string literal goes on to the first quote that no backslash stands before, or to
the end of the text. -/
theorem unique (h : SplitsAt text body rest) (h' : SplitsAt text body' rest') :
    body = body' ∧ rest = rest' := by
  obtain ⟨hbody, hstop, rfl⟩ := h
  induction hbody generalizing body' with
  | nil =>
    cases rest with
    | nil =>
      obtain ⟨rfl, rfl⟩ := List.append_eq_nil_iff.1 h'.eq.symm
      exact ⟨rfl, rfl⟩
    | cons d rest =>
      obtain rfl := hstop d rfl
      obtain ⟨rfl, rfl⟩ := h'.of_quote
      exact ⟨rfl, rfl⟩
  | escaped c _ ih =>
    obtain ⟨_, _, tail, hcs, rfl, htail⟩ := h'.of_escaped
    obtain ⟨rfl, rfl⟩ := List.cons.inj hcs
    exact (ih htail).imp_left (congrArg ('\\' :: c :: ·))
  | plain hquote hescape _ ih =>
    obtain ⟨tail, rfl, htail⟩ := h'.of_plain hquote hescape
    exact (ih htail).imp_left (congrArg _)

end SplitsAt

/-- What comes after a run does not go on with it. -/
theorem head?_dropWhile_not {α : Type} (p : α → Bool) (l : List α) :
    ∀ a ∈ (l.dropWhile p).head?, ¬p a := by
  intro a ha
  have hhead := List.head?_dropWhile_not p l
  rw [Option.mem_def.1 ha] at hhead
  simpa using hhead

/-- A run of characters of a class that goes on as far as it can is told by the text. -/
theorem append_inj_of_run {p : Char → Bool} {a b x y : List Char} (ha : ∀ d ∈ a, p d)
    (hx : ∀ d ∈ x.head?, ¬p d) (hb : ∀ d ∈ b, p d) (hy : ∀ d ∈ y.head?, ¬p d)
    (h : a ++ x = b ++ y) : a = b ∧ x = y := by
  have hstop : ∀ {z : List Char}, (∀ d ∈ z.head?, ¬p d) → z.takeWhile p = [] := by
    intro z hz
    cases z with
    | nil => rfl
    | cons d z => exact List.takeWhile_cons_of_neg (hz d rfl)
  have htake := congrArg (List.takeWhile p) h
  rw [List.takeWhile_append_of_pos ha, List.takeWhile_append_of_pos hb, hstop hx, hstop hy,
    List.append_nil, List.append_nil] at htake
  exact ⟨htake, List.append_cancel_left (htake ▸ h)⟩

/-- Where two signs start, the longer one is the only one. -/
theorem sign_tail_eq {cs' r r' : List Char} (h : String.ofList (c :: cs) ∈ signs.map Prod.fst)
    (hlongest : ∀ d ∈ r.head?, String.ofList (c :: cs ++ [d]) ∉ signs.map Prod.fst)
    (h' : String.ofList (c :: cs') ∈ signs.map Prod.fst)
    (hlongest' : ∀ d ∈ r'.head?, String.ofList (c :: cs' ++ [d]) ∉ signs.map Prod.fst)
    (htail : cs ++ r = cs' ++ r') : cs = cs' := by
  -- A sign has one character or two; where one is longer, the other could have gone on.
  match cs, cs' with
  | [], [] => rfl
  | [], [d] =>
    rw [List.nil_append] at htail
    exact absurd h' (hlongest d (by rw [htail]; rfl))
  | [d], [] =>
    rw [List.nil_append] at htail
    exact absurd h (hlongest' d (by rw [← htail]; rfl))
  | [d], [e] => rw [(List.cons.inj htail).1]
  | d :: e :: cs, _ => exact absurd h long_notMem_signs
  | _, d :: e :: cs' => exact absurd h' long_notMem_signs

/-- A string literal is its inside and a quote, or its inside and the end of the text. -/
theorem Token.FromLexeme.inside {t : Token} {inside after : List Char}
    (h : t.FromLexeme ('"' :: inside) after) :
    ∃ body rest, SplitsAt (inside ++ after) body rest ∧ after = rest.tail ∧
      t.lexeme = (.string, String.ofList (unescape body)) := by
  obtain ⟨hkind, body, hbody, hvalue, rfl | ⟨rfl, rfl⟩⟩ := h
  · rw [List.append_assoc, List.singleton_append]
    exact ⟨body, _, .of_closed hbody after, rfl, Prod.ext hkind hvalue⟩
  · rw [List.append_nil]
    exact ⟨inside, [], .of_open hbody, rfl, Prod.ext hkind hvalue⟩

/-- A text starts with one lexeme only. -/
theorem Token.FromLexeme.unique {t' : Token} {l l' r r' : List Char} (h : t.FromLexeme l r)
    (h' : t'.FromLexeme l' r') (heq : l ++ r = l' ++ r') : t.lexeme = t'.lexeme ∧ r = r' := by
  obtain ⟨c, cs, rfl⟩ := List.exists_cons_of_ne_nil h.ne_nil
  obtain ⟨d, cs', rfl⟩ := List.exists_cons_of_ne_nil h'.ne_nil
  obtain ⟨rfl, htail⟩ : c = d ∧ cs ++ r = cs' ++ r' := by simpa using heq
  by_cases hquote : c = '"'
  · subst hquote
    obtain ⟨body, rest, hsplit, rfl, ht⟩ := h.inside
    obtain ⟨body', rest', hsplit', rfl, ht'⟩ := h'.inside
    obtain ⟨rfl, rfl⟩ := hsplit.unique (htail ▸ hsplit')
    exact ⟨ht.trans ht'.symm, rfl⟩
  by_cases hchar : c = '\''
  · subst hchar
    obtain ⟨hkind, x, rfl, hvalue⟩ := h
    obtain ⟨hkind', x', rfl, hvalue'⟩ := h'
    obtain ⟨rfl, rfl⟩ : x = x' ∧ r = r' := by simpa using htail
    exact ⟨Prod.ext (hkind.trans hkind'.symm) (hvalue.trans hvalue'.symm), rfl⟩
  -- Numbers, words and signs are their own texts: it is enough that both end at the same place.
  rw [Token.fromLexeme_cons hquote hchar] at h h'
  obtain ⟨hvalue, h⟩ := h
  obtain ⟨hvalue', h'⟩ := h'
  have hsame (hcs : c :: cs = c :: cs') : t.value = t'.value := by rw [hvalue, hvalue', hcs]
  split at h
  next hdigit =>
    rw [if_pos hdigit] at h'
    obtain ⟨hcs, rfl⟩ := append_inj_of_run h.2.1 h.2.2 h'.2.1 h'.2.2 heq
    exact ⟨Prod.ext (h.1.trans h'.1.symm) (hsame hcs), rfl⟩
  split at h
  next hdigit hletter =>
    rw [if_neg hdigit, if_pos hletter] at h'
    obtain ⟨hcs, rfl⟩ := append_inj_of_run h.2.1 h.2.2 h'.2.1 h'.2.2 heq
    exact ⟨Prod.ext (h.1.trans (hsame hcs ▸ h'.1.symm)) (hsame hcs), rfl⟩
  next hdigit hletter =>
    rw [if_neg hdigit, if_neg hletter] at h'
    have hsign := List.mem_map_of_mem (f := Prod.fst) h.1
    have hsign' := List.mem_map_of_mem (f := Prod.fst) h'.1
    rw [hvalue] at hsign
    rw [hvalue'] at hsign'
    obtain rfl : cs = cs' := sign_tail_eq hsign h.2 hsign' h'.2 htail
    refine ⟨Prod.ext (signs_functional _ h.1 _ h'.1 (hsame rfl)) (hsame rfl), ?_⟩
    exact List.append_cancel_left htail

/-- The first gap of a text ends before its first lexeme. -/
theorem Token.FromLexeme.head?_not_isBlank (h : t.FromLexeme lexeme after) :
    ∀ d ∈ (lexeme ++ after).head?, ¬Text.isBlank d := by
  obtain ⟨c, cs, rfl⟩ := List.exists_cons_of_ne_nil h.ne_nil
  intro d hd
  obtain rfl : c = d := Option.some.inj hd
  exact h.not_isBlank

theorem Segments.unique {ts' : List Token} (h : Segments text ts) (h' : Segments text ts') :
    ts.map Token.lexeme = ts'.map Token.lexeme := by
  have hnil : ∀ d ∈ ([] : List Char).head?, ¬Text.isBlank d := by simp
  induction h generalizing ts' with
  | @last gap hgap =>
    generalize htext : gap = text at h'
    cases h' with
    | last => rfl
    | next hgap' hlexeme hrest =>
      rw [← List.append_nil gap] at htext
      obtain ⟨-, hend⟩ := append_inj_of_run hgap hnil hgap' hlexeme.head?_not_isBlank htext
      exact absurd (List.append_eq_nil_iff.1 hend.symm).1 hlexeme.ne_nil
  | @next gap lexeme rest t ts hgap hlexeme hrest ih =>
    generalize htext : gap ++ (lexeme ++ rest) = text at h'
    cases h' with
    | last hgap' =>
      rw [← List.append_nil text] at htext
      obtain ⟨-, hend⟩ := append_inj_of_run hgap hlexeme.head?_not_isBlank hgap' hnil htext
      exact absurd (List.append_eq_nil_iff.1 hend).1 hlexeme.ne_nil
    | next hgap' hlexeme' hrest' =>
      obtain ⟨-, heq⟩ := append_inj_of_run hgap hlexeme.head?_not_isBlank hgap'
        hlexeme'.head?_not_isBlank htext
      obtain ⟨ht, rfl⟩ := hlexeme.unique hlexeme' heq
      rw [List.map_cons, List.map_cons, ht, ih hrest']

namespace Cursor

variable {cur after : Cursor}

/-! ### What the steps take -/

theorem advance_rest (cur : Cursor) : cur.advance.rest = cur.rest.tail := by
  unfold advance
  split
  next h => rw [h, List.tail_nil]
  next h => rw [h, step_rest, List.tail_cons]

theorem skipWhile_go_rest (p : Char → Bool) : ∀ (cs : List Char) (cur : Cursor), cur.rest = cs →
    (skipWhile.go p cur cs).rest = cs.dropWhile p
  | [], _, h => h
  | c :: cs, cur, h => by
    rw [skipWhile.go, List.dropWhile_cons]
    split
    · exact skipWhile_go_rest p cs (cur.step c cs) (step_rest cur c cs)
    · exact h

theorem skipWhile_rest (p : Char → Bool) (cur : Cursor) :
    (cur.skipWhile p).rest = cur.rest.dropWhile p :=
  skipWhile_go_rest p cur.rest cur rfl

variable {α β : Type} {x : Reader α} {f : α → Reader β}

theorem bind_apply_of_ok {a : α} (h : x cur = (.ok a, after)) : (x >>= f) cur = f a after := by
  change ExceptT.bindCont f (x cur).1 (x cur).2 = _
  rw [h]
  rfl

theorem bind_apply_of_error {e : LexError} (h : x cur = (.error e, after)) :
    (x >>= f) cur = (.error e, after) := by
  change ExceptT.bindCont f (x cur).1 (x cur).2 = _
  rw [h]
  rfl

theorem get_bind_apply (f : Cursor → Reader α) : (get >>= f) cur = f cur cur := rfl

theorem takeChar_bind_apply (f : Option Char → Reader α) :
    (takeChar >>= f) cur = f cur.rest.head? cur.advance := rfl

theorem some_apply (x : Reader α) : (some <$> x) cur = ((x cur).1.map some, (x cur).2) := by
  rcases h : x cur with ⟨e | a, mid⟩
  · exact bind_apply_of_error h
  · exact bind_apply_of_ok h

end Cursor

/-! ### Lexemes -/

def LexError.IsMalformed (e : LexError) : Prop :=
  ∃ cause line column, e = .malformed cause line column

def StartsNothing (text : List Char) : Prop :=
  ∀ (t : Token) (lexeme rest : List Char), text = lexeme ++ rest → ¬t.FromLexeme lexeme rest

theorem startsNothing_cons (h : ∀ (t : Token) (tail rest : List Char), cs = tail ++ rest →
    ¬t.FromLexeme (c :: tail) rest) : StartsNothing (c :: cs) := by
  intro t lexeme rest heq ht
  obtain ⟨d, tail, rfl⟩ := List.exists_cons_of_ne_nil ht.ne_nil
  obtain ⟨rfl, htail⟩ := List.cons.inj heq
  exact h t tail rest htail ht

/-- The text is one sign that is read together with the character after it. -/
def IsPair (text : List Char) : Prop := text = [':'] ∨ text = ['<']

theorem not_isPair_cons (hcolon : c ≠ ':') (hless : c ≠ '<') : ¬IsPair (c :: cs) := fun h =>
  h.elim (fun h => hcolon (List.cons.inj h).1) fun h => hless (List.cons.inj h).1

namespace Cursor

variable {cur after : Cursor} {α : Type} {read : List Char}

/-- The reader takes the lexeme of the token off the text. The token has the line where the lexeme
ends, and the column where it starts, or where it ends. -/
structure Takes (cur : Cursor) (t : Token) (after : Cursor) (lexeme : List Char) : Prop where
  rest_eq : cur.rest = lexeme ++ after.rest
  fromLexeme : t.FromLexeme lexeme after.rest
  line_eq : t.line = after.line
  column_eq : t.column = if placedAtStart lexeme then cur.column else after.column
  not_isPair : ¬IsPair cur.rest

/-- What a reader of a token meets: a lexeme, a sign that has to be read together with the next
character where there is none, or something that no lexeme starts with. -/
inductive Meets (found : Token → α) (cur : Cursor) : Except LexError α × Cursor → Prop
  | lexeme {t : Token} {after : Cursor} {s : List Char} (h : Takes cur t after s) :
      Meets found cur (.ok (found t), after)
  | pair (after : Cursor) (h : IsPair cur.rest) : Meets found cur (.error .pastEnd, after)
  | nothing {e : LexError} (after : Cursor) (he : e.IsMalformed) (h : StartsNothing cur.rest) :
      Meets found cur (.error e, after)

theorem Meets.some {x : Reader Token} {mid : Cursor} (h : Meets id cur (x mid)) :
    Meets some cur ((some <$> x) mid) := by
  rw [some_apply]
  generalize x mid = result at h
  cases h with
  | lexeme h => exact .lexeme h
  | pair after h => exact .pair after h
  | nothing after he h => exact .nothing after he h

theorem Meets.fail (cause : LexCause) {found : Token → α} {mid : Cursor}
    (h : StartsNothing cur.rest) : Meets found cur (fail cause mid) :=
  .nothing mid ⟨cause, _, _, rfl⟩ h

/-- A run of characters of a class is taken whole: it starts with the next character, and what
follows it is not of the class. -/
theorem skipWhile_takes {p : Char → Bool} (hcur : cur.rest = c :: cs) (hc : p c) :
    cur.rest.takeWhile p = c :: cs.takeWhile p ∧
      cur.rest = c :: cs.takeWhile p ++ (cur.skipWhile p).rest ∧
      (∀ d ∈ c :: cs.takeWhile p, p d) ∧ ∀ d ∈ (cur.skipWhile p).rest.head?, ¬p d := by
  have htake : cur.rest.takeWhile p = c :: cs.takeWhile p := by
    rw [hcur, List.takeWhile_cons_of_pos hc]
  refine ⟨htake, ?_, ?_, ?_⟩
  · rw [← htake, skipWhile_rest, List.takeWhile_append_dropWhile]
  · rw [← htake]
    exact List.all_eq_true.1 List.all_takeWhile
  · rw [skipWhile_rest]
    exact head?_dropWhile_not p cur.rest

theorem meets_readNumber (hcur : cur.rest = c :: cs) (hquote : c ≠ '"') (hchar : c ≠ '\'')
    (hdigit : Text.isDigit c) : Meets id cur (readNumber cur) := by
  obtain ⟨htake, hrest, hall, hstop⟩ := skipWhile_takes hcur hdigit
  refine .lexeme ⟨hrest, ?_, rfl, ?_, ?_⟩
  · rw [Token.fromLexeme_cons hquote hchar, if_pos hdigit]
    exact ⟨congrArg String.ofList htake, rfl, hall, hstop⟩
  · rw [placedAtStart, hdigit]
    simp
  · rw [hcur]
    refine not_isPair_cons ?_ ?_ <;> rintro rfl <;> exact absurd hdigit (by decide)

theorem meets_readWord (hcur : cur.rest = c :: cs) (hquote : c ≠ '"') (hchar : c ≠ '\'')
    (hdigit : ¬Text.isDigit c) (hletter : Text.isLetter c) : Meets id cur (readWord cur) := by
  have hc : isWordChar c := by rw [isWordChar, hletter, Bool.true_or]
  obtain ⟨htake, hrest, hall, hstop⟩ := skipWhile_takes hcur hc
  refine .lexeme ⟨hrest, ?_, rfl, ?_, ?_⟩
  · rw [Token.fromLexeme_cons hquote hchar, if_neg hdigit, if_pos hletter]
    exact ⟨congrArg String.ofList htake, rfl, hall, hstop⟩
  · rw [placedAtStart, hletter]
    simp
  · rw [hcur]
    refine not_isPair_cons ?_ ?_ <;> rintro rfl <;> exact absurd hletter (by decide)

/-- The inside of a string literal is read up to its closing quote or to the end of the text, unless
the text ends in a backslash. -/
theorem stringBody_cases (seen : List Char) (hcur : cur.rest = cs) :
    (∃ body rest after, SplitsAt cs body rest ∧ after.rest = rest.tail ∧
      stringBody seen cur cs = (.ok (String.ofList (seen.reverse ++ unescape body)), after)) ∨
    (∀ body rest, ¬SplitsAt cs body rest) ∧
      ∃ e after, e.IsMalformed ∧ stringBody seen cur cs = (.error e, after) := by
  fun_induction stringBody seen cur cs with
  | case1 seen cur =>
    refine .inl ⟨[], [], cur, .of_open .nil, hcur, ?_⟩
    rw [unescape, List.append_nil]
  | case2 seen cur rest =>
    refine .inl ⟨[], _, cur.step '"' rest, .of_closed .nil rest, step_rest _ _ _, ?_⟩
    rw [unescape, List.append_nil]
  | case3 seen cur =>
    refine .inr ⟨fun body rest h => ?_, _, _, ⟨_, _, _, rfl⟩, rfl⟩
    obtain ⟨_, _, _, hnil, -⟩ := h.of_escaped
    cases hnil
  | case4 seen cur c cs ih =>
    obtain ⟨body, rest, after, h, hafter, hbody⟩ | ⟨hnone, herror⟩ := ih (step_rest _ _ _)
    · refine .inl ⟨_, rest, after, h.escaped c, hafter, ?_⟩
      rw [hbody, unescape, List.reverse_cons, List.append_assoc, List.singleton_append]
    · refine .inr ⟨fun body rest h => ?_, herror⟩
      obtain ⟨_, _, _, hcs, -, h⟩ := h.of_escaped
      obtain ⟨-, rfl⟩ := List.cons.inj hcs
      exact hnone _ _ h
  | case5 seen cur c cs hquote hend hescape ih =>
    have hplain := ne_backslash hend hescape
    obtain ⟨body, rest, after, h, hafter, hbody⟩ | ⟨hnone, herror⟩ := ih (step_rest _ _ _)
    · refine .inl ⟨_, rest, after, h.plain hquote hplain, hafter, ?_⟩
      rw [hbody, unescape_cons hplain, List.reverse_cons, List.append_assoc, List.singleton_append]
    · refine .inr ⟨fun body rest h => ?_, herror⟩
      obtain ⟨_, -, h⟩ := h.of_plain hquote hplain
      exact hnone _ _ h

theorem meets_readString (hcur : cur.rest = '"' :: cs) : Meets id cur (readString cur) := by
  have hrest : cur.advance.rest = cs := by rw [advance_rest, hcur, List.tail_cons]
  have hread {result : Except LexError String} {after : Cursor}
      (h : stringBody [] cur.advance cs = (result, after)) : readString cur =
        (result.map fun s => ⟨.string, s, after.line, cur.column⟩, after) := by
    rw [readString, get_bind_apply, takeChar_bind_apply, get_bind_apply, hrest, h]
    cases result <;> rfl
  obtain ⟨body, rest, after, hsplit, hafter, hbody⟩ | ⟨hnone, e, after, he, hbody⟩ :=
    stringBody_cases [] hrest
  · rw [hread hbody]
    refine .lexeme (s := '"' :: (body ++ rest.take 1)) ⟨?_, ⟨rfl, body, hsplit.inside, rfl, ?_⟩,
      rfl, rfl, hcur ▸ not_isPair_cons (by decide) (by decide)⟩
    · rw [hcur, hsplit.eq, hafter, List.cons_append, List.append_assoc, ← List.drop_one,
        List.take_append_drop]
    · cases rest with
      | nil => exact .inr ⟨List.append_nil body, hafter⟩
      | cons d rest =>
        obtain rfl := hsplit.stop d rfl
        exact .inl rfl
  · rw [hread hbody]
    refine .nothing after he ?_
    rw [hcur]
    refine startsNothing_cons fun t tail rest heq ht => ?_
    obtain ⟨_, _, hsplit, -⟩ := ht.inside
    exact hnone _ _ (heq ▸ hsplit)

theorem meets_readChar (hcur : cur.rest = '\'' :: cs) : Meets id cur (readChar cur) := by
  have hrest : cur.advance.rest = cs := by rw [advance_rest, hcur, List.tail_cons]
  have hnothing (h : ∀ d rest, cs ≠ d :: '\'' :: rest) : StartsNothing cur.rest := by
    rw [hcur]
    refine startsNothing_cons fun t tail rest heq ht => ?_
    obtain ⟨-, d, rfl, -⟩ := ht
    exact h d rest heq
  rw [readChar, get_bind_apply, takeChar_bind_apply, takeChar_bind_apply, hrest]
  cases cs with
  | nil => exact .fail _ (hnothing fun _ _ => List.cons_ne_nil _ _ ∘ Eq.symm)
  | cons d cs =>
    dsimp only [List.head?_cons]
    rw [get_bind_apply, advance_rest, hrest, List.tail_cons]
    split
    next hclose =>
      obtain ⟨rest, rfl⟩ := List.head?_eq_some_iff.1 hclose
      refine .lexeme (s := ['\'', d, '\'']) ⟨?_, ⟨rfl, d, rfl, rfl⟩, rfl, rfl,
        hcur ▸ not_isPair_cons (by decide) (by decide)⟩
      rw [hcur, advance_rest, advance_rest, hrest]
      rfl
    next hclose =>
      refine .fail _ (hnothing fun e rest heq => hclose ?_)
      rw [(List.cons.inj heq).2, List.head?_cons]

/-- The character starts neither a literal nor a word. -/
structure StartsSign (c : Char) : Prop where
  quote : c ≠ '"'
  char : c ≠ '\''
  digit : ¬Text.isDigit c
  letter : ¬Text.isLetter c

theorem Takes.sign {t : Token} {tail : List Char} (hc : StartsSign c)
    (hcur : cur.rest = c :: tail ++ after.rest) (hvalue : t.value = String.ofList (c :: tail))
    (hkind : (t.value, t.kind) ∈ signs)
    (hlongest : ∀ d ∈ after.rest.head?, String.ofList (c :: tail ++ [d]) ∉ signs.map Prod.fst)
    (hline : t.line = after.line)
    (hcolumn : t.column = if c = '.' then cur.column else after.column)
    (hpair : ¬IsPair cur.rest) : Takes cur t after (c :: tail) := by
  refine ⟨hcur, ?_, hline, ?_, hpair⟩
  · rw [Token.fromLexeme_cons hc.quote hc.char, if_neg hc.digit, if_neg hc.letter]
    exact ⟨hvalue, hkind, hlongest⟩
  · rw [hcolumn]
    simp [placedAtStart, hc.quote, hc.char, hc.digit, hc.letter]

theorem meets_readDots (hc : StartsSign '.') (hcur : cur.rest = '.' :: cs) :
    Meets id cur (readDots cur) := by
  have hrest : cur.advance.rest = cs := by rw [advance_rest, hcur, List.tail_cons]
  have hpair : ¬IsPair cur.rest := hcur ▸ not_isPair_cons (by decide) (by decide)
  rw [readDots, get_bind_apply, takeChar_bind_apply, get_bind_apply, hrest]
  split
  next hsecond =>
    obtain ⟨rest, rfl⟩ := List.head?_eq_some_iff.1 hsecond
    have hkind : ("..", TokenKind.twoDots) ∈ signs := by decide
    refine .lexeme (.sign hc ?_ rfl hkind (fun _ _ => long_notMem_signs) rfl rfl hpair)
    rw [hcur, advance_rest, hrest]
    rfl
  next hsecond =>
    have hkind : (".", TokenKind.dot) ∈ signs := by decide
    refine .lexeme (.sign hc ?_ rfl hkind (fun d hd hmem => ?_) rfl rfl hpair)
    · rw [hcur, hrest]
      rfl
    · obtain ⟨-, rfl⟩ | ⟨hdot, -⟩ | ⟨hdot, -⟩ := pair_mem_signs.1 hmem
      · exact hsecond (hrest ▸ hd)
      · exact absurd hdot (by decide)
      · exact absurd hdot (by decide)

/-- A sign of one or two characters is the longer one if its second character follows. -/
theorem meets_readPair {second : Char} {short long : TokenKind} (hc : StartsSign c)
    (hpair : IsPair [c]) (hcur : cur.rest = c :: cs) (hshort : (String.ofList [c], short) ∈ signs)
    (hlong : (String.ofList [c, second], long) ∈ signs)
    (hsecond : ∀ d, String.ofList [c, d] ∈ signs.map Prod.fst → d = second) : Meets id cur
      (readPair second short long (String.ofList [c]) (String.ofList [c, second]) cur) := by
  have hrest : cur.advance.rest = cs := by rw [advance_rest, hcur, List.tail_cons]
  have hdot : c ≠ '.' := by
    rintro rfl
    exact not_isPair_cons (by decide) (by decide) hpair
  rw [readPair, takeChar_bind_apply, get_bind_apply, hrest]
  cases cs with
  | nil => exact .pair _ (hcur ▸ hpair)
  | cons d cs =>
    have hmore : ¬IsPair cur.rest := by
      rw [hcur]
      rintro (h | h) <;> cases h
    dsimp only
    split
    next heq =>
      refine .lexeme (.sign hc ?_ rfl hlong (fun _ _ => long_notMem_signs) rfl
        (by rw [if_neg hdot]) hmore)
      rw [hcur, advance_rest, hrest, heq]
      rfl
    next hne =>
      refine .lexeme (.sign hc ?_ rfl hshort (fun e he hmem => ?_) rfl
        (by rw [if_neg hdot]) hmore)
      · rw [hcur, hrest]
        rfl
      · rw [hrest] at he
        exact hne ((Option.some.inj he).trans (hsecond e hmem))

/-- The characters that start a sign. -/
theorem sign_head : ∀ sign ∈ signs, ∀ c ∈ sign.1.toList.head?,
    c = '.' ∨ c = ':' ∨ c = '<' ∨ (signKind? c).isSome := by
  decide

theorem readSign_cases (hc : StartsSign c) (hcur : cur.rest = c :: cs) :
    readSign cur = (.ok none, cur) ∧ StartsNothing cur.rest ∨ Meets some cur (readSign cur) := by
  have hpairs {d second : Char} (hd : d = ':' ∧ second = '=' ∨ d = '<' ∧ second = '>') :
      ∀ e, String.ofList [d, e] ∈ signs.map Prod.fst → e = second := by
    intro e he
    rcases hd with ⟨rfl, rfl⟩ | ⟨rfl, rfl⟩
    · simpa using pair_mem_signs.1 he
    · simpa using pair_mem_signs.1 he
  rw [readSign_eq, get_bind_apply, hcur, List.head?_cons, signAt]
  split
  next hdot =>
    subst hdot
    exact .inr (meets_readDots hc hcur).some
  split
  next hcolon =>
    subst hcolon
    exact .inr (meets_readPair hc (.inl rfl) hcur (by decide) (by decide) (hpairs (by simp))).some
  split
  next hless =>
    subst hless
    exact .inr (meets_readPair hc (.inr rfl) hcur (by decide) (by decide) (hpairs (by simp))).some
  next hdot hcolon hless =>
    cases hkind : signKind? c with
    | none =>
      refine .inl ⟨rfl, startsNothing_cons fun t tail rest _ ht => ?_⟩
      rw [Token.fromLexeme_cons hc.quote hc.char, if_neg hc.digit, if_neg hc.letter] at ht
      have hhead := sign_head _ ht.2.1 c (by rw [ht.1, String.toList_ofList]; rfl)
      simp [hdot, hcolon, hless, hkind] at hhead
    | some kind =>
      obtain ⟨hsign, hsingle⟩ := signKind?_sign hkind
      refine .inr ?_
      dsimp only
      refine Meets.some (.lexeme (.sign hc ?_ rfl hsign (fun d hd hmem => ?_) rfl
        (by rw [if_neg hdot]) (hcur ▸ not_isPair_cons hcolon hless)))
      · rw [advance_rest, hcur]
        rfl
      · obtain ⟨rfl, -⟩ | ⟨rfl, -⟩ | ⟨rfl, -⟩ := pair_mem_signs.1 hmem
        all_goals exact absurd hsingle (by decide)

/-! ### Reading to the end -/

/-- A step takes the blanks up to the next lexeme, or it meets a lexeme or a reason to fail. -/
theorem readToken_cases (hcur : cur.rest = c :: cs) :
    (∃ gap after, gap ≠ [] ∧ (∀ d ∈ gap, Text.isBlank d) ∧ cur.rest = gap ++ after.rest ∧
      readToken c cur = (.ok none, after)) ∨
    ¬Text.isBlank c ∧ Meets some cur (readToken c cur) := by
  unfold readToken
  split
  next hblank =>
    obtain ⟨-, hrest, hall, -⟩ := skipWhile_takes hcur hblank
    exact .inl ⟨_, _, List.cons_ne_nil _ _, hall, hrest, rfl⟩
  next hblank =>
    refine .inr ⟨hblank, ?_⟩
    split
    next hquote => exact (meets_readString (hquote ▸ hcur)).some
    split
    next hchar => exact (meets_readChar (hchar ▸ hcur)).some
    split
    next hquote hchar hdigit => exact (meets_readNumber hcur hquote hchar hdigit).some
    split
    next hquote hchar hdigit hletter =>
      exact (meets_readWord hcur hquote hchar hdigit hletter).some
    next hquote hchar hdigit hletter =>
      obtain ⟨hnone, h⟩ | h := readSign_cases ⟨hquote, hchar, hdigit, hletter⟩ hcur
      · rw [bind_apply_of_ok hnone]
        exact .fail _ h
      · generalize hsign : readSign cur = result at h
        cases h with
        | lexeme h =>
          rw [bind_apply_of_ok hsign]
          exact .lexeme h
        | pair after h =>
          rw [bind_apply_of_error hsign]
          exact .pair after h
        | nothing after he h =>
          rw [bind_apply_of_error hsign]
          exact .nothing after he h

/-- A step takes at least one character. -/
theorem length_lt_of_readToken {o : Option Token} (hcur : cur.rest = c :: cs)
    (h : readToken c cur = (.ok o, after)) : after.rest.length < cur.rest.length := by
  have hless {taken : List Char} (hne : taken ≠ []) (htaken : cur.rest = taken ++ after.rest) :
      after.rest.length < cur.rest.length :=
    htaken ▸ List.length_append ▸ Nat.lt_add_of_pos_left (List.length_pos_iff.2 hne)
  obtain ⟨gap, mid, hne, -, hrest, hgap⟩ | ⟨-, hmeets⟩ := readToken_cases hcur
  · obtain ⟨-, rfl⟩ := Prod.mk.inj (hgap.symm.trans h)
    exact hless hne hrest
  · rw [h] at hmeets
    cases hmeets with
    | lexeme htakes => exact hless htakes.fromLexeme.ne_nil htakes.rest_eq

/-- A step of reading leads behind what it takes. -/
theorem runs_behind {Q : α → α → Prop} {a : α} {rest taken : List Char} (hx : Walks Eq 0 0 Q x x)
    (h : x (behind read rest) = (.ok a, after)) (hrest : rest = taken ++ after.rest) :
    after = behind (read ++ taken) after.rest := by
  have hreaches := hx.reaches (behind read rest)
  rw [h] at hreaches
  obtain ⟨passed, left, heq, rfl⟩ := hreaches.behind
  obtain rfl : passed = taken := List.append_cancel_right (heq.symm.trans hrest)
  rfl

variable {seen : List Token} {fuel : Nat}

theorem readTokens_nil (hcur : cur.rest = []) : readTokens seen (fuel + 1) cur =
    (.ok (⟨.eof, "EOF", cur.line, cur.column⟩ :: seen).reverse, cur) := by
  rw [readTokens, get_bind_apply, hcur]
  rfl

theorem readTokens_cons (hcur : cur.rest = c :: cs) : readTokens seen (fuel + 1) cur =
    (readToken c >>= fun o => readTokens (o.toList ++ seen) fuel : Reader (List Token)) cur := by
  rw [readTokens, get_bind_apply, hcur]
  refine congrFun (bind_congr fun o => ?_) cur
  cases o <;> rfl

/-- Behind the characters `read` the text is read as far as `stop`, and gives the tokens. -/
inductive ReadUpTo (stop : List Char) : List Char → List Char → List Token → Prop
  | stop {read : List Char} : ReadUpTo stop read stop []
  | gap {read gap rest : List Char} {ts : List Token} (hgap : ∀ d ∈ gap, Text.isBlank d)
      (hrest : ReadUpTo stop (read ++ gap) rest ts) : ReadUpTo stop read (gap ++ rest) ts
  | lexeme {read lexeme rest : List Char} {t : Token} {ts : List Token}
      (h : Takes (behind read (lexeme ++ rest)) t (behind (read ++ lexeme) rest) lexeme)
      (hrest : ReadUpTo stop (read ++ lexeme) rest ts) :
      ReadUpTo stop read (lexeme ++ rest) (t :: ts)

/-- What has been read when `stop` is left of the text: all tokens and an end mark, or an error. -/
inductive EndsAt (text : List Char) (tokens : List Token) :
    List Char → Except LexError (List Token) → Prop
  | finished : EndsAt text tokens []
      (.ok (tokens ++ [⟨.eof, "EOF", lineBehind text, columnBehind text⟩]))
  | pair {stop : List Char} (h : IsPair stop) : EndsAt text tokens stop (.error .pastEnd)
  | nothing {c : Char} {cs : List Char} {e : LexError} (hc : ¬Text.isBlank c) (he : e.IsMalformed)
      (h : StartsNothing (c :: cs)) : EndsAt text tokens (c :: cs) (.error e)

theorem readTokens_upTo : ∀ (fuel : Nat) (seen : List Token) (read rest : List Char),
    rest.length < fuel → ∃ stop ts, ReadUpTo stop read rest ts ∧
      EndsAt (read ++ rest) (seen.reverse ++ ts) stop (readTokens seen fuel (behind read rest)).1
  | 0, _, _, _, hfuel => absurd hfuel (Nat.not_lt_zero _)
  | fuel + 1, seen, read, [], _ => by
    refine ⟨[], [], .stop, ?_⟩
    rw [readTokens_nil rfl, List.reverse_cons, List.append_nil, List.append_nil]
    exact .finished
  | fuel + 1, seen, read, c :: cs, hfuel => by
    rw [readTokens_cons rfl]
    have hmid {o : Option Token} {mid : Cursor} {taken : List Char}
        (hstep : readToken c (behind read (c :: cs)) = (.ok o, mid))
        (htaken : c :: cs = taken ++ mid.rest) :
        (∃ rest, mid = behind (read ++ taken) rest) ∧ mid.rest.length < fuel :=
      ⟨⟨_, runs_behind (.readToken .refl rfl) hstep htaken⟩,
        (length_lt_of_readToken rfl hstep).trans_le (Nat.le_of_lt_succ hfuel)⟩
    have hcases := readToken_cases (show (behind read (c :: cs)).rest = c :: cs from rfl)
    obtain ⟨gap, mid, -, hgap, hrest, hstep⟩ | ⟨hc, hmeets⟩ := hcases
    · obtain ⟨⟨rest, rfl⟩, hless⟩ := hmid hstep hrest
      replace hrest : c :: cs = gap ++ rest := hrest
      obtain ⟨stop, ts, hts, hend⟩ := readTokens_upTo fuel seen (read ++ gap) rest hless
      rw [List.append_assoc read, ← hrest] at hend
      exact ⟨stop, ts, hrest ▸ .gap hgap hts, bind_apply_of_ok hstep ▸ hend⟩
    generalize hstep : readToken c (behind read (c :: cs)) = result at hmeets
    cases hmeets with
    | @lexeme t mid s h =>
      obtain ⟨⟨rest, rfl⟩, hless⟩ := hmid hstep h.rest_eq
      have hrest : c :: cs = s ++ rest := h.rest_eq
      obtain ⟨stop, ts, hts, hend⟩ := readTokens_upTo fuel (t :: seen) (read ++ s) rest hless
      rw [List.append_assoc read, ← hrest, List.reverse_cons, List.append_assoc seen.reverse,
        List.singleton_append] at hend
      exact ⟨stop, t :: ts, hrest ▸ .lexeme (hrest ▸ h) hts, bind_apply_of_ok hstep ▸ hend⟩
    | pair after h =>
      rw [bind_apply_of_error hstep]
      exact ⟨_, [], .stop, .pair h⟩
    | nothing after he h =>
      rw [bind_apply_of_error hstep]
      exact ⟨_, [], .stop, .nothing hc he h⟩

theorem ReadUpTo.laidOut {text : List Char} {ts : List Token} (h : ReadUpTo [] read text ts) :
    LaidOut read text ts := by
  have hnone : ∀ d ∈ ([] : List Char), Text.isBlank d := List.forall_mem_nil _
  induction h with
  | stop => exact .last hnone
  | gap hgap _ ih => exact ih.append_gap hgap
  | @lexeme read _ _ _ _ h _ ih =>
    have hline := h.line_eq
    have hcolumn := h.column_eq
    rw [← List.append_nil read] at ih hline hcolumn
    exact .next hnone h.fromLexeme hline (hcolumn.trans (by split <;> rfl)) ih

end Cursor

/-- A text is read as far as this goes, and what is left of it decides how reading ends. -/
theorem Token.lexAll_cases (text : String) : ∃ stop ts, Cursor.ReadUpTo stop [] text.toList ts ∧
    Cursor.EndsAt text.toList ts stop (lexAll text) :=
  Cursor.readTokens_upTo _ [] [] text.toList (Nat.lt_succ_self _)

theorem Token.laidOut_of_lexAll {text : String} {tokens : List Token}
    (h : Token.lexAll text = .ok tokens) :
    ∃ ts, tokens = ts ++ [⟨.eof, "EOF", lineBehind text.toList, columnBehind text.toList⟩] ∧
      LaidOut [] text.toList ts := by
  obtain ⟨stop, ts, hts, hend⟩ := Token.lexAll_cases text
  rw [h] at hend
  cases hend
  exact ⟨ts, rfl, hts.laidOut⟩

/-- Reading tokens loses nothing. The text is cut into gaps of blanks and the lexemes of its tokens,
up to the end mark, and it cannot be cut into the lexemes of other tokens. -/
theorem Token.lexAll_segments {text : String} {tokens : List Token}
    (h : Token.lexAll text = .ok tokens) :
    ∃ ts line column, tokens = ts ++ [⟨.eof, "EOF", line, column⟩] ∧ Segments text.toList ts ∧
      ∀ ts', Segments text.toList ts' → ts'.map Token.lexeme = ts.map Token.lexeme := by
  obtain ⟨ts, htokens, hts⟩ := Token.laidOut_of_lexAll h
  exact ⟨ts, _, _, htokens, hts.segments, fun ts' hts' => hts'.unique hts.segments⟩

/-- A text with lexemes of all sorts: signs and words without blanks between them, an escaped quote,
a quote as a character, and a string literal that is not closed. -/
def openText : String := "x:=\"a\\\"b\"..y2 ''' <>12\n\"end"

/-- The tokens of `openText`, where they stand. -/
def openTokens : List Token :=
  [⟨.identifier, "x", 1, 1⟩, ⟨.assign, ":=", 1, 4⟩, ⟨.string, "a\"b", 1, 4⟩,
    ⟨.twoDots, "..", 1, 10⟩, ⟨.identifier, "y2", 1, 12⟩, ⟨.char, "'", 1, 15⟩, ⟨.neq, "<>", 1, 21⟩,
    ⟨.number, "12", 1, 21⟩, ⟨.string, "end", 2, 1⟩]

theorem Token.lexAll_segments_openText :
    Token.lexAll openText = .ok (openTokens ++ [⟨.eof, "EOF", 2, 5⟩]) ∧
      Segments openText.toList openTokens := by
  have hlex : Token.lexAll openText = .ok (openTokens ++ [⟨.eof, "EOF", 2, 5⟩]) := by
    decide +kernel
  obtain ⟨ts, line, column, htokens, hts, -⟩ := Token.lexAll_segments hlex
  obtain ⟨rfl, -⟩ := List.append_inj' htokens rfl
  exact ⟨hlex, hts⟩

end MiniPascal
