import MiniPascal.Proofs.Lexing.Kinds
import MiniPascal.Proofs.Parsing.Texts

/-!
# Parentheses in Texts

What stands between double quotes in a listing is not read any further. Outside of the quotes,
parentheses are counted: a text is balanced if each one is closed after it was opened.

Texts are put together from pieces, and not every piece is balanced by itself. So a piece is
described by what reading it does to the depth at which it starts.

* `Expr.within_of_run`, `Program.within_of_lex`: what is parsed from a text keeps to it.
-/

namespace MiniPascal

namespace Listing

/-! ### Texts that are balanced -/

/-- The characters of a text outside of double quotes, given whether it starts between quotes. -/
def outside : Bool → List Char → List Char
  | _, [] => []
  | quoted, c :: cs =>
    if c = '"' then outside (!quoted) cs
    else if quoted then outside quoted cs
    else c :: outside quoted cs

/-- Whether a text ends between double quotes, given whether it starts there. -/
def endsQuoted : Bool → List Char → Bool
  | quoted, [] => quoted
  | quoted, c :: cs => endsQuoted (if c = '"' then !quoted else quoted) cs

/-- Outside of double quotes there are as many closing as opening parentheses, and nowhere have more
been closed than opened. -/
def Balanced (text : String) : Prop :=
  (outside false text.toList).count '(' = (outside false text.toList).count ')' ∧
    ∀ start, start <+: outside false text.toList → start.count ')' ≤ start.count '('

/-- How many parentheses are open; none, if more have been closed than opened. -/
abbrev Depth := Option Nat

namespace Depth

def opened (d : Depth) : Depth := d.map (· + 1)

/-- One parenthesis less is open. -/
def closed : Depth → Depth
  | some (n + 1) => some n
  | _ => none

def step (d : Depth) (c : Char) : Depth :=
  if c = '(' then d.opened else if c = ')' then d.closed else d

def read (cs : List Char) (d : Depth) : Depth := cs.foldl step d

@[simp]
theorem closed_opened (d : Depth) : d.opened.closed = d := by
  cases d <;> rfl

theorem closed_closed_opened_opened (d : Depth) : d.opened.opened.closed.closed = d := by
  rw [closed_opened, closed_opened]

theorem read_append (cs cs' : List Char) (d : Depth) : read (cs ++ cs') d = read cs' (read cs d) :=
  List.foldl_append

/-- Once too many parentheses have been closed, nothing makes up for it. -/
theorem read_none (cs : List Char) : read cs none = none := by
  induction cs with
  | nil => rfl
  | cons c cs ih =>
    have hstep : step none c = none := by
      unfold step
      split
      · rfl
      · split <;> rfl
    rw [read, List.foldl_cons, hstep]
    exact ih

/-- A depth is reached if nowhere are more parentheses closed than are open, and if the difference
is made up by what is opened and closed. -/
theorem read_eq_some {cs : List Char} {n m : Nat} : read cs (some n) = some m ↔
    n + cs.count '(' = m + cs.count ')' ∧
      ∀ start, start <+: cs → start.count ')' ≤ n + start.count '(' := by
  induction cs generalizing n with
  | nil => simp [read]
  | cons c cs ih =>
    -- Prefixes are empty, or they are the first character and a prefix of the others.
    have hstarts : (∀ start, start <+: c :: cs → start.count ')' ≤ n + start.count '(') ↔
        ∀ start, start <+: cs → (c :: start).count ')' ≤ n + (c :: start).count '(' := by
      constructor
      · exact fun h start hstart => h _ (List.cons_prefix_cons.2 ⟨rfl, hstart⟩)
      · intro h start hstart
        rcases List.prefix_cons_iff.1 hstart with rfl | ⟨rest, rfl, hrest⟩
        · simp
        · exact h rest hrest
    rw [hstarts, read, List.foldl_cons]
    by_cases hopen : c = '('
    · subst hopen
      refine (ih (n := n + 1)).trans ?_
      simp only [List.count_cons_self, List.count_cons_of_ne (show '(' ≠ ')' by decide)]
      exact and_congr (by omega) (forall₂_congr fun _ _ => by omega)
    by_cases hclose : c = ')'
    · subst hclose
      simp only [List.count_cons_self, List.count_cons_of_ne (show ')' ≠ '(' by decide)]
      cases n with
      | zero =>
        refine iff_of_false ?_ fun h => absurd (h.2 [] List.nil_prefix) (by simp)
        exact fun h => absurd ((read_none cs).symm.trans h) nofun
      | succ n =>
        refine (ih (n := n)).trans ?_
        exact and_congr (by omega) (forall₂_congr fun _ _ => by omega)
    · rw [step, if_neg hopen, if_neg hclose]
      refine ih.trans ?_
      simp only [List.count_cons_of_ne hopen, List.count_cons_of_ne hclose]

end Depth

/-- A text is balanced if reading it leads from no open parentheses to none. -/
theorem balanced_iff {text : String} :
    Balanced text ↔ Depth.read (outside false text.toList) (some 0) = some 0 := by
  rw [Depth.read_eq_some, Balanced]
  simp

/-! ### Pieces of texts -/

theorem outside_append : ∀ (quoted : Bool) (cs cs' : List Char),
    outside quoted (cs ++ cs') = outside quoted cs ++ outside (endsQuoted quoted cs) cs'
  | _, [], _ => rfl
  | quoted, c :: cs, cs' => by
    rw [List.cons_append, outside, outside, endsQuoted]
    split
    · exact outside_append _ cs cs'
    · split
      · exact outside_append quoted cs cs'
      · rw [outside_append quoted cs cs', List.cons_append]

theorem endsQuoted_append : ∀ (quoted : Bool) (cs cs' : List Char),
    endsQuoted quoted (cs ++ cs') = endsQuoted (endsQuoted quoted cs) cs'
  | _, [], _ => rfl
  | _, _ :: cs, cs' => endsQuoted_append _ cs cs'

theorem outside_of_notMem : ∀ {cs : List Char} (quoted : Bool), '"' ∉ cs →
    outside quoted cs = (if quoted then [] else cs) ∧ endsQuoted quoted cs = quoted
  | [], quoted, _ => by cases quoted <;> exact ⟨rfl, rfl⟩
  | c :: cs, quoted, h => by
    rw [List.mem_cons, not_or] at h
    obtain ⟨houtside, hends⟩ := outside_of_notMem quoted h.2
    rw [outside, endsQuoted, if_neg (Ne.symm h.1), if_neg (Ne.symm h.1), houtside]
    cases quoted <;> exact ⟨rfl, hends⟩

/-- Reading the text from outside of quotes ends outside of quotes and does this to the depth. -/
def Moves (text : String) (f : Depth → Depth) : Prop :=
  endsQuoted false text.toList = false ∧ ∀ d, Depth.read (outside false text.toList) d = f d

/-- The effect of a piece between parentheses. -/
def enclose (f : Depth → Depth) (d : Depth) : Depth := (f d.opened).closed

@[simp]
theorem enclose_id : enclose id = id := funext Depth.closed_opened

/-- The effect of pieces one after the other. -/
def follow : List (Depth → Depth) → Depth → Depth
  | [], d => d
  | f :: fs, d => follow fs (f d)

@[simp]
theorem follow_cons (f : Depth → Depth) (fs : List (Depth → Depth)) :
    follow (f :: fs) = follow fs ∘ f := rfl

theorem follow_append : ∀ fs gs : List (Depth → Depth), follow (fs ++ gs) = follow gs ∘ follow fs
  | [], _ => rfl
  | f :: fs, gs => by
    rw [List.cons_append, follow_cons, follow_append, follow_cons, Function.comp_assoc]

/-- The text has no double quotes and no parentheses. -/
def Unmarked (text : String) : Prop := ∀ c ∈ text.toList, c ∉ ['"', '(', ')']

namespace Moves

variable {s t : String} {f g : Depth → Depth}

theorem append (hs : Moves s f) (ht : Moves t g) : Moves (s ++ t) (g ∘ f) := by
  obtain ⟨hsends, hsreads⟩ := hs
  obtain ⟨htends, htreads⟩ := ht
  refine ⟨?_, fun d => ?_⟩
  · rw [String.toList_append, endsQuoted_append, hsends, htends]
  · rw [String.toList_append, outside_append, Depth.read_append, hsreads, hsends, htreads]
    rfl

theorem congr (hs : Moves s f) (h : f = g) : Moves s g := h ▸ hs

/-- The effect of a text is determined. -/
theorem unique (hf : Moves s f) (hg : Moves s g) : f = g :=
  funext fun d => (hf.2 d).symm.trans (hg.2 d)

theorem empty : Moves "" id := ⟨rfl, fun _ => rfl⟩

/-- A text counts by its parentheses outside of quotes, which come in this order. -/
theorem literal (marks : List Char) (h : endsQuoted false s.toList = false ∧
    (outside false s.toList).filter (fun c => c = '(' || c = ')') = marks) :
    Moves s (Depth.read marks) := by
  obtain ⟨hends, rfl⟩ := h
  refine ⟨hends, fun d => ?_⟩
  induction outside false s.toList generalizing d with
  | nil => rfl
  | cons c cs ih =>
    by_cases hc : c = '(' ∨ c = ')'
    · rw [List.filter_cons_of_pos (by simpa using hc)]
      exact ih _
    · rw [List.filter_cons_of_neg (by simpa using hc), ← ih]
      rw [not_or] at hc
      rw [Depth.read, List.foldl_cons, Depth.step, if_neg hc.1, if_neg hc.2]
      rfl

/-- A piece is filled in, and the text goes on to the next one. -/
theorem slot (hs : Moves s f) (ht : Moves t g) {text : String} (marks : List Char)
    (h : endsQuoted false text.toList = false ∧
      (outside false text.toList).filter (fun c => c = '(' || c = ')') = marks) :
    Moves (s ++ t ++ text) (Depth.read marks ∘ g ∘ f) :=
  (hs.append ht).append (literal marks h)

theorem unmarked (h : Unmarked s) : Moves s id := by
  have hquote : '"' ∉ s.toList := fun hmem => h _ hmem (by decide)
  obtain ⟨houtside, hends⟩ := outside_of_notMem false hquote
  refine (literal [] ⟨hends, ?_⟩ : Moves s (Depth.read []))
  rw [houtside, if_neg Bool.false_ne_true, List.filter_eq_nil_iff]
  intro c hc hmark
  refine h c hc ?_
  rcases (by simpa using hmark : c = '(' ∨ c = ')') with rfl | rfl <;> decide

/-- What stands between double quotes does not count. -/
theorem quoted (h : '"' ∉ s.toList) : Moves ("\"" ++ s ++ "\"") id := by
  obtain ⟨houtside, hends⟩ := outside_of_notMem true h
  have hmark : "\"".toList = ['"'] := rfl
  refine ⟨?_, fun d => ?_⟩
  · rw [String.toList_append, String.toList_append, hmark, endsQuoted_append, endsQuoted_append]
    change endsQuoted (endsQuoted true s.toList) ['"'] = false
    rw [hends]
    rfl
  · rw [String.toList_append, String.toList_append, hmark, outside_append, outside_append,
      endsQuoted_append]
    change Depth.read ([] ++ outside true s.toList ++ outside (endsQuoted true s.toList) ['"']) d =
      d
    rw [houtside, hends]
    rfl

/-- Pieces with the same text between any two of them. -/
theorem intercalate (hs : Moves s id) : ∀ {pieces : List String} {fs : List (Depth → Depth)},
    List.Forall₂ Moves pieces fs → Moves (s.intercalate pieces) (follow fs)
  | _, _, .nil => by
    exact empty
  | _, _, .cons h .nil => by
    exact h
  | _, _, .cons h (.cons h' hrest) => by
    rw [String.intercalate_cons_cons]
    exact (h.append hs).append (intercalate hs (.cons h' hrest))

/-- Pieces that are balanced by themselves. -/
theorem intercalate_id (hs : Moves s id) {pieces : List String} (h : ∀ p ∈ pieces, Moves p id) :
    Moves (s.intercalate pieces) id := by
  have hall : List.Forall₂ Moves pieces (pieces.map fun _ => id) := by
    rw [List.forall₂_map_right_iff, List.forall₂_same]
    exact h
  refine (hs.intercalate hall).congr ?_
  clear hall h
  induction pieces with
  | nil => rfl
  | cons p pieces ih => rw [List.map_cons, follow_cons, ih, Function.comp_id]

end Moves

/-! ### Texts without marks -/

/-- A written number has digits only. -/
theorem unmarked_toString (n : Nat) : Unmarked (toString n) := by
  intro c hc hmark
  rw [Nat.toString_eq_repr, Nat.toList_repr] at hc
  have hdigit := Nat.isDigit_of_mem_toDigits (by decide) (by decide) hc
  simp only [List.mem_cons, List.not_mem_nil, or_false] at hmark
  rcases hmark with rfl | rfl | rfl <;> exact absurd hdigit (by decide)

/-- What a program is written with: names and operators have no marks. Its listing can be read if
it is `quiet`, which means that there are no double quotes in its literals. -/
def vocabulary (quiet : Prop) : Vocabulary where
  name s := s ≠ "" ∧ Unmarked s
  literal s := quiet → '"' ∉ s.toList
  operator s := s ≠ "" ∧ Unmarked s
  word s := s ≠ "parameter"
  basic b := by
    have hname : b.name ≠ "" ∧ ∀ c ∈ b.name.toList, c ∉ ['"', '(', ')'] := by
      cases b <;> decide
    exact hname

end Listing

open Listing

theorem unmarked_of_isWordChar {cs : List Char} (h : ∀ c ∈ cs, Cursor.isWordChar c) :
    Unmarked (String.ofList cs) := by
  intro c hc hmark
  rw [String.toList_ofList] at hc
  have hword := h c hc
  simp only [List.mem_cons, List.not_mem_nil, or_false] at hmark
  rcases hmark with rfl | rfl | rfl <;> exact absurd hword (by decide)

theorem sign_unmarked : ∀ sign ∈ signs, sign.2 = .identifier ∨ sign.2 ∈ TokenKind.operators →
    ∀ c ∈ sign.1.toList, c ∉ ['"', '(', ')'] := by
  decide

/-- The lexemes of names and operators are words and signs, and have no marks. -/
theorem Token.FromLexeme.unmarked {t : Token} {lexeme after : List Char}
    (h : t.FromLexeme lexeme after)
    (hkind : t.kind = .identifier ∨ t.kind ∈ TokenKind.operators) :
    t.value ≠ "" ∧ Unmarked t.value := by
  -- Neither names nor operators are literals or numbers.
  have hapart : ∀ kind ∈ [TokenKind.string, .char, .number],
      ¬(kind = .identifier ∨ kind ∈ TokenKind.operators) := by decide
  cases lexeme with
  | nil => exact absurd h id
  | cons c cs =>
    by_cases hquote : c = '"'
    · subst hquote
      have hstring : t.kind = .string := h.1
      exact absurd hkind (hapart _ (by simp [hstring]))
    by_cases hchar : c = '\''
    · subst hchar
      have hcharacter : t.kind = .char := h.1
      exact absurd hkind (hapart _ (by simp [hcharacter]))
    rw [Token.fromLexeme_cons hquote hchar] at h
    obtain ⟨hvalue, h⟩ := h
    have hne : t.value ≠ "" := by
      rw [hvalue, ← String.toList_inj.ne, String.toList_ofList]
      exact List.cons_ne_nil c cs
    refine ⟨hne, ?_⟩
    split at h
    · exact absurd hkind (hapart _ (by simp [h.1]))
    split at h
    · rw [hvalue]
      exact unmarked_of_isWordChar h.2.1
    · exact sign_unmarked _ h.1 hkind

variable {tokens : List Token} {text : String}

/-- The names and operators among the tokens of a text have no marks. -/
theorem Token.unmarked_of_lex (h : Token.lex text = .ok tokens) :
    ∀ t ∈ tokens, t.kind = .identifier ∨ t.kind ∈ TokenKind.operators →
      t.value ≠ "" ∧ Unmarked t.value := by
  intro t ht hkind
  rcases Token.exists_lexeme_of_lex h t ht with heof | ⟨lexeme, after, hlexeme⟩
  · rw [heof] at hkind
    exact absurd hkind (by decide)
  · exact hlexeme.unmarked hkind

/-- The words of routines are reserved, so that none of them is `parameter`. -/
theorem Token.ne_parameter_of_lex (h : Token.lex text = .ok tokens) :
    ∀ t ∈ tokens, t.kind ∈ TokenKind.routines → t.value ≠ "parameter" := by
  intro t ht hkind hvalue
  have hword : Cursor.wordKind "parameter" = .identifier := by decide +kernel
  rcases Token.exists_lexeme_of_lex h t ht with heof | ⟨lexeme, after, hlexeme⟩
  · rw [heof] at hkind
    exact absurd hkind (by decide)
  · have hroutines : ∀ kind ∈ TokenKind.routines, kind ∈ TokenKind.words := by decide
    rw [hlexeme.eq_wordKind (hroutines _ hkind), hvalue, hword] at hkind
    exact absurd hkind (by decide)

/-- The tokens of a text keep to the vocabulary, which is quiet if their literals have no double
quotes. -/
theorem Token.admits_of_lex {quiet : Prop} (h : Token.lex text = .ok tokens)
    (hquotes : quiet → ∀ t ∈ tokens, t.kind ∈ [.string, .char] → '"' ∉ t.value.toList) :
    ∀ t ∈ tokens, (vocabulary quiet).Admits t := fun t ht =>
  ⟨fun hkind => Token.unmarked_of_lex h t ht (.inl hkind), fun hkind hq => hquotes hq t ht hkind,
    fun hkind => Token.unmarked_of_lex h t ht (.inr hkind), Token.ne_parameter_of_lex h t ht⟩

/-! ### What is parsed from a text -/

/-- The vocabulary of listings where literals may be anything. -/
abbrev Vocabulary.plain : Vocabulary := Listing.vocabulary False

section

variable {text : String} {tokens : List Token}

theorem Vocabulary.plain_admits_of_lex (h : Token.lex text = .ok tokens) :
    ∀ t ∈ tokens, Vocabulary.plain.Admits t :=
  Token.admits_of_lex h False.elim

/-- An expression that is parsed from the tokens of a text, wherever it starts, has the shape of
expressions. -/
theorem Expr.within_of_run {start fuel : Nat} {e : Expr} {rest : List Token}
    (htokens : Token.lex text = .ok tokens)
    (h : (Grammar.expression fuel).run (tokens.drop start) = .ok (e, rest)) :
    e.Within .plain := by
  have hadmits := Vocabulary.plain_admits_of_lex htokens
  exact within_of_gives (fun t ht => hadmits t (List.mem_of_mem_drop ht)) (Parse.gives_of_run h)

theorem Program.within_of_lex {p : Program} (htokens : Token.lex text = .ok tokens)
    (hparse : Program.parse tokens = .ok p) : p.block.Within .plain (stmtsWithin .plain) :=
  Program.within_of_parse (Vocabulary.plain_admits_of_lex htokens) hparse

end

end MiniPascal
