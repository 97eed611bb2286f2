import MiniPascal.Proofs.Success
import MiniPascal.Token.Lexer
import Mathlib.Data.List.TakeWhile
import Mathlib.Logic.Relation

/-!
# Readers Pass over Characters

Whatever is read, and whether reading fails or not, the cursor only ever passes over single
characters. So its line and column are those of the characters that were read. What a reader does
depends on the classes of the characters alone: on characters that reading does not tell apart it
does the same, and behind another text it does so on lines further down.
-/

namespace MiniPascal

open Relation

/-- The line behind the characters. -/
def lineBehind (read : List Char) : Nat := 1 + read.count '\n'

/-- The column behind the characters: one more than there are characters since the last line end. -/
def columnBehind (read : List Char) : Nat := 1 + (read.reverse.takeWhile (· ≠ '\n')).length

/-- The token on a line further down. -/
def Token.below (lines : Nat) (t : Token) : Token := { t with line := t.line + lines }

/-- The error on a line further down. -/
def LexError.below (lines : Nat) : LexError → LexError
  | malformed cause line column => malformed cause (line + lines) column
  | pastEnd => pastEnd
  | noText => noText

namespace Cursor

variable {cur mid after : Cursor} {lines chars : Nat} {α β : Type}

/-- The cursor passes over one character. -/
def Passes (cur after : Cursor) : Prop := ∃ c cs, cur.rest = c :: cs ∧ cur.step c cs = after

/-- The cursor passes over some characters. -/
abbrev Reaches : Cursor → Cursor → Prop := ReflTransGen Passes

theorem reaches_step {c : Char} {cs : List Char} (h : cur.rest = c :: cs) :
    cur.Reaches (cur.step c cs) :=
  .single ⟨c, cs, h, rfl⟩

/-! ### Positions -/

/-- The cursor behind the characters `read`, with `rest` still to come. -/
def behind (read rest : List Char) : Cursor :=
  ⟨rest, read.length, lineBehind read, columnBehind read⟩

theorem behind_step (read : List Char) (c : Char) (rest : List Char) :
    (behind read (c :: rest)).step c rest = behind (read ++ [c]) rest := by
  unfold step behind lineBehind columnBehind
  rw [List.count_append, List.reverse_append, List.reverse_singleton, List.singleton_append,
    List.takeWhile_cons, List.length_append]
  split
  next hc => simp [hc, Nat.add_assoc]
  next hc => simp [hc, Nat.add_comm]

/-- The cursor stands in the text, with the line and column of its place. -/
structure StandsIn (cur : Cursor) (text : List Char) : Prop where
  offset_le : cur.offset ≤ text.length
  rest_eq : cur.rest = text.drop cur.offset
  line_eq : cur.line = lineBehind (text.take cur.offset)
  column_eq : cur.column = columnBehind (text.take cur.offset)

theorem behind_standsIn (read rest : List Char) : (behind read rest).StandsIn (read ++ rest) where
  offset_le := List.length_append ▸ Nat.le_add_right read.length rest.length
  rest_eq := List.drop_left.symm
  line_eq := congrArg lineBehind List.take_left.symm
  column_eq := congrArg columnBehind List.take_left.symm

/-- Passing over characters, the cursor stays behind those that were read. -/
theorem Reaches.behind {read rest : List Char} (h : (behind read rest).Reaches after) :
    ∃ passed left, rest = passed ++ left ∧ after = Cursor.behind (read ++ passed) left := by
  induction h with
  | refl => exact ⟨[], rest, rfl, by rw [List.append_nil]⟩
  | tail _ hpass ih =>
    obtain ⟨passed, left, rfl, rfl⟩ := ih
    obtain ⟨c, cs, hrest, rfl⟩ := hpass
    obtain rfl : left = c :: cs := hrest
    refine ⟨passed ++ [c], cs, ?_, ?_⟩
    · rw [List.append_assoc, List.singleton_append]
    · rw [behind_step, List.append_assoc]

end Cursor

/-! ### Characters that are not told apart -/

/-- Reading does not tell related characters apart: they are the same or letters, they are of the
same classes, and words that are made of them are of one kind. -/
structure Indistinct (R : Char → Char → Prop) : Prop where
  eq_or_letter : ∀ {c c'}, R c c' → c = c' ∨ Text.isLetter c ∧ ¬Text.isDigit c
  isBlank_eq : ∀ {c c'}, R c c' → Text.isBlank c = Text.isBlank c'
  isDigit_eq : ∀ {c c'}, R c c' → Text.isDigit c = Text.isDigit c'
  isLetter_eq : ∀ {c c'}, R c c' → Text.isLetter c = Text.isLetter c'
  isWordChar_eq : ∀ {c c'}, R c c' → Cursor.isWordChar c = Cursor.isWordChar c'
  wordKind_eq : ∀ {cs cs'}, List.Forall₂ R cs cs' →
    Cursor.wordKind (String.ofList cs) = Cursor.wordKind (String.ofList cs')

namespace Indistinct

variable {R : Char → Char → Prop} {c c' d : Char}

theorem refl : Indistinct Eq where
  eq_or_letter := .inl
  isBlank_eq := congrArg _
  isDigit_eq := congrArg _
  isLetter_eq := congrArg _
  isWordChar_eq := congrArg _
  wordKind_eq h := congrArg _ (congrArg _ (List.forall₂_eq_eq_eq ▸ h))

/-- A character that is no letter is related to itself only. -/
theorem eq_iff (hR : Indistinct R) (h : R c c') (hd : Text.isLetter d = false) :
    c = d ↔ c' = d := by
  obtain rfl | ⟨hletter, -⟩ := hR.eq_or_letter h
  · exact Iff.rfl
  · have hne : ∀ {e : Char}, Text.isLetter e = true → e ≠ d := by
      rintro e he rfl
      exact Bool.false_ne_true (hd.symm.trans he)
    exact iff_of_false (hne hletter) (hne (hR.isLetter_eq h ▸ hletter))

theorem head?_iff (hR : Indistinct R) {cs cs' : List Char} (h : List.Forall₂ R cs cs')
    (hd : Text.isLetter d = false) : cs.head? = some d ↔ cs'.head? = some d := by
  cases h with
  | nil => exact Iff.rfl
  | cons hc _ =>
    rw [List.head?_cons, List.head?_cons, Option.some_inj, Option.some_inj]
    exact hR.eq_iff hc hd

end Indistinct

/-- The second token is the first one on a line further down. The values are the same, or they are
literals or words of related characters. -/
structure Token.Beside (R : Char → Char → Prop) (lines : Nat) (t t' : Token) : Prop where
  kind_eq : t.kind = t'.kind
  line_eq : t'.line = t.line + lines
  column_eq : t.column = t'.column
  value : t.value = t'.value ∨ List.Forall₂ R t.value.toList t'.value.toList ∧
    (t.kind = .string ∨ t.kind = .char ∨
      Cursor.wordKind t.value = t.kind ∧ Cursor.wordKind t'.value = t.kind)

theorem Token.Beside.below_eq {t t' : Token} {lines : Nat} (h : t.Beside Eq lines t') :
    t.below lines = t' := by
  have hvalue : t.value = t'.value := h.value.elim id fun hsame =>
    String.toList_inj.1 (List.forall₂_eq_eq_eq ▸ hsame.1)
  rw [Token.below, h.kind_eq, hvalue, ← h.line_eq, h.column_eq]

namespace Cursor

variable {R : Char → Char → Prop} {cur cur' mid after : Cursor} {lines chars : Nat} {α β : Type}
  {seen : List Char}

/-- The second cursor stands before related characters, behind another text. -/
structure Beside (R : Char → Char → Prop) (lines chars : Nat) (cur cur' : Cursor) : Prop where
  rest : List.Forall₂ R cur.rest cur'.rest
  offset_eq : cur'.offset = cur.offset + chars
  line_eq : cur'.line = cur.line + lines
  column_eq : cur.column = cur'.column

/-- What two readers give, and where they end: both give something, or both fail in one way. -/
inductive Answers (R : Char → Char → Prop) (lines chars : Nat) (Q : α → β → Prop) :
    Except LexError α × Cursor → Except LexError β × Cursor → Prop
  | ok {a : α} {b : β} {cur cur' : Cursor} (hQ : Q a b) (hcur : Beside R lines chars cur cur') :
    Answers R lines chars Q (.ok a, cur) (.ok b, cur')
  | error {cur cur' : Cursor} (e : LexError) (hcur : Beside R lines chars cur cur') :
    Answers R lines chars Q (.error e, cur) (.error (e.below lines), cur')

/-- The first reader only passes over characters, whether it fails or not. The second one does the
same with related characters behind another text. -/
def Walks (R : Char → Char → Prop) (lines chars : Nat) (Q : α → β → Prop) (x : Reader α)
    (y : Reader β) : Prop :=
  ∀ ⦃cur cur' : Cursor⦄, Beside R lines chars cur cur' →
    cur.Reaches (x cur).2 ∧ Answers R lines chars Q (x cur) (y cur')

namespace Beside

theorem step (hR : Indistinct R) (h : Beside R lines chars cur cur') {c c' : Char}
    {rest rest' : List Char} (hc : R c c') (hrest : List.Forall₂ R rest rest') :
    Beside R lines chars (cur.step c rest) (cur'.step c' rest') := by
  have hoffset : cur'.offset + 1 = cur.offset + 1 + chars := by rw [h.offset_eq, Nat.add_right_comm]
  by_cases hline : c = '\n'
  · rw [Cursor.step, Cursor.step, if_pos hline, if_pos ((hR.eq_iff hc (by decide)).1 hline)]
    exact ⟨hrest, hoffset, by rw [h.line_eq, Nat.add_right_comm], rfl⟩
  · rw [Cursor.step, Cursor.step, if_neg hline, if_neg (mt (hR.eq_iff hc (by decide)).2 hline)]
    exact ⟨hrest, hoffset, h.line_eq, congrArg (· + 1) h.column_eq⟩

theorem advance (hR : Indistinct R) (h : Beside R lines chars cur cur') :
    Beside R lines chars cur.advance cur'.advance := by
  unfold Cursor.advance
  have hrest := h.rest
  generalize cur.rest = cs at hrest
  generalize cur'.rest = cs' at hrest
  cases hrest with
  | nil => exact h
  | cons hc hcs => exact h.step hR hc hcs

theorem skipWhile (hR : Indistinct R) {p : Char → Bool} (hp : ∀ {c c'}, R c c' → p c = p c')
    (h : Beside R lines chars cur cur') :
    Beside R lines chars (cur.skipWhile p) (cur'.skipWhile p) := by
  have hgo : ∀ {cs cs' : List Char}, List.Forall₂ R cs cs' → ∀ {cur cur' : Cursor},
      Beside R lines chars cur cur' →
        Beside R lines chars (skipWhile.go p cur cs) (skipWhile.go p cur' cs') := by
    intro cs cs' hcs
    induction hcs with
    | nil => exact id
    | cons hc hcs ih =>
      intro cur cur' h
      rw [skipWhile.go, skipWhile.go, hp hc]
      split
      · exact ih (h.step hR hc hcs)
      · exact h
  exact hgo h.rest h

end Beside

theorem reaches_skipWhile (p : Char → Bool) (cur : Cursor) : cur.Reaches (cur.skipWhile p) := by
  have hgo : ∀ (cs : List Char) {cur : Cursor}, cur.rest = cs →
      cur.Reaches (skipWhile.go p cur cs) := by
    intro cs
    induction cs with
    | nil => exact fun _ => .refl
    | cons c cs ih =>
      intro cur hcur
      rw [skipWhile.go]
      split
      · exact (reaches_step hcur).trans (ih (step_rest cur c cs))
      · exact .refl
  exact hgo cur.rest rfl

theorem reaches_stringBody {cs : List Char} (h : cur.rest = cs) :
    cur.Reaches (stringBody seen cur cs).2 := by
  fun_induction stringBody seen cur cs with
  | case1 => exact .refl
  | case2 | case3 => exact reaches_step h
  | case4 seen cur c rest ih =>
    have hsecond := reaches_step (step_rest cur '\\' (c :: rest))
    exact ((reaches_step h).trans hsecond).trans (ih (step_rest _ _ _))
  | case5 seen cur c rest _ _ _ ih => exact (reaches_step h).trans (ih (step_rest _ _ _))

theorem ne_backslash {c : Char} {rest : List Char} (hend : c = '\\' → rest = [] → False)
    (hescape : ∀ d rest', c = '\\' → rest = d :: rest' → False) : c ≠ '\\' := by
  rintro rfl
  cases rest with
  | nil => exact hend rfl rfl
  | cons d rest => exact hescape d rest rfl rfl

/-- The insides of string literals are read in step. -/
theorem answers_stringBody (hR : Indistinct R) {seen' cs cs' : List Char}
    (hseen : List.Forall₂ R seen seen') (hcs : List.Forall₂ R cs cs')
    (h : Beside R lines chars cur cur') :
    Answers R lines chars (fun s s' : String => List.Forall₂ R s.toList s'.toList)
      (stringBody seen cur cs) (stringBody seen' cur' cs') := by
  have hvalue : ∀ {seen seen' : List Char}, List.Forall₂ R seen seen' → List.Forall₂ R
      (String.ofList seen.reverse).toList (String.ofList seen'.reverse).toList := fun h => by
    rw [String.toList_ofList, String.toList_ofList]
    exact List.rel_reverse h
  have hsame : ∀ {c c' d : Char}, R c c' → Text.isLetter d = false → (c = d ↔ c' = d) :=
    fun hc hd => hR.eq_iff hc hd
  fun_induction stringBody seen cur cs generalizing seen' cur' cs' with
  | case1 seen cur =>
    cases hcs
    exact .ok (hvalue hseen) h
  | case2 seen cur rest =>
    obtain _ | ⟨hc, hrest⟩ := hcs
    obtain rfl := (hsame hc (by decide)).1 rfl
    exact .ok (hvalue hseen) (h.step hR hc hrest)
  | case3 seen cur =>
    obtain _ | ⟨hc, _ | _⟩ := hcs
    obtain rfl := (hsame hc (by decide)).1 rfl
    have hafter := h.step hR hc .nil
    rw [stringBody, hafter.line_eq, ← hafter.column_eq]
    exact .error (.malformed .danglingEscape _ _) hafter
  | case4 seen cur c rest ih =>
    obtain _ | ⟨hescape, _ | ⟨hc, hrest⟩⟩ := hcs
    obtain rfl := (hsame hescape (by decide)).1 rfl
    rw [stringBody]
    exact ih (.cons hc hseen) hrest ((h.step hR hescape (.cons hc hrest)).step hR hc hrest)
  | case5 seen cur c rest hquote hend hescape ih =>
    obtain _ | @⟨_, c', _, rest', hc, hrest⟩ := hcs
    have hplain' : c' ≠ '\\' := mt (hsame hc (by decide)).2 (ne_backslash hend hescape)
    rw [stringBody]
    · exact ih (.cons hc hseen) hrest (h.step hR hc hrest)
    · exact mt (hsame hc (by decide)).2 hquote
    · exact fun h _ => hplain' h
    · exact fun _ _ h _ => hplain' h

/-- What is read where a character comes next. -/
def signAt : Option Char → Reader (Option Token)
  | none => throw .pastEnd
  | some c =>
    if c = '.' then some <$> readDots
    else if c = ':' then some <$> readPair '=' .colon .assign ":" ":="
    else if c = '<' then some <$> readPair '>' .lt .neq "<" "<>"
    else
      match signKind? c with
      | none => return none
      | some kind => do
        let _ ← takeChar
        some <$> signToken kind c.toString

theorem readSign_eq : readSign = get >>= fun cur => signAt cur.rest.head? := by
  refine bind_congr fun cur => ?_
  cases cur.rest with
  | nil => rfl
  | cons c cs =>
    rw [List.head?_cons, signAt]
    split
    next heq => cases heq
    next heq => rw [(List.cons.inj heq).1, if_pos rfl]
    next heq => rw [(List.cons.inj heq).1, if_neg (by decide), if_pos rfl]
    next heq => rw [(List.cons.inj heq).1, if_neg (by decide), if_neg (by decide), if_pos rfl]
    next hdot hcolon hless heq =>
      obtain ⟨rfl, -⟩ := List.cons.inj heq
      cases signKind? c <;> simp only [if_neg hdot, if_neg hcolon, if_neg hless]

theorem signKind?_of_isLetter {c : Char} (h : Text.isLetter c) : signKind? c = none := by
  unfold signKind?
  split
  all_goals first | rfl | exact absurd h (by decide)

namespace Walks

variable {γ δ : Type} {Q : α → β → Prop} {S : γ → δ → Prop} {x : Reader α} {y : Reader β}

theorem reaches {Q : α → α → Prop} (h : Walks Eq 0 0 Q x x) (cur : Cursor) :
    cur.Reaches (x cur).2 :=
  (@h cur cur ⟨List.forall₂_refl _, rfl, rfl, rfl⟩).1

theorem pure {a : α} {b : β} (h : Q a b) : Walks R lines chars Q (Pure.pure a) (Pure.pure b) :=
  fun _ _ hcur => ⟨.refl, .ok h hcur⟩

theorem bind {f : α → Reader γ} {g : β → Reader δ} (hx : Walks R lines chars Q x y)
    (hf : ∀ a b, Q a b → Walks R lines chars S (f a) (g b)) :
    Walks R lines chars S (x >>= f) (y >>= g) := by
  intro cur cur' hcur
  obtain ⟨hreaches, hanswers⟩ := hx hcur
  change cur.Reaches (ExceptT.bindCont f (x cur).1 (x cur).2).2 ∧
    Answers R lines chars S (ExceptT.bindCont f (x cur).1 (x cur).2)
      (ExceptT.bindCont g (y cur').1 (y cur').2)
  generalize x cur = result at hreaches hanswers
  generalize y cur' = result' at hanswers
  cases hanswers with
  | ok hQ hmid => exact ⟨hreaches.trans (hf _ _ hQ hmid).1, (hf _ _ hQ hmid).2⟩
  | error e hmid => exact ⟨hreaches, .error e hmid⟩

theorem get : Walks R lines chars (Beside R lines chars) get get :=
  fun _ _ hcur => ⟨.refl, .ok hcur hcur⟩

theorem pastEnd : Walks R lines chars Q (throw .pastEnd) (throw .pastEnd) :=
  fun _ _ hcur => ⟨.refl, .error .pastEnd hcur⟩

theorem fail (cause : LexCause) : Walks R lines chars Q (fail cause) (fail cause) := by
  intro cur cur' hcur
  refine ⟨.refl, ?_⟩
  change Answers R lines chars Q _ (.error (.malformed cause cur'.line cur'.column), cur')
  rw [hcur.line_eq, ← hcur.column_eq]
  exact .error (.malformed cause cur.line cur.column) hcur

theorem token (kind : TokenKind) {value value' : String} {column column' : Nat}
    (hcolumn : column = column') (hvalue : value = value' ∨
      List.Forall₂ R value.toList value'.toList ∧ (kind = .string ∨ kind = .char ∨
        wordKind value = kind ∧ wordKind value' = kind)) :
    Walks R lines chars (Token.Beside R lines) (token kind value column)
      (token kind value' column') := by
  intro cur cur' hcur
  have hline : (cur'.line : Int) = cur.line + lines := by rw [hcur.line_eq, Int.natCast_add]
  exact ⟨.refl, .ok ⟨rfl, hline, congrArg Nat.cast hcolumn, hvalue⟩ hcur⟩

theorem ite {p p' : Prop} [Decidable p] [Decidable p'] {x₂ : Reader α} {y₂ : Reader β} (hp : p ↔ p')
    (hx : p → Walks R lines chars Q x y) (hx₂ : ¬p → Walks R lines chars Q x₂ y₂) :
    Walks R lines chars Q (if p then x else x₂) (if p' then y else y₂) := by
  by_cases h : p
  · rw [if_pos h, if_pos (hp.1 h)]
    exact hx h
  · rw [if_neg h, if_neg (mt hp.2 h)]
    exact hx₂ h

theorem some (hx : Walks R lines chars Q x y) :
    Walks R lines chars (Option.Rel Q) (Option.some <$> x) (Option.some <$> y) := by
  exact hx.bind fun a b h => .pure (.some h)

theorem takeChar (hR : Indistinct R) : Walks R lines chars (Option.Rel R) takeChar takeChar := by
  intro cur cur' hcur
  refine ⟨?_, .ok ?_ (hcur.advance hR)⟩
  · change cur.Reaches cur.advance
    unfold advance
    split
    next => exact .refl
    next h => exact reaches_step h
  · have hrest := hcur.rest
    generalize cur.rest = cs at hrest
    generalize cur'.rest = cs' at hrest
    cases hrest with
    | nil => exact .none
    | cons hc _ => exact .some hc

/-- Runs of one class are taken together, with the columns where they start. -/
theorem takeRun (hR : Indistinct R) {p : Char → Bool} (hp : ∀ {c c'}, R c c' → p c = p c') :
    Walks R lines chars (fun run run' => (∀ c ∈ run.1.toList, p c) ∧
      List.Forall₂ R run.1.toList run'.1.toList ∧ run.2 = run'.2) (takeRun p) (takeRun p) := by
  intro cur cur' hcur
  refine ⟨reaches_skipWhile p cur, .ok ⟨?_, ?_, hcur.column_eq⟩ (hcur.skipWhile hR hp)⟩
  · rw [String.toList_ofList]
    exact fun c hc => List.mem_takeWhile_imp hc
  · rw [String.toList_ofList, String.toList_ofList]
    have hrest := hcur.rest
    generalize cur.rest = cs at hrest
    generalize cur'.rest = cs' at hrest
    induction hrest with
    | nil => exact .nil
    | cons hc _ ih =>
      rw [List.takeWhile_cons, List.takeWhile_cons, hp hc]
      split
      · exact .cons hc ih
      · exact .nil

theorem skipBlanks (hR : Indistinct R) :
    Walks R lines chars (fun _ _ => True) skipBlanks skipBlanks :=
  fun cur _ hcur => ⟨reaches_skipWhile _ cur, .ok trivial (hcur.skipWhile hR hR.isBlank_eq)⟩

theorem readWord (hR : Indistinct R) :
    Walks R lines chars (Token.Beside R lines) readWord readWord := by
  refine .bind (.takeRun hR hR.isWordChar_eq) fun run run' h => ?_
  obtain ⟨word, column⟩ := run
  obtain ⟨word', column'⟩ := run'
  obtain ⟨-, hword, hcolumn⟩ := h
  have hkind := hR.wordKind_eq hword
  rw [String.ofList_toList, String.ofList_toList] at hkind
  dsimp only
  rw [hkind]
  exact .token _ hcolumn (.inr ⟨hword, .inr (.inr ⟨hkind, rfl⟩)⟩)

theorem readNumber (hR : Indistinct R) :
    Walks R lines chars (Token.Beside R lines) readNumber readNumber := by
  refine .bind (.takeRun hR hR.isDigit_eq) fun run run' ⟨hdigits, hsame, hcolumn⟩ => ?_
  have heq : ∀ {cs cs' : List Char}, List.Forall₂ R cs cs' → (∀ c ∈ cs, Text.isDigit c) →
      cs = cs' := by
    intro cs cs' h
    induction h with
    | nil => exact fun _ => rfl
    | cons hc _ ih =>
      intro hdigits
      obtain ⟨hfirst, hrest⟩ := List.forall_mem_cons.1 hdigits
      rw [(hR.eq_or_letter hc).resolve_right fun h => h.2 hfirst, ih hrest]
  exact .token _ hcolumn (.inl (String.toList_inj.1 (heq hsame hdigits)))

theorem readString (hR : Indistinct R) :
    Walks R lines chars (Token.Beside R lines) readString readString := by
  refine .bind .get fun start start' hstart => .bind (.takeChar hR) fun _ _ _ => ?_
  intro cur cur' hcur
  have hreaches : cur.Reaches (stringBody [] cur cur.rest).2 := reaches_stringBody rfl
  have hanswers := answers_stringBody hR .nil hcur.rest hcur
  change cur.Reaches ((do
      set (stringBody [] cur cur.rest).2
      Cursor.token .string (← (stringBody [] cur cur.rest).1) start.column : Reader Token) cur).2 ∧
    Answers R lines chars (Token.Beside R lines) ((do
      set (stringBody [] cur cur.rest).2
      Cursor.token .string (← (stringBody [] cur cur.rest).1) start.column : Reader Token) cur)
      ((do
      set (stringBody [] cur' cur'.rest).2
      Cursor.token .string (← (stringBody [] cur' cur'.rest).1) start'.column : Reader Token) cur')
  generalize stringBody [] cur cur.rest = result at hreaches hanswers
  generalize stringBody [] cur' cur'.rest = result' at hanswers
  cases hanswers with
  | ok hvalue hmid =>
    exact ⟨hreaches, (token .string hstart.column_eq (.inr ⟨hvalue, .inl rfl⟩) hmid).2⟩
  | error e hmid => exact ⟨hreaches, .error e hmid⟩

theorem readChar (hR : Indistinct R) :
    Walks R lines chars (Token.Beside R lines) readChar readChar := by
  refine .bind .get fun start start' hstart => .bind (.takeChar hR) fun _ _ _ => ?_
  refine .bind (.takeChar hR) fun o o' ho => ?_
  cases ho with
  | none => exact .fail _
  | @some c c' hc =>
    refine .bind .get fun mid mid' hmid =>
      .ite (hR.head?_iff hmid.rest (by decide)) (fun _ => .bind (.takeChar hR) fun _ _ _ => ?_) ?_
    · refine .token _ hstart.column_eq (.inr ⟨?_, .inr (.inl rfl)⟩)
      simpa using hc
    · rw [hstart.column_eq]
      exact fun _ => .fail _

theorem signToken (kind : TokenKind) (value : String) :
    Walks R lines chars (Token.Beside R lines) (signToken kind value) (signToken kind value) :=
  .bind .get fun _ _ h => .token _ h.column_eq (.inl rfl)

theorem readPair (hR : Indistinct R) {second : Char} (hsecond : Text.isLetter second = false)
    (short long : TokenKind) (shortText longText : String) :
    Walks R lines chars (Token.Beside R lines) (readPair second short long shortText longText)
      (readPair second short long shortText longText) := by
  refine .bind (.takeChar hR) fun _ _ _ => .bind .get fun cur cur' hcur => ?_
  have hrest := hcur.rest
  generalize cur.rest = cs at hrest
  generalize cur'.rest = cs' at hrest
  cases hrest with
  | nil => exact .pastEnd
  | cons hc _ =>
    exact .ite (hR.eq_iff hc hsecond) (fun _ => .bind (.takeChar hR) fun _ _ _ => .signToken _ _)
      fun _ => .signToken _ _

theorem readDots (hR : Indistinct R) :
    Walks R lines chars (Token.Beside R lines) readDots readDots := by
  refine .bind .get fun _ _ hstart => .bind (.takeChar hR) fun _ _ _ => ?_
  refine .bind .get fun _ _ hcur => ?_
  exact .ite (hR.head?_iff hcur.rest (by decide))
    (fun _ => .bind (.takeChar hR) fun _ _ _ => .token _ hstart.column_eq (.inl rfl))
    fun _ => .token _ hstart.column_eq (.inl rfl)

theorem readSign (hR : Indistinct R) :
    Walks R lines chars (Option.Rel (Token.Beside R lines)) readSign readSign := by
  rw [readSign_eq]
  refine .bind .get fun cur cur' hcur => ?_
  have hrest := hcur.rest
  generalize cur.rest = cs at hrest
  generalize cur'.rest = cs' at hrest
  cases hrest with
  | nil => exact .pastEnd
  | @cons c c' _ _ hc _ =>
    refine .ite (hR.eq_iff (d := '.') hc (by decide)) (fun _ => (readDots hR).some) fun _ => ?_
    refine .ite (hR.eq_iff (d := ':') hc (by decide))
      (fun _ => (readPair hR (by decide) _ _ _ _).some) fun _ => ?_
    refine .ite (hR.eq_iff (d := '<') hc (by decide))
      (fun _ => (readPair hR (by decide) _ _ _ _).some) fun _ => ?_
    obtain rfl | ⟨hletter, -⟩ := hR.eq_or_letter hc
    · split
      · exact .pure .none
      · exact .bind (.takeChar hR) fun _ _ _ => (signToken _ _).some
    · rw [signKind?_of_isLetter hletter, signKind?_of_isLetter (hR.isLetter_eq hc ▸ hletter)]
      exact .pure .none

theorem readToken (hR : Indistinct R) {c c' : Char} (hc : R c c') :
    Walks R lines chars (Option.Rel (Token.Beside R lines)) (readToken c) (readToken c') := by
  refine .ite (by rw [hR.isBlank_eq hc]) (fun _ => .bind (skipBlanks hR) fun _ _ _ => .pure .none)
    fun _ => .ite (hR.eq_iff hc (by decide)) (fun _ => (readString hR).some)
    fun _ => .ite (hR.eq_iff hc (by decide)) (fun _ => (readChar hR).some)
    fun _ => .ite (by rw [hR.isDigit_eq hc]) (fun _ => (readNumber hR).some)
    fun _ => .ite (by rw [hR.isLetter_eq hc]) (fun _ => (readWord hR).some)
    fun hletter => .bind (readSign hR) fun o o' ho => ?_
  cases ho with
  | none =>
    obtain rfl := (hR.eq_or_letter hc).resolve_right fun h => hletter h.1
    exact .fail _
  | some ht => exact .pure (.some ht)

/-- Behind other tokens, the tokens of a text are those that are read alone, further down. -/
theorem readTokens (hR : Indistinct R) (others : List Token) : ∀ (fuel : Nat)
    {seen seen' : List Token}, List.Forall₂ (Token.Beside R lines) seen seen' →
    Walks R lines chars (fun ts ts' => ∃ us, ts' = others.reverse ++ us ∧
        List.Forall₂ (Token.Beside R lines) ts us)
      (readTokens seen fuel) (readTokens (seen' ++ others) fuel)
  | 0, _, _, h => .pure ⟨_, List.reverse_append, List.rel_reverse h⟩
  | fuel + 1, seen, seen', h => by
    refine .bind .get fun cur cur' hcur => ?_
    have hrest := hcur.rest
    generalize cur.rest = cs at hrest
    generalize cur'.rest = cs' at hrest
    cases hrest with
    | nil =>
      refine .bind .get fun last last' hlast => .pure ?_
      have hline : (last'.line : Int) = last.line + lines := by rw [hlast.line_eq, Int.natCast_add]
      rw [← List.cons_append, List.reverse_append]
      exact ⟨_, rfl, List.rel_reverse
        (.cons ⟨rfl, hline, congrArg Nat.cast hlast.column_eq, .inl rfl⟩ h)⟩
    | cons hc _ =>
      refine .bind (.readToken hR hc) fun o o' ho => ?_
      cases ho with
      | none => exact readTokens hR others fuel h
      | some ht => exact readTokens hR others fuel (.cons ht h)

end Walks

end Cursor

end MiniPascal
