import MiniPascal.Proofs.Lexing.Joining

/-!
# Plain Texts

The case mappings are long tables, which makes the kind of a word costly to evaluate. A word of
ASCII characters does not need them: the cases of its characters are found one by one. So the tokens
of a plain text can be found in a simpler way, which is quick to evaluate.
-/

namespace MiniPascal

namespace Text

/-- Whether `c` is an ASCII character. -/
def isAscii (c : Char) : Bool := c.toNat < 128

variable {c : Char} {word : List Char}

theorem forall_isAscii {p : Char → Prop} (h : ∀ n < 128, p (Char.ofNat n)) (hc : isAscii c) :
    p c := by
  rw [← Char.ofNat_toNat c]
  exact h c.toNat (of_decide_eq_true hc)

theorem mapCase_upper (hc : isAscii c) : mapCase upperRuns upperExpansions c = [c.toUpper] :=
  forall_isAscii (p := fun c => mapCase upperRuns upperExpansions c = [c.toUpper])
    (by decide +kernel) hc

theorem mapCase_lower (hc : isAscii c) : mapCase lowerRuns lowerExpansions c = [c.toLower] :=
  forall_isAscii (p := fun c => mapCase lowerRuns lowerExpansions c = [c.toLower])
    (by decide +kernel) hc

theorem toUpper_ofList (h : ∀ c ∈ word, isAscii c) :
    toUpper (String.ofList word) = String.ofList (word.map Char.toUpper) := by
  have hchars : word.flatMap (mapCase upperRuns upperExpansions) = word.map Char.toUpper := by
    induction word with
    | nil => rfl
    | cons c word ih =>
      obtain ⟨hc, hword⟩ := List.forall_mem_cons.1 h
      rw [List.flatMap_cons, mapCase_upper hc, ih hword]
      rfl
  rw [toUpper, String.toList_ofList, hchars]

theorem lowerAfter_eq_map (h : ∀ c ∈ word, isAscii c) (before : List Char) :
    lowerAfter before word = word.map Char.toLower := by
  induction word generalizing before with
  | nil => rfl
  | cons c word ih =>
    obtain ⟨hc, hword⟩ := List.forall_mem_cons.1 h
    have hsigma : c ≠ 'Σ' := by
      rintro rfl
      exact absurd hc (by decide)
    rw [lowerAfter, if_neg fun hfinal => hsigma hfinal.1, mapCase_lower hc, ih hword]
    rfl

theorem toLower_ofList (h : ∀ c ∈ word, isAscii c) :
    toLower (String.ofList word) = String.ofList (word.map Char.toLower) := by
  rw [toLower, String.toList_ofList, lowerAfter_eq_map h]

end Text

namespace Cursor

def plainKind (word : List Char) : TokenKind :=
  let lower := word.map Char.toLower
  if lower = "true".toList then .kwTrue
  else if lower = "false".toList then .kwFalse
  else if lower ∈ ["number".toList, "string".toList, "char".toList] then .identifier
  else (TokenKind.all.find? (·.name.toList == word.map Char.toUpper)).getD .identifier

variable {word : List Char}

theorem ofList_eq_iff {s : String} : String.ofList word = s ↔ word = s.toList := by
  constructor
  · rintro rfl
    exact String.toList_ofList.symm
  · rintro rfl
    exact String.ofList_toList

theorem wordKind_ofList (h : ∀ c ∈ word, Text.isAscii c) :
    wordKind (String.ofList word) = plainKind word := by
  have hname : (fun k : TokenKind => k.name == String.ofList (word.map Char.toUpper)) =
      fun k => k.name.toList == word.map Char.toUpper := by
    funext k
    rw [Bool.eq_iff_iff, beq_iff_eq, beq_iff_eq, eq_comm, ofList_eq_iff, eq_comm]
  rw [wordKind, plainKind, Text.toLower_ofList h, Text.toUpper_ofList h, TokenKind.ofName?, hname]
  simp only [ofList_eq_iff, List.mem_cons, List.not_mem_nil, or_false]

end Cursor

/-! ### Tokens -/

/-- A token without its place. -/
def Token.unplaced (kind : TokenKind) (value : List Char) : Token :=
  ⟨kind, String.ofList value, 0, 0⟩

def pairKind? : Char → Char → Option TokenKind
  | '.', '.' => some .twoDots
  | ':', '=' => some .assign
  | '<', '>' => some .neq
  | _, _ => none

def soleKind? : Char → Option TokenKind
  | '.' => some .dot
  | ':' => some .colon
  | '<' => some .lt
  | c => Cursor.signKind? c

/-- The sign that starts with `c`, with what is left of the text. -/
def plainSign (c : Char) (text : List Char) : Option (Token × List Char) :=
  match text.head?.bind (pairKind? c) with
  | some kind => some (.unplaced kind (c :: text.take 1), text.tail)
  | none => (soleKind? c).map fun kind => (.unplaced kind [c], text)

/-- Whether `c` stands for itself inside a string literal. -/
def isStringChar (c : Char) : Bool := c ≠ '"' && c ≠ '\\'

/-- The token that starts with `c`, with what is left of the text. A string literal must be closed
and have no backslash. -/
def plainToken (c : Char) (text : List Char) : Option (Token × List Char) :=
  if c = '"' then
    match text.dropWhile isStringChar with
    | '"' :: rest => some (.unplaced .string (text.takeWhile isStringChar), rest)
    | _ => none
  else if c = '\'' then
    match text with
    | d :: '\'' :: rest => some (.unplaced .char [d], rest)
    | _ => none
  else if Text.isDigit c then
    some (.unplaced .number (c :: text.takeWhile Text.isDigit), text.dropWhile Text.isDigit)
  else if Text.isLetter c then
    let word := c :: text.takeWhile Cursor.isWordChar
    if word.all Text.isAscii then
      some (.unplaced (Cursor.plainKind word) word, text.dropWhile Cursor.isWordChar)
    else none
  else plainSign c text

/-- The tokens of a plain text, without the places where they stand. -/
def plainTokens : Nat → List Char → Option (List Token)
  | 0, _ => none
  | _ + 1, [] => some []
  | fuel + 1, c :: text =>
    if Text.isBlank c then plainTokens fuel text
    else do
      let (t, rest) ← plainToken c text
      return t :: (← plainTokens fuel rest)

theorem isStringInside_takeWhile (text : List Char) :
    IsStringInside (text.takeWhile isStringChar) ∧
      unescape (text.takeWhile isStringChar) = text.takeWhile isStringChar := by
  induction text with
  | nil => exact ⟨.nil, rfl⟩
  | cons c text ih =>
    rw [List.takeWhile_cons]
    split
    next hc =>
      obtain ⟨hquote, hescape⟩ : c ≠ '"' ∧ c ≠ '\\' := by simpa [isStringChar] using hc
      exact ⟨.plain hquote hescape ih.1, by rw [unescape_cons hescape, ih.2]⟩
    next => exact ⟨.nil, rfl⟩

variable {kind : TokenKind} {text rest : List Char} {c : Char}

theorem pairKind?_mem {d : Char} (h : pairKind? c d = some kind) :
    (String.ofList [c, d], kind) ∈ signs := by
  unfold pairKind? at h
  split at h
  all_goals simp only [Option.some.injEq, reduceCtorEq] at h
  all_goals exact h ▸ by decide

theorem pairKind?_none {d : Char} (h : pairKind? c d = none) :
    String.ofList [c, d] ∉ signs.map Prod.fst := by
  intro hpair
  rcases pair_mem_signs.1 hpair with ⟨rfl, rfl⟩ | ⟨rfl, rfl⟩ | ⟨rfl, rfl⟩
  all_goals exact absurd h (by decide)

theorem soleKind?_mem (h : soleKind? c = some kind) :
    (String.ofList [c], kind) ∈ signs := by
  unfold soleKind? at h
  split at h
  · exact Option.some.inj h ▸ by decide
  · exact Option.some.inj h ▸ by decide
  · exact Option.some.inj h ▸ by decide
  · exact (signKind?_sign h).1

/-- A sign is the longest one that starts where it does. -/
theorem plainSign_spec {t : Token} (hc : ¬Text.isDigit c ∧ ¬Text.isLetter c ∧ c ≠ '"' ∧ c ≠ '\'')
    (h : plainSign c text = some (t, rest)) :
    ∃ lexeme, c :: text = lexeme ++ rest ∧ t.FromLexeme lexeme rest := by
  obtain ⟨hdigit, hletter, hquote, hchar⟩ := hc
  have hsign : ∀ {kind : TokenKind} {cs : List Char}, (String.ofList (c :: cs), kind) ∈ signs →
      (∀ d ∈ rest.head?, String.ofList (c :: cs ++ [d]) ∉ signs.map Prod.fst) →
      (Token.unplaced kind (c :: cs)).FromLexeme (c :: cs) rest := by
    intro kind cs hmem hlongest
    rw [Token.fromLexeme_cons hquote hchar, if_neg hdigit, if_neg hletter]
    exact ⟨rfl, hmem, hlongest⟩
  unfold plainSign at h
  split at h
  next kind hpair =>
    obtain ⟨rfl, rfl⟩ := Prod.ext_iff.1 (Option.some.inj h)
    obtain ⟨d, hd, hkind⟩ := Option.bind_eq_some_iff.1 hpair
    obtain ⟨rest, rfl⟩ := List.head?_eq_some_iff.1 hd
    exact ⟨[c, d], rfl, hsign (pairKind?_mem hkind) fun _ _ => long_notMem_signs⟩
  next hpair =>
    obtain ⟨kind, hkind, h⟩ := Option.map_eq_some_iff.1 h
    obtain ⟨rfl, rfl⟩ := Prod.ext_iff.1 h
    refine ⟨[c], rfl, hsign (soleKind?_mem hkind) fun d hd => pairKind?_none ?_⟩
    rwa [Option.mem_def.1 hd] at hpair

theorem plainToken_spec {t : Token} (h : plainToken c text = some (t, rest)) :
    ∃ lexeme, c :: text = lexeme ++ rest ∧ t.FromLexeme lexeme rest := by
  unfold plainToken at h
  split at h
  next hquote =>
    subst hquote
    split at h
    next rest' hrest =>
      obtain ⟨rfl, rfl⟩ := Prod.ext_iff.1 (Option.some.inj h)
      obtain ⟨hinside, hplain⟩ := isStringInside_takeWhile text
      refine ⟨'"' :: (text.takeWhile isStringChar ++ ['"']), ?_, rfl, _, hinside, ?_, .inl rfl⟩
      · have hsplit := List.takeWhile_append_dropWhile (p := isStringChar) (l := text)
        rw [hrest] at hsplit
        simpa using hsplit.symm
      · rw [hplain]
        rfl
    next => exact absurd h nofun
  split at h
  next hquote hchar =>
    subst hchar
    split at h
    next d rest' =>
      obtain ⟨rfl, rfl⟩ := Prod.ext_iff.1 (Option.some.inj h)
      exact ⟨['\'', d, '\''], rfl, rfl, d, rfl, rfl⟩
    next => exact absurd h nofun
  split at h
  next hquote hchar hdigit =>
    obtain ⟨rfl, rfl⟩ := Prod.ext_iff.1 (Option.some.inj h)
    refine ⟨c :: text.takeWhile Text.isDigit, ?_, ?_⟩
    · rw [List.cons_append, List.takeWhile_append_dropWhile]
    · rw [Token.fromLexeme_cons hquote hchar, if_pos hdigit]
      refine ⟨rfl, rfl, List.forall_mem_cons.2 ⟨hdigit, ?_⟩, head?_dropWhile_not _ _⟩
      exact List.all_eq_true.1 List.all_takeWhile
  split at h
  next hquote hchar hdigit hletter =>
    dsimp only at h
    split at h
    next hplain =>
      obtain ⟨rfl, rfl⟩ := Prod.ext_iff.1 (Option.some.inj h)
      refine ⟨c :: text.takeWhile Cursor.isWordChar, ?_, ?_⟩
      · rw [List.cons_append, List.takeWhile_append_dropWhile]
      · rw [Token.fromLexeme_cons hquote hchar, if_neg hdigit, if_pos hletter]
        have hword : Cursor.isWordChar c := by rw [Cursor.isWordChar, hletter, Bool.true_or]
        have hkind := Cursor.wordKind_ofList (List.all_eq_true.1 hplain)
        refine ⟨rfl, hkind.symm, List.forall_mem_cons.2 ⟨hword, ?_⟩, head?_dropWhile_not _ _⟩
        exact List.all_eq_true.1 List.all_takeWhile
    next => exact absurd h nofun
  next hquote hchar hdigit hletter =>
    exact plainSign_spec ⟨hdigit, hletter, hquote, hchar⟩ h

theorem segments_of_plainTokens : ∀ (fuel : Nat) {text : List Char} {ts : List Token},
    plainTokens fuel text = some ts → Segments text ts
  | 0, _, _, h => absurd h nofun
  | _ + 1, [], _, h => by
    obtain rfl := Option.some.inj h
    exact .last (List.forall_mem_nil _)
  | fuel + 1, c :: text, ts, h => by
    have hnone : ∀ d ∈ ([] : List Char), Text.isBlank d := List.forall_mem_nil _
    rw [plainTokens] at h
    split at h
    next hblank =>
      exact (segments_of_plainTokens fuel h).append_gap (List.forall_mem_singleton.2 hblank)
    next =>
      obtain ⟨⟨t, rest⟩, htoken, h⟩ := Option.bind_eq_some_iff.1 h
      obtain ⟨ts, hts, h⟩ := Option.bind_eq_some_iff.1 h
      obtain rfl := Option.some.inj h
      obtain ⟨lexeme, heq, ht⟩ := plainToken_spec htoken
      rw [heq]
      exact @Segments.next [] _ _ _ _ hnone ht (segments_of_plainTokens fuel hts)

end MiniPascal
