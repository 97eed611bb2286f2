import MiniPascal.Proofs.Spelling
import Mathlib.Data.List.Chain

/-!
# Steps of Parsers

How the steps that productions are made of act on tokens.
-/

namespace MiniPascal

/-- The kind of the first token; past the last one stands an end mark. -/
def kindOf : List Token → TokenKind
  | [] => .eof
  | t :: _ => t.kind

@[simp]
theorem kindOf_cons (t : Token) (ts : List Token) : kindOf (t :: ts) = t.kind := rfl

namespace Parse

variable {α β : Type}

/-- From the tokens `ts` the parser takes all but `rest` and gives `a`. -/
def Gives (p : Parse α) (ts : List Token) (a : α) (rest : List Token) : Prop :=
  p ts = (.ok a, rest)

variable {ts rest : List Token} {wanted : TokenKind} {p : Parse α} {mid : List Token}
  {f : α → Parse β} {a : α} {b : β}

/-- After a first step the second one goes on where it ended. -/
theorem Gives.bind_eq (hp : Gives p ts a mid) (f : α → Parse β) : (p >>= f) ts = f a mid := by
  change ExceptT.bindCont f (p ts).1 (p ts).2 = f a mid
  rw [hp]
  rfl

theorem Gives.run_eq (hp : Gives p ts a rest) : p.run ts = .ok (a, rest) := by
  rw [run, hp]

theorem gives_of_run (h : p.run ts = .ok (a, rest)) : Gives p ts a rest := by
  unfold run at h
  split at h
  next heq =>
    obtain ⟨rfl, rfl⟩ := Prod.mk.inj (Except.ok.inj h)
    exact heq
  next => exact absurd h nofun

theorem Gives.bind (hp : Gives p ts a mid) (hf : Gives (f a) mid b rest) :
    Gives (p >>= f) ts b rest :=
  (hp.bind_eq f).trans hf

theorem Gives.map {f : α → β} (hp : Gives p ts a rest) :
    Gives (f <$> p) ts (f a) rest := by
  exact hp.bind rfl

theorem Gives.pure (a : α) (ts : List Token) : Gives (Pure.pure a) ts a ts := rfl

theorem gives_get (ts : List Token) : Gives get ts ts ts := rfl

theorem gives_next (ts : List Token) : Gives next ts ts.head? ts := rfl

theorem gives_kind (ts : List Token) : Gives kind ts (kindOf ts) ts := by
  cases ts <;> rfl

theorem gives_atAny (kinds : List TokenKind) (ts : List Token) :
    Gives (atAny kinds) ts (kinds.contains (kindOf ts)) ts :=
  (gives_kind ts).bind (.pure _ ts)

theorem gives_at? (wanted : TokenKind) (ts : List Token) :
    Gives (at? wanted) ts (kindOf ts == wanted) ts :=
  (gives_kind ts).bind (.pure _ ts)

theorem gives_takeAny (t : Token) (ts : List Token) : Gives takeAny (t :: ts) t.value ts := rfl

theorem gives_take {t : Token} (ts : List Token) (h : t.kind = wanted) :
    Gives (take wanted) (t :: ts) t.value ts := by
  refine (gives_kind _).bind ?_
  rw [kindOf_cons, if_pos h]
  exact gives_takeAny t ts

theorem gives_skip {t : Token} (ts : List Token) (h : t.kind = wanted) :
    Gives (skip wanted) (t :: ts) true ts := by
  refine (gives_at? _ _).bind ?_
  rw [kindOf_cons, h, beq_self_eq_true]
  exact (gives_takeAny t ts).bind (.pure _ _)

/-- A token of another kind stays. -/
theorem gives_skip_of_ne (h : kindOf ts ≠ wanted) : Gives (skip wanted) ts false ts := by
  refine (gives_at? _ _).bind ?_
  rw [beq_eq_false_iff_ne.2 h]
  exact .pure _ _

/-- A run of two steps is a run of the first followed by one of the second. -/
theorem gives_bind :
    Gives (p >>= f) ts b rest ↔ ∃ a mid, Gives p ts a mid ∧ Gives (f a) mid b rest :=
  runs_bind

theorem gives_pure {b : α} : Gives (pure a) ts b rest ↔ a = b ∧ ts = rest :=
  runs_pure

theorem gives_bind_pure {f : α → β} :
    Gives (p >>= fun a => pure (f a)) ts b rest ↔ ∃ a, Gives p ts a rest ∧ f a = b :=
  runs_bind_pure

/-- Looking at the next token takes nothing. -/
theorem gives_kind_bind {f : TokenKind → Parse β} :
    Gives (kind >>= f) ts b rest ↔ Gives (f (kindOf ts)) ts b rest := by
  unfold Gives
  rw [(gives_kind ts).bind_eq]

theorem not_gives_throw {e : ParseError} : ¬Gives (throw e) ts a rest :=
  not_runs_throw

theorem not_gives_reject {cause : ParseCause} : ¬Gives (reject cause) ts a rest := by
  cases ts <;> exact nofun

theorem gives_take_iff {wanted : TokenKind} (hwanted : wanted ≠ .eof) {value : String} :
    Gives (take wanted) ts value rest ↔
      ∃ t, ts = t :: rest ∧ t.kind = wanted ∧ t.value = value := by
  constructor
  · intro h
    unfold take at h
    rw [gives_kind_bind] at h
    split at h
    next hkind =>
      cases ts with
      | nil => exact absurd hkind.symm hwanted
      | cons t ts =>
        have htail : Gives (pure t.value) ts value rest := h
        obtain ⟨rfl, rfl⟩ := gives_pure.1 htail
        exact ⟨t, rfl, hkind, rfl⟩
    next => exact absurd h not_gives_reject
  · rintro ⟨t, rfl, hkind, rfl⟩
    exact gives_take rest hkind

/-- A choice whose condition is known to hold. -/
theorem Gives.ite_pos {c : Prop} [Decidable c] {q : Parse α} (hc : c) (h : Gives p ts a rest) :
    Gives (if c then p else q) ts a rest := by
  rwa [if_pos hc]

/-- A choice whose condition is known to fail. -/
theorem Gives.ite_neg {c : Prop} [Decidable c] {q : Parse α} (hc : ¬c) (h : Gives q ts a rest) :
    Gives (if c then p else q) ts a rest := by
  rwa [if_neg hc]

end Parse

/-! ### Numbers -/

namespace Text

theorem decimalValue?_digitChar : ∀ d < 10, decimalValue? (Nat.digitChar d) = some d := by
  decide

/-- Reading the digits of a number gives the number. -/
theorem foldlM_toDigits (n : Nat) :
    (Nat.toDigits 10 n).foldlM (fun m c => (decimalValue? c).map (m * 10 + ·)) 0 = some n := by
  induction n using Nat.strongRecOn with
  | ind n ih =>
    by_cases h : n < 10
    · rw [Nat.toDigits_of_lt_base h]
      simp [decimalValue?_digitChar n h]
    · have hlast := decimalValue?_digitChar (n % 10) (by omega)
      rw [Nat.toDigits_of_base_le (by omega) (by omega), List.foldlM_append, ih (n / 10) (by omega)]
      simp only [List.foldlM_cons, List.foldlM_nil, hlast, Option.map_some, Option.bind_eq_bind,
        Option.bind_some, Option.pure_def, Option.some.injEq]
      omega

/-- Different numbers are written differently: the digits of a number can be read. -/
theorem toString_inj {i j : Nat} (h : toString i = toString j) : i = j := by
  have hdigits : Nat.toDigits 10 i = Nat.toDigits 10 j := by
    rw [← Nat.toList_repr, ← Nat.toList_repr]
    exact congrArg String.toList h
  have hread := foldlM_toDigits i
  rw [hdigits, foldlM_toDigits j] at hread
  exact (Option.some.inj hread).symm

variable {n : Nat}

/-- The written form of a number is read back, unless it is too long. -/
theorem readNat?_toString (h : IsNumeral n) : readNat? (toString n) = some n := by
  have hdigits : (toString n).toList = Nat.toDigits 10 n := Nat.toList_repr
  have hread := foldlM_toDigits n
  rw [readNat?, if_neg (Nat.not_lt.2 h), hdigits]
  cases hd : Nat.toDigits 10 n with
  | nil => exact absurd hd Nat.toDigits_ne_nil
  | cons c cs => rw [hd] at hread; exact hread

theorem Ranges.contains_of_mem {rs : Ranges} (hrs : rs.Pairwise fun r s => r.1 ≤ s.1)
    {r : Nat × Nat} (hr : r ∈ rs) {code : Nat} (hlow : r.1 ≤ code) (hhigh : code ≤ r.2) :
    Ranges.contains code rs = true := by
  induction rs with
  | nil => exact absurd hr List.not_mem_nil
  | cons s rs ih =>
    obtain ⟨hfirst, hrest⟩ := List.pairwise_cons.1 hrs
    rw [Ranges.contains_cons]
    rcases List.mem_cons.1 hr with rfl | hr
    · rw [if_neg (by omega), if_pos hhigh]
    · have hle := hfirst r hr
      rw [if_neg (by omega), ih hrest hr]
      split <;> rfl

theorem exists_mem_of_decimalValueIn {code v : Nat} {rs : Ranges}
    (h : decimalValueIn code rs = some v) : ∃ r ∈ rs, r.1 ≤ code ∧ code ≤ r.2 := by
  induction rs with
  | nil => exact absurd h nofun
  | cons s rs ih =>
    unfold decimalValueIn at h
    split at h
    · exact absurd h nofun
    · split at h
      · exact ⟨s, List.mem_cons_self, by omega, by omega⟩
      · obtain ⟨r, hr, hcode⟩ := ih h
        exact ⟨r, List.mem_cons_of_mem s hr, hcode⟩

theorem numeralRanges_pairwise : numeralRanges.Pairwise fun r s => r.1 ≤ s.1 := by
  -- The ranges are compared with their neighbours only: all pairs would be too many to evaluate.
  have hchain : (numeralRanges.map Prod.fst).IsChain (· ≤ ·) := by decide +kernel
  exact List.pairwise_map.1 hchain.pairwise

theorem exists_numeralRange :
    ∀ r ∈ decimalRanges, ∃ s ∈ numeralRanges, s.1 ≤ r.1 ∧ r.2 ≤ s.2 := by
  decide +kernel

theorem isNumeral_of_decimalValue? {c : Char} {v : Nat} (h : decimalValue? c = some v) :
    isNumeral c = true := by
  obtain ⟨r, hr, hlow, hhigh⟩ := exists_mem_of_decimalValueIn h
  obtain ⟨s, hs, hsl, hsh⟩ := exists_numeralRange r hr
  exact Ranges.contains_of_mem numeralRanges_pairwise hs (by omega) (by omega)

theorem all_isNumeral_of_foldlM {cs : List Char} {m : Nat}
    (h : cs.foldlM (fun k c => (decimalValue? c).map (k * 10 + ·)) m = some n) :
    cs.all isNumeral = true := by
  induction cs generalizing m with
  | nil => rfl
  | cons c cs ih =>
    obtain ⟨k, hk, hcs⟩ := Option.bind_eq_some_iff.1 h
    obtain ⟨v, hv, -⟩ := Option.map_eq_some_iff.1 hk
    rw [List.all_cons, isNumeral_of_decimalValue? hv, ih hcs]
    rfl

/-- A text that denotes a number is not empty and consists of numerals. -/
theorem all_isNumeral_of_readNat? {s : String} (h : readNat? s = some n) :
    s.isEmpty = false ∧ s.toList.all isNumeral = true := by
  unfold readNat? at h
  split at h
  · exact absurd h nofun
  · cases hs : s.toList with
    | nil =>
      rw [hs] at h
      exact absurd h nofun
    | cons c cs =>
      rw [hs] at h
      refine ⟨?_, all_isNumeral_of_foldlM h⟩
      rw [← Bool.not_eq_true, String.isEmpty_iff, ← String.toList_eq_nil_iff, hs]
      exact List.cons_ne_nil c cs

end Text

namespace Parse

theorem gives_takeNumber {n : Nat} {t : Token} (ts : List Token) (hk : t.kind = .number)
    (hv : Text.readNat? t.value = some n) : Gives takeNumber (t :: ts) n ts := by
  obtain ⟨hne, hall⟩ := Text.all_isNumeral_of_readNat? hv
  refine (gives_take ts hk).bind ?_
  rw [hne, hall, hv]
  exact .pure n ts

end Parse

/-! ### Spelled lexemes -/

/-- The tokens `ts` spell the lexemes, and `rest` comes after them. -/
def Spells : List Lexeme → List Token → List Token → Prop
  | [], ts, rest => ts = rest
  | l :: ls, ts, rest => ∃ t ts', ts = t :: ts' ∧ t.lexeme = l ∧ Spells ls ts' rest

variable {ls : List Lexeme} {ts rest : List Token} {P : TokenKind → Prop} {l : Lexeme}

/-- Tokens that say the given lexemes spell them, whatever comes after. -/
theorem spells_of_map_eq (h : ts.map Token.lexeme = ls) (rest : List Token) :
    Spells ls (ts ++ rest) rest := by
  induction ts generalizing ls with
  | nil => subst h; rfl
  | cons t ts ih => subst h; exact ⟨t, ts ++ rest, rfl, rfl, ih rfl⟩

/-- A spelling of two parts is a spelling of the first followed by one of the second. -/
theorem spells_append {ms : List Lexeme} :
    Spells (ls ++ ms) ts rest ↔ ∃ mid, Spells ls ts mid ∧ Spells ms mid rest := by
  induction ls generalizing ts with
  | nil => simp [Spells]
  | cons l ls ih =>
    constructor
    · rintro ⟨t, ts', rfl, hl, h⟩
      obtain ⟨mid, h₁, h₂⟩ := ih.1 h
      exact ⟨mid, ⟨t, ts', rfl, hl, h₁⟩, h₂⟩
    · rintro ⟨mid, ⟨t, ts', rfl, hl, h₁⟩, h₂⟩
      exact ⟨t, ts', rfl, hl, ih.2 ⟨mid, h₁, h₂⟩⟩

theorem spells_cons :
    Spells (l :: ls) ts rest ↔
      ∃ t ts', ts = t :: ts' ∧ t.kind = l.1 ∧ t.value = l.2 ∧ Spells ls ts' rest := by
  simp only [Spells, Token.lexeme, Prod.ext_iff, and_assoc]

theorem spells_nil : Spells [] ts rest ↔ ts = rest := Iff.rfl

theorem kindOf_of_spells (h : Spells (l :: ls) ts rest) : kindOf ts = l.1 := by
  obtain ⟨t, ts', rfl, hk, -⟩ := spells_cons.1 h
  exact hk

def tokensAt (line column : Int) (ls : List Lexeme) : List Token :=
  ls.map fun l => ⟨l.1, l.2, line, column⟩

theorem map_lexeme_tokensAt (line column : Int) (ls : List Lexeme) :
    (tokensAt line column ls).map Token.lexeme = ls := by
  rw [tokensAt, List.map_map]
  exact List.map_id ls

/-! ### Parsers on spelled lexemes -/

/-- `P` holds of the kind of token that a spelling of the lexemes starts with, where `next` holds of
the kind that follows them. -/
def Heads (ls : List Lexeme) (next P : TokenKind → Prop) : Prop :=
  ∀ ⦃ts rest⦄, Spells ls ts rest → next (kindOf rest) → P (kindOf ts)

theorem Heads.nil {next : TokenKind → Prop} (h : ∀ k, next k → P k) : Heads [] next P := by
  rintro ts _ rfl hrest
  exact h _ hrest

theorem Heads.cons {next : TokenKind → Prop} (h : P l.1) :
    Heads (l :: ls) next P := by
  intro ts rest hts _
  rwa [kindOf_of_spells hts]

theorem Heads.mono {next Q : TokenKind → Prop} (h : Heads ls next P) (hPQ : ∀ k, P k → Q k) :
    Heads ls next Q :=
  fun _ _ hts hrest => hPQ _ (h hts hrest)

theorem Heads.next {k : TokenKind} (h : P k) : Heads [] (· = k) P :=
  .nil fun _ hk => hk ▸ h

/-- A kind of token that would have to stop the spelling does not follow it. -/
theorem Heads.stop {stop : List TokenKind} {k : TokenKind} (h : k ∈ stop) :
    Heads [] (· ∉ stop) (· ≠ k) :=
  .nil fun _ hk heq => hk (heq ▸ h)

namespace Parse

/-- The parser gives `a` from every spelling of the lexemes, where `next` holds of the kind of token
that follows them. -/
def Accepts {α : Type} (p : Parse α) (next : TokenKind → Prop) (ls : List Lexeme) (a : α) : Prop :=
  ∀ ⦃ts rest⦄, Spells ls ts rest → next (kindOf rest) → Gives p ts a rest

namespace Accepts

variable {α β : Type} {p q : Parse α} {f : α → Parse β} {next next' P : TokenKind → Prop}
  {ms : List Lexeme} {l : Lexeme} {wanted : TokenKind} {kinds : List TokenKind} {a : α} {b : β}

theorem pure : Accepts (Pure.pure a) next [] a := by
  rintro ts _ rfl _
  exact .pure a ts

theorem mono (hp : Accepts p next ls a) (h : ∀ k, next' k → next k) : Accepts p next' ls a :=
  fun _ _ hts hrest => hp hts (h _ hrest)

theorem weaken {stop stop' : List TokenKind} (hp : Accepts p (· ∉ stop) ls a)
    (h : stop ⊆ stop') : Accepts p (· ∉ stop') ls a :=
  hp.mono fun _ hk hmem => hk (h hmem)

/-- The second parser goes on with what follows the first spelling. -/
theorem bind (hp : Accepts p next ls a) (h : Heads ms next' next) (hf : Accepts (f a) next' ms b) :
    Accepts (p >>= f) next' (ls ++ ms) b := by
  intro ts rest hts hrest
  obtain ⟨mid, hfirst, hts⟩ := spells_append.1 hts
  exact (hp hfirst (h hts hrest)).bind (hf hts hrest)

/-- The second parser takes nothing. -/
theorem last (hp : Accepts p next ls a) (hf : Accepts (f a) next [] b) :
    Accepts (p >>= f) next ls b :=
  fun _ _ hts hrest => (hp hts hrest).bind (hf rfl hrest)

theorem give {g : α → β} (hp : Accepts p next ls a) :
    Accepts (p >>= fun a => Pure.pure (g a)) next ls (g a) :=
  hp.last pure

theorem pure_bind (hf : Accepts (f a) next ls b) : Accepts (Pure.pure a >>= f) next ls b :=
  fun ts _ hts hrest => (Gives.pure a ts).bind (hf hts hrest)

theorem map {g : α → β} (hp : Accepts p next ls a) : Accepts (g <$> p) next ls (g a) :=
  fun _ _ hts hrest => (hp hts hrest).map

theorem ite_pos {c : Prop} [Decidable c] (hc : c) (h : Accepts p next ls a) :
    Accepts (if c then p else q) next ls a := by
  rwa [if_pos hc]

theorem ite_neg {c : Prop} [Decidable c] (hc : ¬c) (h : Accepts q next ls a) :
    Accepts (if c then p else q) next ls a := by
  rwa [if_neg hc]

/-- The first parser only looks at the next token. -/
theorem look (hp : ∀ ts, P (kindOf ts) → Gives p ts a ts) (h : Heads ls next P)
    (hf : Accepts (f a) next ls b) : Accepts (p >>= f) next ls b :=
  fun ts _ hts hrest => (hp ts (h hts hrest)).bind (hf hts hrest)

theorem kind {f : TokenKind → Parse β} (k : TokenKind) (h : Heads ls next (· = k))
    (hf : Accepts (f k) next ls b) : Accepts (Parse.kind >>= f) next ls b :=
  look (fun ts hk => hk ▸ gives_kind ts) h hf

section Choice

variable {f : Bool → Parse β}

theorem at?_pos (h : Heads ls next (· = wanted)) (hf : Accepts (f true) next ls b) :
    Accepts (at? wanted >>= f) next ls b :=
  look (fun ts hk => beq_iff_eq.2 hk ▸ gives_at? wanted ts) h hf

theorem at?_neg (h : Heads ls next (· ≠ wanted)) (hf : Accepts (f false) next ls b) :
    Accepts (at? wanted >>= f) next ls b :=
  look (fun ts hk => beq_eq_false_iff_ne.2 hk ▸ gives_at? wanted ts) h hf

theorem atAny_pos (h : Heads ls next (· ∈ kinds)) (hf : Accepts (f true) next ls b) :
    Accepts (atAny kinds >>= f) next ls b :=
  look (fun ts hk => List.contains_iff_mem.2 hk ▸ gives_atAny kinds ts) h hf

theorem atAny_neg (h : Heads ls next (· ∉ kinds)) (hf : Accepts (f false) next ls b) :
    Accepts (atAny kinds >>= f) next ls b := by
  refine look (fun ts hk => ?_) h hf
  exact Bool.eq_false_iff.2 (mt List.contains_iff_mem.1 hk) ▸ gives_atAny kinds ts

theorem skip_neg (h : Heads ls next (· ≠ wanted)) (hf : Accepts (f false) next ls b) :
    Accepts (Parse.skip wanted >>= f) next ls b :=
  look (fun _ => gives_skip_of_ne) h hf

theorem skip (h : l.1 = wanted) (hf : Accepts (f true) next ls b) :
    Accepts (Parse.skip wanted >>= f) next (l :: ls) b := by
  intro ts rest hts hrest
  obtain ⟨t, ts, rfl, hk, -, hts⟩ := spells_cons.1 hts
  exact (gives_skip ts (hk.trans h)).bind (hf hts hrest)

end Choice

section Tokens

variable {f : String → Parse β}

theorem take (h : l.1 = wanted) (hf : Accepts (f l.2) next ls b) :
    Accepts (Parse.take wanted >>= f) next (l :: ls) b := by
  intro ts rest hts hrest
  obtain ⟨t, ts, rfl, hk, hv, hts⟩ := spells_cons.1 hts
  exact (gives_take ts (hk.trans h)).bind (hv ▸ hf hts hrest)

theorem takeAny (hf : Accepts (f l.2) next ls b) :
    Accepts (Parse.takeAny >>= f) next (l :: ls) b := by
  intro ts rest hts hrest
  obtain ⟨t, ts, rfl, -, hv, hts⟩ := spells_cons.1 hts
  exact (gives_takeAny t ts).bind (hv ▸ hf hts hrest)

theorem takeNumber {f : Nat → Parse β} {written : String} {n : Nat}
    (h : Text.readNat? written = some n) (hf : Accepts (f n) next ls b) :
    Accepts (Parse.takeNumber >>= f) next ((.number, written) :: ls) b := by
  intro ts rest hts hrest
  obtain ⟨t, ts, rfl, hk, (hv : t.value = written), hts⟩ := spells_cons.1 hts
  exact (gives_takeNumber ts hk (hv ▸ h)).bind (hf hts hrest)

end Tokens

end Accepts

end Parse

/-- Given fuel for the lexemes, a production gives `a` from every spelling of them that a token of a
kind in `next` follows. -/
def Reads {α : Type} (p : Nat → Parse α) (c : Nat) (next : TokenKind → Prop) (ls : List Lexeme)
    (a : α) : Prop :=
  ∀ fuel, 8 * ls.length + c ≤ fuel → Parse.Accepts (p fuel) next ls a

/-- Fuel for the lexemes is fuel for one step. -/
theorem Reads.succ {α : Type} {p : Nat → Parse α} {c : Nat} {next : TokenKind → Prop} {a : α}
    (h : ∀ fuel, 8 * ls.length + c ≤ fuel → Parse.Accepts (p (fuel + 1)) next ls a) :
    Reads p (c + 1) next ls a := by
  intro fuel hfuel
  obtain ⟨fuel, rfl⟩ : ∃ f, fuel = f + 1 := ⟨fuel - 1, by omega⟩
  exact h fuel (by omega)

/-- Given fuel for the lexemes, a production gives `a` from every spelling of them, unless a token
of a kind in `stop` follows. -/
abbrev Parses {α : Type} (p : Nat → Parse α) (c : Nat) (stop : List TokenKind) (ls : List Lexeme)
    (a : α) : Prop :=
  Reads p c (· ∉ stop) ls a

end MiniPascal
