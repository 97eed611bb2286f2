import MiniPascal.Proofs.Parsing.Rewording
import MiniPascal.Proofs.Vocabulary
import MiniPascal.Syntax.Production

/-!
# Parsers Come to an End

Whatever the tokens are, a production gives a result or rejects them, and it leaves an end of them
either way. Its fuel is never used up: every round of a loop and every level of nesting takes a
token. The one thing asked of the tokens is that their numbers can be read.

The texts in what a production gives are texts of the tokens: names are those of identifiers, values
those of string and character literals, and operators those of operator signs and words. So whatever
is known about the texts of such tokens holds for the texts in the result. This does not depend on
the fuel, which is why some of it may be missing.

A second run may go beside the first: on tokens with other words or with more tokens behind them,
and with more fuel. It gives the same up to the words.

* `Grammar.ends_expressions`, `Grammar.ends_statements`, `Grammar.ends_constValues`,
  `Grammar.ends_types`, `Grammar.ends_blocks`: the productions that nest, by induction on the fuel;
* `Production.ends`: every production, from every position in a list of tokens.
-/

namespace MiniPascal

/-- If the token is a number that is written in numerals, these are at most 4300 of the digits from
0 to 9. -/
def Token.IsReadable (t : Token) : Prop :=
  t.kind = .number → t.value.isEmpty = false → t.value.toList.all Text.isNumeral →
    t.value.toList.all Char.isDigit ∧ t.value.length ≤ 4300

/-- The token keeps to the vocabulary and, unless fuel is missing, it can be read. -/
structure Token.IsUsable (V : Vocabulary) (missing : Nat) (t : Token) : Prop where
  admits : V.Admits t
  isReadable : missing = 0 → t.IsReadable

def ParseError.IsRejection (e : ParseError) : Prop :=
  ∃ cause line column, e = .rejected cause line column

namespace Text

theorem decimalValue?_of_isDigit {c : Char} (h : c.isDigit) : ∃ v, decimalValue? c = some v := by
  obtain ⟨hlow, hhigh⟩ : 0x30 ≤ c.toNat ∧ c.toNat ≤ 0x39 := by
    simpa [Char.isDigit, UInt32.le_iff_toNat_le] using h
  refine ⟨(c.toNat - 0x30) % 10, ?_⟩
  have hranges : decimalRanges = (0x30, 0x39) :: decimalRanges.tail := rfl
  rw [decimalValue?, hranges, decimalValueIn, if_neg (Nat.not_lt.2 hlow), if_pos hhigh]

theorem exists_foldlM_of_all_isDigit {cs : List Char} (h : cs.all Char.isDigit) (m : Nat) :
    ∃ n, cs.foldlM (fun k c => (decimalValue? c).map (k * 10 + ·)) m = some n := by
  induction cs generalizing m with
  | nil => exact ⟨m, rfl⟩
  | cons c cs ih =>
    rw [List.all_cons, Bool.and_eq_true] at h
    obtain ⟨v, hv⟩ := decimalValue?_of_isDigit h.1
    obtain ⟨n, hn⟩ := ih h.2 (m * 10 + v)
    refine ⟨n, ?_⟩
    rw [List.foldlM_cons, hv]
    exact hn

/-- A text of digits that is not too long denotes a number. -/
theorem exists_readNat? {s : String} (hne : s.isEmpty = false) (hdigits : s.toList.all Char.isDigit)
    (hlength : s.length ≤ 4300) : ∃ n, readNat? s = some n := by
  obtain ⟨n, hn⟩ := exists_foldlM_of_all_isDigit hdigits 0
  have hshort : ¬s.length > maxDigits := Nat.not_lt.2 hlength
  refine ⟨n, ?_⟩
  rw [readNat?, if_neg hshort]
  cases hs : s.toList with
  | nil =>
    rw [String.toList_eq_nil_iff.1 hs] at hne
    exact absurd hne (by decide)
  | cons c cs => rwa [hs] at hn

end Text

namespace Parse

/-- A run on tokens, and a second run beside it. -/
structure Setting extends Pairing where
  /-- The texts that the tokens of the first run may have. -/
  texts : Vocabulary
  /-- How much fuel may be missing in the first run. -/
  missing : Nat
  /-- How much more fuel there is in the second run. -/
  extra : Nat

variable {α β : Type} {s : Setting} {hi k : Nat} {K : TokenKind → Prop}

/-- Nothing is known about the next token. -/
def anyKind (_ : TokenKind) : Prop := True

/-- From every list of at most `hi` tokens, the first of which is of a kind in `K`, the parser `p`
takes at least `k` tokens and gives what satisfies `P`, or it fails. It leaves an end of the tokens
in both cases. Unless fuel is missing, it fails only by rejecting the tokens. Where it gives
something and leaves enough, the parser `q` of the second run gives something that `Q` relates to
it, and the tokens that are left are paired again. -/
def Setting.Ends (s : Setting) (K : TokenKind → Prop) (hi k : Nat) (p q : Parse α) (P : α → Prop)
    (Q : α → α → Prop) : Prop :=
  ∀ ⦃ts : List Token⦄, (∀ t ∈ ts, t.IsUsable s.texts s.missing) → K (kindOf ts) →
    ts.length ≤ hi → ∃ rest, rest <:+ ts ∧
      ((∃ a, Gives p ts a rest ∧ P a ∧ rest.length + k ≤ ts.length ∧
          (s.Ample rest → ∀ ⦃us : List Token⦄, s.Paired ts us →
            ∃ b left, Gives q us b left ∧ Q a b ∧ s.Paired rest left)) ∨
        ∃ e, p ts = (.error e, rest) ∧ (s.missing = 0 → e.IsRejection))

namespace Setting.Ends

variable {P P' : α → Prop} {Q : α → α → Prop} {p q : Parse α} {f g : α → Parse β} {R : β → Prop}
  {T : β → β → Prop} {u : α → β} {j : Nat}

theorem mono {K' : TokenKind → Prop} {hi' : Nat} (h : s.Ends K hi k p q P Q)
    (hK : ∀ w, K' w → K w) (hhi : hi' ≤ hi) : s.Ends K' hi' k p q P Q :=
  fun _ hts hkind hlength => h hts (hK _ hkind) (hlength.trans hhi)

/-- What ends whatever comes next ends where something is known about it. -/
theorem here (h : s.Ends anyKind hi k p q P Q) : s.Ends K hi k p q P Q :=
  h.mono (fun _ _ => trivial) le_rfl

theorem imp (h : s.Ends K hi k p q P Q) (hP : ∀ a, P a → P' a) : s.Ends K hi k p q P' Q := by
  intro ts hts hkind hhi
  obtain ⟨rest, hrest, ⟨a, ha, haP, hsecond⟩ | herror⟩ := h hts hkind hhi
  · exact ⟨rest, hrest, .inl ⟨a, ha, hP a haP, hsecond⟩⟩
  · exact ⟨rest, hrest, .inr herror⟩

/-- How many tokens are taken may be forgotten. -/
theorem any (h : s.Ends K hi k p q P Q) : s.Ends K hi 0 p q P Q := by
  intro ts hts hkind hhi
  obtain ⟨rest, hrest, ⟨a, ha, haP, hlength, hsecond⟩ | herror⟩ := h hts hkind hhi
  · exact ⟨rest, hrest, .inl ⟨a, ha, haP, by omega, hsecond⟩⟩
  · exact ⟨rest, hrest, .inr herror⟩

theorem pure {a b : α} (ha : P a) (hab : Q a b) :
    s.Ends K hi 0 (Pure.pure a) (Pure.pure b) P Q := fun ts _ _ _ =>
  ⟨ts, List.suffix_rfl, .inl ⟨a, rfl, ha, le_rfl, fun _ us hus => ⟨b, us, rfl, hab, hus⟩⟩⟩

theorem reject (cause : ParseCause) : s.Ends K hi k (reject cause) q P Q := by
  intro ts _ _ _
  refine ⟨ts, List.suffix_rfl, .inr ?_⟩
  cases ts with
  | nil | cons t ts => exact ⟨_, rfl, fun _ => ⟨cause, _, _, rfl⟩⟩

/-- A parser may be out of fuel where some is missing. -/
theorem throw {e : ParseError} (h : s.missing ≠ 0) : s.Ends K hi k (throw e) q P Q :=
  fun ts _ _ _ => ⟨ts, List.suffix_rfl, .inr ⟨e, rfl, fun hnone => absurd hnone h⟩⟩

/-- After a step that takes tokens there are fewer of them, and what it gave is known. -/
theorem bind [Std.Refl Q] (hp : s.Ends K hi j p q P Q)
    (hf : ∀ m, m + j ≤ hi → ∀ a b, P a → Q a b → s.Ends anyKind m k (f a) (g b) R T) :
    s.Ends K hi (j + k) (p >>= f) (q >>= g) R T := by
  intro ts hts hkind hhi
  obtain ⟨mid, hmid, ⟨a, ha, hP, hj, hq⟩ | ⟨e, he, hrejected⟩⟩ := hp hts hkind hhi
  · have hstep : ∀ b, Q a b → _ := fun b hb => hf _ (hj.trans hhi) a b hP hb
      (fun t ht => hts t (hmid.subset ht)) trivial le_rfl
    obtain ⟨rest, hrest, ⟨c, hc, hR, hk, -⟩ | ⟨e, he, hrejected⟩⟩ := hstep a (Std.Refl.refl a)
    · refine ⟨rest, hrest.trans hmid, .inl ⟨c, ha.bind hc, hR, by omega, fun hample us hus => ?_⟩⟩
      -- Enough was left by the first step, of whose tokens the second one leaves an end.
      obtain ⟨b, left, hb, hab, hleft⟩ := hq (s.ample_of_suffix hrest hample) hus
      obtain ⟨rest', -, ⟨c', hc', -, -, hg⟩ | ⟨e, he, -⟩⟩ := hstep b hab
      · obtain ⟨hok, rfl⟩ := Prod.mk.inj (hc.symm.trans hc')
        obtain rfl := Except.ok.inj hok
        obtain ⟨d, last, hd, hcd, hlast⟩ := hg hample hleft
        exact ⟨d, last, hb.bind hd, hcd, hlast⟩
      · exact absurd (congrArg Prod.fst (hc.symm.trans he)) nofun
    · exact ⟨rest, hrest.trans hmid, .inr ⟨e, (ha.bind_eq f).trans he, hrejected⟩⟩
  · refine ⟨mid, hmid, .inr ⟨e, ?_, hrejected⟩⟩
    change ExceptT.bindCont f (p ts).1 (p ts).2 = _
    rw [he]
    rfl

/-- A step that takes a token, and what follows it. -/
theorem next [Std.Refl Q] (hp : s.Ends K hi 1 p q P Q)
    (hf : ∀ m < hi, ∀ a b, P a → Q a b → s.Ends anyKind m 0 (f a) (g b) R T) :
    s.Ends K hi 1 (p >>= f) (q >>= g) R T :=
  hp.bind hf

/-- A step that need not take a token, and what follows it. -/
theorem andThen [Std.Refl Q] (hp : s.Ends K hi j p q P Q)
    (hf : ∀ a b, P a → Q a b → s.Ends anyKind hi k (f a) (g b) R T) :
    s.Ends K hi k (p >>= f) (q >>= g) R T := by
  have h := hp.any.bind fun m hm a b ha hab => (hf a b ha hab).mono (fun _ h => h) hm
  rwa [Nat.zero_add] at h

/-- A step whose result is all that is still needed. -/
theorem give [Std.Refl Q] {v : α → β} (hp : s.Ends K hi k p q P Q)
    (h : ∀ a b, P a → Q a b → R (u a) ∧ T (u a) (v b)) :
    s.Ends K hi k (p >>= fun a => Pure.pure (u a)) (q >>= fun b => Pure.pure (v b)) R T :=
  hp.bind fun _ _ a b ha hab => pure (h a b ha hab).1 (h a b ha hab).2

/-- A step that gives the same in both runs and takes a token. -/
theorem next_eq (hp : s.Ends K hi 1 p q P Eq)
    (hf : ∀ m < hi, ∀ a, P a → s.Ends anyKind m 0 (f a) (g a) R T) :
    s.Ends K hi 1 (p >>= f) (q >>= g) R T :=
  hp.next fun m hm a _ ha hab => hab ▸ hf m hm a ha

theorem andThen_eq (hp : s.Ends K hi j p q P Eq)
    (hf : ∀ a, P a → s.Ends anyKind hi k (f a) (g a) R T) :
    s.Ends K hi k (p >>= f) (q >>= g) R T :=
  hp.andThen fun a _ ha hab => hab ▸ hf a ha

theorem give_eq (hp : s.Ends K hi k p q P Eq) (h : ∀ a, P a → R (u a)) :
    s.Ends K hi k (p >>= fun a => Pure.pure (u a)) (q >>= fun a => Pure.pure (u a)) R Eq :=
  hp.give fun a _ ha hab => ⟨h a ha, congrArg u hab⟩

theorem map_eq (hp : s.Ends K hi k p q P Eq) (h : ∀ a, P a → R (u a)) :
    s.Ends K hi k (u <$> p) (u <$> q) R Eq := by
  rw [map_eq_pure_bind, map_eq_pure_bind]
  exact hp.give_eq h

/-- What is known about the result may be forgotten. -/
theorem forget [Std.Refl Q] {v : α → β} (hp : s.Ends K hi k p q P Q) :
    s.Ends K hi k (u <$> p) (v <$> q) (fun _ => True) fun _ _ => True := by
  rw [map_eq_pure_bind, map_eq_pure_bind]
  exact hp.give fun _ _ _ _ => ⟨trivial, trivial⟩

theorem ite {c : Prop} [Decidable c] {p' q' : Parse α} (hp : s.Ends K hi k p q P Q)
    (hp' : s.Ends K hi k p' q' P Q) :
    s.Ends K hi k (if c then p else p') (if c then q else q') P Q := by
  split
  · exact hp
  · exact hp'

/-- Tokens that do not pass a test are rejected before the next step. -/
theorem guard {c : Prop} [Decidable c] {cause : ParseCause} {f g : Unit → Parse β}
    (hf : ¬c → s.Ends K hi k (f ()) (g ()) R T) :
    s.Ends K hi k (if c then Parse.reject cause >>= f else f ())
      (if c then Parse.reject cause >>= g else g ()) R T := by
  split
  next => exact (reject (k := 0) (P := fun _ => False) cause).andThen_eq fun _ h => h.elim
  next h => exact hf h

theorem kind_bind {f g : TokenKind → Parse β}
    (hf : ∀ w, K w → s.Ends (· = w) hi k (f w) (g w) R T) :
    s.Ends K hi k (kind >>= f) (kind >>= g) R T := by
  intro ts hts hkind hhi
  rw [(gives_kind ts).bind_eq f]
  obtain ⟨rest, hrest, ⟨a, ha, hR, hk, hg⟩ | herror⟩ := hf _ hkind hts rfl hhi
  · refine ⟨rest, hrest, .inl ⟨a, gives_kind_bind.2 ha, hR, hk, fun hample us hus => ?_⟩⟩
    obtain ⟨b, left, hb, hab⟩ := hg hample hus
    rw [Pairing.kindOf_eq (s.ample_of_suffix hrest hample) hus] at hb
    exact ⟨b, left, gives_kind_bind.2 hb, hab⟩
  · exact ⟨rest, hrest, .inr herror⟩

theorem atAny_bind {kinds : List TokenKind} {f g : Bool → Parse β}
    (htrue : s.Ends (· ∈ kinds) hi k (f true) (g true) R T)
    (hfalse : s.Ends K hi k (f false) (g false) R T) :
    s.Ends K hi k (atAny kinds >>= f) (atAny kinds >>= g) R T := by
  rw [atAny, bind_assoc, bind_assoc]
  refine .kind_bind fun w hw => ?_
  rw [pure_bind, pure_bind]
  cases hmem : kinds.contains w with
  | true => exact htrue.mono (fun _ h => h ▸ List.contains_iff_mem.1 hmem) le_rfl
  | false => exact hfalse.mono (fun _ h => h ▸ hw) le_rfl

theorem at?_bind {wanted : TokenKind} {f g : Bool → Parse β}
    (htrue : s.Ends (· = wanted) hi k (f true) (g true) R T)
    (hfalse : s.Ends K hi k (f false) (g false) R T) :
    s.Ends K hi k (at? wanted >>= f) (at? wanted >>= g) R T := by
  rw [at?, bind_assoc, bind_assoc]
  refine .kind_bind fun w hw => ?_
  rw [pure_bind, pure_bind]
  cases hmem : w == wanted with
  | true => exact htrue.mono (fun _ h => h.trans (beq_iff_eq.1 hmem)) le_rfl
  | false => exact hfalse.mono (fun _ h => h ▸ hw) le_rfl

end Setting.Ends

/-! ### Steps -/

theorem ends_get : s.Ends K hi 0 get get (fun _ => True) Pairing.KindsAgree := fun ts _ _ _ =>
  ⟨ts, List.suffix_rfl, .inl ⟨ts, rfl, trivial, le_rfl, fun hample us hus =>
    ⟨us, us, rfl, s.kinds_eq hample hus, hus⟩⟩⟩

theorem ends_atAny (kinds : List TokenKind) :
    s.Ends K hi 0 (atAny kinds) (atAny kinds) (fun _ => True) Eq :=
  .kind_bind fun _ _ => .pure trivial rfl

theorem ends_at? (wanted : TokenKind) :
    s.Ends K hi 0 (at? wanted) (at? wanted) (fun _ => True) Eq :=
  .kind_bind fun _ _ => .pure trivial rfl

/-- Where there is a token, it is taken in both runs. -/
theorem ends_takeAny_of {P : String → Prop} {Q : String → String → Prop} (h : ¬K .eof)
    (hP : ∀ t : Token, t.IsUsable s.texts s.missing → K t.kind → P t.value)
    (hQ : ∀ t u : Token, K t.kind → t.Reworded s.Words u → Q t.value u.value) :
    s.Ends K hi 1 takeAny takeAny P Q := by
  intro ts hts hkind _
  cases ts with
  | nil => exact absurd hkind h
  | cons t ts =>
    refine ⟨ts, List.suffix_cons t ts, .inl ⟨t.value, rfl, ?_, le_rfl, fun hample us hus => ?_⟩⟩
    · exact hP t (hts t List.mem_cons_self) hkind
    · obtain ⟨u, us, rfl, htu, hus⟩ := s.paired_cons hample hus
      exact ⟨u.value, us, rfl, hQ t u hkind htu, hus⟩

theorem ends_takeAny (h : ¬K .eof) : s.Ends K hi 1 takeAny takeAny
    (fun w => ∃ t : Token, t.IsUsable s.texts s.missing ∧ K t.kind ∧ t.value = w) s.Words :=
  ends_takeAny_of h (fun t ht hkind => ⟨t, ht, hkind, rfl⟩) fun _ _ _ htu => htu.word

variable {wanted : TokenKind}

theorem ends_take (h : (wanted != .eof) = true) :
    s.Ends K hi 1 (take wanted) (take wanted) (fun _ => True) s.Words := by
  refine .kind_bind fun w _ => ?_
  split
  next hw =>
    subst hw
    exact (ends_takeAny fun heof => bne_iff_ne.1 h heof.symm).imp fun _ _ => trivial
  next => exact .reject _

/-- Names and literals are the same in both runs. -/
theorem ends_take_named (h : wanted ∈ namedKinds) {P : String → Prop}
    (hP : ∀ t : Token, t.IsUsable s.texts s.missing → t.kind = wanted → P t.value) :
    s.Ends K hi 1 (take wanted) (take wanted) P Eq := by
  refine .kind_bind fun w _ => ?_
  split
  next hw =>
    subst hw
    refine ends_takeAny_of ?_ hP fun t u hkind htu => htu.value_eq (hkind ▸ h)
    rintro rfl
    exact absurd h (by decide)
  next => exact .reject _

theorem ends_name : s.Ends K hi 1 (take .identifier) (take .identifier) s.texts.name Eq :=
  ends_take_named (by decide) fun _ ht hkind => ht.admits.name hkind

theorem ends_literal (h : wanted ∈ [TokenKind.string, .char]) :
    s.Ends K hi 1 (take wanted) (take wanted) s.texts.literal Eq :=
  ends_take_named (List.mem_of_mem_tail (List.mem_append_left [.number] h)) fun _ ht hkind =>
    ht.admits.literal (hkind ▸ h)

/-- A number that is not rejected can be read. -/
theorem ends_takeNumber : s.Ends K hi 1 takeNumber takeNumber (fun _ => True) Eq := by
  refine (ends_take_named (by decide) fun t ht hkind => ⟨t, ht, hkind, rfl⟩ :
    s.Ends K hi 1 _ _ (fun w => ∃ t : Token, t.IsUsable s.texts s.missing ∧ t.kind = .number ∧
      t.value = w) Eq).next_eq ?_
  rintro m _ w ⟨t, ht, hkind, rfl⟩
  split
  next => exact .reject _
  next hnumeric =>
    rw [Bool.or_eq_true, not_or, Bool.not_eq_true, Bool.not_eq_true, Bool.not_eq_false'] at hnumeric
    split
    next => exact .pure trivial rfl
    next hnone =>
      refine .throw fun hmissing => ?_
      obtain ⟨hdigits, hlength⟩ := ht.isReadable hmissing hkind hnumeric.1 hnumeric.2
      obtain ⟨n, hn⟩ := Text.exists_readNat? hnumeric.1 hdigits hlength
      exact absurd (hn.symm.trans hnone) nofun

namespace Setting.Ends

variable {R : β → Prop} {T : β → β → Prop} {f g : String → Parse β}

variable (h : (wanted != .eof) = true)

include h

theorem take_next (hf : ∀ m < hi, ∀ w w', s.Ends anyKind m 0 (f w) (g w') R T) :
    s.Ends K hi 1 (take wanted >>= f) (take wanted >>= g) R T :=
  (ends_take h).next fun m hm w w' _ _ => hf m hm w w'

theorem take_then (hf : ∀ w w', s.Ends anyKind hi k (f w) (g w') R T) :
    s.Ends K hi k (take wanted >>= f) (take wanted >>= g) R T :=
  (ends_take h).andThen fun w w' _ _ => hf w w'

/-- The last token of a production. -/
theorem take_pure {a b : β} (ha : R a) (hab : T a b) :
    s.Ends K hi 0 (take wanted >>= fun _ => Pure.pure a) (take wanted >>= fun _ => Pure.pure b)
      R T :=
  take_then h fun _ _ => pure ha hab

/-- A token that is known to come next is taken. -/
theorem takeAny_next (hf : ∀ m < hi, ∀ w w', s.Ends anyKind m 0 (f w) (g w') R T) :
    s.Ends (· = wanted) hi 1 (takeAny >>= f) (takeAny >>= g) R T :=
  (ends_takeAny fun heof => bne_iff_ne.1 h heof.symm).next fun m hm w w' _ _ => hf m hm w w'

/-- If a token is passed over, there are fewer tokens. -/
theorem skip_bind {f g : Bool → Parse β}
    (htrue : ∀ m < hi, s.Ends anyKind m 0 (f true) (g true) R T)
    (hfalse : s.Ends K hi 0 (f false) (g false) R T) :
    s.Ends K hi 0 (skip wanted >>= f) (skip wanted >>= g) R T := by
  rw [skip, bind_assoc, bind_assoc]
  refine .at?_bind ?_ hfalse
  rw [if_pos rfl, bind_assoc, bind_assoc]
  exact (takeAny_next h fun m hm _ _ => htrue m hm).any

end Setting.Ends

theorem ends_skip (h : (wanted != .eof) = true) :
    s.Ends K hi 0 (skip wanted) (skip wanted) (fun _ => True) Eq := by
  refine .at?_bind ?_ (.pure trivial rfl)
  exact (ends_takeAny fun heof => bne_iff_ne.1 h heof.symm).andThen fun _ _ _ _ => .pure trivial rfl

namespace Setting.Ends

variable {R : β → Prop} {T : β → β → Prop} {p q p' q' : Parse β}

theorem skip_ite (h : (wanted != .eof) = true) (hp : s.Ends anyKind hi k p q R T)
    (hp' : s.Ends anyKind hi k p' q' R T) :
    s.Ends K hi k (skip wanted >>= fun b => if b then p else p')
      (skip wanted >>= fun b => if b then q else q') R T :=
  (ends_skip h).andThen_eq fun _ _ => .ite hp hp'

theorem at?_ite (hp : s.Ends anyKind hi k p q R T) (hp' : s.Ends anyKind hi k p' q' R T) :
    s.Ends K hi k (at? wanted >>= fun b => if b then p else p')
      (at? wanted >>= fun b => if b then q else q') R T :=
  (ends_at? wanted).andThen_eq fun _ _ => .ite hp hp'

/-- An operator that is taken belongs to the vocabulary. -/
theorem operator_ite {kinds : List TokenKind} (hkinds : kinds ⊆ TokenKind.operators)
    {f g : String → Parse β}
    (hf : ∀ m < hi, ∀ w w', s.texts.operator w → s.Words w w' →
      s.Ends anyKind m 0 (f w) (g w') R T)
    (hp : s.Ends K hi 0 p q R T) :
    s.Ends K hi 0 (do if ← atAny kinds then f (← takeAny) else p)
      (do if ← atAny kinds then g (← takeAny) else q) R T := by
  refine .atAny_bind ?_ hp
  have heof : TokenKind.eof ∉ kinds := fun h => absurd (hkinds h) (by decide)
  exact ((ends_takeAny_of heof (fun t ht hkind => ht.admits.operator (hkinds hkind))
    fun _ _ _ htu => htu.word).next hf).any

end Setting.Ends

variable {P : α → Prop} {more more' : Parse Bool} {body body' : Parse α}

/-- A loop ends if each round takes a token. -/
theorem ends_repeatWhile {fuel : Nat} :
    ∀ {hi : Nat}, hi < fuel + s.missing →
    (∀ m, s.Ends anyKind m 0 more more' (fun _ => True) Eq) →
    (∀ m ≤ hi, s.Ends anyKind m 1 body body' P Eq) →
      s.Ends anyKind hi 0 (repeatWhile more body fuel) (repeatWhile more' body' (s.extra + fuel))
        (fun as => ∀ a ∈ as, P a) Eq := by
  induction fuel with
  | zero => exact fun hfuel _ _ => .throw (by omega)
  | succ fuel ih =>
    intro hi hfuel hmore hbody
    refine (hmore hi).andThen_eq fun _ _ => .ite ?_ (.pure (by simp) rfl)
    refine ((hbody hi le_rfl).next_eq fun m hm a ha => ?_).any
    refine (ih (by omega) hmore fun n hn => hbody n (by omega)).give_eq fun as has => ?_
    exact List.forall_mem_cons.2 ⟨ha, has⟩

/-- A loop with separators ends if each item takes a token. -/
theorem ends_separated {separators : List TokenKind} (heof : .eof ∉ separators) {fuel : Nat} :
    ∀ {hi : Nat}, hi < fuel + s.missing →
    (∀ m, s.Ends anyKind m 0 more more' (fun _ => True) Eq) →
    (∀ m ≤ hi, s.Ends anyKind m 1 body body' P Eq) →
      s.Ends anyKind hi 0 (separated more body separators fuel)
        (separated more' body' separators (s.extra + fuel)) (fun _ => True) Eq := by
  induction fuel with
  | zero => exact fun hfuel _ _ => .throw (by omega)
  | succ fuel ih =>
    intro hi hfuel hmore hbody
    refine (hmore hi).andThen_eq fun _ _ => .ite ?_ (.pure trivial rfl)
    refine ((hbody hi le_rfl).next_eq fun m hm _ _ => ?_).any
    refine .atAny_bind ((ends_takeAny heof).andThen fun _ _ _ _ => ?_) (.pure trivial rfl)
    exact (ih (by omega) hmore fun n hn => hbody n (by omega)).give_eq fun _ _ => trivial

end Parse

namespace Grammar

open Parse

variable {s : Setting} {fuel hi : Nat}

/-- Eight levels for each token and `c` more are fuel enough for the production. -/
def EndsBy {α : Type} (s : Setting) (fuel c k : Nat) (production : Nat → Parse α) (P : α → Prop)
    (Q : α → α → Prop) : Prop :=
  ∀ hi, 8 * hi + c ≤ fuel + s.missing →
    s.Ends anyKind hi k (production fuel) (production (s.extra + fuel)) P Q

theorem ends_names : EndsBy s fuel 0 1 names (fun ns => ∀ n ∈ ns, s.texts.name n) Eq := by
  refine fun hi hfuel => ends_name.next_eq fun m hm n hn => ?_
  refine (ends_repeatWhile (by omega) (fun _ => ends_skip rfl) fun _ _ => ends_name).give_eq ?_
  exact fun ns hns => List.forall_mem_cons.2 ⟨hn, hns⟩

/-! ### Expressions -/

theorem isValue_of_isElement {d : Designator} (h : d.IsElement) : d.IsValue := by
  cases d with
  | name n | element base index => exact h
  | field base n | call base arguments => exact h.elim

/-- The productions that expressions are made of. Each level of nesting has fewer tokens or is the
first step of the one above it, of which there are at most four. -/
theorem ends_expressions (s : Setting) (fuel : Nat) :
    EndsBy s fuel 3 1 expression (Expr.Within s.texts) (Expr.Reworded s.Words) ∧
    EndsBy s fuel 2 1 operand (Operand.Within s.texts) (Operand.Reworded s.Words) ∧
    (∀ left left', left.Reworded s.Words left' → left.Within s.texts →
      ∀ hi, 8 * hi + 1 ≤ fuel + s.missing → s.Ends anyKind hi 0 (joined left fuel)
        (joined left' (s.extra + fuel)) (Operand.Within s.texts) (Operand.Reworded s.Words)) ∧
    EndsBy s fuel 1 1 factor (fun o => o.IsFactor ∧ o.Within s.texts) (Operand.Reworded s.Words) ∧
    (∀ base base', base.Reworded s.Words base' → base.IsElement ∧ base.Within s.texts →
      ∀ hi, 8 * hi + 1 ≤ fuel + s.missing → s.Ends anyKind hi 0 (elements base fuel)
        (elements base' (s.extra + fuel)) (fun d => d.IsElement ∧ d.Within s.texts)
        (Designator.Reworded s.Words)) ∧
    EndsBy s fuel 1 1 callArguments (exprsWithin s.texts) (ExprsReworded s.Words) ∧
    EndsBy s fuel 4 1 expressions (exprsWithin s.texts) (ExprsReworded s.Words) := by
  induction fuel with
  | zero =>
    refine ⟨?_, ?_, fun _ _ _ _ => ?_, ?_, fun _ _ _ _ => ?_, ?_, ?_⟩
    all_goals exact fun hi hfuel => .throw (by omega)
  | succ fuel ih =>
    obtain ⟨hexpression, hoperand, hjoined, hfactor, helements, harguments, hexpressions⟩ := ih
    refine ⟨fun hi hfuel => ?_, fun hi hfuel => ?_, fun left left' hsame hleft hi hfuel => ?_,
      fun hi hfuel => ?_, fun base base' hsame hbase hi hfuel => ?_, fun hi hfuel => ?_,
      fun hi hfuel => ?_⟩
    · refine (hoperand hi (by omega)).next fun m hm l l' hl hll => ?_
      refine .operator_ite (List.subset_append_right _ _) (fun n hn w w' hw hww => ?_)
        (.pure hl (.operand hll))
      exact ((hoperand n (by omega)).give fun r r' hr hrr =>
        ⟨⟨hl, hw, hr⟩, .compare hll hww hrr⟩).any
    · exact (hfactor hi (by omega)).next fun m hm l l' hl hll =>
        hjoined l l' hll hl.2 m (by omega)
    · -- The operator is taken, so that the next factor and what joins it have fewer tokens.
      refine .operator_ite (List.subset_append_left _ _) (fun m hm w w' hw hww => ?_)
        (.pure hleft hsame)
      refine (hfactor m (by omega)).andThen fun r r' hr hrr => ?_
      exact hjoined _ _ (.binary hsame hww hrr) ⟨hleft, hw, hr⟩ m (by omega)
    · refine .kind_bind fun w _ => ?_
      split
      · exact ends_takeNumber.next_eq fun _ _ n _ => .pure ⟨trivial, trivial⟩ (.number n)
      · exact (ends_literal (by decide)).next_eq fun _ _ v hv => .pure ⟨trivial, hv⟩ (.literal v)
      · exact (ends_literal (by decide)).next_eq fun _ _ v hv => .pure ⟨trivial, hv⟩ (.literal v)
      · refine ends_name.next_eq fun m hm n hn => ?_
        refine (helements _ _ (.name n) ⟨trivial, hn⟩ m (by omega)).andThen fun d d' hd hdd => ?_
        refine .skip_ite rfl ?_ (.at?_ite ?_ ?_)
        · exact ends_name.andThen_eq fun f hf =>
            .pure ⟨trivial, hd.1, hd.2, hf⟩ (.designator (.field f hdd))
        · exact ((harguments m (by omega)).give fun es es' hes hess =>
            ⟨⟨trivial, hd.1, hd.2, hes⟩, .designator (.call hdd hess)⟩).any
        · exact .pure ⟨trivial, isValue_of_isElement hd.1, hd.2⟩ (.designator hdd)
      · exact .takeAny_next rfl fun _ _ _ _ => .pure ⟨trivial, trivial⟩ (.truth true)
      · exact .takeAny_next rfl fun _ _ _ _ => .pure ⟨trivial, trivial⟩ (.truth false)
      · refine .takeAny_next rfl fun m hm _ _ => ?_
        exact (hexpression m (by omega)).andThen fun e e' he hee =>
          .take_pure rfl ⟨trivial, he⟩ (.group hee)
      · refine .takeAny_next rfl fun m hm _ _ => ?_
        exact ((hfactor m (by omega)).give fun o o' ho hoo =>
          ⟨⟨trivial, ho⟩, .negation hoo⟩).any
      · exact .reject _
    · refine .skip_bind rfl (fun m hm => ?_) (.pure hbase hsame)
      refine (hexpression m (by omega)).andThen fun e e' he hee => .take_then rfl fun _ _ => ?_
      exact helements _ _ (.element hsame hee) ⟨hbase.1, hbase.2, he⟩ m (by omega)
    · refine .take_next rfl fun m hm _ _ => ?_
      have hend : ∀ es es', exprsWithin s.texts es → ExprsReworded s.Words es es' → _ :=
        fun es es' hes hess => @Setting.Ends.take_pure _ s m anyKind .rparen _ _ rfl es es' hes hess
      exact .at?_ite ((Setting.Ends.pure (a := []) trivial .nil).andThen hend)
        ((hexpressions m (by omega)).andThen hend)
    · refine (hexpression hi (by omega)).next fun m hm e e' he hee => ?_
      refine .skip_bind rfl (fun n hn => ?_) (.pure ⟨he, trivial⟩ (.cons hee .nil))
      exact ((hexpressions n (by omega)).give fun es es' hes hess =>
        ⟨⟨he, hes⟩, .cons hee hess⟩).any

theorem ends_expression :
    EndsBy s fuel 3 1 expression (Expr.Within s.texts) (Expr.Reworded s.Words) :=
  (ends_expressions s fuel).1

/-! ### Statements -/

theorem ends_selectors {base base' : Designator} (hsame : base.Reworded s.Words base')
    (hbase : base.Within s.texts ∧ base.IsTarget) (hfuel : 8 * hi + 1 ≤ fuel + s.missing) :
    s.Ends anyKind hi 0 (selectors base fuel) (selectors base' (s.extra + fuel))
      (fun d => d.Within s.texts ∧ d.IsTarget) (Designator.Reworded s.Words) := by
  induction fuel generalizing base base' hi with
  | zero => exact .throw (by omega)
  | succ fuel ih =>
    refine .skip_bind rfl (fun m hm => ?_) (.skip_bind rfl (fun m hm => ?_) (.pure hbase hsame))
    · refine (ends_expression m (by omega)).andThen fun e e' he hee => .take_then rfl fun _ _ => ?_
      exact ih (.element hsame hee) ⟨⟨hbase.1, he⟩, hbase.2⟩ (by omega)
    · exact ends_name.andThen_eq fun n hn =>
        ih (.field n hsame) ⟨⟨hbase.1, hn⟩, hbase.2⟩ (by omega)

theorem ends_target : EndsBy s fuel 0 1 target (fun d => d.Within s.texts ∧ d.IsTarget)
    (Designator.Reworded s.Words) := fun _ _ =>
  ends_name.next_eq fun _ _ n hn => ends_selectors (.name n) ⟨hn, trivial⟩ (by omega)

theorem ends_assignment :
    EndsBy s fuel 0 1 assignment (Stmt.Within s.texts) (Stmt.Reworded s.Words) := by
  refine fun hi hfuel => (ends_target hi hfuel).next fun m hm d d' hd hdd => ?_
  refine .take_then rfl fun _ _ => ((ends_expression m (by omega)).give fun e e' he hee => ?_).any
  exact ⟨⟨hd.1, hd.2, he⟩, .assign hdd hee⟩

theorem ends_procedureCall :
    EndsBy s fuel 0 1 procedureCall (Stmt.Within s.texts) (Stmt.Reworded s.Words) := by
  refine fun hi hfuel => ends_name.next_eq fun m hm n hn => .skip_ite rfl ?_
    (.pure ⟨hn, trivial⟩ (.call n .nil))
  obtain ⟨-, -, -, -, -, -, hexpressions⟩ := ends_expressions s fuel
  exact (hexpressions m (by omega)).andThen fun es es' hes hess =>
    .take_pure rfl ⟨hn, hes⟩ (.call n hess)

theorem ends_direction :
    s.Ends anyKind hi 1 direction direction (fun _ => True) s.Words := by
  intro ts hts hkind hhi
  cases ts with
  | nil => exact Setting.Ends.reject (q := direction) .loopDirection hts hkind hhi
  | cons t ts =>
    by_cases hword : t.kind = .kwTo ∨ t.kind = .identifier ∧ Text.toUpper t.value = "DOWNTO"
    · have hgives : ∀ {u : Token} {us : List Token}, (u.kind = .kwTo ∨ u.kind = .identifier ∧
          Text.toUpper u.value = "DOWNTO") → Gives direction (u :: us) u.value us := by
        intro u us hu
        change Gives (if _ then takeAny else Parse.reject _) (u :: us) u.value us
        rw [if_pos hu]
        rfl
      refine ⟨ts, List.suffix_cons t ts, .inl ⟨t.value, hgives hword, trivial, le_rfl,
        fun hample us hus => ?_⟩⟩
      obtain ⟨u, us, rfl, htu, hus⟩ := s.paired_cons hample hus
      refine ⟨u.value, us, hgives ?_, htu.word, hus⟩
      -- A direction that is a name is the same name in both runs.
      rcases hword with hto | ⟨hname, hdownto⟩
      · exact .inl (htu.kind_eq ▸ hto)
      · refine .inr ⟨htu.kind_eq ▸ hname, ?_⟩
        rw [← htu.value_eq (hname ▸ by decide), hdownto]
    · refine ⟨t :: ts, List.suffix_rfl, .inr ⟨.rejected .loopDirection t.line t.column, ?_,
        fun _ => ⟨_, _, _, rfl⟩⟩⟩
      change (if _ then takeAny else Parse.reject _) (t :: ts) = _
      rw [if_neg hword]
      rfl

/-- The productions that statements are made of. -/
theorem ends_statements (s : Setting) (fuel : Nat) :
    EndsBy s fuel 2 1 statement (Stmt.Within s.texts) (Stmt.Reworded s.Words) ∧
    EndsBy s fuel 1 1 ifStatement (Stmt.Within s.texts) (Stmt.Reworded s.Words) ∧
    EndsBy s fuel 1 1 whileStatement (Stmt.Within s.texts) (Stmt.Reworded s.Words) ∧
    EndsBy s fuel 1 1 forStatement (Stmt.Within s.texts) (Stmt.Reworded s.Words) ∧
    EndsBy s fuel 1 1 compound (stmtsWithin s.texts) (StmtsReworded s.Words) ∧
    EndsBy s fuel 3 0 statements (stmtsWithin s.texts) (StmtsReworded s.Words) := by
  induction fuel with
  | zero =>
    refine ⟨?_, ?_, ?_, ?_, ?_, ?_⟩
    all_goals exact fun hi hfuel => .throw (by omega)
  | succ fuel ih =>
    obtain ⟨hstatement, hif, hwhile, hfor, hcompound, hstatements⟩ := ih
    refine ⟨fun hi hfuel => ?_, fun hi hfuel => ?_, fun hi hfuel => ?_, fun hi hfuel => ?_,
      fun hi hfuel => ?_, fun hi hfuel => ?_⟩
    · refine .kind_bind fun w _ => ?_
      split
      · exact (hif hi (by omega)).here
      · exact (hwhile hi (by omega)).here
      · exact (hfor hi (by omega)).here
      · exact (hcompound hi (by omega)).here.give fun ss ss' hss hsss => ⟨hss, .compound hsss⟩
      · refine ends_get.andThen fun ts us _ hkinds => ?_
        have hassign := @ends_assignment s fuel hi (by omega)
        have hcall := @ends_procedureCall s fuel hi (by omega)
        have hsecond := hkinds 1 (by decide)
        match ts[1]?, us[1]?, hsecond with
        | none, none, _ => exact hcall
        | some t, some u, hsecond =>
          have hkind : t.kind = u.kind := Option.some.inj hsecond
          simp only [hkind]
          exact .ite hassign hcall
      · exact .reject _
    · refine .take_next rfl fun m hm _ _ => ?_
      refine (ends_expression m (by omega)).andThen fun e e' he hee => .take_then rfl fun _ _ => ?_
      refine (hstatement m (by omega)).andThen fun b b' hb hbb => ?_
      refine .skip_ite rfl ?_ (.pure ⟨he, hb⟩ (.ifThen hee hbb))
      exact ((hstatement m (by omega)).give fun c c' hc hcc =>
        ⟨⟨he, hb, hc⟩, .ifElse hee hbb hcc⟩).any
    · refine .take_next rfl fun m hm _ _ => ?_
      refine (ends_expression m (by omega)).andThen fun e e' he hee => .take_then rfl fun _ _ => ?_
      exact ((hstatement m (by omega)).give fun b b' hb hbb => ⟨⟨he, hb⟩, .whileLoop hee hbb⟩).any
    · refine .take_next rfl fun m hm _ _ => ends_name.andThen_eq fun n hn => ?_
      refine .take_then rfl fun _ _ => ?_
      refine (ends_expression m (by omega)).andThen fun a a' ha haa => ?_
      refine ends_direction.andThen fun w w' _ hww => ?_
      refine (ends_expression m (by omega)).andThen fun b b' hb hbb => .take_then rfl fun _ _ => ?_
      exact ((hstatement m (by omega)).give fun c c' hc hcc =>
        ⟨⟨hn, ha, hb, hc⟩, .forLoop n haa hww hbb hcc⟩).any
    · refine .take_next rfl fun m hm _ _ => ?_
      exact (hstatements m (by omega)).andThen fun _ _ hss hsss => .take_pure rfl hss hsss
    · refine (ends_atAny _).andThen_eq fun _ _ => .ite (.pure trivial .nil) ?_
      refine ((hstatement hi (by omega)).next fun m hm a a' ha haa => ?_).any
      refine .skip_ite rfl ?_ (.pure ⟨ha, trivial⟩ (.cons haa .nil))
      exact (hstatements m (by omega)).give fun ss ss' hss hsss => ⟨⟨ha, hss⟩, .cons haa hsss⟩

theorem ends_compound :
    EndsBy s fuel 1 1 compound (stmtsWithin s.texts) (StmtsReworded s.Words) :=
  (ends_statements s fuel).2.2.2.2.1

/-! ### Values and types -/

theorem ends_constValues (s : Setting) (fuel : Nat) :
    EndsBy s fuel 2 1 constValue (ConstValue.Within s.texts) Eq ∧
    EndsBy s fuel 1 1 listValue (constsWithin s.texts) Eq ∧
    (∀ more, (∀ m, s.Ends anyKind m 0 more more (fun _ => True) Eq) →
      EndsBy s fuel 3 0 (constValues more) (constsWithin s.texts) Eq) ∧
    EndsBy s fuel 1 1 recordValue (fieldsWithin s.texts) Eq ∧
    EndsBy s fuel 1 0 fieldValues (fieldsWithin s.texts) Eq := by
  induction fuel with
  | zero =>
    refine ⟨?_, ?_, fun _ _ => ?_, ?_, ?_⟩
    all_goals exact fun hi hfuel => .throw (by omega)
  | succ fuel ih =>
    obtain ⟨hvalue, hlist, hvalues, hrecord, hfields⟩ := ih
    refine ⟨fun hi hfuel => ?_, fun hi hfuel => ?_, fun more hmore hi hfuel => ?_,
      fun hi hfuel => ?_, fun hi hfuel => ?_⟩
    · refine .kind_bind fun w _ => ?_
      split
      · exact ends_takeNumber.give_eq fun _ _ => trivial
      · exact (ends_literal (by decide)).give_eq fun _ hv => hv
      · exact (ends_literal (by decide)).give_eq fun _ hv => hv
      · refine ends_get.andThen fun ts us _ hkinds => ?_
        rw [hkinds 1 (by decide), hkinds 2 (by decide)]
        refine .ite ?_ ?_
        · exact (hrecord hi (by omega)).give_eq fun _ h => h
        · exact (hlist hi (by omega)).give_eq fun _ h => h
      · exact .reject _
    · refine .take_next rfl fun m hm _ _ => ?_
      refine (hvalues _ (fun _ => ends_atAny _) m (by omega)).andThen_eq fun _ hvalues => ?_
      exact .take_pure rfl hvalues rfl
    · refine (hmore hi).andThen_eq fun _ _ => .ite ?_ (.pure trivial rfl)
      refine ((hvalue hi (by omega)).next_eq fun m hm _ hfirst => ?_).any
      refine .skip_ite rfl ?_ (.pure ⟨hfirst, trivial⟩ rfl)
      exact (hvalues more hmore m (by omega)).give_eq fun _ hothers => ⟨hfirst, hothers⟩
    · refine .take_next rfl fun m hm _ _ => ?_
      exact (hfields m (by omega)).andThen_eq fun _ hfields => .take_pure rfl hfields rfl
    · refine .at?_ite ?_ (.pure trivial rfl)
      refine (ends_name.next_eq fun m hm n hn => .take_then rfl fun _ _ => ?_).any
      refine (hvalue m (by omega)).andThen_eq fun _ hvalue => ?_
      refine .atAny_bind ((ends_takeAny (by decide)).andThen fun _ _ _ _ => ?_) ?_
      · exact (hfields m (by omega)).give_eq fun _ hfields => ⟨hn, hvalue, hfields⟩
      · exact .pure ⟨hn, hvalue, trivial⟩ rfl

theorem ends_constValue : EndsBy s fuel 2 1 constValue (ConstValue.Within s.texts) Eq :=
  (ends_constValues s fuel).1

theorem ends_dimension :
    s.Ends anyKind hi 1 dimension dimension (fun _ => True) Eq := by
  refine ends_takeNumber.next_eq fun _ _ _ _ => .take_then rfl fun _ _ => ?_
  exact (ends_takeNumber.give_eq fun _ _ => trivial).any

theorem ends_arrayType (initialised : Bool) :
    EndsBy s fuel 0 1 (arrayType initialised) (ArrayType.Within s.texts) Eq := by
  refine fun hi hfuel => .take_next rfl fun m hm _ _ => .take_then rfl fun _ _ => ?_
  refine ends_dimension.andThen_eq fun _ _ => (ends_repeatWhile (by omega)
    (fun _ => ends_skip rfl) fun _ _ => ends_dimension).andThen_eq fun _ _ => ?_
  refine .take_then rfl fun _ _ => .take_then rfl fun _ _ => ?_
  refine (ends_at? _).andThen_eq fun _ _ => .guard fun _ =>
    ends_name.andThen_eq fun n hn => ?_
  have hnone : ∀ first others, ArrayType.Within s.texts ⟨first, others, n, none⟩ := fun _ _ =>
    ⟨hn, by simp⟩
  refine .at?_bind (.ite ?_ (.pure (hnone _ _) rfl)) ?_
  · refine (ends_takeAny (by decide)).andThen fun _ _ _ _ => .take_then rfl fun _ _ => ?_
    obtain ⟨-, -, hvalues, -⟩ := ends_constValues s fuel
    refine (hvalues _ (fun _ => (ends_at? _).give_eq fun _ _ => trivial) m (by omega)).andThen_eq
      fun _ hvalues => ?_
    exact .take_pure rfl ⟨hn, by simpa using hvalues⟩ rfl
  · rw [Bool.and_false]
    exact .pure (hnone _ _) rfl

/-- The productions that types are made of. A type may be missing, and then nothing is taken. -/
theorem ends_types (s : Setting) (fuel : Nat) :
    EndsBy s fuel 2 0 typeExpr (TypeExpr.Within s.texts) Eq ∧
    EndsBy s fuel 1 1 recordType (membersWithin s.texts) Eq ∧
    EndsBy s fuel 1 0 members (membersWithin s.texts) Eq := by
  induction fuel with
  | zero =>
    refine ⟨?_, ?_, ?_⟩
    all_goals exact fun hi hfuel => .throw (by omega)
  | succ fuel ih =>
    obtain ⟨htype, hrecord, hmembers⟩ := ih
    refine ⟨fun hi hfuel => ?_, fun hi hfuel => ?_, fun hi hfuel => ?_⟩
    · refine .kind_bind fun w _ => ?_
      split
      · exact ((ends_arrayType true hi (by omega)).here.give_eq
          (u := TypeExpr.array) fun _ h => h).any
      · exact ((hrecord hi (by omega)).here.give_eq (u := TypeExpr.record) fun _ h => h).any
      · exact (ends_name.give_eq fun _ hn => .inl hn).any
      · exact ((ends_literal (by decide)).give_eq fun _ hv => .inr hv).any
      · exact .pure trivial rfl
    · refine .take_next rfl fun m hm _ _ => ?_
      exact (hmembers m (by omega)).andThen_eq fun _ hfields => .take_pure rfl hfields rfl
    · refine .at?_ite (.pure trivial rfl) ?_
      refine ((ends_names hi (by omega)).next_eq fun m hm group hgroup => ?_).any
      refine .take_then rfl fun _ _ => (htype m (by omega)).andThen_eq fun _ htype => ?_
      have hfields := membersWithin_map htype hgroup
      refine .skip_ite rfl ?_ (.at?_ite (.pure hfields rfl) (.kind_bind fun _ _ => .reject _))
      exact (hmembers m (by omega)).give_eq fun _ hothers => membersWithin_append hfields hothers

theorem ends_typeExpr : EndsBy s fuel 2 0 typeExpr (TypeExpr.Within s.texts) Eq :=
  (ends_types s fuel).1

/-! ### Declarations -/

variable {S : List Stmt → Prop}

theorem ends_typeDecl : EndsBy s fuel 0 1 typeDecl (Decl.Within s.texts S) Eq := by
  refine fun hi hfuel => ends_name.next_eq fun m hm _ hn => .take_then rfl fun _ _ => ?_
  refine (ends_typeExpr m (by omega)).andThen_eq fun _ htype => ?_
  exact (ends_skip rfl).andThen_eq fun _ _ => .pure ⟨hn, htype⟩ rfl

theorem ends_typeSection :
    EndsBy s fuel 0 1 typeSection (fun ds => ∀ d ∈ ds, d.Within s.texts S) Eq := by
  refine fun hi hfuel => .take_next rfl fun m hm _ _ => ends_repeatWhile (by omega)
    (fun _ => ends_at? _) ?_
  exact fun _ _ => ends_typeDecl _ (by omega)

theorem ends_declaredType (cause : ParseCause) :
    EndsBy s fuel 0 1 (declaredType cause) (DeclaredType.Within s.texts) Eq := by
  refine fun hi hfuel => .kind_bind fun w _ => ?_
  split
  · exact (ends_arrayType true hi hfuel).here.give_eq fun _ h => h
  · exact ends_name.give_eq fun _ hn => .inl hn
  · exact (ends_literal (by decide)).give_eq fun _ hv => .inr hv
  · exact .reject _

theorem groupWithin {V : Vocabulary} (isConst : Bool) {group : List String}
    (hgroup : ∀ n ∈ group, V.name n) {type : DeclaredType} (htype : type.Within V)
    {value : Option ConstValue} (hvalue : ∀ v ∈ value, v.Within V) :
    ∀ d ∈ (if isConst then group.map (.const · type value) else variableGroup type value group),
      d.Within V S := by
  split
  · intro d hd
    obtain ⟨n, hn, rfl⟩ := List.mem_map.1 hd
    exact ⟨hgroup n hn, htype, hvalue⟩
  · cases group with
    | nil => exact fun d hd => absurd hd List.not_mem_nil
    | cons n group =>
      rw [List.forall_mem_cons] at hgroup
      refine List.forall_mem_cons.2 ⟨⟨hgroup.1, htype, hvalue⟩, fun d hd => ?_⟩
      obtain ⟨m, hm, rfl⟩ := List.mem_map.1 hd
      exact ⟨hgroup.2 m hm, htype, hvalue⟩

theorem ends_valueDecl (isConst : Bool) :
    EndsBy s fuel 0 1 (valueDecl isConst) (fun ds => ∀ d ∈ ds, d.Within s.texts S) Eq := by
  refine fun hi hfuel => (ends_names hi hfuel).next_eq fun m hm group hgroup => ?_
  refine (ends_skip rfl).andThen_eq fun _ _ => .guard fun _ => ?_
  refine (ends_declaredType _ m (by omega)).andThen_eq fun type htype => ?_
  refine (ends_at? _).andThen_eq fun _ _ => .guard fun _ => ?_
  have hend : ∀ value : Option ConstValue, (∀ v ∈ value, v.Within s.texts) → _ :=
    fun value hvalue => @Setting.Ends.take_pure _ s m anyKind .semicolon
      (fun ds : List Decl => ∀ d ∈ ds, d.Within s.texts S) Eq rfl _ _
      (groupWithin isConst hgroup htype hvalue) rfl
  refine .skip_ite rfl ?_ ((Setting.Ends.pure (a := none) (by simp) rfl).andThen_eq hend)
  exact ((ends_constValue m (by omega)).map_eq fun v hv => by simpa using hv).andThen_eq hend

theorem forall_mem_flatten {α : Type} {P : α → Prop} {groups : List (List α)}
    (h : ∀ group ∈ groups, ∀ a ∈ group, P a) : ∀ a ∈ groups.flatten, P a := by
  intro a ha
  obtain ⟨group, hgroup, ha⟩ := List.mem_flatten.1 ha
  exact h group hgroup a ha

theorem ends_valueSection (isConst : Bool) :
    EndsBy s fuel 0 1 (valueSection isConst) (fun ds => ∀ d ∈ ds, d.Within s.texts S) Eq := by
  refine fun hi hfuel => .take_next (by cases isConst <;> rfl) fun m hm _ _ => ?_
  refine (ends_repeatWhile (by omega) (fun _ => ends_at? _) ?_).give_eq fun _ => forall_mem_flatten
  exact fun _ _ => ends_valueDecl isConst _ (by omega)

theorem ends_simpleValue : s.Ends anyKind hi 1 variableValue.simpleValue
    variableValue.simpleValue (fun _ => True) Eq := by
  refine .at?_ite ?_ ?_
  · exact ends_takeNumber.give_eq fun _ _ => trivial
  · exact (ends_literal (by decide)).give_eq fun _ _ => trivial

theorem ends_variableValue : EndsBy s fuel 0 1 variableValue (fun _ => True) Eq := by
  refine fun hi hfuel => .kind_bind fun w _ => ?_
  split
  · refine .takeAny_next rfl fun m hm _ _ => ?_
    refine (ends_separated (by decide) (by omega) (fun _ => ends_atAny _) fun _ _ =>
      ends_simpleValue).andThen_eq fun _ _ => ?_
    exact .take_pure rfl trivial rfl
  · exact ends_simpleValue.here
  · exact ends_simpleValue.here
  · exact .reject _

theorem ends_variableDecl : EndsBy s fuel 0 1 variableDecl (fun _ => True) Eq := by
  refine fun hi hfuel => (ends_names hi hfuel).next_eq fun m hm _ _ => .take_then rfl fun _ _ => ?_
  refine (ends_declaredType _ m (by omega)).andThen_eq fun _ _ => .skip_ite rfl ?_ ?_
  · exact ((ends_variableValue m (by omega)).map_eq (R := fun _ => True) fun _ h => h).andThen_eq
      fun _ _ => .take_pure rfl trivial rfl
  · exact (Setting.Ends.pure (P := fun _ => True) trivial rfl).andThen_eq fun _ _ =>
      .take_pure rfl trivial rfl

theorem ends_variableSection : EndsBy s fuel 0 1 variableSection (fun _ => True) Eq := by
  refine fun hi hfuel => .take_next rfl fun m hm _ _ => ?_
  exact (ends_repeatWhile (by omega) (fun _ => ends_at? _) fun _ _ =>
    ends_variableDecl _ (by omega)).give_eq fun _ _ => trivial

theorem ends_parameterGroup :
    EndsBy s fuel 0 1 parameterGroup (fun ps => ∀ p ∈ ps, p.Within s.texts) Eq := by
  intro hi hfuel
  have hmode : s.Ends anyKind hi 0 passingMode passingMode (fun _ => True) Eq :=
    .skip_ite rfl (.pure trivial rfl) (.skip_ite rfl (.pure trivial rfl) (.pure trivial rfl))
  refine hmode.andThen_eq fun _ _ => (ends_names hi hfuel).next_eq fun m hm group hgroup => ?_
  refine .take_then rfl fun _ _ => (ends_typeExpr m (by omega)).give_eq fun _ htype p hp => ?_
  obtain ⟨n, hn, rfl⟩ := List.mem_map.1 hp
  exact ⟨hgroup n hn, htype⟩

theorem ends_parameterList :
    EndsBy s fuel 0 1 parameterList (fun ps => ∀ p ∈ ps, p.Within s.texts) Eq := by
  refine fun hi hfuel => .take_next rfl fun m hm _ _ => .skip_ite rfl (.pure (by simp) rfl) ?_
  refine (ends_parameterGroup m (by omega)).andThen_eq fun _ hfirst => ?_
  refine (ends_repeatWhile (by omega) (fun _ => ends_skip rfl) fun _ _ =>
    ends_parameterGroup _ (by omega)).andThen_eq fun _ hothers => ?_
  exact .take_pure rfl (List.forall_mem_append.2 ⟨hfirst, forall_mem_flatten hothers⟩) rfl

theorem ends_resultType (isFunction : Bool) (name : String) :
    EndsBy s fuel 2 0 (resultType isFunction name) (fun _ => True) Eq := by
  refine fun hi hfuel => .ite (.skip_ite rfl ?_ (.reject _)) (.pure trivial rfl)
  exact (ends_typeExpr hi hfuel).imp fun _ _ => trivial

/-- The productions that blocks are made of. A block may have no declarations. -/
theorem ends_blocks (s : Setting) (fuel : Nat) :
    EndsBy s fuel 3 1 block (Block.Within s.texts (stmtsWithin s.texts)) (Block.Reworded s.Words) ∧
    EndsBy s fuel 2 0 declarations (declsWithin s.texts (stmtsWithin s.texts))
      (DeclsReworded s.Words) ∧
    EndsBy s fuel 1 1 routine (Decl.Within s.texts (stmtsWithin s.texts))
      (Decl.Reworded s.Words) := by
  induction fuel with
  | zero =>
    refine ⟨?_, ?_, ?_⟩
    all_goals exact fun hi hfuel => .throw (by omega)
  | succ fuel ih =>
    obtain ⟨hblock, hdeclarations, hroutine⟩ := ih
    refine ⟨fun hi hfuel => ?_, fun hi hfuel => ?_, fun hi hfuel => ?_⟩
    · refine (hdeclarations hi (by omega)).andThen fun ds ds' hds hdss => ?_
      exact (ends_compound hi (by omega)).give fun ss ss' hss hsss =>
        ⟨⟨hds, hss⟩, .mk hdss hsss⟩
    · -- A section and the declarations after it.
      have hsection : ∀ {K} {p q : Parse (List Decl)}, s.Ends anyKind hi 1 p q
            (fun ds => ∀ d ∈ ds, d.Within s.texts (stmtsWithin s.texts)) Eq →
          s.Ends K hi 0 (do return (← p) ++ (← declarations fuel))
            (do return (← q) ++ (← declarations (s.extra + fuel)))
            (declsWithin s.texts (stmtsWithin s.texts)) (DeclsReworded s.Words) := by
        intro K p q hp
        refine (hp.here.next_eq fun m hm first hfirst => ?_).any
        refine (hdeclarations m (by omega)).give fun ds ds' hds hdss => ⟨?_, hdss.append_left first⟩
        exact declsWithin_iff.2 (List.forall_mem_append.2 ⟨hfirst, declsWithin_iff.1 hds⟩)
      have hone : ∀ {K}, s.Ends K hi 0 (do return (← routine fuel) :: (← declarations fuel))
          (do return (← routine (s.extra + fuel)) :: (← declarations (s.extra + fuel)))
          (declsWithin s.texts (stmtsWithin s.texts)) (DeclsReworded s.Words) := by
        intro K
        refine ((hroutine hi (by omega)).here.next fun m hm d d' hd hdd => ?_).any
        exact (hdeclarations m (by omega)).give fun ds ds' hds hdss =>
          ⟨⟨hd, hds⟩, .cons hdd hdss⟩
      refine .kind_bind fun w _ => ?_
      split
      · exact hsection (ends_typeSection hi (by omega))
      · exact hsection (ends_valueSection true hi (by omega))
      · exact hsection (ends_valueSection false hi (by omega))
      · exact hone
      · exact hone
      · exact .pure trivial .nil
    · refine .kind_bind fun w _ => .guard fun hw => ?_
      rw [not_not] at hw
      have heof : ¬TokenKind.eof = w := by
        rintro rfl
        exact absurd hw (by decide)
      refine (ends_takeAny_of (K := (· = w)) (P := s.texts.word) heof
        (fun t ht hkind => ht.admits.word (hkind ▸ hw)) fun _ _ _ htu => htu.word).next
        fun m hm word word' hword hsame => ends_name.andThen_eq fun n hn => ?_
      -- What follows the parameters is the same whether there are any or not.
      have hbody : ∀ ps : List Parameter, (∀ p ∈ ps, p.Within s.texts) → s.Ends anyKind m 0 (do
          let result ← resultType (w = .kwFunction) n fuel
          let _ ← take .semicolon
          let body ← block fuel
          let _ ← take .semicolon
          return Decl.routine word n ps body result) (do
          let result ← resultType (w = .kwFunction) n (s.extra + fuel)
          let _ ← take .semicolon
          let body ← block (s.extra + fuel)
          let _ ← take .semicolon
          return Decl.routine word' n ps body result)
          (Decl.Within s.texts (stmtsWithin s.texts)) (Decl.Reworded s.Words) := by
        intro ps hps
        refine (ends_resultType _ _ m (by omega)).andThen_eq fun result _ => ?_
        refine .take_then rfl fun _ _ => (hblock m (by omega)).andThen fun b b' hb hbb => ?_
        exact .take_pure rfl ⟨hword, hn, hps, hb⟩ (.routine n ps result hsame hbb)
      refine .at?_ite ?_ ((Setting.Ends.pure (a := []) (by simp) rfl).andThen_eq hbody)
      exact (ends_parameterList m (by omega)).andThen_eq hbody

theorem ends_program : EndsBy s fuel 0 1 program
    (fun p => p.block.Within s.texts (stmtsWithin s.texts)) (Program.Reworded s.Words) := by
  refine fun hi hfuel => .take_next rfl fun m hm _ _ => ends_name.andThen_eq fun n _ => ?_
  refine .take_then rfl fun _ _ => ?_
  refine ((ends_blocks s fuel).1 m (by omega)).andThen fun b b' hb hbb => ?_
  exact .take_pure rfl hb ⟨rfl, hbb⟩

/-- What a production gives satisfies what is known about its results, whether there was enough fuel
or not, and a second run beside it gives something related. -/
theorem EndsBy.of_gives {α : Type} {V : Vocabulary} (S : Pairing) (extra : Nat) {fuel c k : Nat}
    {production : Nat → Parse α} {P : α → Prop} {Q : α → α → Prop}
    {ts rest : List Token} {a : α} (hts : ∀ t ∈ ts, V.Admits t)
    (ha : Gives (production fuel) ts a rest)
    (h : EndsBy ⟨S, V, 8 * ts.length + c + 1, extra⟩ fuel c k production P Q) :
    P a ∧ rest <:+ ts ∧ (S.Ample rest → ∀ ⦃us : List Token⦄, S.Paired ts us →
      ∃ b left, Gives (production (extra + fuel)) us b left ∧ Q a b ∧ S.Paired rest left) := by
  obtain ⟨rest', hrest, ⟨b, hb, hP, -, hsecond⟩ | ⟨e, he, -⟩⟩ := h ts.length
    (by dsimp only; omega) (fun t ht => ⟨hts t ht, nofun⟩) trivial le_rfl
  · obtain ⟨hok, rfl⟩ := Prod.mk.inj (ha.symm.trans hb)
    obtain rfl := Except.ok.inj hok
    exact ⟨hP, hrest, hsecond⟩
  · exact absurd (congrArg Prod.fst (ha.symm.trans he)) nofun

end Grammar

/-- Every token keeps to the vocabulary of all texts. -/
theorem Vocabulary.any_admits (t : Token) : Vocabulary.any.Admits t :=
  ⟨fun _ => trivial, fun _ => trivial, fun _ => trivial, fun _ => trivial⟩

/-- How many tokens a production takes at least. Two of them may be empty. -/
def Production.least : Production → Nat
  | declarations => 0
  | typeExpr => 0
  | _ => 1

theorem Production.least_eq_one {p : Production} (hdeclarations : p ≠ .declarations)
    (htype : p ≠ .typeExpr) : p.least = 1 := by
  cases p with
  | declarations => exact absurd rfl hdeclarations
  | typeExpr => exact absurd rfl htype
  | _ => rfl

/-- What a production does with the tokens, as long as its trees do not matter. -/
theorem Production.endsWithin (p : Production) (s : Parse.Setting) (fuel : Nat) {hi : Nat}
    (hfuel : 8 * hi + 4 ≤ fuel + s.missing) : s.Ends Parse.anyKind hi p.least (p.parser fuel)
      (p.parser (s.extra + fuel)) (fun _ => True) fun _ _ => True := by
  open Grammar in
  cases p with
  | program => exact (ends_program hi (by omega)).forget
  | block => exact ((ends_blocks s fuel).1 hi (by omega)).forget
  | declarations => exact ((ends_blocks s fuel).2.1 hi (by omega)).forget
  | arrayType initialised => exact (ends_arrayType initialised hi (by omega)).forget
  | valueSection isConst =>
    exact (ends_valueSection (S := fun _ => True) isConst hi (by omega)).forget
  | recordValue => exact ((ends_constValues s fuel).2.2.2.1 hi (by omega)).forget
  | constValue => exact (ends_constValue hi (by omega)).forget
  | variableSection => exact (ends_variableSection hi (by omega)).forget
  | variableValue => exact (ends_variableValue hi (by omega)).forget
  | typeSection => exact (ends_typeSection (S := fun _ => True) hi (by omega)).forget
  | typeDecl => exact (ends_typeDecl (S := fun _ => True) hi (by omega)).forget
  | typeExpr => exact (ends_typeExpr hi (by omega)).forget
  | routine => exact ((ends_blocks s fuel).2.2 hi (by omega)).forget
  | parameterList => exact (ends_parameterList hi (by omega)).forget
  | parameterGroup => exact (ends_parameterGroup hi (by omega)).forget
  | compound => exact (ends_compound hi (by omega)).forget
  | statement => exact ((ends_statements s fuel).1 hi (by omega)).forget
  | assignment => exact (ends_assignment hi (by omega)).forget
  | target => exact (ends_target hi (by omega)).forget
  | recordType => exact ((ends_types s fuel).2.1 hi (by omega)).forget
  | ifStatement => exact ((ends_statements s fuel).2.1 hi (by omega)).forget
  | whileStatement => exact ((ends_statements s fuel).2.2.1 hi (by omega)).forget
  | forStatement => exact ((ends_statements s fuel).2.2.2.1 hi (by omega)).forget
  | procedureCall => exact (ends_procedureCall hi (by omega)).forget
  | functionCall name => exact ((ends_expressions s fuel).2.2.2.2.2.1 hi (by omega)).forget
  | expression => exact (ends_expression hi (by omega)).forget
  | operand => exact ((ends_expressions s fuel).2.1 hi (by omega)).forget
  | factor => exact ((ends_expressions s fuel).2.2.2.1 hi (by omega)).forget

/-- An end of what comes after a position comes after a later position. -/
theorem eq_drop_of_suffix_drop {tokens rest : List Token} {start : Nat}
    (hstart : start ≤ tokens.length) (h : rest <:+ tokens.drop start) :
    rest = tokens.drop (tokens.length - rest.length) ∧ start + rest.length ≤ tokens.length := by
  have hall : rest <:+ tokens := h.trans (List.drop_suffix start tokens)
  refine ⟨List.suffix_iff_eq_drop.1 hall, ?_⟩
  have hlength := h.length_le
  rw [List.length_drop] at hlength
  omega

/-- A production comes to an end, whatever the tokens are and wherever in them it starts: it gives a
tree or rejects the tokens, at a position between its start and the end of the tokens. One that
gives a tree has taken a token, unless it is one of the two that may be empty. -/
theorem Production.ends (p : Production) {tokens : List Token}
    (htokens : ∀ t ∈ tokens, t.IsReadable) {start : Nat} (hstart : start ≤ tokens.length) :
    ∃ stop, start ≤ stop ∧ stop ≤ tokens.length ∧
      ((∃ tree,
          p.parser (Grammar.depthFor (tokens.drop start)) (tokens.drop start) =
            (.ok tree, tokens.drop stop) ∧
          p.parse (tokens.drop start) = .ok (tree, stop - start) ∧
          (p ≠ .declarations → p ≠ .typeExpr → start < stop)) ∨
        ∃ cause line column,
          p.parser (Grammar.depthFor (tokens.drop start)) (tokens.drop start) =
            (.error (.rejected cause line column), tokens.drop stop) ∧
          p.parse (tokens.drop start) = .error (.rejected cause line column)) := by
  have hfuel : 8 * (tokens.drop start).length + 4 ≤ Grammar.depthFor (tokens.drop start) := by
    rw [Grammar.depthFor]
    omega
  have hreadable : ∀ t ∈ tokens.drop start, t.IsReadable := fun t ht =>
    htokens t (List.mem_of_mem_drop ht)
  obtain ⟨rest, hrest, hend⟩ := p.endsWithin ⟨.same, .any, 0, 0⟩
    (Grammar.depthFor (tokens.drop start)) hfuel
    (fun t ht => ⟨Vocabulary.any_admits t, fun _ => hreadable t ht⟩) trivial le_rfl
  obtain ⟨hdrop, hlength⟩ := eq_drop_of_suffix_drop hstart hrest
  refine ⟨tokens.length - rest.length, by omega, by omega, ?_⟩
  rw [← hdrop]
  rcases hend with ⟨tree, htree, -, htaken, -⟩ | ⟨_, hrejected, hcause⟩
  · refine .inl ⟨tree, htree, ?_, fun hdeclarations htype => ?_⟩
    · rw [Production.parse, htree.run_eq, List.length_drop, Nat.sub_right_comm]
      rfl
    · rw [Production.least_eq_one hdeclarations htype, List.length_drop] at htaken
      omega
  · obtain ⟨cause, line, column, rfl⟩ := hcause rfl
    refine .inr ⟨cause, line, column, hrejected, ?_⟩
    rw [Production.parse, Parse.run, hrejected]
    rfl

/-- Tokens with an end mark in the middle, a number that is no numeral, and no end. -/
def brokenTokens : List Token :=
  [⟨.eof, "", 1, 1⟩, ⟨.identifier, "x", 1, 2⟩, ⟨.lbracket, "[", 1, 3⟩, ⟨.number, "12", 1, 4⟩,
    ⟨.plus, "+", 1, 5⟩, ⟨.number, "no", 1, 6⟩]

theorem Production.ends_brokenTokens :
    (∀ t ∈ brokenTokens, t.IsReadable) ∧
      ∃ stop, 1 ≤ stop ∧ stop ≤ brokenTokens.length ∧
        ((∃ tree,
            Production.statement.parser (Grammar.depthFor (brokenTokens.drop 1))
                (brokenTokens.drop 1) = (.ok tree, brokenTokens.drop stop) ∧
            Production.statement.parse (brokenTokens.drop 1) = .ok (tree, stop - 1) ∧
            (Production.statement ≠ .declarations → Production.statement ≠ .typeExpr → 1 < stop)) ∨
          ∃ cause line column,
            Production.statement.parser (Grammar.depthFor (brokenTokens.drop 1))
                (brokenTokens.drop 1) =
              (.error (.rejected cause line column), brokenTokens.drop stop) ∧
            Production.statement.parse (brokenTokens.drop 1) =
              .error (.rejected cause line column)) := by
  have hreadable : ∀ t ∈ brokenTokens, t.IsReadable := by
    unfold Token.IsReadable
    decide
  exact ⟨hreadable, Production.statement.ends hreadable (by decide)⟩

end MiniPascal
