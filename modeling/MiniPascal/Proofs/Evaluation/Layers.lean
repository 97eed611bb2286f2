import MiniPascal.Proofs.Parsing.Totality
import MiniPascal.Proofs.Precedence
import MiniPascal.Tree.Evaluate

/-!
# Arithmetic by Layers

In the layered grammar a product binds tighter than a sum. A sum is parsed to lists of operands with
operators between them, and the lists are evaluated from the left. Here both are proved to follow
the conventional reading of a sum, and `layered_sum_evaluate` puts both together. Sums are built
from the left, and the parser has the first operand before the others, so what comes after a sum is
carried along.
-/

namespace MiniPascal

open Precedence

/-! ### Numerals -/

namespace Text

theorem isBlank_of_isDigit {c : Char} (h : c.isDigit) : isBlank c = false := by
  obtain ⟨hlow, hhigh⟩ : 0x30 ≤ c.toNat ∧ c.toNat ≤ 0x39 := by
    simpa [Char.isDigit, UInt32.le_iff_toNat_le] using h
  have hnone : ∀ n ≤ 0x39, 0x30 ≤ n → blankRanges.contains n = false := by decide
  exact hnone _ hhigh hlow

theorem withoutLowLines_of_isDigit {cs : List Char} (h : ∀ c ∈ cs, c.isDigit) :
    withoutLowLines cs = some cs := by
  fun_induction withoutLowLines cs <;> simp_all

/-- A digit is not a sign. -/
theorem signed_of_isDigit {cs : List Char} (h : ∀ c ∈ cs, c.isDigit) : signed cs = (false, cs) := by
  fun_cases signed cs with
  | case1 => exact absurd (h '-' List.mem_cons_self) (by decide)
  | case2 => exact absurd (h '+' List.mem_cons_self) (by decide)
  | case3 => rfl

/-- Digits denote the same number with and without blanks and signs being allowed for. -/
theorem readInt?_of_isDigit {s : String} (h : ∀ c ∈ s.toList, c.isDigit) :
    readInt? s = (readNat? s).map Int.ofNat := by
  have hdrop : ∀ {cs : List Char}, (∀ c ∈ cs, c.isDigit) → cs.dropWhile isBlank = cs := by
    intro cs hcs
    cases cs with
    | nil => rfl
    | cons c cs =>
      exact List.dropWhile_cons_of_neg (by simp [isBlank_of_isDigit (hcs c List.mem_cons_self)])
  have htrim : (trimBlanks s).toList = s.toList := by
    rw [trimBlanks, String.toList_ofList, hdrop h, hdrop fun c hc => h c (List.mem_reverse.1 hc),
      List.reverse_reverse]
  rw [readInt?, htrim, signed_of_isDigit h]
  dsimp only
  rw [withoutLowLines_of_isDigit h, Option.bind_eq_bind, Option.bind_some, String.ofList_toList]
  cases readNat? s <;> rfl

end Text

/-- If the lexeme is a number, it is written with at most 4300 of the digits from 0 to 9. -/
def Lexeme.IsShortNumeral (l : Lexeme) : Prop :=
  l.1 = .number → l.2.isEmpty = false ∧ l.2.toList.all Char.isDigit ∧ l.2.length ≤ 4300

/-! ### Parsing by layers -/

namespace Layered

variable {α β : Type} {ts mid rest : List Token} {extra : Nat}

theorem bind_eq {p : Parse α} {a : α} (h : p ts = .ok (a, mid)) (f : α → Parse β) :
    (p >>= f) ts = f a mid := by
  change (p ts >>= fun r => f r.1 r.2) = _
  rw [h]
  rfl

theorem take_eq {t : Token} {wanted : TokenKind} (h : t.kind = wanted) :
    take wanted (t :: ts) = .ok (t.value, ts) := by
  change (if t.kind = wanted then _ else _ : Parse String) (t :: ts) = _
  rw [if_pos h]
  rfl

theorem kind_eq (ts : List Token) : kind ts = .ok (kindOf ts, ts) := by
  cases ts <;> rfl

/-- With fuel for each of the tokens the parser gives `a` and leaves `rest`. -/
def Gives (extra : Nat) (p : Nat → Parse α) (ts : List Token) (a : α) (rest : List Token) : Prop :=
  ∀ fuel, 4 * ts.length + extra ≤ fuel → p (fuel + 1) ts = .ok (a, rest)

section Loop

variable {kinds : List TokenKind} {item : Nat → Parse α} {loop : Nat → Parse (List (String × α))}
  (hloop : ∀ fuel, loop (fuel + 1) = do
    let operator ← kind
    if operator ∈ kinds then
      let written ← take operator
      let x ← item fuel
      return (written, x) :: (← loop fuel)
    else return [])

include hloop

theorem gives_stop (h : kindOf rest ∉ kinds) : Gives extra loop rest [] rest := by
  intro fuel _
  rw [hloop, bind_eq (kind_eq rest), if_neg h]
  rfl

theorem gives_more {t : Token} {x : α} {more : List (String × α)} (ht : t.kind ∈ kinds)
    (hitem : Gives 2 item ts x mid) (hmid : mid.length ≤ ts.length)
    (hmore : Gives 0 loop mid more rest) :
    Gives 0 loop (t :: ts) ((t.value, x) :: more) rest := by
  intro fuel hfuel
  rw [List.length_cons] at hfuel
  obtain ⟨fuel, rfl⟩ : ∃ k, fuel = k + 1 := ⟨fuel - 1, by omega⟩
  rw [hloop, bind_eq (kind_eq _), kindOf_cons, if_pos ht, bind_eq (take_eq rfl),
    bind_eq (hitem fuel (by omega)), bind_eq (hmore fuel (by omega))]
  rfl

end Loop

end Layered

namespace Precedence

open Layered (Gives)

mutual

/-- A sum in layers, with further products after it. -/
def Sum.layers (more : List (String × Layered.Product)) : Sum → Layered.Sum
  | .product p => .mk (p.layers []) more
  | .more s op p => s.layers ((op.sign, p.layers []) :: more)

def Product.layers (more : List (String × Layered.Factor)) : Product → Layered.Product
  | .factor f => .mk f.layers more
  | .more p f => p.layers (("*", f.layers) :: more)

def Factor.layers : Factor → Layered.Factor
  | .number written => .number (numberOf written)
  | .name n => .name n
  | .group s => .group (s.layers [])

end

variable {ts mid rest : List Token}

theorem length_of_spells {ls : List Lexeme} (h : Spells ls ts rest) :
    ts.length = ls.length + rest.length := by
  induction ls generalizing ts with
  | nil => rw [spells_nil.1 h, List.length_nil, Nat.zero_add]
  | cons l ls ih =>
    obtain ⟨t, ts, rfl, -, -, h⟩ := spells_cons.1 h
    rw [List.length_cons, List.length_cons, ih h]
    omega

theorem Additive.operatorKind_sign (op : Additive) :
    (Lexeme.operator op.sign).1 ∈ [TokenKind.plus, .minus] ∧
      (Lexeme.operator op.sign).1 ∉ [TokenKind.asterisk, .kwDiv] := by
  cases op <;> decide

mutual

/-- The parser of sums reads a sum and whatever products come after it. -/
theorem Sum.gives : ∀ (s : Sum), (∀ l ∈ s.lexemes, l.IsShortNumeral) →
    ∀ {ts mid rest : List Token} {more}, Spells s.lexemes ts mid →
    kindOf mid ∉ [TokenKind.asterisk, .kwDiv] → Gives 0 Layered.addends mid more rest →
    Gives 3 Layered.sum ts (s.layers more) rest
  | .product p, h, ts, mid, rest, more, hs, hstop, hmore => by
    have hp := p.gives h hs (Layered.gives_stop Layered.multipliers.eq_2 hstop)
    have hlength := length_of_spells hs
    intro fuel hfuel
    obtain ⟨fuel, rfl⟩ : ∃ k, fuel = k + 1 := ⟨fuel - 1, by omega⟩
    rw [Layered.sum, Layered.bind_eq (hp fuel (by omega)), Layered.bind_eq (hmore fuel (by omega))]
    rfl
  | .more s op p, h, ts, mid, rest, more, hs, hstop, hmore => by
    rw [Sum.lexemes, List.forall_mem_append, List.forall_mem_cons] at h
    obtain ⟨_, hs, hp⟩ := spells_append.1 hs
    obtain ⟨t, ts', rfl, hkind, hvalue, hp⟩ := spells_cons.1 hp
    have hlength := length_of_spells hp
    have hproduct := p.gives h.2.2 hp (Layered.gives_stop Layered.multipliers.eq_2 hstop)
    obtain ⟨hjoins, hother⟩ := op.operatorKind_sign
    refine s.gives h.1 hs (by rwa [kindOf_cons, hkind]) ?_
    have hnext := Layered.gives_more Layered.addends.eq_2 (hkind ▸ hjoins) hproduct (by omega) hmore
    rwa [hvalue] at hnext

theorem Product.gives : ∀ (p : Product), (∀ l ∈ p.lexemes, l.IsShortNumeral) →
    ∀ {ts mid rest : List Token} {more}, Spells p.lexemes ts mid →
    Gives 0 Layered.multipliers mid more rest → Gives 2 Layered.product ts (p.layers more) rest
  | .factor f, h, ts, mid, rest, more, hs, hmore => by
    have hf := f.gives h hs
    have hlength := length_of_spells hs
    intro fuel hfuel
    obtain ⟨fuel, rfl⟩ : ∃ k, fuel = k + 1 := ⟨fuel - 1, by omega⟩
    rw [Layered.product, Layered.bind_eq (hf fuel (by omega)),
      Layered.bind_eq (hmore fuel (by omega))]
    rfl
  | .more p f, h, ts, mid, rest, more, hs, hmore => by
    rw [Product.lexemes, List.forall_mem_append, List.forall_mem_cons] at h
    obtain ⟨_, hs, hf⟩ := spells_append.1 hs
    obtain ⟨t, ts', rfl, hkind, hvalue, hf⟩ := spells_cons.1 hf
    have hlength := length_of_spells hf
    have hfactor : Gives 2 Layered.factor ts' f.layers mid :=
      fun fuel hfuel => f.gives h.2.2 hf fuel (by omega)
    refine p.gives h.1 hs ?_
    have hnext := Layered.gives_more (t := t) Layered.multipliers.eq_2 (by rw [hkind]; decide)
      hfactor (by omega) hmore
    rwa [hvalue] at hnext

theorem Factor.gives : ∀ (f : Factor), (∀ l ∈ f.lexemes, l.IsShortNumeral) →
    ∀ {ts rest : List Token}, Spells f.lexemes ts rest → Gives 1 Layered.factor ts f.layers rest
  | .number written, h, ts, rest, hs => by
    obtain ⟨t, ts, rfl, hkind, hvalue, hs⟩ := spells_cons.1 hs
    obtain rfl := spells_nil.1 hs
    replace hkind : t.kind = .number := hkind
    obtain ⟨hne, hdigits, hlength⟩ := h _ List.mem_cons_self rfl
    obtain ⟨n, hn⟩ := Text.exists_readNat? hne hdigits hlength
    have hint := Text.readInt?_of_isDigit (List.all_eq_true.1 hdigits)
    have hnumber : Layered.takeNumber (t :: ts) = .ok (n, ts) := by
      rw [Layered.takeNumber, Layered.bind_eq (Layered.take_eq hkind), hvalue, hint, hn]
      rfl
    intro fuel _
    rw [Layered.factor, Layered.bind_eq (Layered.kind_eq _), kindOf_cons, hkind]
    dsimp only
    rw [Layered.bind_eq hnumber, Factor.layers, numberOf, hn]
    rfl
  | .name n, _, ts, rest, hs => by
    obtain ⟨t, ts, rfl, hkind, hvalue, hs⟩ := spells_cons.1 hs
    obtain rfl := spells_nil.1 hs
    replace hkind : t.kind = .identifier := hkind
    intro fuel _
    rw [Layered.factor, Layered.bind_eq (Layered.kind_eq _), kindOf_cons, hkind]
    dsimp only
    rw [Layered.bind_eq (Layered.take_eq hkind), hvalue]
    rfl
  | .group s, h, ts, rest, hs => by
    rw [Factor.lexemes, List.forall_mem_cons, List.forall_mem_append] at h
    obtain ⟨t, ts, rfl, hkind, -, hs⟩ := spells_cons.1 hs
    obtain ⟨mid, hinner, hclose⟩ := spells_append.1 hs
    obtain ⟨u, us, rfl, hkind', -, hclose⟩ := spells_cons.1 hclose
    obtain rfl := spells_nil.1 hclose
    replace hkind : t.kind = .lparen := hkind
    replace hkind' : u.kind = .rparen := hkind'
    have hsum := s.gives h.2.1 hinner (by rw [kindOf_cons, hkind']; decide)
      (Layered.gives_stop Layered.addends.eq_2 (by rw [kindOf_cons, hkind']; decide))
    intro fuel hfuel
    rw [List.length_cons] at hfuel
    obtain ⟨fuel, rfl⟩ : ∃ k, fuel = k + 1 := ⟨fuel - 1, by omega⟩
    rw [Layered.factor, Layered.bind_eq (Layered.kind_eq _), kindOf_cons, hkind]
    dsimp only
    rw [Layered.bind_eq (Layered.take_eq hkind), Layered.bind_eq (hsum fuel (by omega)),
      Layered.bind_eq (Layered.take_eq hkind')]
    rfl

end

end Precedence

/-! ### Evaluating layers -/

namespace Tree

variable {context : List (String × Tree)} {ts : List Tree} {t v operator w : Tree}

/-- Wherever it stands, the tree evaluates to `v`, and nothing is put into the memory. -/
def Yields (context : List (String × Tree)) (t v : Tree) : Prop :=
  ∀ path memory, memory.context = context → operandAt path t memory = .ok (.value v, memory)

theorem Yields.evaluate (h : Yields context t v) : t.evaluate context = .ok v := by
  change (operandAt [] t ⟨context, []⟩ >>= fun r => pure (r.2.valueOf r.1)) = _
  rw [h [] ⟨context, []⟩ rfl]
  rfl

/-- Added to `left`, the operands and operators amount to `v`. -/
def Adds (context : List (String × Tree)) (left : Tree) (ts : List Tree) (v : Tree) : Prop :=
  ∀ path memory, memory.context = context →
    addTerms path (.value left) ts memory = .ok (.value v, memory)

/-- Multiplied with `left`, the operands and operators amount to `v`. -/
def Multiplies (context : List (String × Tree)) (left : Tree) (ts : List Tree) (v : Tree) : Prop :=
  ∀ path memory, memory.context = context →
    multiplyFactors path true (.value left) ts memory = .ok (.value v, memory)

theorem Adds.nil (v : Tree) : Adds context v [] v := fun _ _ _ => by
  rfl

theorem Multiplies.nil (v : Tree) : Multiplies context v [] v := fun _ _ _ => by
  rfl

theorem Adds.cons {left u : Tree} (ht : Yields context t u)
    (happly : applyAdditive? operator left u = some (.ok v)) (h : Adds context v ts w) :
    Adds context left (operator :: t :: ts) w := by
  intro path memory hcontext
  have hadd : Evaluation.add operator (.value left) (.value u) memory = .ok (.value v, memory) := by
    simp only [Evaluation.add, Evaluation.operate?, Memory.valueOf, happly, bind, StateT.bind,
      Except.bind, Option.getD_some]
    rfl
  change (operandAt (ts.length :: path) t memory >>= fun r =>
    Evaluation.add operator (.value left) r.1 r.2 >>= fun r' => addTerms path r'.1 ts r'.2) = _
  rw [ht _ memory hcontext]
  change (Evaluation.add operator (.value left) (.value u) memory >>= fun r' =>
    addTerms path r'.1 ts r'.2) = _
  rw [hadd]
  exact h path memory hcontext

theorem Multiplies.cons {left u : Tree} (ht : Yields context t u)
    (happly : applyMultiplicative? operator left u = some (.ok v)) (h : Multiplies context v ts w) :
    Multiplies context left (operator :: t :: ts) w := by
  intro path memory hcontext
  rw [multiplyFactors]
  simp only [bind, StateT.bind, Except.bind, ht _ memory hcontext, Evaluation.operate?,
    Memory.valueOf, happly]
  exact h path memory hcontext

theorem Yields.simple (ht : Yields context t v) (hts : Adds context v ts w) (n : Tree) :
    Yields context (.simple (.list (t :: ts)) n) w := by
  intro path memory hcontext
  rw [operandAt, sumAt]
  simp only [bind, StateT.bind, Except.bind, ht _ memory hcontext]
  exact hts path memory hcontext

theorem Yields.term (ht : Yields context t v) (hts : Multiplies context v ts w) (n : Tree) :
    Yields context (.term (.list (t :: ts)) n) w := by
  intro path memory hcontext
  rw [operandAt, productAt]
  simp only [bind, StateT.bind, Except.bind, ht _ memory hcontext]
  exact hts path memory hcontext

theorem Yields.int (n : Int) (a b c : Tree) : Yields context (.factor (.int n) a b c) (.int n) := by
  intro path memory _
  rfl

theorem Yields.name {name : String} {n : Int} (h : context.lookup name = some (.int n))
    (b c : Tree) : Yields context (.factor .null (.text name) b c) (.int n) := by
  intro path memory hcontext
  change Evaluation.ofName (.text name) memory = _
  simp only [Evaluation.ofName, hcontext, h]

theorem Yields.group (h : Yields context t v) (hnull : t.isNull = false) (c : Tree) :
    Yields context (.factor .null .null t c) v := by
  intro path memory hcontext
  rw [operandAt, hnull]
  exact h _ memory hcontext

end Tree

namespace Precedence

open MiniPascal.Tree (Yields Adds Multiplies)

variable {context : List (String × Tree)} {ρ : String → Int}

theorem Additive.applyAdditive?_sign (op : Additive) (m n : Int) :
    Tree.applyAdditive? (.text op.sign) (.int m) (.int n) = some (.ok (.int (op.apply m n))) := by
  cases op <;> rfl

mutual

/-- The layers of a sum have its value, joined with the products that come after it. -/
theorem Sum.yields : ∀ (s : Sum), (∀ n, Lexeme.name n ∈ s.lexemes →
      context.lookup n = some (.int (ρ n))) →
    ∀ {more v}, Adds context (.int (s.value ρ)) (Layered.productTrees more) v →
    Yields context (s.layers more).toTree v
  | .product p, h, more, v, hmore => (p.yields h (Multiplies.nil _)).simple hmore .null
  | .more s op p, h, more, v, hmore => by
    have hp : Yields context (p.layers []).toTree _ :=
      p.yields (fun n hn => h n (by simp [Sum.lexemes, hn])) (Multiplies.nil _)
    exact s.yields (fun n hn => h n (by simp [Sum.lexemes, hn]))
      (.cons hp (op.applyAdditive?_sign _ _) hmore)

theorem Product.yields : ∀ (p : Product), (∀ n, Lexeme.name n ∈ p.lexemes →
      context.lookup n = some (.int (ρ n))) →
    ∀ {more v}, Multiplies context (.int (p.value ρ)) (Layered.factorTrees more) v →
    Yields context (p.layers more).toTree v
  | .factor f, h, more, v, hmore => (f.yields h).term hmore .null
  | .more p f, h, more, v, hmore => by
    have hf := f.yields (fun n hn => h n (by simp [Product.lexemes, hn]))
    exact p.yields (fun n hn => h n (by simp [Product.lexemes, hn])) (.cons hf rfl hmore)

theorem Factor.yields : ∀ (f : Factor), (∀ n, Lexeme.name n ∈ f.lexemes →
      context.lookup n = some (.int (ρ n))) →
    Yields context f.layers.toTree (.int (f.value ρ))
  | .number written, _ => .int _ _ _ _
  | .name n, h => .name (h n List.mem_cons_self) _ _
  | .group s, h => by
    have hs : Yields context (s.layers []).toTree _ :=
      s.yields (fun n hn => h n (by simp [Factor.lexemes, hn])) (Adds.nil _)
    exact hs.group (by cases s.layers []; rfl) _

end

end Precedence

/-- A sum of products is parsed in layers up to its end, and its layers evaluate to its conventional
value: products are formed first, and operators of one layer are applied from the left. -/
theorem layered_sum_evaluate (s : Sum) {tokens rest : List Token}
    {context : List (String × Tree)} {ρ : String → Int}
    (htokens : tokens.map Token.lexeme = s.lexemes) (hnumerals : ∀ l ∈ s.lexemes, l.IsShortNumeral)
    (hrest : kindOf rest ∉ [TokenKind.plus, .minus, .asterisk, .kwDiv])
    (hcontext : ∀ n, Lexeme.name n ∈ s.lexemes → context.lookup n = some (.int (ρ n))) :
    ∃ tree, Layered.Production.sum.parse (tokens ++ rest) = .ok (tree, tokens.length) ∧
      tree.evaluate context = .ok (.int (s.value ρ)) := by
  simp only [List.mem_cons, List.not_mem_nil, or_false, not_or] at hrest
  have hgives := s.gives hnumerals (spells_of_map_eq htokens rest) (by simp [hrest])
    (Layered.gives_stop Layered.addends.eq_2 (by simp [hrest]))
  refine ⟨(s.layers []).toTree, ?_, (s.yields hcontext (.nil _)).evaluate⟩
  have hfuel : Grammar.depthFor (tokens ++ rest) = 8 * (tokens ++ rest).length + 15 + 1 := rfl
  change (((Layered.Sum.toTree <$> Layered.sum (Grammar.depthFor (tokens ++ rest)))
    (tokens ++ rest)) >>= fun r => pure (r.1, (tokens ++ rest).length - r.2.length)) = _
  rw [hfuel, map_eq_pure_bind, Layered.bind_eq (hgives _ (by omega))]
  change Except.ok _ = _
  rw [List.length_append, Nat.add_sub_cancel]

/-- `x - 2 * (x - 07) * x`. -/
def threeFactors : Sum :=
  .more (.product (.factor (.name "x"))) .minus (.more (.more (.factor (.number "2"))
    (.group (.more (.product (.factor (.name "x"))) .minus (.factor (.number "07"))))) (.name "x"))

/-- Where `x` is 3, the value of `x - 2 * (x - 07) * x` is 27. -/
theorem layered_sum_evaluate_threeFactors :
    threeFactors.value (fun _ => 3) = 27 ∧
    (∃ l ∈ threeFactors.lexemes, l.1 = .number) ∧
    ∃ tree, Layered.Production.sum.parse (tokensAt 1 1 threeFactors.lexemes ++
        [⟨.semicolon, ";", 1, 9⟩]) = .ok (tree, 11) ∧
      tree.evaluate [("y", .null), ("x", .int 3)] = .ok (.int 27) := by
  have hnumerals : ∀ l ∈ threeFactors.lexemes,
      l.1 = .number → l.2.isEmpty = false ∧ l.2.toList.all Char.isDigit ∧ l.2.length ≤ 4300 := by
    decide
  have hnames : ∀ n, Lexeme.name n ∈ threeFactors.lexemes →
      [("y", Tree.null), ("x", .int 3)].lookup n = some (.int 3) := by
    intro n hn
    have hx : ∀ l ∈ threeFactors.lexemes, l.1 = .identifier → l.2 = "x" := by decide
    rw [show n = "x" from hx _ hn rfl]
    rfl
  exact ⟨rfl, by decide, layered_sum_evaluate threeFactors (ρ := fun _ => 3)
    (map_lexeme_tokensAt 1 1 threeFactors.lexemes) hnumerals (by decide) hnames⟩

end MiniPascal
