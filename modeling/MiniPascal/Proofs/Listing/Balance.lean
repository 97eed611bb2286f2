import MiniPascal.Proofs.Listing.Programs

/-!
# Which Listings Are Balanced

The listing of a program that is accepted need not be balanced. Whether it is can be told from the
program and from what its analysis knows about names. It is balanced if records are only copied to
records, if arrays are only read and assigned where their elements are integers, characters or
strings, and if each constant and each written type is balanced by itself. Outside of that a listing
is balanced only if parentheses that are missing in one place are made up for in another.

* `list_balanced_iff`: when the listing of a program is balanced.
-/

namespace MiniPascal

open Listing

namespace Listing

/-- Whether a text is balanced is found by reading it. -/
instance (text : String) : Decidable (Balanced text) := decidable_of_iff _ balanced_iff.symm

theorem Balanced.textDepth_eq {text : String} (h : Balanced text) : textDepth text = id := by
  funext d
  cases d with
  | none => exact Depth.read_none _
  | some n =>
    refine Depth.read_eq_some.2 ⟨by rw [h.1], fun start hstart => ?_⟩
    exact Nat.le_trans (h.2 start hstart) (Nat.le_add_left _ _)

end Listing

/-! ### A test for balanced parts -/

mutual

/-- Whether an expression has no part whose listing is unbalanced: no record by itself, and as a
value no element other than an integer, a character or a string. A field is listed with the written
type of its variable, which has to be balanced. -/
def Code.isEven (s : Scopes) (k : Nat) (isAddress : Bool) : Code → Bool
  | .name (.text n) => !s.isRecord k n
  | .element array indices =>
    (isAddress || ["integer", "char", "string"].contains (s.elementName k array)) &&
      indexIsEven s k indices
  | .field record _ => record.owner?.all fun n => decide (Balanced (s.fieldOwner k n))
  | .compare _ left right | .binary _ left right =>
    left.isEven s k isAddress && right.isEven s k isAddress
  | .functionCall _ arguments => argumentsAreEven s k isAddress arguments
  | _ => true

def indexIsEven (s : Scopes) (k : Nat) : List Code → Bool
  | [] => true
  | c :: _ => c.isSimpleIndex || c.isEven s k true

def argumentsAreEven (s : Scopes) (k : Nat) (isAddress : Bool) : List Code → Bool
  | [] => true
  | c :: cs => c.isEven s k isAddress && argumentsAreEven s k isAddress cs

end

def Code.isRecordName (s : Scopes) (k : Nat) : Code → Bool
  | .name (.text n) => s.isRecord k n
  | _ => false

/-- Whether the code is that of an array, or of an element of one, whose elements are not single
cells. -/
def Code.isWideTarget (s : Scopes) (k : Nat) : Code → Bool
  | .name (.text n) => s.isWide k n
  | .element array _ => s.isWide k array
  | _ => false

mutual

/-- Whether a statement has no part whose listing is unbalanced: records are copied to records, and
what is assigned otherwise goes to single cells or to arrays of them. -/
def Code.actionIsEven (s : Scopes) (k inner : Nat) : Code → Bool
  | .assign target value =>
    target.isRecordName s k && value.isRecordName s k ||
      target.isEven s k true && !target.isWideTarget s k && value.isEven s k false
  | .whileLoop condition body => condition.isEven s k false && body.actionIsEven s k k
  | .ifElse condition thenBranch elseBranch => condition.isEven s k false &&
      (thenBranch.actionIsEven s k k && elseBranch.actionIsEven s k k)
  | .block statements => actionsAreEven s inner statements
  | _ => true

def actionsAreEven (s : Scopes) (k : Nat) : List Code → Bool
  | [] => true
  | c :: cs => c.actionIsEven s k 0 && actionsAreEven s k cs

end

def bodyIsEven (s : Scopes) (k : Nat) (ss : List Stmt) : Bool :=
  match Tree.generateAll (stmtTrees (keptStatements ss)) with
  | .ok codes => actionsAreEven s k codes
  | .error _ => true

def Tree.plainIsEven (value : Tree) : Bool :=
  match value.plain with
  | .ok form => decide (Balanced form)
  | .error _ => true

/-- Whether the values of a constant that are listed as they are written are balanced. -/
def constantIsEven : Tree → Bool
  | .dict entries =>
    match entries.lookup "fields", entries.lookup "value" with
    | some (.dict fields), _ => fields.all fun f => f.2.isText || f.2.plainIsEven
    | _, some value => value.plainIsEven
    | _, _ => true
  | _ => true

/-- Whether the listing of a name of the scope `home` is balanced, unless it is that of a
routine. -/
def Scopes.entryIsEven (s : Scopes) (home : Nat) (n : String) : Bool :=
  match ((s.symbolsOf home).lookup n).getD .null with
  | .dict entries =>
    !((entries.lookup "type").getD .null).isTextOf "const" ||
      constantIsEven ((entries.lookup "info").getD .null)
  | _ => true

mutual

def Block.isEven (s : Scopes) (home : Nat) : Block → Bool
  | .mk ds ss => bodyIsEven s home ss && declsAreEven s home ds

def Decl.isEven (s : Scopes) (home : Nat) : Decl → Bool
  | .type n _ | .const n _ _ | .var n _ _ _ => s.entryIsEven home n
  | .routine _ n _ body _ =>
    match s.localsOf home n with
    | some locals => body.isEven s locals
    | none => true

def declsAreEven (s : Scopes) (home : Nat) : List Decl → Bool
  | [] => true
  | d :: ds => d.isEven s home && declsAreEven s home ds

end

/-- Whether the constants and the bodies of a program have balanced listings. -/
def Program.isEven (s : Scopes) (p : Program) : Bool := p.block.isEven s 0

/-! ### What passes the test does nothing to the depth -/

variable {s : Scopes} {k : Nat}

theorem iterate_enclose_id (n : Nat) : enclose^[n] id = id := Function.iterate_fixed enclose_id n

theorem elementDepth_id {isAddress : Bool} {element : String}
    (h : (isAddress || ["integer", "char", "string"].contains element) = true) :
    elementDepth isAddress element id = id := by
  unfold elementDepth
  cases isAddress with
  | true => simp only [iterate_enclose_id, if_true, ite_self]
  | false =>
    have helement : element = "integer" ∨ element = "char" ∨ element = "string" := by
      simpa using h
    rcases helement with rfl | rfl | rfl <;> simp [iterate_enclose_id]

theorem fieldDepth_id {isAddress : Bool} {record : Code}
    (h : (record.owner?.all fun n => decide (Balanced (s.fieldOwner k n))) = true) :
    fieldDepth s k isAddress record = id := by
  unfold fieldDepth
  split
  next n hn =>
    rw [hn, Option.all_some] at h
    rw [(of_decide_eq_true h).textDepth_eq, iterate_enclose_id]
  next => rfl

mutual

theorem Code.depth_of_isEven : ∀ {c : Code} {isAddress : Bool}, c.isEven s k isAddress = true →
    c.depth s k isAddress = id
  | .name t, _, h => by
    cases t with
    | text n =>
      have hn : s.isRecord k n = false := by simpa [Code.isEven] using h
      rw [Code.depth, nameDepth, hn]
      rfl
    | _ => rfl
  | .element array indices, _, h => by
    rw [Code.isEven, Bool.and_eq_true] at h
    rw [Code.depth, indexDepth_of_isEven h.2, elementDepth_id h.1]
  | .field record _, _, h => by
    rw [Code.depth, fieldDepth_id h]
  | .compare _ left right, _, h | .binary _ left right, _, h => by
    rw [Code.isEven, Bool.and_eq_true] at h
    rw [Code.depth, Code.depth_of_isEven h.1, Code.depth_of_isEven h.2, Function.comp_id,
      enclose_id]
  | .functionCall _ arguments, _, h => by
    rw [Code.depth, follow_of_argumentsAreEven h, enclose_id]
  | .nothing, _, _ | .integer _, _, _ | .string _, _, _ | .char _, _, _
  | .procedureCall _ _, _, _ | .assign _ _, _, _ | .block _, _, _ | .whileLoop _ _, _, _
  | .ifElse _ _ _, _, _ | .routine _ _ _ _ _, _, _ => rfl

theorem indexDepth_of_isEven : ∀ {cs : List Code}, indexIsEven s k cs = true →
    indexDepth s k cs = id
  | [], _ => rfl
  | c :: _, h => by
    rw [indexIsEven, Bool.or_eq_true] at h
    rw [indexDepth]
    split
    · rfl
    next hsimple => exact Code.depth_of_isEven (h.resolve_left hsimple)

theorem follow_of_argumentsAreEven : ∀ {cs : List Code} {isAddress : Bool},
    argumentsAreEven s k isAddress cs = true → follow (argumentDepths s k isAddress cs) = id
  | [], _, _ => rfl
  | c :: cs, _, h => by
    rw [argumentsAreEven, Bool.and_eq_true] at h
    rw [argumentDepths, follow_cons, Code.depth_of_isEven h.1, follow_of_argumentsAreEven h.2,
      Function.comp_id]

end

/-- A record is the first half of a call as an address and the second half as a value. -/
theorem Code.depth_of_isRecordName {c : Code} (h : c.isRecordName s k = true) (isAddress : Bool) :
    c.depth s k isAddress = if isAddress then Depth.opened else Depth.closed := by
  unfold Code.isRecordName at h
  split at h
  · rw [Code.depth, nameDepth, h, if_pos rfl]
  · exact absurd h Bool.false_ne_true

theorem assignDepth_of_isRecordName {target : Code} (h : target.isRecordName s k = true)
    (parts : Depth → Depth) : assignDepth s k parts target = parts := by
  unfold Code.isRecordName at h
  split at h
  · rw [assignDepth, if_pos h]
  · exact absurd h Bool.false_ne_true

theorem assignDepth_id {target : Code} (htarget : target.isEven s k true = true)
    (hwide : (!target.isWideTarget s k) = true) : assignDepth s k id target = id := by
  unfold assignDepth
  split
  next n =>
    have hrecord : s.isRecord k n = false := by simpa [Code.isEven] using htarget
    have hcells : s.isWide k n = false := by simpa [Code.isWideTarget] using hwide
    rw [hrecord, if_neg Bool.false_ne_true, hcells, if_neg Bool.false_ne_true, enclose_id]
  next array _ =>
    have hcells : s.isWide k array = false := by simpa [Code.isWideTarget] using hwide
    rw [hcells, if_neg Bool.false_ne_true, enclose_id]
  next => exact enclose_id

mutual

theorem Code.actionDepth_of_isEven : ∀ {c : Code} {k inner : Nat},
    c.actionIsEven s k inner = true → c.actionDepth s k inner = id
  | .assign target value, _, _, h => by
    rw [Code.actionIsEven, Bool.or_eq_true, Bool.and_eq_true, Bool.and_eq_true,
      Bool.and_eq_true] at h
    rw [Code.actionDepth]
    rcases h with ⟨htarget, hvalue⟩ | ⟨⟨htarget, hwide⟩, hvalue⟩
    · rw [assignDepth_of_isRecordName htarget, Code.depth_of_isRecordName htarget,
        Code.depth_of_isRecordName hvalue]
      exact funext Depth.closed_opened
    · rw [Code.depth_of_isEven htarget, Code.depth_of_isEven hvalue, Function.comp_id,
        assignDepth_id htarget hwide]
  | .whileLoop condition body, _, _, h => by
    rw [Code.actionIsEven, Bool.and_eq_true] at h
    rw [Code.actionDepth, Code.depth_of_isEven h.1, Code.actionDepth_of_isEven h.2,
      Function.comp_id, enclose_id]
  | .ifElse condition thenBranch elseBranch, _, _, h => by
    rw [Code.actionIsEven, Bool.and_eq_true, Bool.and_eq_true] at h
    rw [Code.actionDepth, Code.depth_of_isEven h.1, Code.actionDepth_of_isEven h.2.1,
      Code.actionDepth_of_isEven h.2.2, Function.comp_id, Function.comp_id, enclose_id]
  | .block statements, _, _, h => by
    rw [Code.actionDepth, follow_of_actionsAreEven h]
  | .nothing, _, _, _ | .integer _, _, _, _ | .string _, _, _, _ | .char _, _, _, _
  | .name _, _, _, _ | .element _ _, _, _, _ | .field _ _, _, _, _ | .compare _ _ _, _, _, _
  | .binary _ _ _, _, _, _ | .functionCall _ _, _, _, _ | .procedureCall _ _, _, _, _
  | .routine _ _ _ _ _, _, _, _ => rfl

theorem follow_of_actionsAreEven : ∀ {cs : List Code} {k : Nat}, actionsAreEven s k cs = true →
    follow (actionDepths s k cs) = id
  | [], _, _ => rfl
  | c :: cs, _, h => by
    rw [actionsAreEven, Bool.and_eq_true] at h
    rw [actionDepths, follow_cons, Code.actionDepth_of_isEven h.1, follow_of_actionsAreEven h.2,
      Function.comp_id]

end

theorem bodyDepth_of_isEven {ss : List Stmt} (h : bodyIsEven s k ss = true) :
    bodyDepth s k ss = id := by
  unfold bodyDepth
  unfold bodyIsEven at h
  split
  next codes hcodes =>
    rw [hcodes] at h
    exact follow_of_actionsAreEven h
  next => rfl

theorem plainDepth_of_isEven {value : Tree} (h : value.plainIsEven = true) :
    value.plainDepth = id := by
  unfold Tree.plainDepth
  unfold Tree.plainIsEven at h
  split
  next form hform =>
    rw [hform] at h
    exact (of_decide_eq_true h).textDepth_eq
  next => rfl

theorem follow_constantFields : ∀ {fields : List (String × Tree)},
    (fields.all fun f => f.2.isText || f.2.plainIsEven) = true →
    follow (fields.map fun f => enclose (if f.2.isText then id else f.2.plainDepth)) = id
  | [], _ => rfl
  | f :: fields, h => by
    rw [List.all_cons, Bool.and_eq_true, Bool.or_eq_true] at h
    have hfirst : enclose (if f.2.isText then id else f.2.plainDepth) = id := by
      split
      · exact enclose_id
      next htext => rw [plainDepth_of_isEven (h.1.resolve_left htext), enclose_id]
    rw [List.map_cons, follow_cons, hfirst, follow_constantFields h.2, Function.comp_id]

theorem constantDepth_of_isEven {info : Tree} (h : constantIsEven info = true) :
    constantDepth info = id := by
  unfold constantDepth
  unfold constantIsEven at h
  split
  next entries =>
    dsimp only at h ⊢
    generalize entries.lookup "fields" = fields at h ⊢
    generalize entries.lookup "value" = value at h ⊢
    split
    · rw [follow_constantFields h, iterate_enclose_id]
    next hfields =>
      split at h
      · exact absurd rfl (hfields _)
      next heq =>
        rw [Option.some.inj heq, plainDepth_of_isEven h, enclose_id]
      next hnone => exact absurd rfl (hnone _)
    · rfl
  · rfl

theorem Scopes.entryDepth_of_isEven {home : Nat} {n : String} (h : s.entryIsEven home n = true) :
    s.entryDepth home n = id := by
  unfold Scopes.entryIsEven at h
  unfold Scopes.entryDepth Tree.entryDepth
  split
  next entries hentries =>
    rw [hentries, Bool.or_eq_true] at h
    split
    next hconst =>
      refine constantDepth_of_isEven (h.resolve_left ?_)
      rw [hconst]
      exact Bool.false_ne_true
    next => rfl
  next => rfl

mutual

theorem Block.routineDepth_of_isEven : ∀ {b : Block} {locals : Nat}, b.isEven s locals = true →
    b.routineDepth s locals = id
  | .mk ds ss, _, h => by
    rw [Block.isEven, Bool.and_eq_true] at h
    rw [Block.routineDepth, bodyDepth_of_isEven h.1, declsDepth_of_areEven h.2, enclose_id,
      Function.comp_id, enclose_id]

theorem Decl.listedDepth_of_isEven : ∀ {d : Decl} {home : Nat}, d.isEven s home = true →
    d.listedDepth s home = id
  | .type _ (.named _), _, _ => rfl
  | .type _ .omitted, _, _ => rfl
  | .type _ (.array _), _, h | .type _ (.record _), _, h | .const _ _ _, _, h
  | .var _ _ _ _, _, h => Scopes.entryDepth_of_isEven h
  | .routine _ n _ body _, home, h => by
    rw [Decl.isEven] at h
    rw [Decl.listedDepth]
    split
    next locals hlocals =>
      rw [hlocals] at h
      exact Block.routineDepth_of_isEven h
    next => rfl

theorem declsDepth_of_areEven : ∀ {ds : List Decl} {home : Nat}, declsAreEven s home ds = true →
    declsDepth s home ds = id
  | [], _, _ => rfl
  | d :: ds, _, h => by
    rw [declsAreEven, Bool.and_eq_true] at h
    rw [declsDepth, Decl.listedDepth_of_isEven h.1, declsDepth_of_areEven h.2, Function.comp_id]

end

theorem Program.listedDepth_of_isEven {p : Program} (h : p.isEven s = true) :
    p.listedDepth s = id := by
  rw [Program.isEven] at h
  rw [Program.listedDepth]
  cases hblock : p.block with
  | mk ds ss =>
    rw [hblock, Block.isEven, Bool.and_eq_true] at h
    change enclose (bodyDepth s 0 ss) ∘ declsDepth s 0 ds = id
    rw [bodyDepth_of_isEven h.1, declsDepth_of_areEven h.2, enclose_id, Function.comp_id]

/-! ### Balanced listings -/

/-- The listing of a program whose literals have no double quotes is balanced if and only if its
declarations and statements one after the other lead from no open parentheses to none. This is so if
none of them has an unbalanced part. -/
theorem list_balanced_iff {text : String} {tokens : List Token} {a : Analysis} {listing : String}
    (htokens : Token.lex text = .ok tokens)
    (hquotes : ∀ t ∈ tokens, t.kind ∈ [.string, .char] → '"' ∉ t.value.toList)
    (hanalysis : Pipeline.analyze text = .ok a) (hlisting : Pipeline.list a .data = .ok listing) :
    ∃ p, Program.parse tokens = .ok p ∧
      (Balanced listing ↔ p.listedDepth a.scopes (some 0) = some 0) ∧
      (p.isEven a.scopes = true → Balanced listing) := by
  obtain ⟨tokens', p, code, htokens', hparse, hrun⟩ := analyze_eq_ok hanalysis
  obtain rfl : tokens = tokens' := Except.ok.inj (htokens.symm.trans htokens')
  have hmoves :=
    (succeedsIff_list htokens (fun _ => hquotes) hparse hrun).2 listing hlisting trivial
  have hiff : Balanced listing ↔ p.listedDepth a.scopes (some 0) = some 0 := by
    rw [balanced_iff, hmoves.2]
  refine ⟨p, hparse, hiff, fun heven => ?_⟩
  rw [hiff, Program.listedDepth_of_isEven heven]
  rfl

/-- Whether the literals of a program have no double quotes, whether it passes the test and what its
listing does to the depth, if it is listed at all. -/
def listedDepth? (text : String) : Option (Bool × Bool × Depth) := do
  let tokens ← (Token.lex text).toOption
  let p ← (Program.parse tokens).toOption
  let a ← (Pipeline.analyze text).toOption
  let _ ← (Pipeline.list a .data).toOption
  let unquoted := decide (∀ t ∈ tokens, t.kind ∈ [.string, .char] → '"' ∉ t.value.toList)
  return (unquoted, p.isEven a.scopes, p.listedDepth a.scopes (some 0))

/-- What `listedDepth?` finds out about a program. -/
theorem exists_of_listedDepth? {text : String} {even : Bool} {d : Depth}
    (h : listedDepth? text = some (true, even, d)) :
    ∃ tokens p a listing, Token.lex text = .ok tokens ∧ Program.parse tokens = .ok p ∧
      Pipeline.analyze text = .ok a ∧ Pipeline.list a .data = .ok listing ∧
      (∀ t ∈ tokens, t.kind ∈ [.string, .char] → '"' ∉ t.value.toList) ∧
      p.isEven a.scopes = even ∧ p.listedDepth a.scopes (some 0) = d := by
  obtain ⟨tokens, htokens, h⟩ := Option.bind_eq_some_iff.1 h
  obtain ⟨p, hparse, h⟩ := Option.bind_eq_some_iff.1 h
  obtain ⟨a, hanalysis, h⟩ := Option.bind_eq_some_iff.1 h
  obtain ⟨listing, hlisting, h⟩ := Option.bind_eq_some_iff.1 h
  obtain ⟨hunquoted, hresult⟩ := Prod.mk.inj (Option.some.inj h)
  obtain ⟨heven, hdepth⟩ := Prod.mk.inj hresult
  exact ⟨tokens, p, a, listing, Except.eq_ok_of_toOption htokens, Except.eq_ok_of_toOption hparse,
    Except.eq_ok_of_toOption hanalysis, Except.eq_ok_of_toOption hlisting,
    of_decide_eq_true hunquoted, heven, hdepth⟩

def truthRead : String :=
  "program p; var a: array[1..3] of boolean; x: boolean; begin x := a[1]; end."

/-- A record is copied and integers are read from an array. -/
def recordCopy : String :=
  "program p; type r = record a: integer; end; var x: r; y: r; b: array[1..3] of integer; " ++
    "begin x := y; b[2] := b[1] + x.a; while b[2] < 3 do begin b[2] := 5; end; end."

theorem list_balanced_iff_recordCopy :
    (∃ a listing, Pipeline.analyze truthRead = .ok a ∧ Pipeline.list a .data = .ok listing ∧
      ¬Balanced listing) ∧
    ∃ a listing, Pipeline.analyze recordCopy = .ok a ∧ Pipeline.list a .data = .ok listing ∧
      Balanced listing := by
  constructor
  · have hrun : listedDepth? truthRead = some (true, false, some 1) := by
      rw [listedDepth?, Token.lex_eq_lexChars (s := truthRead) String.toList_ofList,
        Pipeline.analyze_eq_analyzeChars (s := truthRead) String.toList_ofList]
      decide +kernel
    obtain ⟨tokens, p, a, listing, htokens, hparse, hanalysis, hlisting, hquotes, -, hdepth⟩ :=
      exists_of_listedDepth? hrun
    obtain ⟨p', hparse', hiff, -⟩ := list_balanced_iff htokens hquotes hanalysis hlisting
    obtain rfl : p = p' := Except.ok.inj (hparse.symm.trans hparse')
    refine ⟨a, listing, hanalysis, hlisting, fun hbalanced => ?_⟩
    exact absurd (hdepth.symm.trans (hiff.1 hbalanced)) (by decide)
  · have hchars : recordCopy.toList = _ :=
      Text.toList_append_eq String.toList_ofList String.toList_ofList
    have hrun : listedDepth? recordCopy = some (true, true, some 0) := by
      rw [listedDepth?, Token.lex_eq_lexChars hchars, Pipeline.analyze_eq_analyzeChars hchars]
      decide +kernel
    obtain ⟨tokens, p, a, listing, htokens, hparse, hanalysis, hlisting, hquotes, heven, -⟩ :=
      exists_of_listedDepth? hrun
    obtain ⟨p', hparse', -, hbalanced⟩ := list_balanced_iff htokens hquotes hanalysis hlisting
    obtain rfl : p = p' := Except.ok.inj (hparse.symm.trans hparse')
    exact ⟨a, listing, hanalysis, hlisting, hbalanced heven⟩

end MiniPascal
