import MiniPascal.Proofs.Code.Texts
import MiniPascal.Proofs.Listing.Names
import MiniPascal.Proofs.Listing.Written

/-!
# Listings of Expressions

The listing of an expression fails only because of names. An access to an element needs to know the
array, and an access to a field needs to know the name that the record starts with; all other names
are listed as they are. Of the indices of an access only the first is listed, and nothing is listed
of the record that a field is selected from but its name.

What is listed need not be balanced. A record is listed as the first or as the second half of a call
that copies it, so that it opens a parenthesis as an address and closes one as a value. An element
of an array is loaded with one parenthesis too many unless it is an integer, a character or a
string. All else is balanced as far as its parts are, apart from fields of a parameter, which are
listed with the type of the parameter as it is written.
-/

namespace MiniPascal

open Listing

/-! ### Names that are needed -/

/-- Whether what is known about a name describes an array. -/
def Tree.isArrayEntry (entry : Tree) : Bool :=
  match (do (← Listing.valueInfo entry).get "type" : Except Fault Tree) with
  | .ok type => type.isTextOf "array"
  | .error _ => false

/-- A name stands for an array in the scope `k`. -/
def Scopes.KnowsArray (s : Scopes) (k : Nat) (n : String) : Prop :=
  ∃ entry, s.lookupIn k n = some entry ∧ entry.isArrayEntry = true

/-- What is given as a tree is a name that is known in the scope `k`. -/
def Scopes.Knows (s : Scopes) (k : Nat) : Tree → Prop
  | .text n => (s.lookupIn k n).isSome = true
  | _ => False

/-- The name by which fields of a record are listed: where the code of the record starts with a
name. -/
def Code.start? : Code → Option Tree
  | .name n => some n
  | .element array _ => some (.text array)
  | .functionCall n _ => some n
  | _ => none

mutual

/-- All that the listing of an expression needs is known in the scope `k`. -/
def Code.Listable (s : Scopes) (k : Nat) : Code → Prop
  | .element array indices => s.KnowsArray k array ∧ firstListable s k indices
  | .field record _ => ∀ n ∈ record.start?, s.Knows k n
  | .compare _ left right | .binary _ left right => left.Listable s k ∧ right.Listable s k
  | .functionCall _ arguments => allListable s k arguments
  | _ => True

def firstListable (s : Scopes) (k : Nat) : List Code → Prop
  | [] => True
  | c :: _ => c.Listable s k

def allListable (s : Scopes) (k : Nat) : List Code → Prop
  | [] => True
  | c :: cs => c.Listable s k ∧ allListable s k cs

end

theorem allListable_iff {s : Scopes} {k : Nat} : ∀ {cs : List Code},
    allListable s k cs ↔ ∀ c ∈ cs, c.Listable s k
  | [] => by simp [allListable]
  | c :: cs => by rw [allListable, List.forall_mem_cons, allListable_iff]

/-- What an entry says about a value, if it is an array and if it is none. -/
theorem Entry.isArrayEntry_cases {V : Vocabulary} {entry : Tree} (h : Entry V entry) :
    ∃ info, Listing.valueInfo entry = .ok info ∧
      (entry.isArrayEntry = true ∧ ArrayInfo V info ∨
        entry.isArrayEntry = false ∧ info.get "element_type" = .ok .null ∧
          info.get "dimensions" = .ok .null) := by
  obtain ⟨info, hinfo, hform⟩ := h.valueInfo
  refine ⟨info, hinfo, ?_⟩
  rw [Tree.isArrayEntry, Except.bind_of_eq_ok hinfo]
  cases hform with
  | array h =>
    refine .inl ⟨?_, h⟩
    cases h
    rfl
  | other hdimensions helement htype harray =>
    refine .inr ⟨by rw [htype]; exact harray, ?_, hdimensions⟩
    rw [Tree.get, helement]
    rfl

/-! ### What is known about names -/

/-- Whether what is known about a name describes a record. -/
def Tree.holdsRecord (entry : Tree) : Bool :=
  match (do (← valueInfo entry).get "type" : Except Fault Tree) with
  | .ok type => type.isTextOf "record"
  | .error _ => false

/-- The type of the elements of an array, or nothing if a name stands for no array. -/
def Tree.elementName (entry : Tree) : String :=
  match (do (← valueInfo entry).get "element_type" : Except Fault Tree) with
  | .ok (.text element) => element
  | _ => ""

def Tree.fieldOwner (entry : Tree) : String :=
  match (do recordTypeName (← valueInfo entry) : Except Fault String) with
  | .ok owner => owner
  | .error _ => ""

namespace Scopes

/-- Whether a name stands for a record in the scope `k`. -/
def isRecord (s : Scopes) (k : Nat) (n : String) : Bool := (s.lookupIn k n).any Tree.holdsRecord

/-- The type of the elements of an array that is known in the scope `k`. -/
def elementName (s : Scopes) (k : Nat) (n : String) : String :=
  ((s.lookupIn k n).map Tree.elementName).getD ""

/-- The text that fields of a variable are listed with in the scope `k`. -/
def fieldOwner (s : Scopes) (k : Nat) (n : String) : String :=
  ((s.lookupIn k n).map Tree.fieldOwner).getD ""

end Scopes

/-! ### Expressions and the depth -/

def nameDepth (isAddress isRecord : Bool) : Depth → Depth :=
  if isRecord then (if isAddress then Depth.opened else Depth.closed) else id

/-- What an access to an element does to the depth, by the type of the elements and by what the
index does. -/
def elementDepth (isAddress : Bool) (element : String) (index : Depth → Depth) : Depth → Depth :=
  if element ∈ ["integer", "char"] then enclose^[if isAddress then 3 else 5] index
  else if element = "string" then enclose^[if isAddress then 2 else 4] index
  else if isAddress then enclose^[3] index
  else enclose^[2] fun d => enclose^[3] index d.opened

/-- The variable or function whose fields are listed with its type. -/
def Code.owner? : Code → Option String
  | .name (.text n) | .functionCall (.text n) _ => some n
  | _ => none

def fieldDepth (s : Scopes) (k : Nat) (isAddress : Bool) (record : Code) : Depth → Depth :=
  match record.owner? with
  | some n => enclose^[if isAddress then 1 else 3] (textDepth (s.fieldOwner k n))
  | none => id

/-- Whether an index is a number or a name, which are listed in a way of their own. -/
def Code.isSimpleIndex : Code → Bool
  | .integer _ => true
  | .name _ => true
  | _ => false

mutual

/-- What the listing of an expression does to the depth, as an address or as a value, by what the
scope `k` knows about its names. -/
def Code.depth (s : Scopes) (k : Nat) (isAddress : Bool) : Code → Depth → Depth
  | .name (.text n) => nameDepth isAddress (s.isRecord k n)
  | .element array indices =>
    elementDepth isAddress (s.elementName k array) (indexDepth s k indices)
  | .field record _ => fieldDepth s k isAddress record
  | .compare _ left right | .binary _ left right =>
    enclose (right.depth s k isAddress ∘ left.depth s k isAddress)
  | .functionCall _ arguments => enclose (follow (argumentDepths s k isAddress arguments))
  | _ => id

def indexDepth (s : Scopes) (k : Nat) : List Code → Depth → Depth
  | [] => id
  | c :: _ => if c.isSimpleIndex then id else c.depth s k true

def argumentDepths (s : Scopes) (k : Nat) (isAddress : Bool) : List Code → List (Depth → Depth)
  | [] => []
  | c :: cs => c.depth s k isAddress :: argumentDepths s k isAddress cs

end

theorem argumentDepths_eq_map (s : Scopes) (k : Nat) (isAddress : Bool) : ∀ cs : List Code,
    argumentDepths s k isAddress cs = cs.map (Code.depth s k isAddress)
  | [] => rfl
  | c :: cs => by rw [argumentDepths, argumentDepths_eq_map, List.map_cons]

namespace Listing

/-! ### Pieces of listings -/

section Pieces

variable {s t : String} {f g : Depth → Depth}

theorem Moves.load (h : Moves s f) : Moves (load s) (enclose f) :=
  (Moves.literal ['('] (by decide)).slot h [')'] (by decide)

theorem Moves.wrap (h : Moves s f) : Moves (wrap s) (enclose f) :=
  (Moves.literal ['('] (by decide)).slot h [')'] (by decide)

/-- An operation between double quotes does not count. -/
theorem Moves.operation (hs : Moves s f) (ht : Moves t g) {sign : String} (h : '"' ∉ sign.toList) :
    Moves s!"({s} \"{sign}\" {t})" (enclose (g ∘ f)) := by
  have hsign : Moves (" \"" ++ sign ++ "\" ") id := by
    have heq : " \"" ++ sign ++ "\" " = " " ++ ("\"" ++ sign ++ "\"") ++ " " := by
      simp [← String.toList_inj]
    rw [heq]
    exact (Moves.literal [] (by decide)).slot (.quoted h) [] (by decide)
  have heq : s!"({s} \"{sign}\" {t})" = "(" ++ s ++ (" \"" ++ sign ++ "\" ") ++ t ++ ")" := by
    change "(" ++ s ++ " \"" ++ sign ++ "\" " ++ t ++ ")" = _
    simp only [String.append_assoc]
  rw [heq]
  exact (((Moves.literal ['('] (by decide)).append hs).append hsign).slot ht [')'] (by decide)

/-- Pieces for the items of a list, with the same text between any two of them. -/
theorem Moves.intercalate_map {α : Type} {items : List α} {texts : List String}
    {f : α → Depth → Depth} (hs : Moves s id)
    (h : List.Forall₂ (fun a text => Moves text (f a)) items texts) :
    Moves (s.intercalate texts) (follow (items.map f)) :=
  hs.intercalate (List.forall₂_map_right_iff.2 h.flip)

end Pieces

variable {quiet p q : Prop} {f g : Depth → Depth}

/-- The computation gives a text if and only if `p` holds, which does this to the depth if the
program is quiet. -/
def Writes (quiet p : Prop) (x : Except Fault String) (f : Depth → Depth) : Prop :=
  SucceedsIff p x fun s => quiet → Moves s f

/-- The same where the text is given as a tree. -/
def Spells (quiet p : Prop) (x : Except Fault Tree) (f : Depth → Depth) : Prop :=
  SucceedsIff p x fun t => ∃ s, t = .text s ∧ (quiet → Moves s f)

theorem spells_text {s : String} (h : quiet → Moves s f) : Spells quiet True (pure (.text s)) f :=
  .pure ⟨s, rfl, h⟩

namespace Spells

variable {α : Type} {x : Except Fault Tree} {next : String → Except Fault α} {Q : α → Prop}

/-- A text is written as it is, so that what comes next decides together with it. -/
theorem plain_bind (h : Spells quiet p x f)
    (hnext : ∀ s, p → (quiet → Moves s f) → SucceedsIff q (next s) Q) :
    SucceedsIff (p ∧ q) (do next (← (← x).plain)) Q := by
  have hx : SucceedsIff p x fun t => p ∧ ∃ s, t = .text s ∧ (quiet → Moves s f) :=
    ⟨h.1, fun t ht => ⟨h.1.1 ⟨t, ht⟩, h.2 t ht⟩⟩
  refine hx.bind ?_
  rintro _ ⟨hp, s, rfl, hs⟩
  exact hnext s hp hs

theorem plain_before (h : Spells quiet p x f)
    (hnext : ∀ s, (quiet → Moves s f) → SucceedsIff True (next s) Q) :
    SucceedsIff p (do next (← (← x).plain)) Q :=
  (h.plain_bind fun s _ => hnext s).congr (and_iff_left trivial)

end Spells

variable {context : Context} {table : Table} {k : Nat}

/-! ### Names -/

section Entries

variable {entry info : Tree}

section

variable (hinfo : valueInfo entry = .ok info)

include hinfo

/-- What is known about a name, as listings see it. -/
theorem holdsRecord_eq {type : Tree} (htype : info.get "type" = .ok type) :
    entry.holdsRecord = type.isTextOf "record" := by
  rw [Tree.holdsRecord, Except.bind_of_eq_ok hinfo, htype]

theorem elementName_eq {element : String} (helement : info.get "element_type" = .ok (.text element))
    : entry.elementName = element := by
  rw [Tree.elementName, Except.bind_of_eq_ok hinfo, helement]

theorem elementName_eq_empty (helement : info.get? "element_type" = .ok none) :
    entry.elementName = "" := by
  rw [Tree.elementName, Except.bind_of_eq_ok hinfo, Tree.get, helement]
  rfl

theorem fieldOwner_eq {owner : String} (howner : recordTypeName info = .ok owner) :
    entry.fieldOwner = owner := by
  rw [Tree.fieldOwner, Except.bind_of_eq_ok hinfo, howner]

end

/-- What is written as the record type of a value leaves no double quote open. -/
theorem closed_of_owner {owner : String} (h : (vocabulary True).Owner owner) : Closed owner := by
  rcases h with rfl | hname | ⟨type, htype, hplain⟩
  · exact Moves.empty.closed
  · exact (Moves.unmarked hname.2).closed
  · exact type.closed_render htype hplain

/-- No parameter is a record. -/
theorem holdsRecord_of_parameter {V : Vocabulary} {kind : Tree} (h : Entry V entry)
    (hkind : entry.get "kind" = .ok kind) (hparameter : kind.isTextOf "parameter" = true) :
    entry.holdsRecord = false := by
  cases h with
  | routine => rfl
  | plain h =>
    cases h with
    | parameter h =>
      cases h with
      | @typed type => cases type <;> rfl
      | array h => cases h; rfl
    | _ =>
      obtain rfl := Except.ok.inj hkind
      exact absurd hparameter Bool.false_ne_true

end Entries

variable {n : String} {isAddress : Bool} {part : Option ExpressionPart}

theorem spells_variableCode {entry : Tree} (isAddress : Bool) (hn : (vocabulary quiet).name n)
    (h : Entry (vocabulary quiet) entry) :
    Spells quiet True (variableCode isAddress (.text n) entry)
      (nameDepth isAddress entry.holdsRecord) := by
  have hname : Moves n id := .unmarked hn.2
  have hload : Moves (load n) id := hname.load.congr enclose_id
  obtain ⟨info, hinfo, hform⟩ := h.valueInfo
  obtain ⟨type, htype, -, hrecords⟩ := hform.exists_type
  obtain ⟨entries, rfl⟩ := h.exists_dict
  refine .step rfl (.step rfl ?_)
  split
  next hparameter =>
    rw [holdsRecord_of_parameter h rfl hparameter]
    cases isAddress with
    | true => exact spells_text fun _ => hload
    | false => exact spells_text fun _ => hload.load.congr enclose_id
  refine .step hinfo (.step htype ?_)
  rw [holdsRecord_eq hinfo htype]
  split
  next hsimple =>
    have hrecord : type.isTextOf "record" = false := by
      simp only [isOneOf, List.any_cons, List.any_nil, Bool.or_false, Bool.or_eq_true] at hsimple
      rcases hsimple with hsimple | hsimple <;> rw [Tree.eq_text_of_isTextOf hsimple] <;> rfl
    rw [hrecord]
    cases isAddress with
    | true => exact spells_text fun _ => hname
    | false => exact spells_text fun _ => hload
  split
  next hrecord =>
    obtain ⟨record, shown, hget, hshown, hrecordName⟩ := hrecords hrecord
    have hunmarked : Moves shown id := by
      rcases hrecordName with rfl | hrecordName
      · exact .literal [] (by decide)
      · exact .unmarked hrecordName.2
    rw [hrecord]
    refine .step hget (.step hshown ?_)
    cases isAddress with
    | true => exact spells_text fun _ => (Moves.literal ['('] (by decide)).append hname
    | false =>
      exact spells_text fun _ =>
        (hname.append (.literal [] (by decide))).slot hunmarked [')'] (by decide)
  next hrecord =>
    rw [Bool.not_eq_true] at hrecord
    rw [hrecord]
    split <;> exact spells_text fun _ => hname

theorem spells_name (hs : context.scopes.Within (vocabulary quiet))
    (hreads : table.Reads context k) (isAddress : Bool) (hn : (vocabulary quiet).name n) :
    Spells quiet True (do variableCode isAddress (.text n) (← table.lookup context (.text n)))
      (nameDepth isAddress (context.scopes.isRecord k n)) := by
  refine .step (hreads.lookup hs n) ?_
  rw [Scopes.isRecord]
  cases hentry : context.scopes.lookupIn k n with
  | none => exact spells_text fun _ => .unmarked hn.2
  | some entry => exact spells_variableCode isAddress hn (hs.lookupIn hentry).2

/-- A step that asks for what a name says about a value succeeds if the name is known, provided that
what it does with the answer succeeds. -/
theorem succeedsIff_valueInfo {V : Vocabulary} {α : Type} {Q : α → Prop}
    (hs : context.scopes.Within V) (hreads : table.Reads context k) {name : Tree}
    (hkey : name.isKey = true) {f : Tree → Except Fault α}
    (hf : ∀ n entry info, name = .text n → context.scopes.lookupIn k n = some entry →
      valueInfo entry = .ok info → ValueForm V info → SucceedsIff True (f info) Q) :
    SucceedsIff (context.scopes.Knows k name)
      (do f (← valueInfo (← table.lookup context name))) Q := by
  cases htext : name.isText with
  | false =>
    refine .step (hreads.lookup_of_isKey hkey htext) (.error fun h => ?_)
    cases name with
    | text n => cases htext
    | _ => exact h
  | true =>
    obtain ⟨n, rfl⟩ := exists_text_of_isText htext
    refine .step (hreads.lookup hs n) ?_
    cases hentry : context.scopes.lookupIn k n with
    | none => exact .error (by simp [Scopes.Knows, hentry])
    | some entry =>
      obtain ⟨info, hinfo, hform⟩ := (hs.lookupIn hentry).2.valueInfo
      refine .step hinfo ((hf n entry info rfl hentry hinfo hform).congr ?_)
      simp [Scopes.Knows, hentry]

/-! ### Accesses -/

theorem writes_elementCode (isAddress : Bool) {element base index low : String}
    (helement : (vocabulary quiet).name element) (hbase : Moves base id)
    (hindex : quiet → Moves index f) (hlow : Moves low id) :
    Writes quiet True (elementCode isAddress (.text element) base index low)
      (elementDepth isAddress element f) := by
  have htype : Moves element id := .unmarked helement.2
  rw [elementCode, elementDepth]
  split
  next hcell =>
    rw [if_pos (isOneOf_text.1 hcell)]
    refine .pure fun hq => ?_
    have haddress : Moves s!"({base} \"+\" (({index} \"-\" {low})))" (enclose^[3] f) :=
      (((Moves.literal ['('] (by decide)).slot hbase ['(', '('] (by decide)).slot
        (hindex hq) [] (by decide)).slot hlow [')', ')', ')'] (by decide)
    cases isAddress with
    | true => exact haddress
    | false => exact haddress.load.wrap
  next hcell =>
    rw [if_neg (mt isOneOf_text.2 hcell)]
    split
    next hstring =>
      rw [if_pos (Tree.text.inj (Tree.eq_text_of_isTextOf hstring))]
      refine .pure fun hq => ?_
      cases isAddress with
      | true =>
        have haddress : Moves s!"(({base} \"+\" {index} \"-\" {low}))" (enclose^[2] f) :=
          (((Moves.literal ['(', '('] (by decide)).slot hbase [] (by decide)).slot
            (hindex hq) [] (by decide)).slot hlow [')', ')'] (by decide)
        exact haddress
      | false =>
        have haddress : Moves s!"({base} \"+\" ({index} \"-\" {low}))" (enclose^[2] f) :=
          (((Moves.literal ['('] (by decide)).slot hbase ['('] (by decide)).slot
            (hindex hq) [] (by decide)).slot hlow [')', ')'] (by decide)
        exact haddress.load.wrap
    next hstring =>
      rw [if_neg fun heq => hstring (by rw [heq]; rfl)]
      refine .step rfl (.pure fun hq => ?_)
      cases isAddress with
      | true =>
        have haddress : Moves s!"({base} \"+\" (({index} \"-\" {low}) \"*\" {element}))"
            (enclose^[3] f) :=
          ((((Moves.literal ['('] (by decide)).slot hbase ['(', '('] (by decide)).slot
            (hindex hq) [] (by decide)).slot
            hlow [')'] (by decide)).slot htype [')', ')'] (by decide)
        exact haddress
      | false =>
        have haddress : Moves s!"({base} \"+\" ((({index} \"-\" {low}) \"*\" {element}))"
            fun d => enclose^[3] f d.opened :=
          ((((Moves.literal ['('] (by decide)).slot hbase ['(', '(', '('] (by decide)).slot
            (hindex hq) [] (by decide)).slot hlow [')'] (by decide)).slot
              htype [')', ')'] (by decide)
        exact haddress.load.wrap

section

variable (hs : context.scopes.Within (vocabulary quiet)) (hreads : table.Reads context k)

include hs hreads

/-- An access to an element is listed if it is known what the name stands for, an array, and if the
first index can be listed. -/
theorem spells_accessCode (isAddress : Bool) {array : String}
    (harray : (vocabulary quiet).name array) {indices : Tree}
    (hindex : Spells quiet p (firstIndexCode indices part table) f) :
    Spells quiet (context.scopes.KnowsArray k array ∧ p)
      (accessCode context isAddress table (.text array) indices part)
      (elementDepth isAddress (context.scopes.elementName k array) f) := by
  refine .step (hreads.lookup hs array) ?_
  cases hentry : context.scopes.lookupIn k array with
  | none =>
    refine .error fun h => ?_
    obtain ⟨entry, hknown, -⟩ := h.1
    exact absurd (hentry.symm.trans hknown) nofun
  | some entry =>
    have hform := (hs.lookupIn hentry).2
    obtain ⟨info, hinfo, hcases⟩ := hform.isArrayEntry_cases
    have hknown : context.scopes.KnowsArray k array ↔ entry.isArrayEntry = true := by
      simp [Scopes.KnowsArray, hentry]
    rw [hknown, Option.getD_some]
    refine .step hinfo ?_
    rcases hcases with ⟨htrue, hbounds⟩ | ⟨hfalse, helement, hdimensions⟩
    · -- All that is asked about an array is there, so that the first index decides.
      obtain ⟨entries, rfl⟩ := hform.exists_dict
      obtain ⟨element, dimensions, low, high, helement, -, hname, hdimensions, hitem, -⟩ :=
        hbounds.exists_bounds
      rw [Scopes.elementName, hentry, Option.map_some, Option.getD_some,
        elementName_eq hinfo helement]
      refine .step helement (.step hdimensions (.step hitem (.step rfl (.step rfl ?_))))
      refine (hindex.plain_before fun index hindex => ?_).congr (and_iff_right htrue).symm
      have hbase : Moves array id := .unmarked harray.2
      refine .step rfl (.step rfl ((writes_elementCode isAddress hname ?_ hindex
        (.unmarked (unmarked_toString low))).before fun code hcode => spells_text hcode))
      split
      · exact hbase.load.congr enclose_id
      · exact hbase
    · -- What is no array has no dimensions that a lower bound could be read off.
      refine .step helement (.step hdimensions (.error fun h => ?_))
      exact absurd (hfalse.symm.trans h.1) Bool.false_ne_true

theorem writes_fieldCode_name (isAddress : Bool) {m : String} (hm : (vocabulary quiet).name m)
    (hn : (vocabulary quiet).name n) :
    Writes quiet (context.scopes.Knows k (.text m)) (do
      let info ← valueInfo (← table.lookup context (.text m))
      let type ← recordTypeName info
      let base ← (Tree.text m).plain
      let selected ← (Tree.text n).plain
      let address := s!"({base} \"+\" {type}_{selected})"
      return if isAddress then address else wrap (load address))
      (enclose^[if isAddress then 1 else 3] (textDepth (context.scopes.fieldOwner k m))) := by
  refine succeedsIff_valueInfo hs hreads rfl ?_
  rintro _ entry info ⟨⟩ hentry hinfo hform
  obtain ⟨owner, howner, hwritten⟩ := hform.exists_owner
  refine .step howner (.step rfl (.step rfl (.pure fun hq => ?_)))
  obtain rfl := eq_true hq
  rw [Scopes.fieldOwner, hentry, Option.map_some, Option.getD_some, fieldOwner_eq hinfo howner]
  have hbase : Moves m id := .unmarked hm.2
  have haddress : Moves s!"({m} \"+\" {owner}_{n})" (enclose (textDepth owner)) :=
    (((Moves.literal ['('] (by decide)).slot hbase [] (by decide)).slot
      (closed_of_owner hwritten).moves [] (by decide)).slot (.unmarked hn.2) [')'] (by decide)
  cases isAddress with
  | true => exact haddress
  | false => exact haddress.load.wrap

theorem writes_fieldCode_element (isAddress : Bool) {m : String} (hm : (vocabulary quiet).name m)
    (hn : (vocabulary quiet).name n) :
    Writes quiet (context.scopes.Knows k (.text m)) (do
      let info ← valueInfo (← table.lookup context (.text m))
      let type ← ((← info.get? "element_type").getD (.text "")).plain
      let base ← (Tree.text m).plain
      let selected ← (Tree.text n).plain
      let address := s!"{base} \"+\" {type}_{selected}"
      return if isAddress then wrap address else wrap (load address)) id := by
  refine succeedsIff_valueInfo hs hreads rfl fun _ _ info _ _ _ hform => ?_
  obtain ⟨element, type, helement, htype, hname⟩ := hform.exists_element
  refine .step helement (.step htype (.step rfl (.step rfl (.pure fun _ => ?_))))
  have hunmarked : Moves type id := by
    rcases hname with rfl | hname
    · exact .empty
    · exact .unmarked hname.2
  have hbase : Moves m id := .unmarked hm.2
  have haddress : Moves s!"{m} \"+\" {type}_{n}" id :=
    ((hbase.append (.literal [] (by decide))).slot hunmarked [] (by decide)).append
      (.unmarked hn.2)
  cases isAddress with
  | true => exact haddress.wrap.congr enclose_id
  | false => exact haddress.load.wrap.congr (by rw [enclose_id, enclose_id])

/-- An access to a field is listed if it is known what the name at the start of the record stands
for. -/
theorem writes_fieldCode (isAddress : Bool) {record : Code}
    (h : record.ValueWithin (vocabulary quiet)) (hn : (vocabulary quiet).name n) :
    Writes quiet (∀ start ∈ record.start?, context.scopes.Knows k start)
      (fieldCode context isAddress table record.toTree (.text n))
      (fieldDepth context.scopes k isAddress record) := by
  -- Where the record starts with a name, this is the name that has to be known.
  have hstart : ∀ {start : Tree}, record.start? = some start → (context.scopes.Knows k start ↔
      ∀ start ∈ record.start?, context.scopes.Knows k start) := by
    intro start heq
    simp [heq]
  cases h with
  | name hm => exact (writes_fieldCode_name hs hreads isAddress hm hn).congr (hstart rfl)
  | element hm => exact (writes_fieldCode_element hs hreads isAddress hm hn).congr (hstart rfl)
  | @functionCall place hplace arguments =>
    refine SucceedsIff.congr ?_ (hstart rfl)
    cases place with
    | name m => exact writes_fieldCode_name hs hreads isAddress hplace hn
    -- Only names are known, so that nothing else that is called has fields.
    | _ => exact succeedsIff_valueInfo hs hreads rfl fun _ _ _ h => by cases h
  | _ => exact (SucceedsIff.pure fun _ => .literal [] (by decide)).congr (iff_of_true trivial nofun)

end

/-! ### Expressions -/

variable {operator : String} {others : List Code}

/-- The sign of an operator has no quotes unless the operator has some. -/
theorem quote_notMem_operatorSign (h : '"' ∉ operator.toList) :
    '"' ∉ (operatorSign operator).toList := by
  unfold operatorSign
  split
  · decide
  · decide
  · decide
  · decide
  · exact h

theorem expression_compare (operator : String) (left right : Code) (isAddress : Bool) :
    expression context (Code.compare (.text operator) left right).toTree isAddress table = (do
      let first ← (do (← expression context left.toTree isAddress table).plain)
      let second ← (do (← expression context right.toTree isAddress table).plain)
      return .text s!"({first} \"{operatorSign operator}\" {second})") := rfl

theorem expression_binary (operator : String) (left right : Code) (isAddress : Bool) :
    expression context (Code.binary (.text operator) left right).toTree isAddress table =
      expression context (Code.compare (.text operator) left right).toTree isAddress table := rfl

theorem expression_element (array : String) (indices : List Code) (isAddress : Bool) :
    expression context (Code.element array indices).toTree isAddress table =
      accessCode context isAddress table (.text array) (.list (Code.toTrees indices))
        (some { listing := noExpression
                elements := .ok (expressionItems context (Code.toTrees indices)) }) := rfl

theorem expressionItems_toTrees : ∀ cs : List Code,
    expressionItems context (Code.toTrees cs) =
      cs.map fun c => (c.toTree, expression context c.toTree)
  | [] => rfl
  | c :: cs => by rw [Code.toTrees, expressionItems, expressionItems_toTrees, List.map_cons]

/-- Texts that are given as trees are written as they are. -/
theorem exists_texts {α : Type} {R : α → String → Prop} {items : List α} {ts : List Tree}
    (h : List.Forall₂ (fun a t => ∃ s, t = .text s ∧ R a s) items ts) :
    ∃ texts, ts.mapM textOf = .ok texts ∧ List.Forall₂ R items texts := by
  induction h with
  | nil => exact ⟨[], rfl, .nil⟩
  | cons hfirst _ ih =>
    obtain ⟨s, rfl, hs⟩ := hfirst
    obtain ⟨texts, htexts, hall⟩ := ih
    exact ⟨s :: texts, by rw [List.mapM_cons, htexts]; rfl, .cons hs hall⟩

/-- Arguments are listed if each of them is. -/
theorem writes_joinedListings {arguments : List Code} {p : Code → Prop} {f : Code → Depth → Depth}
    (h : ∀ c ∈ arguments,
      Spells quiet (p c) (expression context c.toTree isAddress table) (f c)) :
    Writes quiet (∀ c ∈ arguments, p c) (joinedListings isAddress table
      (some { listing := noExpression
              elements := .ok (expressionItems context (Code.toTrees arguments)) }))
      (follow (arguments.map f)) := by
  rw [joinedListings, expressionItems_toTrees]
  refine .step rfl ?_
  dsimp only
  rw [List.mapM_map]
  refine (SucceedsIff.mapM h).before fun codes hcodes => ?_
  obtain ⟨texts, htexts, hall⟩ := exists_texts hcodes
  refine .step htexts (.pure fun hq => ?_)
  have hblank : Moves " " id := .literal [] (by decide)
  exact hblank.intercalate_map (hall.imp fun _ _ h => h hq)

/-- The first index is listed if it can be listed as an expression; numbers and names always are. -/
theorem spells_firstIndexCode {first : Code} (h : first.ValueWithin (vocabulary quiet))
    (hfirst : Spells quiet (first.Listable context.scopes k)
      (expression context first.toTree true table) (first.depth context.scopes k true)) :
    Spells quiet (first.Listable context.scopes k)
      (firstIndexCode (.list (Code.toTrees (first :: others)))
        (some { listing := noExpression
                elements := .ok (expressionItems context (Code.toTrees (first :: others))) })
        table) (indexDepth context.scopes k (first :: others)) := by
  change Spells quiet _ (indexCode first.toTree (expression context first.toTree) table) _
  cases h with
  | number n => exact spells_text fun _ => .unmarked (unmarked_toString n)
  | truth b => cases b <;> exact spells_text fun _ => .literal [] (by decide)
  | name hn => exact spells_text fun _ => (Moves.unmarked hn.2).load.congr enclose_id
  | _ => exact hfirst

/-- An operation is listed if both of its sides are. -/
theorem spells_compare (hoperator : (vocabulary quiet).operator operator) {left right : Code}
    (hleft : Spells quiet p (expression context left.toTree isAddress table) f)
    (hright : Spells quiet q (expression context right.toTree isAddress table) g) :
    Spells quiet (p ∧ q)
      (expression context (Code.compare (.text operator) left right).toTree isAddress table)
      (enclose (g ∘ f)) := by
  have hquote : '"' ∉ operator.toList := fun hmem => hoperator.2 _ hmem (by decide)
  rw [expression_compare, bind_assoc]
  refine hleft.plain_bind fun first _ hfirst => ?_
  rw [bind_assoc]
  refine hright.plain_before fun second hsecond => spells_text fun hq => ?_
  exact (hfirst hq).operation (hsecond hq) (quote_notMem_operatorSign hquote)

/-- An expression is listed, as an address or as a value, if and only if its scope knows the names
that have to be known, and its listing does to the depth what its parts and its names say. -/
theorem spells_expression (hs : context.scopes.Within (vocabulary quiet))
    (hreads : table.Reads context k) {c : Code} (h : c.ValueWithin (vocabulary quiet)) :
    ∀ isAddress : Bool, Spells quiet (c.Listable context.scopes k)
      (expression context c.toTree isAddress table) (c.depth context.scopes k isAddress) := by
  induction h with
  | number n => exact fun _ => spells_text fun _ => .unmarked (unmarked_toString n)
  | truth b => cases b <;> exact fun _ => spells_text fun _ => .literal [] (by decide)
  | @string s hs => exact fun _ => spells_text fun hq => .quoted (hs hq)
  | char n => exact fun _ => spells_text fun _ => .unmarked (unmarked_toString n)
  | name hn => exact fun isAddress => spells_name hs hreads isAddress hn
  | element harray hfirst _ ih =>
    intro isAddress
    exact spells_accessCode hs hreads isAddress harray (spells_firstIndexCode hfirst (ih true))
  | field hrecord hn =>
    intro isAddress
    exact (writes_fieldCode hs hreads isAddress hrecord hn).before fun _ h => spells_text h
  | compare hoperator _ _ ihleft ihright =>
    exact fun isAddress => spells_compare hoperator (ihleft isAddress) (ihright isAddress)
  | binary hoperator _ _ ihleft ihright =>
    intro isAddress
    exact spells_compare hoperator (ihleft isAddress) (ihright isAddress)
  | @functionCall place hplace arguments _ ih =>
    intro isAddress
    have harguments := writes_joinedListings fun c hc => ih c hc isAddress
    obtain ⟨name, hname⟩ := place.succeeds_render
    rw [Code.Listable, allListable_iff, Code.depth, argumentDepths_eq_map]
    refine harguments.before fun joined hjoined => .step hname (spells_text fun hq => ?_)
    exact ((Moves.literal ['('] (by decide)).slot
      (place.moves_render hplace hname) [] (by decide)).slot (hjoined hq) [')'] (by decide)

end Listing

end MiniPascal
