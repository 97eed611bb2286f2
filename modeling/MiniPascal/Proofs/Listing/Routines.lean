import MiniPascal.Proofs.Analysis.Programs
import MiniPascal.Proofs.Listing.Statements

/-!
# Listings of Routines

Constants, record types and variables are always listed, so that whether a routine is listed depends
on nothing but the statements of the routine and of those inside it. What its listing does to the
depth comes from its statements too, and from constants, in which texts stand as they are.
-/

namespace MiniPascal

open Listing

/-! ### Declarations and the depth -/

def Tree.plainDepth (value : Tree) : Depth → Depth :=
  match value.plain with
  | .ok form => textDepth form
  | .error _ => id

/-- What the listing of a constant does to the depth, by what is known about its value. Texts are
listed as they are, but in a record between double quotes. -/
def constantDepth : Tree → Depth → Depth
  | .dict entries =>
    match entries.lookup "fields", entries.lookup "value" with
    | some (.dict fields), _ =>
      enclose^[2] (follow (fields.map fun f => enclose (if f.2.isText then id else f.2.plainDepth)))
    | _, some value => enclose value.plainDepth
    | _, _ => id
  | _ => id

/-- What the listing of a name other than that of a routine does to the depth: nothing, unless it
is a constant. -/
def Tree.entryDepth : Tree → Depth → Depth
  | .dict entries =>
    if ((entries.lookup "type").getD .null).isTextOf "const" then
      constantDepth ((entries.lookup "info").getD .null)
    else id
  | _ => id

namespace Scopes

/-- What the listing of a name of the scope `home` does to the depth. -/
def entryDepth (s : Scopes) (home : Nat) (n : String) : Depth → Depth :=
  (((s.symbolsOf home).lookup n).getD .null).entryDepth

/-- The scope of the names of a routine of the scope `home`. -/
def localsOf (s : Scopes) (home : Nat) (n : String) : Option Nat :=
  match (((s.symbolsOf home).lookup n).getD .null).get "local_symbol_table" with
  | .ok (.scope locals) => some locals
  | _ => none

end Scopes

/-- What the listing of the statements of a body does to the depth; the compound ones are not
listed. -/
def bodyDepth (s : Scopes) (k : Nat) (ss : List Stmt) : Depth → Depth :=
  match Tree.generateAll (stmtTrees (keptStatements ss)) with
  | .ok codes => follow (actionDepths s k codes)
  | .error _ => id

mutual

/-- What the listing of a routine does to the depth, by its block and the scope of its names. -/
def Block.routineDepth (s : Scopes) (locals : Nat) : Block → Depth → Depth
  | .mk ds ss => enclose (bodyDepth s locals ss ∘ enclose (declsDepth s locals ds))

/-- What the listing of a declaration of the scope `home` does to the depth. -/
def Decl.listedDepth (s : Scopes) (home : Nat) : Decl → Depth → Depth
  | .type _ (.named _) => id
  | .type _ .omitted => id
  | .type n _ | .const n _ _ | .var n _ _ _ => s.entryDepth home n
  | .routine _ n _ body _ =>
    match s.localsOf home n with
    | some locals => body.routineDepth s locals
    | none => id

/-- What the listings of declarations of the scope `home` do to the depth. -/
def declsDepth (s : Scopes) (home : Nat) : List Decl → Depth → Depth
  | [] => id
  | d :: ds => declsDepth s home ds ∘ d.listedDepth s home

end

/-- What the listing of a program does to the depth: that of its declarations, and that of its
statements as the main function. -/
def Program.listedDepth (s : Scopes) (p : Program) : Depth → Depth :=
  match p.block with
  | .mk ds ss => enclose (bodyDepth s 0 ss) ∘ declsDepth s 0 ds

namespace Listing

/-! ### Several pieces -/

def MovesAll (pieces : List String) (f : Depth → Depth) : Prop :=
  ∃ fs, List.Forall₂ Moves pieces fs ∧ follow fs = f

namespace MovesAll

variable {s : String} {ps qs : List String} {f g : Depth → Depth}

theorem nil : MovesAll [] id := ⟨[], .nil, rfl⟩

theorem single (h : Moves s f) : MovesAll [s] f := ⟨[f], .cons h .nil, rfl⟩

theorem append (hps : MovesAll ps f) (hqs : MovesAll qs g) : MovesAll (ps ++ qs) (g ∘ f) := by
  obtain ⟨fs, hfs, rfl⟩ := hps
  obtain ⟨gs, hgs, rfl⟩ := hqs
  exact ⟨fs ++ gs, List.rel_append hfs hgs, follow_append fs gs⟩

theorem intercalate (h : MovesAll ps f) (hs : Moves s id) : Moves (s.intercalate ps) f := by
  obtain ⟨fs, hfs, rfl⟩ := h
  exact hs.intercalate hfs

theorem eq_id_of_nil (h : MovesAll [] f) : f = id := by
  obtain ⟨fs, hfs, rfl⟩ := h
  cases hfs
  rfl

end MovesAll

/-! ### Constants, record types and variables -/

section Entries

variable {quiet : Prop} {n : String} {info : Tree} {value : ConstValue}

theorem writes_plain (hvalue : value.Within (vocabulary quiet)) :
    Writes quiet True value.toTree.plain value.toTree.plainDepth := by
  refine ⟨iff_of_true (value.succeeds_render false) trivial, fun shown hshown hquiet => ?_⟩
  obtain rfl : quiet = True := eq_true hquiet
  rw [Tree.plainDepth, hshown]
  exact (value.closed_render false hvalue hshown).moves

theorem writes_fieldValue (hvalue : value.Within (vocabulary quiet)) :
    Writes quiet True (fieldValue value.toTree)
      (if value.toTree.isText then id else value.toTree.plainDepth) := by
  cases value with
  | literal s => exact .pure fun hquiet => .quoted (hvalue hquiet)
  | _ => exact (writes_plain hvalue).before fun _ hshown => .pure hshown

theorem writes_constantFields {record : String} (hrecord : (vocabulary quiet).name record) :
    ∀ {fields : List (String × Tree)}, (∀ f ∈ fields, (vocabulary quiet).name f.1 ∧
        ∃ value : ConstValue, value.Within (vocabulary quiet) ∧ f.2 = value.toTree) →
      SucceedsIff True (constantFields record fields) fun pieces => quiet →
        List.Forall₂ Moves pieces
          (fields.map fun f => enclose (if f.2.isText then id else f.2.plainDepth))
  | [], _ => .pure fun _ => .nil
  | (n, t) :: fields, hfields => by
    rw [List.forall_mem_cons] at hfields
    obtain ⟨⟨hn, value, hvalue, rfl : t = _⟩, hrest⟩ := hfields
    refine (writes_fieldValue hvalue).before fun shown hshown => ?_
    refine (writes_constantFields hrecord hrest).before fun pieces hpieces => .pure fun hquiet => ?_
    refine .cons ?_ (hpieces hquiet)
    exact (((Moves.literal ['('] (by decide)).slot (.unmarked hrecord.2) [] (by decide)).slot
      (.unmarked hn.2) [] (by decide)).slot (hshown hquiet) [')'] (by decide)

section

variable (hn : (vocabulary quiet).name n)

include hn

theorem writes_constant (h : ConstantInfo (vocabulary quiet) info) :
    Writes quiet True (constant n (.dict [("type", .text "const"), ("info", info)]))
      (constantDepth info) := by
  have hname : Moves n id := .unmarked hn.2
  -- A constant with a single value.
  have hsingle : ∀ {value : String} {f : Depth → Depth}, Moves value f →
      Moves s!"(const {n} \"=\" {value})" (enclose f) := fun hvalue =>
    ((Moves.literal ['('] (by decide)).slot hname [] (by decide)).slot hvalue [')'] (by decide)
  cases h with
  | unknown =>
    have hnone : Moves "None" id := .literal [] (by decide)
    exact .pure fun _ => (hsingle hnone).congr enclose_id
  | @basic b value hvalue =>
    change Writes quiet True (if (Tree.text b.name).isTextOf "record" = true then _ else _) _
    rw [(BasicType.isTextOf_name b).2, if_neg Bool.false_ne_true]
    exact (writes_plain hvalue).before fun _ hform => .pure fun hquiet => hsingle (hform hquiet)
  | array h =>
    cases h
    have hzero : Moves "0" id := .literal [] (by decide)
    exact .pure fun _ => (hsingle hzero).congr enclose_id
  | @record name hrecord fields hfields =>
    refine (writes_constantFields hrecord hfields).before fun pieces hpieces => ?_
    refine .pure fun hquiet => ?_
    have hblank : Moves " " id := .literal [] (by decide)
    exact (((Moves.literal ['('] (by decide)).slot hname ['('] (by decide)).slot
      (.unmarked hrecord.2) [] (by decide)).slot
        (hblank.intercalate (hpieces hquiet)) [')', ')'] (by decide)

theorem writes_recordType (name : String) {infos : List Tree}
    (h : ∀ info ∈ infos, FieldInfo (vocabulary quiet) info) :
    Writes quiet True (recordType n (.dict [("name", .text name), ("type", .text "record"),
      ("fields_info", .list infos)])) id := by
  have hname : Moves n id := .unmarked hn.2
  -- A field with its size.
  have hfield : ∀ {field size : String}, (vocabulary quiet).name field → Moves size id →
      Moves s!"\n ({n}_{field} {size})" id := fun hfield hsize =>
    ((((Moves.literal ['('] (by decide)).slot hname [] (by decide)).slot
      (.unmarked hfield.2) [] (by decide)).slot hsize
      [')'] (by decide)).congr enclose_id
  have hinfos : Tree.elements (.list infos) = .ok infos := rfl
  refine .step rfl (.step hinfos ?_)
  refine SucceedsIff.before (P := fun lines => ∀ line ∈ lines, Moves line id)
    (.forall_mapM fun info hinfo => ?_) fun lines hlines => .pure fun _ => ?_
  · cases h info hinfo with
    | @plain field type hname htype =>
      change SucceedsIff True (do
        let size ← if isOneOf (.text type) ["integer", "boolean"] then .ok "1"
          else (Tree.text type).plain
        return s!"\n ({n}_{field} {size})") _
      split
      · exact .pure (hfield hname (.literal [] (by decide)))
      · exact .pure (hfield hname (.unmarked htype.2))
    | array hname => exact .pure (hfield hname (.literal [] (by decide)))
  · have hblank : Moves " " id := .literal [] (by decide)
    exact (((Moves.literal ['('] (by decide)).slot hname [] (by decide)).slot
      (hblank.intercalate_id hlines) [')'] (by decide)).congr enclose_id

theorem writes_arrayVariable (h : ArrayInfo (vocabulary quiet) info) :
    Writes quiet True (arrayVariable n info) id := by
  obtain ⟨element, _, low, high, helement, -, htype, -, -, hbounds⟩ := h.exists_bounds
  have hname : Moves n id := .unmarked hn.2
  have hlow : Moves (toString low) id := .unmarked (unmarked_toString low)
  have hhigh : Moves (toString high) id := .unmarked (unmarked_toString high)
  refine .step helement (.step hbounds (.step rfl (.step rfl ?_)))
  split
  · refine .pure fun _ => ?_
    have htext : Moves s!"({n} (({toString high} \"-\" {toString low}) \"+\" 1))"
        (enclose^[3] id) :=
      (((Moves.literal ['('] (by decide)).slot hname ['(', '('] (by decide)).slot
        hhigh [] (by decide)).slot hlow [')', ')', ')'] (by decide)
    exact htext.congr (Function.iterate_fixed enclose_id 3)
  split
  · refine .pure fun _ => ?_
    have htext : Moves s!"({n} ((({toString high} \"-\" {toString low}) \"+\" 1)))"
        (enclose^[4] id) :=
      (((Moves.literal ['('] (by decide)).slot hname ['(', '(', '('] (by decide)).slot
        hhigh [] (by decide)).slot hlow
        [')', ')', ')', ')'] (by decide)
    exact htext.congr (Function.iterate_fixed enclose_id 4)
  · refine .step rfl (.pure fun _ => ?_)
    have htext : Moves s!"({n} ((({toString high} \"-\" {toString low}) \"+\" 1) \"*\" {element}))"
        (enclose^[4] id) :=
      ((((Moves.literal ['('] (by decide)).slot hname ['(', '(', '('] (by decide)).slot
        hhigh [] (by decide)).slot hlow
        [')', ')'] (by decide)).slot (.unmarked htype.2) [')', ')'] (by decide)
    exact htext.congr (Function.iterate_fixed enclose_id 4)

theorem writes_variableDeclaration (h : VariableInfo (vocabulary quiet) info) :
    Writes quiet True
      (variableDeclaration n (.dict [("type", .text "var"), ("info", info)])) id := by
  have hname : Moves n id := .unmarked hn.2
  cases h with
  | basic b value =>
    change Writes quiet True (if (Tree.text b.name).isTextOf "array" = true then _ else
      if (Tree.text b.name).isTextOf "record" = true then _ else _) _
    rw [(BasicType.isTextOf_name b).1, if_neg Bool.false_ne_true, (BasicType.isTextOf_name b).2,
      if_neg Bool.false_ne_true]
    refine .pure fun _ => ?_
    exact ((Moves.literal ['('] (by decide)).slot hname [')'] (by decide)).congr enclose_id
  | array h =>
    have harray := writes_arrayVariable hn h
    cases h with
    | mk => exact harray
  | record hrecord =>
    refine .pure fun _ => ?_
    exact (((Moves.literal ['('] (by decide)).slot hname [] (by decide)).slot (.unmarked hrecord.2)
      [')'] (by decide)).congr enclose_id

end

theorem localDeclaration_parameter {V : Vocabulary} {nested : String → Tree → Except Fault String}
    (h : ParameterEntry V info) : localDeclaration nested n info = .ok [] := by
  cases h <;> rfl

/-- What is known about a parameter counts for nothing. -/
theorem entryDepth_parameter {V : Vocabulary} (h : ParameterEntry V info) :
    info.entryDepth = id := by
  cases h with
  | @typed type => cases type <;> rfl
  | array => rfl

/-- The listing of a name of a routine, other than that of a routine inside it. -/
theorem lists_localDeclaration (nested : String → Tree → Except Fault String)
    (hn : (vocabulary quiet).name n) (h : PlainEntry (vocabulary quiet) info) :
    SucceedsIff True (localDeclaration nested n info) fun pieces =>
      quiet → MovesAll pieces info.entryDepth := by
  cases h with
  | constant h =>
    exact (writes_constant hn h).before fun _ htext => .pure fun hquiet => .single (htext hquiet)
  | var h =>
    have hwrites := writes_variableDeclaration hn h
    exact hwrites.before fun _ htext => .pure fun hquiet => .single (htext hquiet)
  | recordType hname h =>
    refine (writes_recordType hn _ h).before fun _ htext => ?_
    exact .pure fun hquiet => .single (htext hquiet)
  | arrayType => exact .pure fun _ => .nil
  | parameter h =>
    rw [localDeclaration_parameter h, entryDepth_parameter h]
    exact .pure fun _ => .nil

end Entries

end Listing

/-! ### How deep routines are nested -/

theorem Tree.count_pos (t : Tree) : 0 < t.count := by
  cases t <;> simp [Tree.count]

namespace Scopes

variable {s : Scopes} {j k : Nat}

/-- The number of trees that the names of the scopes after the scope `k` are made of. -/
def weight (s : Scopes) (k : Nat) : Nat :=
  (s.all.toList.drop (k + 1)).foldl (fun n scope => n + Tree.countEntries scope.symbols) 0

theorem foldl_countEntries (scopes : List Scope) (n : Nat) :
    scopes.foldl (fun n scope => n + Tree.countEntries scope.symbols) n =
      n + scopes.foldl (fun n scope => n + Tree.countEntries scope.symbols) 0 := by
  induction scopes generalizing n with
  | nil => rfl
  | cons scope scopes ih =>
    rw [List.foldl_cons, List.foldl_cons, ih, ih (0 + _), Nat.zero_add, Nat.add_assoc]

/-- A scope with names has less after it than the scopes before it have. -/
theorem weight_lt (hjk : k < j) (hj : s.symbolsOf j ≠ []) : s.weight j < s.weight k := by
  -- The scope `j` itself is counted after `k`, and it has at least one tree.
  have hlt : j < s.all.toList.length := by
    by_contra hge
    refine hj ?_
    rw [symbolsOf, Array.getElem?_eq_none (by simpa using hge)]
  have hsymbols : s.all.toList[j].symbols ≠ [] := by
    rw [symbolsOf, Array.getElem?_eq_getElem (by simpa using hlt)] at hj
    simpa using hj
  have hcount : 0 < Tree.countEntries s.all.toList[j].symbols := by
    cases hentries : s.all.toList[j].symbols with
    | nil => exact absurd hentries hsymbols
    | cons e es =>
      rw [Tree.countEntries]
      have := e.2.count_pos
      omega
  obtain ⟨before, hbefore⟩ := List.drop_suffix_drop_left s.all.toList (Nat.succ_le_of_lt hjk)
  rw [weight, weight, ← hbefore, List.drop_eq_getElem_cons hlt, List.foldl_append, List.foldl_cons,
    foldl_countEntries _ (_ + _)]
  omega

/-- All that is known is at least as much as what is known after a scope. -/
theorem weight_le_foldl (s : Scopes) (k : Nat) :
    s.weight k ≤ s.all.foldl (fun n scope => n + Tree.countEntries scope.symbols) 0 := by
  rw [← Array.foldl_toList, weight]
  nth_rewrite 2 [← List.take_append_drop (k + 1) s.all.toList]
  rw [List.foldl_append, foldl_countEntries (s.all.toList.drop (k + 1)) (List.foldl _ _ _)]
  exact Nat.le_add_left _ _

end Scopes

/-! ### Routines -/

theorem stmtsWithin_keptStatements {V : Vocabulary} : ∀ {ss : List Stmt}, stmtsWithin V ss →
    stmtsWithin V (keptStatements ss)
  | [], _ => trivial
  | st :: ss, ⟨hst, hss⟩ => by
    have hrest := stmtsWithin_keptStatements hss
    rw [keptStatements, List.filter_cons]
    split
    · exact ⟨hst, hrest⟩
    · exact hrest

variable {codes : List Code} {ss : List Stmt}

/-- The code of a body is made of its texts and of the signs of loops over ranges. -/
theorem body_generate_within {V : Vocabulary} (hV : V.Codes) (hss : stmtsWithin V ss)
    (hcodes : Tree.generateAll (stmtTrees (keptStatements ss)) = .ok codes) :
    ∀ c ∈ codes, c.ActionWithin V :=
  (stmts_generate_within hV (stmtsWithin_keptStatements hss)).of_eq_ok hcodes

theorem vocabulary_codes (quiet : Prop) : (vocabulary quiet).Codes where
  empty h := h.1 rfl
  signs := by
    change ∀ sign ∈ ["<=", "+"], sign ≠ "" ∧ ∀ c ∈ sign.toList, c ∉ ['"', '(', ')']
    decide

/-- The code of the statements of a body, all but the compound ones, can be listed in the scope
`k`. -/
def BodyListable (s : Scopes) (k : Nat) (ss : List Stmt) (code : Tree) : Prop :=
  ∃ codes, Tree.generateAll (stmtTrees (keptStatements ss)) = .ok codes ∧
    code = Code.bodyTree codes ∧ actionsListable s k codes

theorem bodyListable_iff {s : Scopes} {k : Nat}
    (hcodes : Tree.generateAll (stmtTrees (keptStatements ss)) = .ok codes) :
    BodyListable s k ss (Code.bodyTree codes) ↔ actionsListable s k codes := by
  constructor
  · rintro ⟨codes', hcodes', -, h⟩
    obtain rfl : codes = codes' := Except.ok.inj (hcodes.symm.trans hcodes')
    exact h
  · exact fun h => ⟨codes, hcodes, rfl, h⟩

theorem bodyDepth_eq {s : Scopes} {k : Nat}
    (hcodes : Tree.generateAll (stmtTrees (keptStatements ss)) = .ok codes) :
    bodyDepth s k ss = follow (actionDepths s k codes) := by
  rw [bodyDepth, hcodes]

namespace Listing

variable {quiet : Prop} {context : Context} {n : String} {f : Depth → Depth}

/-- A routine with the names of its parameters, the group of its names, and its body. -/
theorem Moves.routine {listed group body last : String} {g : Depth → Depth} (hn : Moves n id)
    (hlisted : Moves listed id) (hgroup : Moves group f) (hbody : Moves body g)
    (hlast : Moves last id) :
    Moves s!"(function {n} ({listed})\n{group}\n{body}\n{last}\n)" (enclose (g ∘ f)) := by
  have hhead : Moves s!"(function {n} ({listed})\n" Depth.opened := by
    refine (((Moves.literal ['('] (by decide)).slot hn ['('] (by decide)).slot
      hlisted [')'] (by decide)).congr (funext fun d => ?_)
    exact Depth.closed_opened _
  exact ((hhead.slot hgroup [] (by decide)).slot hbody [] (by decide)).slot hlast [')'] (by decide)

/-- A routine is listed if and only if its names and its body are. -/
theorem writes_routineWithin (hs : context.scopes.Within (vocabulary quiet))
    (houter : Table.Reads context .outermost 0) (hn : (vocabulary quiet).name n) (kind : String)
    (result : Tree) (locals : Nat) {ps : List Parameter}
    (hps : ∀ p ∈ ps, (vocabulary quiet).name p.name) {codes : List Code}
    (hcodes : ∀ c ∈ codes, c.ActionWithin (vocabulary quiet)) {fuel : Nat} {p : Prop}
    (hnames : SucceedsIff p ((context.scopes.symbolsOf locals).mapM fun e =>
        localDeclaration (routineWithin context fuel) e.1 e.2) fun declared =>
      quiet → MovesAll declared.flatten f) :
    Writes quiet (p ∧ actionsListable context.scopes locals codes)
      (routineWithin context (fuel + 1) n (Declaring.routineInfo (.text kind) result
        (Code.bodyTree codes) (.scope locals) (ps.map Parameter.pair)))
      (enclose (follow (actionDepths context.scopes locals codes) ∘ enclose f)) := by
  have hname : Moves n id := .unmarked hn.2
  have hblank : Moves " " id := .literal [] (by decide)
  have hbreak : Moves "\n  " id := .literal [] (by decide)
  have htwo : Moves "  " id := .literal [] (by decide)
  -- The parameters of a routine are listed by their names.
  have hparameters : ∀ parameter ∈ (ps.map Parameter.pair).map fun pair =>
      Tree.dict [("name", pair.1), ("type", pair.2)],
      SucceedsIff True (parameter.entry "name") fun name => ∃ m, name = .text m ∧ Moves m id := by
    intro parameter hparameter
    simp only [List.map_map, List.mem_map] at hparameter
    obtain ⟨p, hp, rfl⟩ := hparameter
    exact .pure ⟨p.name, rfl, .unmarked (hps p hp).2⟩
  have htexts : ∀ {name : Tree}, (∃ m, name = .text m ∧ Moves m id) →
      SucceedsIff True (textOf name) fun text => Moves text id := by
    rintro _ ⟨m, rfl, hm⟩
    exact .pure hm
  refine .step rfl (.step rfl ?_)
  refine (SucceedsIff.forall_mapM hparameters).andThen fun names hnamed => ?_
  refine (SucceedsIff.forall_mapM fun name hmem => htexts (hnamed name hmem)).andThen
    fun texts hlisted => ?_
  refine .step rfl (hnames.bind fun declared hdeclared => ?_)
  refine .step rfl (.step rfl ?_)
  have hwrites := writes_body hs houter (.scope context locals) htwo hcodes
  refine hwrites.before fun body hbody => .step rfl (.pure fun hquiet => ?_)
  have hdeclared := hdeclared hquiet
  -- What the routine declares stands in one group.
  have hgroup : Moves (if declared.flatten.isEmpty then ";; нет локальных переменных"
      else "(var\n  " ++ "\n  ".intercalate declared.flatten ++ "\n)") (enclose f) := by
    split
    next hempty =>
      rw [List.isEmpty_iff.1 hempty] at hdeclared
      rw [hdeclared.eq_id_of_nil, enclose_id]
      exact .literal [] (by decide)
    next =>
      exact (Moves.literal ['('] (by decide)).slot (hdeclared.intercalate hbreak) [')'] (by decide)
  have hlast : Moves (if (Tree.text kind).isTextOf "function" then s!"  (return {n})" else "")
      id := by
    split
    · exact ((Moves.literal ['('] (by decide)).slot hname [')'] (by decide)).congr enclose_id
    · exact .empty
  exact hname.routine (hblank.intercalate_id hlisted) hgroup (hbody hquiet) hlast

end Listing

/-! ### Declarations -/

/-- What `list` gives for the names of the scope `home` has the pieces of their listings in it.
Names are always listed, unless they are the names of routines; those are listed if they can be with
fuel for all that they may contain. -/
structure ListsNames {γ : Type} (quiet : Prop) (context : Context) (home : Nat)
    (list : String × Tree → Except Fault γ) (pieces : γ → List String) : Prop where
  plain : ∀ {n : String} {info : Tree}, (vocabulary quiet).name n →
    PlainEntry (vocabulary quiet) info →
    SucceedsIff True (list (n, info)) fun v => quiet → MovesAll (pieces v) info.entryDepth
  routine : context.scopes.symbolsOf home ≠ [] → ∀ (n : String) {kind : String}
    (result code locals : Tree) (ps : List (Tree × Tree)), kind ≠ "parameter" →
    ∃ fuel, context.scopes.weight home < fuel ∧ ∀ {p : Prop} {f : Depth → Depth},
      Writes quiet p (routineWithin context fuel n
        (Declaring.routineInfo (.text kind) result code locals ps)) f →
      SucceedsIff p (list (n, Declaring.routineInfo (.text kind) result code locals ps)) fun v =>
        quiet → MovesAll (pieces v) f

section Declarations

variable {γ : Type} {quiet : Prop} {context : Context} {home : Nat}
  {list : String × Tree → Except Fault γ} {pieces : γ → List String}

theorem ListsNames.locals (fuel : Nat)
    (hfuel : context.scopes.symbolsOf home ≠ [] → context.scopes.weight home < fuel) :
    ListsNames quiet context home
      (fun e => localDeclaration (routineWithin context fuel) e.1 e.2) id := by
  refine ⟨fun hn h => lists_localDeclaration _ hn h, ?_⟩
  intro hhome n kind result code locals ps hkind
  refine ⟨fuel, hfuel hhome, fun hroutine => ?_⟩
  have hparameter : ¬(Tree.text kind).isTextOf "parameter" = true := by
    simpa [Tree.isTextOf] using hkind
  change SucceedsIff _ (if (Tree.text kind).isTextOf "parameter" = true then _ else _) _
  rw [if_neg hparameter]
  exact hroutine.before fun _ htext => .pure fun hquiet => .single (htext hquiet)

/-- The listing of a single name. -/
theorem lists_single {e : String × Tree} {p : Prop} {f : Depth → Depth}
    (h : SucceedsIff p (list e) fun v => quiet → MovesAll (pieces v) f) :
    SucceedsIff p ([e].mapM list) fun vs => quiet → MovesAll (vs.flatMap pieces) f := by
  rw [List.mapM_cons, List.mapM_nil]
  refine h.before fun v hv => .step rfl (.pure fun hquiet => ?_)
  rw [List.flatMap_singleton]
  exact hv hquiet

/-- The listing of a name that a declaration has added, other than that of a routine. -/
theorem ListsNames.lists_entry (hlists : ListsNames quiet context home list pieces)
    (hs : context.scopes.Within (vocabulary quiet)) {n : String} {info : Tree}
    (hentry : PlainEntry (vocabulary quiet) info)
    (hmem : (n, info) ∈ context.scopes.symbolsOf home)
    (hnodup : ((context.scopes.symbolsOf home).map Prod.fst).Nodup) :
    SucceedsIff True ([(n, info)].mapM list) fun vs =>
      quiet → MovesAll (vs.flatMap pieces) (context.scopes.entryDepth home n) := by
  obtain ⟨hn, -⟩ := hs home _ hmem
  rw [Scopes.entryDepth, Scopes.lookup_of_mem hnodup hmem]
  exact lists_single (hlists.plain hn hentry)

/-- Parameters have no listing. -/
theorem exists_mapM_parameters {V : Vocabulary} {nested : String → Tree → Except Fault String} :
    ∀ {own : List (String × Tree)}, (∀ e ∈ own, ParameterEntry V e.2) →
      ∃ listed, own.mapM (fun e => localDeclaration nested e.1 e.2) = .ok listed ∧
        listed.flatten = []
  | [], _ => ⟨[], rfl, rfl⟩
  | e :: own, hown => by
    rw [List.forall_mem_cons] at hown
    obtain ⟨listed, hlisted, hnone⟩ := exists_mapM_parameters hown.2
    refine ⟨[] :: listed, ?_, hnone⟩
    rw [List.mapM_cons, localDeclaration_parameter hown.1, hlisted]
    rfl

mutual

/-- The names that a declaration adds are listed if and only if all bodies in it can be, and the
listing does to the depth what the declaration says. -/
theorem Decl.Adds.lists (hs : context.scopes.Within (vocabulary quiet))
    (houter : Table.Reads context .outermost 0) : ∀ {γ : Type} {d : Decl} {home : Nat}
    {added : List (String × Tree)} {list : String × Tree → Except Fault γ}
    {pieces : γ → List String}, d.Adds (vocabulary quiet) context.scopes home added →
    d.Within (vocabulary quiet) (stmtsWithin (vocabulary quiet)) →
    added ⊆ context.scopes.symbolsOf home →
    ((context.scopes.symbolsOf home).map Prod.fst).Nodup →
    ListsNames quiet context home list pieces →
    SucceedsIff (d.Bodies (BodyListable context.scopes) context.scopes home) (added.mapM list)
      fun vs => quiet → MovesAll (vs.flatMap pieces) (d.listedDepth context.scopes home)
  | _, .type _ (.named _), _, _, _, _, rfl, _, _, _, _
  | _, .type _ .omitted, _, _, _, _, rfl, _, _, _, _ => .pure fun _ => .nil
  | _, .type _ (.array _), _, _, _, _, ⟨_, h, rfl⟩, _, hadded, hnodup, hlists
  | _, .type _ (.record _), _, _, _, _, ⟨_, h, rfl⟩, _, hadded, hnodup, hlists
  | _, .const _ _ _, _, _, _, _, ⟨_, h, rfl⟩, _, hadded, hnodup, hlists
  | _, .var _ _ _ _, _, _, _, _, ⟨_, h, rfl⟩, _, hadded, hnodup, hlists =>
    hlists.lists_entry hs h (hadded List.mem_cons_self) hnodup
  | _, .routine kind n ps (.mk ds ss) result, home, _, _, _,
      ⟨code, locals, own, inner, rfl, hhome, _, _, hsymbols, hnodup', _, hown, hds, hcode⟩,
      ⟨hkind, hn, hps, hwithin, hss⟩, hadded, hnodup, hlists => by
    have hmem := hadded List.mem_cons_self
    obtain ⟨codes, hcodes, rfl⟩ := hcode
    have hentry := Scopes.lookup_of_mem hnodup hmem
    have hlocals : context.scopes.localsOf home n = some locals := by
      rw [Scopes.localsOf, hentry]
      rfl
    obtain ⟨fuel, hfuel, hlisted⟩ := hlists.routine (List.ne_nil_of_mem hmem) n result.toTree
      (Code.bodyTree codes) (.scope locals) (ps.map Parameter.pair) hkind
    obtain ⟨fuel, rfl⟩ := Nat.exists_eq_succ_of_ne_zero (Nat.ne_zero_of_lt hfuel)
    -- What is left of the fuel is enough for the names of the routine.
    have hnames : ListsNames quiet context locals _ id := .locals fuel fun hne =>
      Nat.lt_of_lt_of_le (Scopes.weight_lt hhome hne) (Nat.le_of_lt_succ hfuel)
    have hinner : inner ⊆ context.scopes.symbolsOf locals := by
      rw [hsymbols]
      exact List.subset_append_right own inner
    have hdecls := declsAdd.lists hs houter hds hwithin hinner (hsymbols ▸ hnodup') hnames
    have hdeclared : SucceedsIff
        (declsBodies (BodyListable context.scopes) context.scopes locals ds)
        ((context.scopes.symbolsOf locals).mapM fun e =>
          localDeclaration (routineWithin context fuel) e.1 e.2) fun declared =>
        quiet → MovesAll declared.flatten (declsDepth context.scopes locals ds) := by
      obtain ⟨listed, hown, hnone⟩ := exists_mapM_parameters hown
      rw [hsymbols, List.mapM_append]
      refine .step hown (hdecls.before fun declared hdeclared => .pure fun hquiet => ?_)
      rw [List.flatten_append, hnone, List.nil_append, ← List.flatMap_id]
      exact hdeclared hquiet
    have hroutine := writes_routineWithin hs houter hn kind result.toTree locals
      (fun p hp => (hps p hp).1) (body_generate_within (vocabulary_codes quiet) hss hcodes)
      hdeclared
    rw [Decl.bodies_routine hentry, Block.Bodies, bodyListable_iff hcodes, Decl.listedDepth,
      hlocals]
    refine (lists_single (hlisted ?_)).congr and_comm
    change Writes quiet _ _ (Block.routineDepth context.scopes locals (.mk ds ss))
    rw [Block.routineDepth, bodyDepth_eq hcodes]
    exact hroutine

theorem declsAdd.lists (hs : context.scopes.Within (vocabulary quiet))
    (houter : Table.Reads context .outermost 0) : ∀ {γ : Type} {ds : List Decl} {home : Nat}
    {added : List (String × Tree)} {list : String × Tree → Except Fault γ}
    {pieces : γ → List String}, declsAdd (vocabulary quiet) context.scopes home ds added →
    declsWithin (vocabulary quiet) (stmtsWithin (vocabulary quiet)) ds →
    added ⊆ context.scopes.symbolsOf home →
    ((context.scopes.symbolsOf home).map Prod.fst).Nodup →
    ListsNames quiet context home list pieces →
    SucceedsIff (declsBodies (BodyListable context.scopes) context.scopes home ds)
      (added.mapM list) fun vs => quiet → MovesAll (vs.flatMap pieces)
        (declsDepth context.scopes home ds)
  | _, [], _, _, _, _, rfl, _, _, _, _ => .pure fun _ => .nil
  | _, _ :: _, _, _, _, _, ⟨_, _, rfl, hfirst, hrest⟩, ⟨hd, hds⟩, hadded, hnodup, hlists => by
    obtain ⟨haddedFirst, haddedRest⟩ := List.append_subset.1 hadded
    rw [List.mapM_append]
    refine (hfirst.lists hs houter hd haddedFirst hnodup hlists).bind fun first hfirst => ?_
    refine (declsAdd.lists hs houter hrest hds haddedRest hnodup hlists).before
      fun rest hrest => .pure fun hquiet => ?_
    rw [List.flatMap_append]
    exact .append (hfirst hquiet) (hrest hquiet)

end

end Declarations

end MiniPascal
