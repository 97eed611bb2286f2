import MiniPascal.Proofs.Listing.Expressions

/-!
# Listings of Statements

A call of a procedure is never listed. Every other statement is listed if its expressions and the
statements inside it are. The names in them are looked up in the scope of the routine, but those of
a block that stands among the statements of another one are looked up in the scope of the program.

An assignment to a record is listed as the two halves of one call and nothing around them, and an
assignment to an array, or to an element of one, closes a parenthesis that was never opened unless
the elements are integers, characters or strings. Other statements are as balanced as their parts.
-/

namespace MiniPascal

open Listing

mutual

/-- All that the listing of a statement needs is known: the names of the statement in the scope `k`,
and, if it is a block, the names of its statements in the scope `inner`. -/
def Code.ActionListable (s : Scopes) (k inner : Nat) : Code → Prop
  | .assign target value => target.Listable s k ∧ value.Listable s k
  | .procedureCall _ _ => False
  | .whileLoop condition body => condition.Listable s k ∧ body.ActionListable s k k
  | .ifElse condition thenBranch elseBranch => condition.Listable s k ∧
      thenBranch.ActionListable s k k ∧ elseBranch.ActionListable s k k
  | .block statements => actionsListable s inner statements
  | _ => True

/-- All that the listing of the statements of a block needs is known in the scope `k`, and for the
blocks among them in the scope of the program. -/
def actionsListable (s : Scopes) (k : Nat) : List Code → Prop
  | [] => True
  | c :: cs => c.ActionListable s k 0 ∧ actionsListable s k cs

end

theorem actionsListable_iff {s : Scopes} {k : Nat} : ∀ {cs : List Code},
    actionsListable s k cs ↔ ∀ c ∈ cs, c.ActionListable s k 0
  | [] => by simp [actionsListable]
  | c :: cs => by rw [actionsListable, List.forall_mem_cons, actionsListable_iff]

/-! ### Statements and the depth -/

/-- Whether a name stands for an array whose elements are not single cells. -/
def Scopes.isWide (s : Scopes) (k : Nat) (n : String) : Bool :=
  !(["", "integer", "string", "char"].contains (s.elementName k n))

/-- What an assignment does to the depth, by what its target and its value do one after the
other. -/
def assignDepth (s : Scopes) (k : Nat) (parts : Depth → Depth) : Code → Depth → Depth
  | .name (.text n) =>
    if s.isRecord k n then parts
    else if s.isWide k n then Depth.closed ∘ enclose^[2] parts
    else enclose parts
  | .element array _ =>
    if s.isWide k array then Depth.closed ∘ enclose^[2] parts else enclose parts
  | _ => enclose parts

mutual

/-- What the listing of a statement does to the depth, by what the scope `k` knows about its names
and, if it is a block, by what the scope `inner` knows about those of its statements. -/
def Code.actionDepth (s : Scopes) (k inner : Nat) : Code → Depth → Depth
  | .assign target value =>
    assignDepth s k (value.depth s k false ∘ target.depth s k true) target
  | .whileLoop condition body => enclose (body.actionDepth s k k ∘ condition.depth s k false)
  | .ifElse condition thenBranch elseBranch =>
    enclose (elseBranch.actionDepth s k k ∘ thenBranch.actionDepth s k k ∘
      condition.depth s k false)
  | .block statements => follow (actionDepths s inner statements)
  | _ => id

/-- What the statements of a block do to the depth. Blocks among them are looked up in the scope of
the program. -/
def actionDepths (s : Scopes) (k : Nat) : List Code → List (Depth → Depth)
  | [] => []
  | c :: cs => c.actionDepth s k 0 :: actionDepths s k cs

end

theorem actionDepths_eq_map (s : Scopes) (k : Nat) : ∀ cs : List Code,
    actionDepths s k cs = cs.map (Code.actionDepth s k 0)
  | [] => rfl
  | c :: cs => by rw [actionDepths, actionDepths_eq_map, List.map_cons]

namespace Listing

variable {quiet p q r : Prop} {context : Context} {table : Table} {k : Nat}

/-! ### Assignments -/

section Assignments

variable {s t n : String} {f g : Depth → Depth}

theorem Moves.assignment (hs : Moves s f) (ht : Moves t g) :
    Moves (plainAssignment s t) (enclose (g ∘ f)) :=
  ((Moves.literal ['('] (by decide)).slot hs [] (by decide)).slot ht [')'] (by decide)

/-- The call that copies a value to where it is assigned can be written. -/
theorem writes_copyCall (hs : quiet → Moves s f) (ht : quiet → Moves t g) {type : String}
    (htype : (vocabulary quiet).name type) :
    Writes quiet True (copyCall s t (.text type)) (enclose (g ∘ f)) := by
  have htruthy : (Tree.text type).isTruthy = true := by
    simpa [Tree.isTruthy] using htype.1
  rw [copyCall, if_pos htruthy]
  refine .step rfl (.pure fun hq => ?_)
  exact (((Moves.literal ['('] (by decide)).slot (hs hq) [] (by decide)).slot
    (ht hq) [] (by decide)).slot (.unmarked htype.2) [')'] (by decide)

/-- The effect of an assignment to an array or to an element, by the type of the elements. -/
theorem isWide_eq {s : Scopes} {element : String} (helement : s.elementName k n = element)
    (hname : (vocabulary quiet).name element) : s.isWide k n = !isCellType (.text element) := by
  have hne : element ≠ "" := hname.1
  rw [Scopes.isWide, helement, Bool.not_inj_iff, Bool.eq_iff_iff, isCellType, isOneOf_text]
  simp [hne]

theorem writes_arrayCopy {info : Tree} (h : ArrayInfo (vocabulary quiet) info) {element : String}
    (helement : info.get "element_type" = .ok (.text element)) (hs : quiet → Moves s f)
    (ht : quiet → Moves t g) :
    Writes quiet True (arrayCopy info s t) (if isCellType (.text element) then enclose (g ∘ f)
      else Depth.closed ∘ enclose^[2] (g ∘ f)) := by
  obtain ⟨element', _, low, high, helement', -, hname, -, -, hbounds⟩ := h.exists_bounds
  obtain rfl := Tree.text.inj (Except.ok.inj (helement.symm.trans helement'))
  have hlow : Moves (toString low) id := .unmarked (unmarked_toString low)
  have hhigh : Moves (toString high) id := .unmarked (unmarked_toString high)
  refine .step helement (.step hbounds (.step rfl (.step rfl ?_)))
  split
  next hcell =>
    refine .step rfl (.pure fun hq => ?_)
    have hcall : Moves s!"(call memcpy_ {s} {t}" fun d => g (f d.opened) :=
      ((Moves.literal ['('] (by decide)).slot (hs hq) [] (by decide)).append (ht hq)
    -- The size of the array is balanced by itself.
    refine (((hcall.append (.literal ['(', '('] (by decide))).slot hhigh [] (by decide)).slot hlow
      [')', ')', ')'] (by decide)).congr (funext fun d => ?_)
    exact congrArg Depth.closed (Depth.closed_closed_opened_opened _)
  next hcell =>
    refine (writes_copyCall hs ht hname).before fun call hcall => .step rfl (.pure fun hq => ?_)
    have hopen : Moves s!"({call}(" fun d => (enclose (g ∘ f) d.opened).opened :=
      (Moves.literal ['('] (by decide)).slot (hcall hq) ['('] (by decide)
    refine (((hopen.slot (.unmarked hname.2) [')', '(', '('] (by decide)).slot
      hhigh [] (by decide)).slot hlow
      [')', ')', ')', ')'] (by decide)).congr (funext fun d => ?_)
    refine congrArg (fun d => Depth.closed (Depth.closed d))
      ((Depth.closed_closed_opened_opened _).trans ?_)
    exact Depth.closed_opened _

section

variable (hs : context.scopes.Within (vocabulary quiet)) (hreads : table.Reads context k)

include hs hreads

/-- What is assigned to an element of a known array, or to what is neither a record nor an array, is
listed. -/
theorem writes_elementAssignment {target : Code} (htarget : target.ValueWithin (vocabulary quiet))
    (hplace : target.isPlace = true)
    (hname : ∀ n, target = .name (.text n) →
      context.scopes.isRecord k n = false ∧ context.scopes.isWide k n = false)
    (hlistable : target.Listable context.scopes k) (haddress : quiet → Moves s f)
    (hvalue : quiet → Moves t g) :
    Writes quiet True (elementAssignment context table target.toTree s t)
      (assignDepth context.scopes k (g ∘ f) target) := by
  have hplain : Writes quiet True (pure (plainAssignment s t)) (enclose (g ∘ f)) :=
    .pure fun hq => (haddress hq).assignment (hvalue hq)
  cases htarget with
  | @name n =>
    obtain ⟨hrecord, hwide⟩ := hname n rfl
    rw [assignDepth, hrecord, if_neg Bool.false_ne_true, hwide, if_neg Bool.false_ne_true]
    exact hplain
  | field => exact hplain
  | @element array =>
    obtain ⟨entry, hentry, harray⟩ := hlistable.1
    obtain ⟨info, hinfo, hcases⟩ := (hs.lookupIn hentry).2.isArrayEntry_cases
    rcases hcases with ⟨-, hbounds⟩ | ⟨hfalse, -⟩
    · obtain ⟨element, _, _, _, helement, -, hname, -⟩ := hbounds.exists_bounds
      have hlookup : table.lookup context (.text array) = .ok entry := by
        rw [hreads.lookup hs, hentry, Option.getD_some]
      have htype : context.scopes.elementName k array = element := by
        rw [Scopes.elementName, hentry, Option.map_some, Option.getD_some,
          elementName_eq hinfo helement]
      rw [assignDepth, isWide_eq htype hname]
      refine .step rfl (.step rfl (.step hlookup (.step hinfo (.step helement ?_))))
      split
      next hcell =>
        rw [hcell]
        exact hplain
      next hcell =>
        rw [Bool.not_eq_true] at hcell
        rw [hcell]
        refine (writes_copyCall haddress hvalue hname).before fun call hcall => .pure fun hq => ?_
        exact (Moves.literal ['('] (by decide)).slot (hcall hq) [')', ')'] (by decide)
    · exact absurd (hfalse.symm.trans harray) Bool.false_ne_true
  | _ => exact absurd hplace Bool.false_ne_true

theorem writes_assignment_name (hn : (vocabulary quiet).name n) (haddress : quiet → Moves s f)
    (hvalue : quiet → Moves t g) :
    Writes quiet True (do
      let symbol ← table.lookup context (.text n)
      if symbol.isTruthy then
        let info ← valueInfo symbol
        let type ← info.get "type"
        if type.isTextOf "record" then return s!"{s} {t}"
        else if type.isTextOf "array" then arrayCopy info s t
        else elementAssignment context table (Code.name (.text n)).toTree s t
      else elementAssignment context table (Code.name (.text n)).toTree s t)
      (assignDepth context.scopes k (g ∘ f) (.name (.text n))) := by
  -- What is left if the name stands for neither a record nor an array.
  have hrest : context.scopes.isRecord k n = false → context.scopes.isWide k n = false →
      Writes quiet True (elementAssignment context table (Code.name (.text n)).toTree s t)
        (assignDepth context.scopes k (g ∘ f) (.name (.text n))) := by
    intro hrecord hwide
    refine writes_elementAssignment hs hreads (.name hn) rfl ?_ trivial haddress hvalue
    rintro _ ⟨⟩
    exact ⟨hrecord, hwide⟩
  refine .step (hreads.lookup hs n) ?_
  cases hentry : context.scopes.lookupIn k n with
  | none =>
    exact hrest (by rw [Scopes.isRecord, hentry]; rfl)
      (by rw [Scopes.isWide, Scopes.elementName, hentry]; rfl)
  | some entry =>
    have hform := (hs.lookupIn hentry).2
    have htruthy : entry.isTruthy = true := by
      cases hform with
      | routine => rfl
      | plain h =>
        cases h with
        | parameter h => cases h <;> rfl
        | _ => rfl
    obtain ⟨info, hinfo, hreadable⟩ := hform.valueInfo
    have hrecord : ∀ {type : Tree}, info.get "type" = .ok type →
        context.scopes.isRecord k n = type.isTextOf "record" := by
      intro type htype
      rw [Scopes.isRecord, hentry, Option.any_some, holdsRecord_eq hinfo htype]
    rw [Option.getD_some, if_pos htruthy]
    refine .step hinfo ?_
    cases hreadable with
    | array h =>
      obtain ⟨element, _, _, _, helement, -, hname, -⟩ := h.exists_bounds
      have hwide := isWide_eq (s := context.scopes) (k := k) (n := n) (by
        rw [Scopes.elementName, hentry, Option.map_some, Option.getD_some,
          elementName_eq hinfo helement]) hname
      have htype : info.get "type" = .ok (.text "array") := by
        cases h
        rfl
      have hcopy := writes_arrayCopy h helement haddress hvalue
      rw [assignDepth, hrecord htype, hwide]
      refine .step htype ?_
      cases hcell : isCellType (.text element) <;> rw [hcell] at hcopy <;> exact hcopy
    | other _ helement htype hnone =>
      have hwide : context.scopes.isWide k n = false := by
        rw [Scopes.isWide, Scopes.elementName, hentry, Option.map_some, Option.getD_some,
          elementName_eq_empty hinfo helement]
        rfl
      refine .step htype ?_
      split
      next htrue =>
        rw [assignDepth, hrecord htype, if_pos htrue]
        refine .pure fun hq => ?_
        exact ((haddress hq).append (.literal [] (by decide))).append (hvalue hq)
      next hfalse =>
        rw [hnone, if_neg Bool.false_ne_true]
        rw [Bool.not_eq_true] at hfalse
        exact hrest ((hrecord htype).trans hfalse) hwide

/-- An assignment is listed if its target and its value are. -/
theorem writes_assignment {target value : Code} (htarget : target.ValueWithin (vocabulary quiet))
    (hplace : target.isPlace = true) (hvalue : value.ValueWithin (vocabulary quiet)) :
    Writes quiet (target.Listable context.scopes k ∧ value.Listable context.scopes k)
      (assignment context table target.toTree value.toTree)
      (assignDepth context.scopes k
        (value.depth context.scopes k false ∘ target.depth context.scopes k true) target) := by
  refine (spells_expression hs hreads htarget true).plain_bind fun address hlistable haddress => ?_
  refine (spells_expression hs hreads hvalue false).plain_before fun source hsource => ?_
  have hrest := fun hname => writes_elementAssignment hs hreads htarget hplace hname hlistable
    haddress hsource
  cases htarget with
  | name hn => exact writes_assignment_name hs hreads hn haddress hsource
  | element | field => exact hrest nofun
  | _ => exact absurd hplace nofun

end

end Assignments

/-! ### Statements -/

theorem statementItems_toTrees : ∀ cs : List Code,
    statementItems context (Code.toTrees cs) = cs.map fun c => statement context c.toTree
  | [] => rfl
  | c :: cs => by rw [Code.toTrees, statementItems, statementItems_toTrees, List.map_cons]

theorem moves_asIndent (table : Table) : Moves table.asIndent id := by
  have hshown : Moves "<semantic.symbol_table.SymbolTable object at 0x0>" id :=
    .literal [] (by decide)
  cases table with
  | outermost => exact .empty
  | scope | loose => exact hshown

variable {f g h : Depth → Depth} {indent : String}

/-- The statements of a block are listed if each of them is. -/
theorem writes_blockLines (hindent : Moves indent id) {cs : List Code}
    {single : Table → Except Fault String} {whole : String → Table → Except Fault String}
    {p : Code → Prop} {f : Code → Depth → Depth}
    (h : ∀ c ∈ cs, Writes quiet (p c) (statement context c.toTree table) (f c)) :
    Writes quiet (∀ c ∈ cs, p c) (blockLines indent table
      (some { statement := single, block := whole
              elements := .ok (statementItems context (Code.toTrees cs)) }))
      (follow (cs.map f)) := by
  rw [blockLines, statementItems_toTrees]
  refine .step rfl ?_
  dsimp only
  rw [List.mapM_map]
  have hbreak : Moves "\n  " id := .literal [] (by decide)
  have hlines := SucceedsIff.mapM fun c hc => (h c hc).before fun listed hlisted =>
    SucceedsIff.pure (ε := Fault) (P := fun line => quiet → Moves line (f c))
      (v := indent ++ listed) fun hq => hindent.append (hlisted hq)
  exact hlines.before fun lines hlines => .pure fun hq =>
    hbreak.intercalate_map (hlines.imp fun _ _ h => h hq)

/-- A loop is listed if its condition and its body are. -/
theorem writes_whileLoop {condition body : Code}
    (hcondition : Spells quiet p (expression context condition.toTree false table) f)
    (hbody : Writes quiet q (block context body.toTree "  " table) g) :
    Writes quiet (p ∧ q) (statement context (Code.whileLoop condition body).toTree table)
      (enclose (g ∘ f)) := by
  refine hcondition.plain_bind fun test _ htest => hbody.before fun inner hinner =>
    .pure fun hq => ?_
  exact ((Moves.literal ['('] (by decide)).slot (htest hq) [] (by decide)).slot (hinner hq)
    [')'] (by decide)

/-- A conditional statement is listed if its condition and its branches are. A branch that is
missing is listed as nothing, and so is one without statements. -/
theorem writes_conditional (hindent : Moves indent id) {condition yes no : Code}
    (hcondition : Spells quiet p (expression context condition.toTree false table) f)
    (hyes : Writes quiet q (block context yes.toTree (indent ++ "  ") table) g)
    (hno : no = .nothing ∧ r ∧ h = id ∨ no.ActionWithin (vocabulary quiet) ∧
      Writes quiet r (block context no.toTree (indent ++ "  ") table) h) :
    Writes quiet (p ∧ q ∧ r)
      (conditional context (Code.ifElse condition yes no).toTree table indent)
      (enclose (h ∘ g ∘ f)) := by
  refine hcondition.plain_bind fun test _ htest => hyes.bind fun first hfirst => ?_
  -- What is left to do once both branches are listed.
  let last (second : String) : Except Fault String :=
    if second.isEmpty then return s!"(if {test}\n{indent}    {first}\n      )"
    else return s!"(if {test}\n  {indent}{first}\n{indent}    else\n  {indent}  {second}\n    )"
  have hlast : ∀ second, (quiet → Moves second h) →
      Writes quiet True (last second) (enclose (h ∘ g ∘ f)) := by
    intro second hsecond
    have hstart (hq : quiet) : Moves ("(if " ++ test) (f ∘ Depth.opened) :=
      (Moves.literal ['('] (by decide)).append (htest hq)
    simp only [last]
    split
    next hempty =>
      refine .pure fun hq => ?_
      obtain rfl : second = "" := by simpa using hempty
      rw [(hsecond hq).unique .empty, Function.id_comp]
      exact (((hstart hq).append (.literal [] (by decide))).slot hindent [] (by decide)).slot
        (hfirst hq) [')'] (by decide)
    next =>
      refine .pure fun hq => ?_
      exact ((((((hstart hq).append (.literal [] (by decide))).append hindent).slot
        (hfirst hq) [] (by decide)).slot
        hindent [] (by decide)).slot hindent [] (by decide)).slot (hsecond hq)
        [')'] (by decide)
  rcases hno with ⟨rfl, hr, rfl⟩ | ⟨haction, hno⟩
  · exact (hlast "" fun _ => .empty).congr (iff_of_true trivial hr)
  have hbranch : Writes quiet r (block context no.toTree (indent ++ "  ") table >>= last)
      (enclose (h ∘ g ∘ f)) := hno.before hlast
  cases haction with
  | @block statements =>
    cases statements with
    | nil => exact (hlast "" (hno.2 "" rfl)).congr (iff_of_true trivial (hno.1.1 (succeeds_ok _)))
    | cons => exact hbranch
  | _ => exact hbranch

/-- A statement is listed, by itself or in place of a block, if and only if what it needs is known,
and its listing does to the depth what its parts and its names say. -/
theorem writes_action (hs : context.scopes.Within (vocabulary quiet))
    (houter : Table.Reads context .outermost 0) {c : Code}
    (h : c.ActionWithin (vocabulary quiet)) : ∀ {table : Table} {k : Nat}, table.Reads context k →
      Writes quiet (c.ActionListable context.scopes k 0) (statement context c.toTree table)
        (c.actionDepth context.scopes k 0) ∧
      ∀ indent, Moves indent id → Writes quiet (c.ActionListable context.scopes k k)
        (block context c.toTree indent table) (c.actionDepth context.scopes k k) := by
  have hindent : Moves ("" ++ "  ") id := .literal [] (by decide)
  induction h with
  | assign htarget hplace hvalue =>
    intro table k hreads
    have hassign := writes_assignment hs hreads htarget hplace hvalue
    exact ⟨hassign, fun _ _ => hassign⟩
  | @block statements _ ih =>
    -- The statements of a block are looked up in the table of the block, which is the outermost one
    -- if the block stands among statements.
    have hlines : ∀ {table : Table} {k : Nat}, table.Reads context k → ∀ indent, Moves indent id →
        Writes quiet (actionsListable context.scopes k statements)
          (Listing.block context (Code.block statements).toTree indent table)
          (follow (actionDepths context.scopes k statements)) := by
      intro table k hreads indent hindent
      rw [actionsListable_iff, actionDepths_eq_map]
      exact writes_blockLines hindent fun c hc => (ih c hc hreads).1
    intro table k hreads
    exact ⟨hlines houter table.asIndent (moves_asIndent table), hlines hreads⟩
  | whileLoop hcondition _ ih =>
    intro table k hreads
    have hloop := writes_whileLoop (spells_expression hs hreads hcondition false)
      ((ih hreads).2 "  " hindent)
    exact ⟨hloop, fun _ _ => hloop⟩
  | ifThen hcondition _ ih =>
    intro table k hreads
    have hif := writes_conditional .empty (spells_expression hs hreads hcondition false)
      ((ih hreads).2 _ hindent) (.inl ⟨rfl, trivial, rfl⟩)
    exact ⟨hif, fun _ _ => hif⟩
  | ifElse hcondition _ helse ihthen ihelse =>
    intro table k hreads
    have hif := writes_conditional .empty (spells_expression hs hreads hcondition false)
      ((ihthen hreads).2 _ hindent) (.inr ⟨helse, (ihelse hreads).2 _ hindent⟩)
    exact ⟨hif, fun _ _ => hif⟩
  | procedureCall => exact fun _ => ⟨.error id, fun _ _ => .error id⟩

/-- The statements of a body are listed if and only if what they need is known in its scope, and the
listing does to the depth what they do one after the other. -/
theorem writes_body (hs : context.scopes.Within (vocabulary quiet))
    (houter : Table.Reads context .outermost 0) (hreads : table.Reads context k)
    (hindent : Moves indent id) {codes : List Code}
    (h : ∀ c ∈ codes, c.ActionWithin (vocabulary quiet)) :
    Writes quiet (actionsListable context.scopes k codes)
      (block context (Code.bodyTree codes) indent table)
      (follow (actionDepths context.scopes k codes)) := by
  rw [actionsListable_iff, actionDepths_eq_map]
  exact writes_blockLines hindent fun c hc => (writes_action hs houter (h c hc) hreads).1

end Listing

end MiniPascal
