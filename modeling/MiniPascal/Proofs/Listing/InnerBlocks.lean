import MiniPascal.Proofs.Listing.Statements

/-!
# Inner Blocks

The statements of a routine are listed with the table of the routine, and so are the statements of
its loops and branches. A block that itself stands among statements is not: its statements are
listed with the outermost table, and the table of the routine is written before each of them in
place of an indentation. The lowering of a loop over a range makes such a block.

* `block_eq_scopedBlock`: how a block and a block inside it are listed; the listing of flat code is
  the scoped one.
-/

namespace MiniPascal

open Listing

/-! ### Scoped listings -/

namespace Listing

mutual

/-- The listing of a block with an indentation where all statements are looked up in the given
table. A block among statements has no indentation of its own. -/
def scopedBlock (context : Context) : Tree → String → Table → Except Fault String
  | .dict entries => fun indent table =>
    let parts := scopedParts context entries
    if isBlockType ((entries.lookup "type").getD .null) then
      blockLines indent table (parts.lookup "statements")
    else statementCode context entries parts table
  | _ => fun _ _ => .error .noSuchPart

def scopedParts (context : Context) : List (String × Tree) → List (String × StatementPart)
  | [] => []
  | (key, value) :: rest =>
    (key, { statement := scopedBlock context value ""
            block := scopedBlock context value
            elements := scopedElements context value }) :: scopedParts context rest

def scopedElements (context : Context) : Tree → Except Fault (List (Table → Except Fault String))
  | .list items | .tuple items => .ok (scopedItems context items)
  | t => do return (← t.elements).map fun _ _ => .error .noSuchPart

def scopedItems (context : Context) : List Tree → List (Table → Except Fault String)
  | [] => []
  | item :: rest => scopedBlock context item "" :: scopedItems context rest

end

def blockTree (word : String) (statements : List Code) : Tree :=
  .dict [("type", .text word), ("statements", .list (Code.toTrees statements))]

end Listing

mutual

/-- Whether no block stands among statements, unless it has no statements itself. -/
def Code.isFlat : Code → Bool → Bool
  | .block statements, isStatement =>
    if isStatement then statements.isEmpty else areFlat statements
  | .whileLoop _ body, _ => body.isFlat false
  | .ifElse _ thenBranch elseBranch, _ => thenBranch.isFlat false && elseBranch.isFlat false
  | _, _ => true

def areFlat : List Code → Bool
  | [] => true
  | c :: cs => c.isFlat true && areFlat cs

end

namespace Listing

variable {context : Context} {table : Table} {cs : List Code} {condition : Code} {indent : String}

theorem scopedItems_toTrees (cs : List Code) : scopedItems context (Code.toTrees cs) =
    cs.map fun c => scopedBlock context c.toTree "" := by
  induction cs with
  | nil => rfl
  | cons c cs ih => rw [Code.toTrees, scopedItems, ih, List.map_cons]

/-- The lines of a block, each made by a step for one of its statements. -/
def linesOf (indent : String) (step : Code → Except Fault String) (cs : List Code) :
    Except Fault String := do
  return "\n  ".intercalate (← cs.mapM fun c => do return indent ++ (← step c))

def loopCode (context : Context) (table : Table) (condition : Code)
    (body : Except Fault String) : Except Fault String := do
  let test ← (← expression context condition.toTree false table).plain
  let inner ← body
  return s!"(while {test}\n  {inner}\n  )"

/-- The listing of a conditional statement by those of its branches. -/
def branchCode (context : Context) (table : Table) (condition : Code)
    (yes no : Except Fault String) : Except Fault String := do
  let test ← (← expression context condition.toTree false table).plain
  let first ← yes
  let second ← no
  let indent := ""
  if second.isEmpty then return s!"(if {test}\n{indent}    {first}\n      )"
  else return s!"(if {test}\n  {indent}{first}\n{indent}    else\n  {indent}  {second}\n    )"

theorem blockLines_eq_linesOf {step : Code → Table → Except Fault String}
    {single : Table → Except Fault String} {whole : String → Table → Except Fault String} :
    blockLines indent table (some { statement := single, block := whole
                                    elements := .ok (cs.map step) }) =
      linesOf indent (fun c => step c table) cs := by
  change (do return "\n  ".intercalate (← (cs.map step).mapM fun s => do
    return indent ++ (← s table))) = linesOf _ _ _
  rw [List.mapM_map]
  rfl

theorem block_blockTree {word : String} (hword : isBlockType (.text word) = true)
    (cs : List Code) (indent : String) : block context (blockTree word cs) indent table =
      linesOf indent (fun c => statement context c.toTree table) cs := by
  change (if isBlockType (.text word) then blockLines indent table (some {
    statement := _, block := _, elements := .ok (statementItems context (Code.toTrees cs)) })
    else _) = _
  rw [if_pos hword, statementItems_toTrees, blockLines_eq_linesOf]

theorem scopedBlock_blockTree {word : String} (hword : isBlockType (.text word) = true)
    (cs : List Code) (indent : String) : scopedBlock context (blockTree word cs) indent table =
      linesOf indent (fun c => scopedBlock context c.toTree "" table) cs := by
  change (if isBlockType (.text word) then blockLines indent table (some {
    statement := _, block := _, elements := .ok (scopedItems context (Code.toTrees cs)) })
    else _) = _
  rw [if_pos hword, scopedItems_toTrees, blockLines_eq_linesOf]

theorem statement_block (cs : List Code) : statement context (Code.block cs).toTree table =
    linesOf table.asIndent (fun c => statement context c.toTree .outermost) cs := by
  change blockLines table.asIndent .outermost (some {
    statement := _, block := _, elements := .ok (statementItems context (Code.toTrees cs)) }) = _
  rw [statementItems_toTrees, blockLines_eq_linesOf]

theorem statement_ifElse {yes no : Code} (hno : no = .nothing ∨ no.IsAction) :
    statement context (Code.ifElse condition yes no).toTree table =
      branchCode context table condition (block context yes.toTree "  " table)
        (if no.toTree.isNull then .ok "" else block context no.toTree "  " table) := by
  rcases hno with rfl | hno
  · rfl
  · cases hno with
    | @block statements => cases statements <;> rfl
    | _ => rfl

theorem scopedBlock_ifElse {yes no : Code} (hno : no = .nothing ∨ no.IsAction) (indent : String) :
    scopedBlock context (Code.ifElse condition yes no).toTree indent table =
      branchCode context table condition (scopedBlock context yes.toTree "  " table)
        (if no.toTree.isNull then .ok "" else scopedBlock context no.toTree "  " table) := by
  rcases hno with rfl | hno
  · rfl
  · cases hno with
    | @block statements => cases statements <;> rfl
    | _ => rfl

/-! ### Flat code -/

theorem linesOf_congr {step step' : Code → Except Fault String} (h : ∀ c ∈ cs, step c = step' c) :
    linesOf indent step cs = linesOf indent step' cs := by
  have hlines : (cs.mapM fun c => do return indent ++ (← step c)) =
      cs.mapM fun c => do return indent ++ (← step' c) := by
    refine mapM_eq_of_forall₂ (List.forall₂_same.2 fun c hc => ?_)
    rw [h c hc]
  rw [linesOf, hlines, linesOf]

theorem areFlat_iff : areFlat cs = true ↔ ∀ c ∈ cs, c.isFlat true = true := by
  induction cs with
  | nil => simp [areFlat]
  | cons c cs ih => rw [areFlat, Bool.and_eq_true, ih, List.forall_mem_cons]

/-- Flat code is listed with one table only, by itself and in place of a block. So is all code if
the table is the outermost one. -/
theorem statement_eq_scopedBlock {c : Code} (h : c.IsAction) :
    ((table.isGiven = true → c.isFlat true = true) →
      statement context c.toTree table = scopedBlock context c.toTree "" table) ∧
    ∀ indent, (table.isGiven = true → c.isFlat false = true) →
      block context c.toTree indent table = scopedBlock context c.toTree indent table := by
  induction h with
  | assign | procedureCall => exact ⟨fun _ => rfl, fun _ _ => rfl⟩
  | @block cs _ ih =>
    refine ⟨fun hflat => ?_, fun indent hflat => ?_⟩
    · refine (statement_block cs).trans (.trans ?_ (scopedBlock_blockTree rfl cs "").symm)
      by_cases hgiven : table.isGiven = true
      · obtain rfl : cs = [] := by simpa [Code.isFlat] using hflat hgiven
        rfl
      · obtain rfl : table = .outermost := by
          cases table with
          | outermost => rfl
          | _ => exact absurd rfl hgiven
        exact linesOf_congr fun c hc => (ih c hc).1 fun houter => absurd houter hgiven
    · refine (block_blockTree rfl cs indent).trans ?_
      refine .trans ?_ (scopedBlock_blockTree rfl cs indent).symm
      refine linesOf_congr fun c hc => (ih c hc).1 fun hgiven => ?_
      exact areFlat_iff.1 (hflat hgiven) c hc
  | @whileLoop condition _ _ _ ih =>
    have hloop := fun hflat => congrArg (loopCode context table condition) (ih.2 "  " hflat)
    exact ⟨hloop, fun _ => hloop⟩
  | @ifThen condition yes _ _ ih =>
    have hbranch : (table.isGiven = true → yes.isFlat false = true) →
        statement context (Code.ifElse condition yes .nothing).toTree table =
          branchCode context table condition (scopedBlock context yes.toTree "  " table)
            (.ok "") := by
      intro hflat
      rw [statement_ifElse (.inl rfl), ih.2 "  " hflat]
      rfl
    have hyes : ∀ {isStatement : Bool}, (table.isGiven = true →
        (Code.ifElse condition yes .nothing).isFlat isStatement = true) →
        table.isGiven = true → yes.isFlat false = true := by
      intro isStatement hflat hgiven
      simpa [Code.isFlat] using hflat hgiven
    exact ⟨fun hflat => hbranch (hyes hflat), fun _ hflat => hbranch (hyes hflat)⟩
  | @ifElse condition yes no _ _ helse ihyes ihno =>
    have hbranch : (table.isGiven = true → (yes.isFlat false && no.isFlat false) = true) →
        ∀ indent, statement context (Code.ifElse condition yes no).toTree table =
          scopedBlock context (Code.ifElse condition yes no).toTree indent table := by
      intro hflat indent
      simp only [Bool.and_eq_true] at hflat
      rw [statement_ifElse (.inr helse), scopedBlock_ifElse (.inr helse),
        ihyes.2 "  " fun hgiven => (hflat hgiven).1, ihno.2 "  " fun hgiven => (hflat hgiven).2]
    exact ⟨fun hflat => hbranch hflat "", fun indent hflat => hbranch hflat indent⟩

/-- Every statement of a block is listed as it is by itself, with the table of the block and after
nothing but the indentation. A block that stands among statements is listed with the outermost
table, and the given one is written before each of its statements. So all statements at whatever
depth are listed with the table of the block if the code is flat, or if the table is the outermost
one. -/
theorem block_eq_scopedBlock {word : String} (hword : isBlockType (.text word) = true)
    {cs : List Code} (hcs : ∀ c ∈ cs, c.IsAction) (indent : String) :
    block context (blockTree word cs) indent table =
        linesOf indent (fun c => statement context c.toTree table) cs ∧
      (∀ inner, statement context (Code.block inner).toTree table =
        linesOf table.asIndent (fun c => statement context c.toTree .outermost) inner) ∧
      ((table.isGiven = true → areFlat cs = true) →
        block context (blockTree word cs) indent table =
          scopedBlock context (blockTree word cs) indent table) := by
  refine ⟨block_blockTree hword cs indent, statement_block, fun hflat => ?_⟩
  rw [block_blockTree hword, scopedBlock_blockTree hword]
  refine linesOf_congr fun c hc => (statement_eq_scopedBlock (hcs c hc)).1 fun hgiven => ?_
  exact areFlat_iff.1 (hflat hgiven) c hc

/-- A table with a variable for integers. -/
def oneVariable : Table :=
  .loose [("x", .dict [("type", .text "var"), ("info", .dict [("type", .text "integer")])])]

/-- A loop with a conditional assignment in it. -/
def guardedLoop : Code :=
  .whileLoop (.compare (.text "<") (.name (.text "x")) (.integer (.int 3)))
    (.block [.ifElse (.name (.text "x"))
      (.block [.assign (.name (.text "x")) (.name (.text "x"))]) .nothing])

theorem isAction_guardedLoop : guardedLoop.IsAction := by
  have hset : (Code.assign (.name (.text "x")) (.name (.text "x"))).IsAction :=
    .assign (.value (.name "x")) (.name "x")
  have hbranch := Code.IsAction.ifThen (.name "x") (.block (List.forall_mem_singleton.2 hset))
  exact .whileLoop (.compare "<" (.name "x") (.number 3))
    (.block (List.forall_mem_singleton.2 hbranch))

/-- The loop is flat, and the variable in it is loaded wherever its value is needed. In a block
around the loop it is not known, and so it is not loaded. -/
theorem block_eq_scopedBlock_oneVariable :
    block ⟨.empty, 0⟩ (blockTree "Block" [guardedLoop]) "  " oneVariable =
        .ok "  (while ((L x) \"<\" 3)\n    (if (L x)\n      (x \"=\" (L x))\n      )\n  )" ∧
      scopedBlock ⟨.empty, 0⟩ (blockTree "Block" [.block [guardedLoop]]) "  " oneVariable =
        .ok "  (while ((L x) \"<\" 3)\n    (if (L x)\n      (x \"=\" (L x))\n      )\n  )" ∧
      block ⟨.empty, 0⟩ (blockTree "Block" [.block [guardedLoop]]) "  " oneVariable =
        .ok ("  <semantic.symbol_table.SymbolTable object at 0x0>" ++
          "(while (x \"<\" 3)\n    (if x\n      (x \"=\" x)\n      )\n  )") := by
  have hscoped : scopedBlock ⟨.empty, 0⟩ (blockTree "Block" [guardedLoop]) "  " oneVariable =
      .ok "  (while ((L x) \"<\" 3)\n    (if (L x)\n      (x \"=\" (L x))\n      )\n  )" := by
    decide +kernel
  refine ⟨?_, by decide +kernel, by decide +kernel⟩
  exact ((block_eq_scopedBlock rfl (List.forall_mem_singleton.2 isAction_guardedLoop) "  ").2.2
    fun _ => rfl).trans hscoped

end Listing

end MiniPascal
