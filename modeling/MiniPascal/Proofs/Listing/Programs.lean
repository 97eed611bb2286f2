import MiniPascal.Proofs.Listing.Routines

/-!
# Listings of Programs

The listing of a program is put together from the listings of its constants, record types, routines,
variables and statements. Not every program that is accepted can be listed: its constants, types,
variables and parameters never stand in the way, and neither does the nesting of its routines, so
that all depends on the statements of the program and of its routines. They must not call
procedures, and in accesses to elements and fields the names have to be known where the listing
looks for them. What reading the listing does to the depth can be told from the program as well.

* `list_succeeds_iff`: a program that is accepted is listed if and only if all its bodies can be.
-/

namespace MiniPascal

open Listing

/-! ### The outermost scope -/

namespace Scopes

variable {s : Scopes} {k : Nat}

theorem lt_size_of_parentOf_eq_some {parent : Nat} (h : s.parentOf k = some parent) :
    k < s.all.size := by
  by_contra hge
  rw [parentOf, Array.getElem?_eq_none (Nat.le_of_not_lt hge)] at h
  cases h

/-- In a scope with nothing around it only its own names are found. -/
theorem find_of_parentOf_eq_none (h : s.parentOf k = none) (n : String) (fuel : Nat) :
    s.find n (fuel + 1) k = ((s.symbolsOf k).lookup n).map (k, ·) := by
  rw [find, h]
  cases (s.symbolsOf k).lookup n <;> rfl

/-- A scope without names that lies in the outermost one says about names what that one says. -/
theorem lookupIn_of_symbolsOf_eq_nil (hsymbols : s.symbolsOf k = [])
    (hparent : s.parentOf k = some 0) (houter : s.parentOf 0 = none) (n : String) :
    s.lookupIn k n = s.lookupIn 0 n := by
  -- There are at least two scopes, so that the search has fuel for both of them.
  have hk : k ≠ 0 := by
    rintro rfl
    exact absurd (houter.symm.trans hparent) nofun
  have hsize := lt_size_of_parentOf_eq_some hparent
  obtain ⟨fuel, hfuel⟩ : ∃ fuel, s.all.size = fuel + 2 := ⟨s.all.size - 2, by omega⟩
  have hstep : s.find n (fuel + 2) k = s.find n (fuel + 1) 0 := by
    rw [find, hsymbols, hparent]
    rfl
  rw [lookupIn, lookupIn, resolve, resolve, hfuel, hstep, find_of_parentOf_eq_none houter,
    find_of_parentOf_eq_none houter]

end Scopes

namespace Listing

variable {quiet : Prop} {context : Context}

/-! ### The listing by its parts -/

def Output.append (o added : Output) : Output :=
  ⟨o.pieces ++ added.pieces, o.storage ++ added.storage⟩

theorem Output.append_empty (o : Output) : o.append .empty = o := by
  rw [append, empty, List.append_nil, List.append_nil]

theorem Output.append_assoc (o o' o'' : Output) :
    (o.append o').append o'' = o.append (o'.append o'') := by
  simp only [append, List.append_assoc]

/-- The step fails if `x` does, and adds to the output what that gives: all that comes after starts
from there. -/
structure Adds (m : Lister Unit) (x : Except Fault Output) : Prop where
  fst_bind : ∀ {α : Type} (next : Unit → Lister α) (o : Output),
    ((m >>= next) o).1 = x >>= fun added => (next () (o.append added)).1

namespace Adds

theorem piece (step : Except Fault String) :
    Adds (Output.addPiece step) (do return ⟨[← step], []⟩) := by
  refine ⟨fun {α} next o => ?_⟩
  cases step with
  | error e => rfl
  | ok piece =>
    change (next () ⟨_, _⟩).1 = (next () ⟨_, _⟩).1
    rw [List.append_nil]

theorem store (step : Except Fault String) :
    Adds (Output.addVariable step) (do return ⟨[], [← step]⟩) := by
  refine ⟨fun {α} next o => ?_⟩
  cases step with
  | error e => rfl
  | ok piece =>
    change (next () ⟨_, _⟩).1 = (next () ⟨_, _⟩).1
    rw [List.append_nil]

theorem nothing : Adds (pure ()) (.ok .empty) := by
  refine ⟨fun {α} next o => ?_⟩
  change (next () o).1 = (next () (o.append .empty)).1
  rw [o.append_empty]

theorem lift_bind {β : Type} {x : Except Fault β} {f : β → Lister Unit}
    {g : β → Except Fault Output}
    (h : ∀ v, Adds (f v) (g v)) : Adds (liftM x >>= f) (x >>= g) := by
  refine ⟨fun {α} next o => ?_⟩
  cases x with
  | error e => rfl
  | ok v => exact (h v).fst_bind next o

theorem ite {c : Prop} [Decidable c] {m m' : Lister Unit} {x x' : Except Fault Output}
    (h : Adds m x) (h' : Adds m' x') : Adds (if c then m else m') (if c then x else x') := by
  split
  · exact h
  · exact h'

/-- Steps for the items of a list add what each of them adds. -/
theorem forM {β γ : Type} {f : β → Lister Unit} {g : β → Except Fault γ} {add : γ → Output}
    (h : ∀ b, Adds (f b) (do return add (← g b))) : ∀ l : List β, Adds (l.forM f) (do
      let given ← l.mapM g
      return ⟨given.flatMap fun v => (add v).pieces, given.flatMap fun v => (add v).storage⟩)
  | [] => nothing
  | b :: l => by
    refine ⟨fun {α} next o => ?_⟩
    change (((f b >>= fun _ => l.forM f) >>= next) o).1 = _
    rw [bind_assoc, (h b).fst_bind, List.mapM_cons]
    cases g b with
    | error e => rfl
    | ok first =>
      change ((l.forM f >>= next) (o.append (add first))).1 = _
      rw [(forM h l).fst_bind]
      cases l.mapM g with
      | error e => rfl
      | ok rest =>
        change (next () ((o.append (add first)).append _)).1 = _
        rw [Output.append_assoc]
        rfl

end Adds

/-- What the listing of a name adds to the output of a program. -/
def declared (context : Context) (name : String) (given : Tree) : Except Fault Output := do
  let info := readInfo given
  let type ← info.get "type"
  if type.isTextOf "const" then return ⟨[← constant name info], []⟩
  else if type.isTextOf "record" then return ⟨[← recordType name info], []⟩
  else if type.isTextOf "var" then return ⟨[], [← variableDeclaration name info]⟩
  else if (← info.get? "kind").isSome then return ⟨[← routine context name info], []⟩
  else return .empty

theorem adds_declaration (context : Context) (n : String) (info : Tree) :
    Adds (declaration context n info) (do return id (← declared context n info)) := by
  change Adds _ (declared context n info >>= pure)
  rw [bind_pure]
  refine .lift_bind fun type => .ite (.piece _) (.ite (.piece _) (.ite (.store _) ?_))
  exact .lift_bind fun kind => .ite (.piece _) .nothing

/-- The listings of the variables of a program stand in one group. -/
def variableGroup (storage : List String) : List String :=
  if storage.isEmpty then [] else ["(var\n  " ++ "\n  ".intercalate storage ++ "\n)"]

/-- The statements of a program stand as its main function after what has been listed before. -/
theorem fst_mainFunction (line : Tree → Except Fault String) (statements : List Tree) (o : Output) :
    ((do
      Output.addPiece (.ok "( function main_")
      statements.forM fun t => Output.addPiece (line t)
      Output.addPiece (.ok ")")
      return "\n".intercalate (← get).pieces : Lister String) o).1 = do
        let lines ← statements.mapM line
        return "\n".intercalate (o.pieces ++ "( function main_" :: (lines ++ [")"])) := by
  rw [(Adds.piece _).fst_bind]
  change ((_ >>= _ : Lister String) (o.append ⟨["( function main_"], []⟩)).1 = _
  rw [(Adds.forM (fun t => Adds.piece (line t)) statements).fst_bind]
  cases statements.mapM line with
  | error e => rfl
  | ok lines =>
    change
      Except.ok ("\n".intercalate (o.pieces ++ ["( function main_"] ++ lines.flatMap _ ++ _)) = _
    rw [List.flatMap_singleton', List.append_assoc, List.append_assoc]
    rfl

/-- The listing of a program: what its names add, its variables in one group, and its statements as
the main function. -/
theorem program_eq (context : Context) (symbols : List (String × Tree)) (statements : List Tree) :
    program context symbols statements = do
      let names ← symbols.mapM fun e => declared context e.1 e.2
      let lines ← statements.mapM fun t => do return "  " ++ (← statement context t .outermost)
      return "\n".intercalate (names.flatMap Output.pieces ++
        variableGroup (names.flatMap Output.storage) ++
          "( function main_" :: (lines ++ [")"])) := by
  have hnames := Adds.forM (fun e : String × Tree => adds_declaration context e.1 e.2) symbols
  refine (hnames.fst_bind _ _).trans ?_
  cases symbols.mapM fun e => declared context e.1 e.2 with
  | error e => rfl
  | ok names =>
    have hmain := fst_mainFunction (fun t => do return "  " ++ (← statement context t .outermost))
      statements
    change ((do
      if !(names.flatMap Output.storage).isEmpty then
        Output.addPiece
          (.ok ("(var\n  " ++ "\n  ".intercalate (names.flatMap Output.storage) ++ "\n)"))
      _ : Lister String) ⟨names.flatMap Output.pieces, names.flatMap Output.storage⟩).1 = (do
        let lines ← statements.mapM _
        return "\n".intercalate (names.flatMap Output.pieces ++
          variableGroup (names.flatMap Output.storage) ++ "( function main_" :: (lines ++ [")"])))
    cases names.flatMap Output.storage with
    | nil =>
      rw [show variableGroup [] = [] from rfl, List.append_nil]
      exact hmain _
    | cons first others => exact hmain ⟨_ ++ [_], _⟩

/-! ### Names and statements of a program -/

/-- The names of a program are listed with enough fuel for the routines among them. -/
theorem declared_lists (context : Context) (home : Nat) :
    ListsNames quiet context home (fun e => declared context e.1 e.2) Output.pieces := by
  constructor
  · intro n info hn h
    cases h with
    | constant h =>
      exact (writes_constant hn h).before fun _ htext => .pure fun hquiet => .single (htext hquiet)
    | var h => exact (writes_variableDeclaration hn h).before fun _ _ => .pure fun _ => .nil
    | @recordType name _ _ h =>
      have hwrites := writes_recordType hn name h
      exact hwrites.before fun _ htext => .pure fun hquiet => .single (htext hquiet)
    | arrayType => exact .pure fun _ => .nil
    | parameter h =>
      -- A parameter would be listed like a routine without names and statements.
      have hname : Moves n id := .unmarked hn.2
      have hgroup : Moves ";; нет локальных переменных" id := .literal [] (by decide)
      have hbody : Moves ";; тело функции отсутствует" id := .literal [] (by decide)
      have hempty := hname.routine .empty hgroup hbody .empty
      rw [Function.comp_id, enclose_id] at hempty
      cases h with
      | @typed type => cases type <;> exact .pure fun _ => .single hempty
      | array => exact .pure fun _ => .single hempty
  · intro _ n kind result code locals ps _
    refine ⟨_, ?_, fun hroutine => hroutine.before fun _ htext => .pure fun hquiet =>
      .single (htext hquiet)⟩
    have hweight := context.scopes.weight_le_foldl home
    exact Nat.lt_succ_of_le (Nat.le_trans hweight (Nat.le_add_right _ _))

/-- The listings of variables are balanced, and nothing else is listed in their group. -/
theorem moves_storage {n : String} {info : Tree} {o : Output} (hn : (vocabulary quiet).name n)
    (h : Entry (vocabulary quiet) info) (ho : declared context n info = .ok o) (hquiet : quiet) :
    ∀ s ∈ o.storage, Moves s id := by
  have hnone : ∀ (step : Except Fault String) {o : Output},
      (do return ⟨[← step], []⟩ : Except Fault Output) = .ok o → ∀ s ∈ o.storage, Moves s id := by
    intro step o ho
    obtain ⟨piece, -, rfl⟩ := Except.bind_pure_eq_ok.1 ho
    exact List.forall_mem_nil _
  cases h with
  | plain h =>
    cases h with
    | constant => exact hnone _ ho
    | var h =>
      obtain ⟨text, htext, rfl⟩ := (Except.bind_pure_eq_ok (x := variableDeclaration n _)).1 ho
      rw [List.forall_mem_singleton]
      exact (writes_variableDeclaration hn h).2 text htext hquiet
    | recordType => exact hnone _ ho
    | arrayType => exact Except.ok.inj ho ▸ List.forall_mem_nil _
    | parameter h =>
      cases h with
      | @typed type => cases type <;> exact Except.ok.inj ho ▸ List.forall_mem_nil _
      | array => exact Except.ok.inj ho ▸ List.forall_mem_nil _
  | routine => exact hnone (routine context n _) ho

/-- A program is listed if and only if its names and its statements are. -/
theorem writes_program (hs : context.scopes.Within (vocabulary quiet))
    (houter : Table.Reads context .outermost 0) {symbols : List (String × Tree)}
    (hentries : ∀ e ∈ symbols, (vocabulary quiet).name e.1 ∧ Entry (vocabulary quiet) e.2)
    {codes : List Code} (hcodes : ∀ c ∈ codes, c.ActionWithin (vocabulary quiet)) {p : Prop}
    {f : Depth → Depth}
    (hnames : SucceedsIff p (symbols.mapM fun e => declared context e.1 e.2) fun names =>
      quiet → MovesAll (names.flatMap Output.pieces) f) :
    Writes quiet (p ∧ actionsListable context.scopes 0 codes)
      (program context symbols (Code.toTrees codes))
      (enclose (follow (actionDepths context.scopes 0 codes)) ∘ f) := by
  have hbreak : Moves "\n  " id := .literal [] (by decide)
  have hindent : Moves "  " id := .literal [] (by decide)
  have hstored : SucceedsIff p (symbols.mapM fun e => declared context e.1 e.2) fun names =>
      quiet → MovesAll (names.flatMap Output.pieces ++
        variableGroup (names.flatMap Output.storage)) f := by
    refine ⟨hnames.1, fun names heq hquiet => ?_⟩
    have hstorage : ∀ s ∈ names.flatMap Output.storage, Moves s id := by
      intro s hmem
      obtain ⟨o, ho, hmem⟩ := List.mem_flatMap.1 hmem
      obtain ⟨e, he, hdeclared⟩ := exists_mem_of_mapM_eq_ok heq o ho
      exact moves_storage (hentries e he).1 (hentries e he).2 hdeclared hquiet s hmem
    refine (hnames.2 names heq hquiet).append (g := id) ?_
    unfold variableGroup
    split
    · exact .nil
    · have hlines := hbreak.intercalate_id hstorage
      exact .single (((Moves.literal ['('] (by decide)).slot hlines [')'] (by decide)).congr
        enclose_id)
  have hlines := SucceedsIff.mapM fun c hc =>
    (writes_action hs houter (hcodes c hc) houter).1.before fun text htext =>
      SucceedsIff.pure (ε := Fault)
        (P := fun line => quiet → Moves line (c.actionDepth context.scopes 0 0))
        (v := "  " ++ text) fun hquiet => hindent.append (htext hquiet)
  have hopen : Moves "( function main_" Depth.opened := .literal ['('] (by decide)
  have hclose : Moves ")" Depth.closed := .literal [')'] (by decide)
  rw [program_eq, actionsListable_iff, actionDepths_eq_map, Code.toTrees_eq_map]
  refine hstored.bind fun names hpieces => ?_
  rw [List.mapM_map]
  refine hlines.before fun lines hlines => .pure fun hquiet => ?_
  have hmain : MovesAll lines (follow (codes.map fun c => c.actionDepth context.scopes 0 0)) :=
    ⟨_, List.forall₂_map_right_iff.2 (hlines.imp fun _ _ h => h hquiet).flip, rfl⟩
  exact ((hpieces hquiet).append (((MovesAll.single hopen).append hmain).append
    (.single hclose))).intercalate (.literal [] (by decide))

end Listing

/-! ### Programs -/

/-- After the analysis of a program, the outermost table of its listing is the scope of the
program. -/
theorem outermost_reads {V : Vocabulary} {b : Block} {a : Analysis} {added : List (String × Tree)}
    {code : Tree} (h : Analyses V b .start a added code) :
    Listing.Table.Reads (Pipeline.listingContext a) .outermost 0 := by
  have hlookup := Scopes.lookupIn_of_symbolsOf_eq_nil h.symbols h.parent h.grows.parent
  intro name
  change a.scopes.lookupTree a.scopes.current name = a.scopes.lookupTree 0 name
  cases name with
  | text n =>
    rw [Scopes.lookupTree, Scopes.lookupTree, hlookup]
  | _ => rfl

/-- A program that is accepted is listed if and only if all its bodies can be, and its listing does
to the depth what its declarations and its statements say, if there are no double quotes in its
literals. -/
theorem succeedsIff_list {quiet : Prop} {text : String} {tokens : List Token} {p : Program}
    {a : Analysis} {code : Tree} (htokens : Token.lex text = .ok tokens)
    (hquotes : quiet → ∀ t ∈ tokens, t.kind ∈ [.string, .char] → '"' ∉ t.value.toList)
    (hparse : Program.parse tokens = .ok p)
    (hrun : Runs (Declaring.analyzeBlock p.block.toTree) .start code a) :
    SucceedsIff (p.block.Bodies (BodyListable a.scopes) a.scopes 0 code) (Pipeline.list a .data)
      fun listing => quiet → Moves listing (p.listedDepth a.scopes) := by
  have hwithin := Program.within_of_parse (Token.admits_of_lex htokens hquotes) hparse
  obtain ⟨added, hblock⟩ :=
    analyzeBlock_runs hwithin (Analysis.start_within _) Nat.zero_lt_one hrun
  obtain rfl : a.scopes.symbolsOf 0 = added := hblock.grows.symbols
  have hnodup : ((a.scopes.symbolsOf 0).map Prod.fst).Nodup := hblock.grows.nodup List.nodup_nil
  have hadds := hblock.adds
  have houter := outermost_reads hblock
  rw [Program.listedDepth]
  cases hbody : p.block with
  | mk ds ss =>
    rw [hbody] at hadds hwithin
    obtain ⟨hds, codes, hcodes, rfl⟩ := hadds
    have hstatements : Pipeline.statements a = .ok (Code.toTrees codes) := by
      rw [Pipeline.statements, hblock.code]
      rfl
    have hnames := hds.lists hblock.within houter hwithin.1 (List.Subset.refl _) hnodup
      (declared_lists (Pipeline.listingContext a) 0)
    have hprogram := writes_program hblock.within houter (hblock.within 0)
      (body_generate_within (vocabulary_codes quiet) hwithin.2 hcodes) hnames
    change SucceedsIff _ _ fun listing => quiet → Moves listing
      (enclose (bodyDepth a.scopes 0 ss) ∘ declsDepth a.scopes 0 ds)
    rw [bodyDepth_eq hcodes, Block.Bodies, bodyListable_iff hcodes, Pipeline.list]
    refine .mapError (.step rfl (.step hstatements ?_))
    rw [symbols_eq hblock]
    exact hprogram.congr and_comm

end MiniPascal
