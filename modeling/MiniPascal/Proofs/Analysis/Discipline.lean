import MiniPascal.Proofs.Analysis.Programs

/-!
# The Discipline of Scopes

Which names the scopes of a program have when its analysis is over.

* `analyze_scopes`: the scopes of a program that is accepted.
-/

namespace MiniPascal

open Check Declare Declaring

/-! ### Declared names -/

/-- The names that a declaration introduces. A type that only renames another one, or none,
introduces nothing. -/
def Decl.names : Decl → List String
  | .type n (.record _) => [n]
  | .type n (.array _) => [n]
  | .type _ _ => []
  | .const n _ _ | .var n _ _ _ | .routine _ n _ _ _ => [n]

mutual

/-- The scope `home` has the given names followed by those that the block declares, in order and
each of them once, and the scopes of all routines in the block are opened before the scope `last`
and have just their parameters and their own names. -/
def Block.ScopedIn (scopes : Scopes) (last : Nat) (before : List String) (home : Nat) : Block → Prop
  | .mk ds _ =>
    (scopes.symbolsOf home).map Prod.fst = before ++ ds.flatMap Decl.names ∧
      ((scopes.symbolsOf home).map Prod.fst).Nodup ∧ declsScopedIn scopes last home ds

/-- A routine that is declared in the scope `home` has a scope of its own inside it, which has its
parameters and the names of its block. -/
def Decl.ScopedIn (scopes : Scopes) (last home : Nat) : Decl → Prop
  | .routine kind n ps body result =>
    ∃ code locals, (scopes.symbolsOf home).lookup n =
        some (routineInfo (.text kind) result.toTree code (.scope locals)
          (ps.map Parameter.pair)) ∧
      home < locals ∧ locals < last ∧ scopes.parentOf locals = some home ∧
      body.ScopedIn scopes last (ps.map Parameter.name) locals
  | _ => True

def declsScopedIn (scopes : Scopes) (last home : Nat) : List Decl → Prop
  | [] => True
  | d :: ds => d.ScopedIn scopes last home ∧ declsScopedIn scopes last home ds

end

theorem Decl.Adds.names {V : Vocabulary} {scopes : Scopes} {home : Nat} : ∀ {d : Decl}
    {added : List (String × Tree)}, d.Adds V scopes home added → added.map Prod.fst = d.names
  | .type _ (.named _), _, h | .type _ .omitted, _, h => by rw [show _ = [] from h]; rfl
  | .type _ (.array _), _, ⟨_, _, h⟩ | .type _ (.record _), _, ⟨_, _, h⟩
  | .const _ _ _, _, ⟨_, _, h⟩ | .var _ _ _ _, _, ⟨_, _, h⟩
  | .routine _ _ _ _ _, _, ⟨_, _, _, _, h, _⟩ => by rw [h]; rfl

theorem declsAdd.names {V : Vocabulary} {scopes : Scopes} {home : Nat} : ∀ {ds : List Decl}
    {added : List (String × Tree)}, declsAdd V scopes home ds added →
    added.map Prod.fst = ds.flatMap Decl.names
  | [], _, h => by rw [show _ = [] from h]; rfl
  | _ :: _, _, ⟨_, _, rfl, hfirst, hrest⟩ => by
    rw [List.map_append, hfirst.names, declsAdd.names hrest, List.flatMap_cons]

mutual

/-- What has been added by the declarations of a block is there. -/
theorem Block.Adds.scopedIn {V : Vocabulary} {scopes : Scopes} : ∀ {b : Block} {home : Nat}
    {before : List String} {own added : List (String × Tree)} {code : Tree},
    b.Adds V scopes home added code → scopes.symbolsOf home = own ++ added →
    own.map Prod.fst = before →
    ((scopes.symbolsOf home).map Prod.fst).Nodup →
    b.ScopedIn scopes scopes.all.size before home
  | .mk _ _, _, _, own, added, _, ⟨hds, _⟩, hsymbols, hown, hnodup => by
    refine ⟨?_, hnodup, declsAdd.scopedIn hds ?_ hnodup⟩
    · rw [hsymbols, List.map_append, hown, hds.names]
    · rw [hsymbols]
      exact List.subset_append_right own added

theorem Decl.Adds.scopedIn {V : Vocabulary} {scopes : Scopes} : ∀ {d : Decl} {home : Nat}
    {added : List (String × Tree)}, d.Adds V scopes home added → added ⊆ scopes.symbolsOf home →
    ((scopes.symbolsOf home).map Prod.fst).Nodup → d.ScopedIn scopes scopes.all.size home
  | .type _ _, _, _, _, _, _ | .const _ _ _, _, _, _, _, _ | .var _ _ _ _, _, _, _, _, _ => trivial
  | .routine _ _ _ _ _, _, _,
      ⟨code, locals, own, inner, rfl, hhome, hlocals, hparent, hsymbols, hnodup', hnames, _, hbody⟩,
      hadded, hnodup => by
    refine ⟨code, locals, Scopes.lookup_of_mem hnodup (hadded List.mem_cons_self), hhome, hlocals,
      hparent, hbody.scopedIn hsymbols hnames ?_⟩
    rw [hsymbols]
    exact hnodup'

theorem declsAdd.scopedIn {V : Vocabulary} {scopes : Scopes} : ∀ {ds : List Decl} {home : Nat}
    {added : List (String × Tree)}, declsAdd V scopes home ds added →
    added ⊆ scopes.symbolsOf home → ((scopes.symbolsOf home).map Prod.fst).Nodup →
    declsScopedIn scopes scopes.all.size home ds
  | [], _, _, _, _, _ => trivial
  | _ :: _, _, _, ⟨_, _, rfl, hfirst, hrest⟩, hadded, hnodup =>
    ⟨hfirst.scopedIn (List.append_subset.1 hadded).1 hnodup,
      declsAdd.scopedIn hrest (List.append_subset.1 hadded).2 hnodup⟩

end

section Keep

variable {s s' : Scopes} {last : Nat}

mutual

/-- The scopes of a block are seen in all tables that agree up to the scope `last`. -/
theorem Block.ScopedIn.keep (hsame : ∀ j < last, s'.all[j]? = s.all[j]?) : ∀ {b : Block}
    {before : List String} {home : Nat}, home < last → b.ScopedIn s last before home →
    b.ScopedIn s' last before home
  | .mk _ _, _, home, hhome, ⟨hnames, hnodup, hds⟩ => by
    rw [Block.ScopedIn, Scopes.symbolsOf_congr (hsame home hhome)]
    exact ⟨hnames, hnodup, declsScopedIn.keep hsame hhome hds⟩

theorem Decl.ScopedIn.keep (hsame : ∀ j < last, s'.all[j]? = s.all[j]?) : ∀ {d : Decl}
    {home : Nat}, home < last → d.ScopedIn s last home → d.ScopedIn s' last home
  | .type _ _, _, _, _ | .const _ _ _, _, _, _ | .var _ _ _ _, _, _, _ => trivial
  | .routine _ _ _ _ _, home, hhome, ⟨code, locals, hentry, hafter, hlast, hparent, hbody⟩ => by
    refine ⟨code, locals, ?_, hafter, hlast, ?_, hbody.keep hsame hlast⟩
    · rw [Scopes.symbolsOf_congr (hsame home hhome), hentry]
    · rw [Scopes.parentOf_congr (hsame locals hlast), hparent]

theorem declsScopedIn.keep (hsame : ∀ j < last, s'.all[j]? = s.all[j]?) : ∀ {ds : List Decl}
    {home : Nat}, home < last → declsScopedIn s last home ds → declsScopedIn s' last home ds
  | [], _, _, _ => trivial
  | _ :: _, _, hhome, ⟨hd, hds⟩ => ⟨hd.keep hsame hhome, declsScopedIn.keep hsame hhome hds⟩

end

end Keep

/-- The statements of a block come in a scope that is opened last, after all scopes of its
routines. -/
theorem analyzeBlock_scopedIn (b : Block) {s s' : Analysis} {code : Tree}
    (hs : s.scopes.Within .any) (hcurrent : s.scopes.current < s.scopes.all.size)
    (hempty : s.scopes.symbolsOf s.scopes.current = [])
    (h : Runs (analyzeBlock b.toTree) s code s') :
    s'.scopes.current + 1 = s'.scopes.all.size ∧
      b.ScopedIn s'.scopes s'.scopes.current [] s.scopes.current := by
  obtain ⟨ds, ss⟩ := b
  -- The declarations are made first, and without any of them nothing is done.
  obtain ⟨s₁, added, hworks, hadds, hfinish⟩ : ∃ s₁ added,
      Works .any s.scopes.current s s₁ added ∧ declsAdd .any s₁.scopes s.scopes.current ds added ∧
      Runs (finishBlock (compoundTree ss)) s₁ code s' := by
    cases ds with
    | nil => exact ⟨s, [], .refl _ hs, rfl, h⟩
    | cons d ds =>
      obtain ⟨_, s₁, hdeclare, h⟩ := runs_bind.1 h
      obtain ⟨added, hworks, hadds⟩ :=
        declareList_runs (declsWithin_any (d :: ds)) hs hcurrent (by simp) hdeclare
      exact ⟨s₁, added, hworks, hadds, h⟩
  have hhome : s.scopes.current < s₁.scopes.all.size :=
    Nat.lt_of_lt_of_le hcurrent hworks.grows.size_le
  have hsymbols : s₁.scopes.symbolsOf s.scopes.current = added := by
    rw [hworks.grows.symbols, hempty, List.nil_append]
  have hnodup := hworks.grows.nodup (by simp [hempty])
  have hscoped : (Block.mk ds ss).ScopedIn s₁.scopes s₁.scopes.all.size [] s.scopes.current := by
    refine ⟨?_, hnodup, declsAdd.scopedIn hadds (hsymbols ▸ List.Subset.refl _) hnodup⟩
    rw [hsymbols, hadds.names, List.nil_append]
  -- Then one more scope is opened, which is the current one from now on.
  have hfinish := runs_modify_bind.1 hfinish
  obtain ⟨codes, -, hfinish⟩ := runs_check_bind.1 hfinish
  have hfinish := runs_modify_bind.1 hfinish
  obtain ⟨rfl, rfl⟩ := runs_pure.1 hfinish
  refine ⟨(Scopes.size_openIn _).symm, ?_⟩
  have hsame : ∀ j < s₁.scopes.all.size, s₁.scopes.enter.all[j]? = s₁.scopes.all[j]? :=
    fun j hj => Scopes.getElem?_openIn _ hj
  exact hscoped.keep hsame hhome

/-! ### Programs -/

/-- The scopes of a program that is accepted. The current scope is the one of its statements, opened
last and without names; the outermost scope has the names of the declarations in order, and every
routine has a scope of its own with its parameters and its names, inside the scope that declares it.
No block changes a scope around it, and a routine adds nothing but its own name there. -/
theorem analyze_scopes {text : String} {a : Analysis} (h : Pipeline.analyze text = .ok a) :
    ∃ tokens p, Token.lex text = .ok tokens ∧ Program.parse tokens = .ok p ∧
      (a.scopes.current + 1 = a.scopes.all.size ∧ a.scopes.symbolsOf a.scopes.current = [] ∧
        a.scopes.parentOf a.scopes.current = some 0 ∧ a.scopes.parentOf 0 = none) ∧
      p.block.ScopedIn a.scopes a.scopes.current [] 0 ∧
      (∀ (block : Tree) (s : Analysis),
        s.scopes.Leaves s.scopes.current (analyzeBlock block s).2.scopes) ∧
      ∀ (s s' : Analysis) (before type : Option Tree) (kind name ps block result : Tree),
        s.scopes.current < s.scopes.all.size →
        Runs (declareItem before (.routine kind name ps block result)) s type s' →
        ∃ key info, name.key = .ok key ∧
          s.scopes.Grows s.scopes.current s'.scopes [(key, info)] := by
  obtain ⟨tokens, p, code, htokens, hparse, hrun⟩ := analyze_eq_ok h
  obtain ⟨hlast, hscoped⟩ :=
    analyzeBlock_scopedIn p.block (Analysis.start_within _) Nat.zero_lt_one rfl hrun
  obtain ⟨added, hblock⟩ :=
    analyzeBlock_runs p.block.within_any (Analysis.start_within _) Nat.zero_lt_one hrun
  refine ⟨tokens, p, htokens, hparse, ⟨hlast, hblock.symbols, hblock.parent, hblock.grows.parent⟩,
    hscoped, fun block s => ?_, fun s s' before type kind name ps block result hcurrent hrun => ?_⟩
  · exact analyzeBlock_leavesOthers block s (.inl rfl) (.refl _ _)
  · obtain ⟨routine, s₁, hopen, hrun⟩ := runs_bind.1 hrun
    obtain ⟨code, s₂, hbody, hrun⟩ := runs_bind.1 hrun
    obtain ⟨info, hclose, -⟩ := runs_bind_pure.1 hrun
    obtain ⟨key, hkey, -, -, hgrows⟩ := closeRoutine_grows hcurrent hopen hbody hclose
    exact ⟨key, info, hkey, hgrows⟩

/-- A program whose routines have parameters and routines of their own. -/
def nestedRoutines : String :=
  "program p; type t = integer; var x: integer; procedure q(y: integer); var z: integer; " ++
    "function r(v: integer): integer; begin z := v; end; begin y := x; end; " ++
    "const c: integer = 1; begin x := 1; end."

/-- The names of the program and of its routines, and the scopes around theirs. -/
theorem analyze_scopes_nestedRoutines :
    ∃ a tokens p, Pipeline.analyze nestedRoutines = .ok a ∧
      Token.lex nestedRoutines = .ok tokens ∧ Program.parse tokens = .ok p ∧
      p.block.ScopedIn a.scopes a.scopes.current [] 0 ∧
      [0, 1, 2].map (fun k => (a.scopes.symbolsOf k).map Prod.fst) =
        [["x", "q", "c"], ["y", "z", "r"], ["v"]] ∧
      [0, 1, 2].map a.scopes.parentOf = [none, some 0, some 1] := by
  obtain ⟨a, ha, hnames⟩ := Pipeline.exists_of_analyzeChars (s := nestedRoutines)
    (Text.toList_append_eq (Text.toList_append_eq String.toList_ofList String.toList_ofList)
      String.toList_ofList)
    (fun a => [0, 1, 2].map (fun k => (a.scopes.symbolsOf k).map Prod.fst) =
        [["x", "q", "c"], ["y", "z", "r"], ["v"]] &&
      [0, 1, 2].map a.scopes.parentOf = [none, some 0, some 1]) (by decide +kernel)
  simp only [Bool.and_eq_true, decide_eq_true_eq] at hnames
  obtain ⟨tokens, p, htokens, hparse, -, hscoped, -⟩ := analyze_scopes ha
  exact ⟨a, tokens, p, ha, htokens, hparse, hscoped, hnames⟩

end MiniPascal
