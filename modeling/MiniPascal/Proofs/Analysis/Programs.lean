import MiniPascal.Proofs.Analysis.Declarations

/-!
# The Code of Programs

The code that an analysis keeps for the statements of a program and for those of all its routines,
however deep they are nested. It has one piece for each statement, in order, except for compound
statements that stand by themselves in a body: they are checked no further, and they have no code.

* `analyze_bodies`: the code of a program that is accepted, and when it is complete.
-/

namespace MiniPascal

open Check Declare Declaring

/-! ### Bodies -/

mutual

/-- `P` holds of the scope, the statements and the code of a block and of all routines in it, as the
scope `home` of the block knows them. -/
def Block.Bodies (P : Nat → List Stmt → Tree → Prop) (scopes : Scopes) (home : Nat) (code : Tree) :
    Block → Prop
  | .mk ds ss => P home ss code ∧ declsBodies P scopes home ds

/-- `P` holds of the bodies in a declaration. -/
def Decl.Bodies (P : Nat → List Stmt → Tree → Prop) (scopes : Scopes) (home : Nat) : Decl → Prop
  | .routine kind n ps body result =>
    ∃ code locals, (scopes.symbolsOf home).lookup n =
        some (routineInfo (.text kind) result.toTree code (.scope locals)
          (ps.map Parameter.pair)) ∧
      body.Bodies P scopes locals code
  | _ => True

/-- `P` holds of the bodies in declarations. -/
def declsBodies (P : Nat → List Stmt → Tree → Prop) (scopes : Scopes) (home : Nat) :
    List Decl → Prop
  | [] => True
  | d :: ds => d.Bodies P scopes home ∧ declsBodies P scopes home ds

end

mutual

/-- Whether the statements of a block and of all routines in it pass a test. -/
def Block.eachBody (test : List Stmt → Bool) : Block → Bool
  | .mk ds ss => test ss && eachBodyIn test ds

def Decl.eachBody (test : List Stmt → Bool) : Decl → Bool
  | .routine _ _ _ body _ => body.eachBody test
  | _ => true

def eachBodyIn (test : List Stmt → Bool) : List Decl → Bool
  | [] => true
  | d :: ds => d.eachBody test && eachBodyIn test ds

end

theorem Decl.bodies_routine {P : Nat → List Stmt → Tree → Prop} {scopes : Scopes}
    {home locals : Nat} {kind n : String} {ps : List Parameter} {body : Block} {result : TypeExpr}
    {code : Tree}
    (hlookup : (scopes.symbolsOf home).lookup n = some (routineInfo (.text kind) result.toTree code
      (.scope locals) (ps.map Parameter.pair))) :
    (Decl.routine kind n ps body result).Bodies P scopes home ↔
      body.Bodies P scopes locals code := by
  constructor
  · rintro ⟨code', locals', hlookup', hbody⟩
    obtain ⟨rfl, rfl⟩ : code = code' ∧ locals = locals' := by
      simpa [hlookup, routineInfo] using hlookup'
    exact hbody
  · exact fun hbody => ⟨code, locals, hlookup, hbody⟩

section Bodies

variable {P Q R : Nat → List Stmt → Tree → Prop} {test : List Stmt → Bool} {scopes : Scopes}

mutual

/-- Where `P` and `Q` hold of a body only if it passes the test, and `P` and the test give `Q`, all
bodies with `P` have `Q` if and only if all of them pass the test. -/
theorem Block.bodies_iff (h : ∀ k ss code, P k ss code → (Q k ss code ↔ test ss = true)) :
    ∀ {b : Block} {home : Nat} {code : Tree}, b.Bodies P scopes home code →
      (b.Bodies Q scopes home code ↔ b.eachBody test = true)
  | .mk ds ss, home, code, ⟨hss, hds⟩ => by
    rw [Block.Bodies, Block.eachBody, Bool.and_eq_true, h home ss code hss,
      declsBodies_iff h hds]

theorem Decl.bodies_iff (h : ∀ k ss code, P k ss code → (Q k ss code ↔ test ss = true)) :
    ∀ {d : Decl} {home : Nat}, d.Bodies P scopes home →
      (d.Bodies Q scopes home ↔ d.eachBody test = true)
  | .type _ _, _, _ | .const _ _ _, _, _ | .var _ _ _ _, _, _ =>
    by simp [Decl.Bodies, Decl.eachBody]
  | .routine kind n ps body result, home, ⟨code, locals, hlookup, hbody⟩ => by
    rw [Decl.bodies_routine hlookup, Decl.eachBody, Block.bodies_iff h hbody]

theorem declsBodies_iff (h : ∀ k ss code, P k ss code → (Q k ss code ↔ test ss = true)) :
    ∀ {ds : List Decl} {home : Nat}, declsBodies P scopes home ds →
      (declsBodies Q scopes home ds ↔ eachBodyIn test ds = true)
  | [], _, _ => by simp [declsBodies, eachBodyIn]
  | d :: ds, home, ⟨hd, hds⟩ => by
    rw [declsBodies, eachBodyIn, Bool.and_eq_true, Decl.bodies_iff h hd, declsBodies_iff h hds]

end

end Bodies

mutual

/-- The bodies of a block whose names are all known have code for all their statements but the
compound ones. -/
theorem Block.Adds.bodies {V : Vocabulary} {scopes : Scopes} : ∀ {b : Block} {home : Nat}
    {added : List (String × Tree)} {code : Tree}, b.Adds V scopes home added code →
    added ⊆ scopes.symbolsOf home → ((scopes.symbolsOf home).map Prod.fst).Nodup →
    b.Bodies (fun _ ss code => IsBodyCode (keptStatements ss) code) scopes home code
  | .mk _ _, _, _, _, ⟨hds, hss⟩, hadded, hnodup => ⟨hss, declsAdd.bodies hds hadded hnodup⟩

theorem Decl.Adds.bodies {V : Vocabulary} {scopes : Scopes} : ∀ {d : Decl} {home : Nat}
    {added : List (String × Tree)}, d.Adds V scopes home added → added ⊆ scopes.symbolsOf home →
    ((scopes.symbolsOf home).map Prod.fst).Nodup →
    d.Bodies (fun _ ss code => IsBodyCode (keptStatements ss) code) scopes home
  | .type _ _, _, _, _, _, _ | .const _ _ _, _, _, _, _, _ | .var _ _ _ _, _, _, _, _, _ => trivial
  | .routine _ _ _ _ _, _, _,
      ⟨code, locals, own, inner, rfl, _, _, _, hsymbols, hnodup', _, _, hbody⟩, hadded, hnodup => by
    refine ⟨code, locals, Scopes.lookup_of_mem hnodup (hadded List.mem_cons_self), ?_⟩
    rw [← hsymbols] at hnodup'
    refine hbody.bodies ?_ hnodup'
    rw [hsymbols]
    exact List.subset_append_right own inner

theorem declsAdd.bodies {V : Vocabulary} {scopes : Scopes} : ∀ {ds : List Decl} {home : Nat}
    {added : List (String × Tree)}, declsAdd V scopes home ds added →
    added ⊆ scopes.symbolsOf home → ((scopes.symbolsOf home).map Prod.fst).Nodup →
    declsBodies (fun _ ss code => IsBodyCode (keptStatements ss) code) scopes home ds
  | [], _, _, _, _, _ => trivial
  | _ :: _, _, _, ⟨_, _, rfl, hfirst, hrest⟩, hadded, hnodup =>
    ⟨hfirst.bodies (List.append_subset.1 hadded).1 hnodup,
      declsAdd.bodies hrest (List.append_subset.1 hadded).2 hnodup⟩

end

/-! ### Programs -/

variable {text : String} {a : Analysis}

theorem analyze_eq_ok (h : Pipeline.analyze text = .ok a) :
    ∃ tokens p code, Token.lex text = .ok tokens ∧ Program.parse tokens = .ok p ∧
      Runs (analyzeBlock p.block.toTree) .start code a := by
  obtain ⟨tokens, htokens, h⟩ := Except.bind_eq_ok.1 h
  obtain ⟨tree, htree, h⟩ := Except.bind_eq_ok.1 h
  rw [Except.mapError_eq_ok] at htokens
  rw [Pipeline.parse, Except.mapError_eq_ok] at htree
  cases hparse : Program.parse tokens with
  | error e =>
    rw [hparse] at htree
    exact absurd htree nofun
  | ok p =>
    rw [hparse] at htree
    obtain rfl : p.toTree = tree := Except.ok.inj htree
    unfold Pipeline.analyzeTree at h
    split at h
    next state hrun =>
      obtain rfl := Except.ok.inj h
      obtain ⟨code, hblock, -⟩ := runs_bind_pure.1 hrun
      exact ⟨tokens, p, code, htokens, hparse, hblock⟩
    next => exact absurd h nofun

/-- A text is accepted if it is read as a program whose block can be analysed. -/
theorem analyze_of_runs {tokens : List Token} {p : Program} {code : Tree}
    (hlex : Token.lex text = .ok tokens) (hparse : Program.parse tokens = .ok p)
    (hrun : Runs (analyzeBlock p.block.toTree) .start code a) : Pipeline.analyze text = .ok a := by
  have hprogram : Runs (analyzeProgram p.toTree) .start () a :=
    runs_bind.2 ⟨code, a, hrun, runs_pure.2 ⟨rfl, rfl⟩⟩
  have htree : Pipeline.analyzeTree p.toTree = .ok a := by
    unfold Pipeline.analyzeTree
    rw [show (analyzeProgram p.toTree).run.run Analysis.start = (.ok (), a) from hprogram]
  refine Except.bind_eq_ok.2 ⟨tokens, Except.mapError_eq_ok.2 hlex, ?_⟩
  refine Except.bind_eq_ok.2 ⟨p.toTree, Except.mapError_eq_ok.2 ?_, htree⟩
  rw [hparse]
  rfl

theorem Analysis.start_within (V : Vocabulary) : Analysis.start.scopes.Within V := by
  intro k e he
  cases k with
  | zero | succ k => exact absurd he List.not_mem_nil

/-- The analysis of a program starts from a table without names, so the names of its outermost scope
are those that its block has added. -/
theorem analyze_analyses (h : Pipeline.analyze text = .ok a) :
    ∃ tokens p code, Token.lex text = .ok tokens ∧ Program.parse tokens = .ok p ∧
      Analyses .any p.block .start a (a.scopes.symbolsOf 0) code ∧
      ((a.scopes.symbolsOf 0).map Prod.fst).Nodup := by
  obtain ⟨tokens, p, code, htokens, hparse, hrun⟩ := analyze_eq_ok h
  obtain ⟨added, hblock⟩ :=
    analyzeBlock_runs p.block.within_any (Analysis.start_within _) Nat.zero_lt_one hrun
  have hsymbols : a.scopes.symbolsOf 0 = added := hblock.grows.symbols
  exact ⟨tokens, p, code, htokens, hparse, hsymbols ▸ hblock, hblock.grows.nodup List.nodup_nil⟩

theorem symbols_eq {V : Vocabulary} {b : Block} {added : List (String × Tree)} {code : Tree}
    (h : Analyses V b .start a added code) : Pipeline.symbols a = a.scopes.symbolsOf 0 := by
  rw [Pipeline.symbols, h.parent]
  rfl

def keepsAll (ss : List Stmt) : Bool := ss.all fun st => !st.isCompound

theorem keepsAll_iff {ss : List Stmt} : keepsAll ss = true ↔ ∀ st ∈ ss, st.isCompound = false := by
  simp [keepsAll]

/-- The code that the analysis of an accepted program keeps. For the statements of the program and
of every routine it has the code of each statement, in order, that is no compound statement. It has
the code of all statements if and only if there is no compound statement among them. -/
theorem analyze_bodies {text : String} {a : Analysis} (h : Pipeline.analyze text = .ok a) :
    ∃ tokens p code, Token.lex text = .ok tokens ∧ Program.parse tokens = .ok p ∧
      a.code = some code ∧ Pipeline.symbols a = a.scopes.symbolsOf 0 ∧
      p.block.Bodies (fun _ ss code => IsBodyCode (keptStatements ss) code) a.scopes 0 code ∧
      (p.block.Bodies (fun _ ss code => IsBodyCode ss code) a.scopes 0 code ↔
        p.block.eachBody keepsAll = true) := by
  obtain ⟨tokens, p, code, htokens, hparse, hblock, hnodup⟩ := analyze_analyses h
  have hbodies := hblock.adds.bodies (List.Subset.refl _) hnodup
  refine ⟨tokens, p, code, htokens, hparse, hblock.code, symbols_eq hblock, hbodies, ?_⟩
  refine Block.bodies_iff (fun _ ss code hcode => ?_) hbodies
  exact (isBodyCode_iff hcode).trans keepsAll_iff.symm

def compoundInside : String :=
  "program p; var x: integer; begin begin x := 1; end; x := 2; end."

/-- The program is accepted, but not all of its statements have code. -/
theorem analyze_bodies_compoundInside :
    ∃ a tokens p code, Pipeline.analyze compoundInside = .ok a ∧
      Token.lex compoundInside = .ok tokens ∧ Program.parse tokens = .ok p ∧ a.code = some code ∧
      ¬p.block.Bodies (fun _ ss code => IsBodyCode ss code) a.scopes 0 code := by
  obtain ⟨a, ha, -⟩ := Pipeline.exists_of_analyzeChars (s := compoundInside) String.toList_ofList
    (fun _ => true) (by decide +kernel)
  obtain ⟨tokens', p', htokens', hparse', htest⟩ := Program.exists_of_lexChars
    (s := compoundInside) String.toList_ofList (!·.block.eachBody keepsAll) (by decide +kernel)
  obtain ⟨tokens, p, code, htokens, hparse, hcode, -, -, hall⟩ := analyze_bodies ha
  obtain rfl := Except.ok.inj (htokens.symm.trans htokens')
  obtain rfl := Except.ok.inj (hparse.symm.trans hparse')
  refine ⟨a, tokens, p, code, ha, htokens, hparse, hcode, fun hbodies => ?_⟩
  rw [hall.1 hbodies] at htest
  exact absurd htest Bool.false_ne_true

end MiniPascal
