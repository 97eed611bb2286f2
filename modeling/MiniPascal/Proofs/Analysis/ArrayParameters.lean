import MiniPascal.Proofs.Analysis.Arithmetic

/-!
# Array Parameters

The types of the parameters of a routine are worked out before any of them is declared, and of the
array types only the last one is kept until then. So the scope of the routine binds all its array
parameters to the dimensions and the elements of the last one.

* `declareRoutine_arrayParameters`: which arrays the parameters are taken to be.
-/

namespace MiniPascal

open Check Declare Declaring

/-- At every point of a program the entries of names have their forms. -/
theorem VisibleIn.within {env : Env} {a : Analysis} (h : VisibleIn env a) :
    a.scopes.Within .any := by
  induction h with
  | start => exact Analysis.start_within _
  | @declare env s s' ds hvisible hrun ih =>
    obtain ⟨_, hworks, -⟩ :=
      declareList_runs (declsWithin_any ds) ih hvisible.fits.lt_size (by simp) hrun
    exact hworks.within
  | routine hvisible hrun ih =>
    obtain ⟨_, hopens⟩ := openRoutine_runs ih hvisible.fits.lt_size trivial
      (fun p _ => p.within_any) hrun
    exact hopens.within
  | body _ ih => exact ih.openIn _

/-- The names that stand first are those of the scope itself, if they are as many. -/
theorem Env.Fits.matches_own {scopes : Scopes} {own env : Env} {k : Nat}
    (h : Env.Fits scopes (own ++ env) k) (hlength : (scopes.symbolsOf k).length = own.length) :
    List.Forall₂ Matches own (scopes.symbolsOf k).reverse := by
  generalize hall : own ++ env = all at h
  cases h with
  | root hsize hparent hnodup hown =>
    have hnone : env = [] := by
      have hsame := hown.length_eq
      rw [← hall, List.length_reverse, hlength, List.length_append] at hsame
      exact List.eq_nil_of_length_eq_zero (by omega)
    rwa [← hall, hnone, List.append_nil] at hown
  | inside hsize hparent hhome hnodup hown hrest =>
    have hsame := hown.length_eq
    rw [List.length_reverse, hlength] at hsame
    rwa [List.append_inj_left hall hsame.symm]

theorem exists_of_matches {own : Env} {symbols : List (String × Tree)}
    (h : List.Forall₂ Matches own symbols) :
    ∀ e ∈ own, ∃ entry, (e.1, entry) ∈ symbols ∧ e.2.Describes e.1 entry := by
  induction h with
  | nil => exact List.forall_mem_nil _
  | @cons e symbol own symbols he _ ih =>
    obtain ⟨name, entry⟩ := symbol
    obtain ⟨rfl, hm⟩ := he
    refine List.forall_mem_cons.2 ⟨⟨entry, List.mem_cons_self, hm⟩, fun e' he' => ?_⟩
    obtain ⟨entry', hmem, hm'⟩ := ih e' he'
    exact ⟨entry', List.mem_cons_of_mem _ hmem, hm'⟩

section Routine

variable {env : Env} {a a' : Analysis} {kind n : String} {ps : List Parameter} {block : Block}
  {result : TypeExpr} {info : Tree}

/-- What the scope of a routine says about its parameters, once the routine has been declared. -/
theorem declareRoutine_locals (hvisible : VisibleIn env a)
    (h : Runs (declareRoutine (.text kind) (.text n) (.list (ps.map Parameter.toTree)) block.toTree
      result.toTree) a info a') :
    ∃ locals code, info =
        routineInfo (.text kind) result.toTree code (.scope locals) (ps.map Parameter.pair) ∧
      ∀ p ∈ ps, ∃ entry, (a'.scopes.symbolsOf locals).lookup p.name = some entry ∧
        (p.meaning (lastArray? none ps)).Describes p.name entry := by
  have hlt := hvisible.fits.lt_size
  obtain ⟨routine, s₁, hopen, h⟩ := runs_bind.1 h
  obtain ⟨code, s₂, hbody, hclose⟩ := runs_bind.1 h
  obtain ⟨-, hinside⟩ := openRoutine_fits hvisible.fits hopen
  obtain ⟨own, hopens⟩ := openRoutine_runs hvisible.within hlt trivial
    (fun p _ => p.within_any) hopen
  obtain ⟨inner, hblock⟩ :=
    analyzeBlock_runs block.within_any hopens.within hinside.lt_size hbody
  obtain ⟨key, -, rfl, rfl⟩ := closeRoutine_eq_runs hclose
  obtain rfl := hopens.routine_eq
  -- The body adds names after those of the parameters, and the end of the routine none.
  have hsymbols := hblock.grows.symbols
  have hnodup := hblock.grows.nodup
  rw [Analysis.Sees] at hinside
  rw [hopens.current] at hsymbols hnodup hinside
  rw [hsymbols, hopens.symbols] at hnodup
  have hlast : ∀ entries, (s₂.scopes.setSymbols a.scopes.current entries).symbolsOf
      a.scopes.all.size = own ++ inner := fun entries => by
    rw [Scopes.symbolsOf_congr (Scopes.getElem?_setSymbols_of_ne (Nat.ne_of_gt hlt)), hsymbols,
      hopens.symbols]
  have hmatches := hinside.matches_own (by
    rw [hopens.symbols, List.length_reverse, parameterMeanings, List.length_map,
      ← List.length_map (f := Parameter.name), ← hopens.names, List.length_map])
  rw [hopens.symbols, List.forall₂_reverse_iff] at hmatches
  refine ⟨_, code, rfl, fun p hp => ?_⟩
  obtain ⟨entry, hentry, hm⟩ :=
    exists_of_matches hmatches (p.name, p.meaning _) (List.mem_map_of_mem hp)
  refine ⟨entry, ?_, hm⟩
  change ((s₂.scopes.setSymbols a.scopes.current _).symbolsOf a.scopes.all.size).lookup _ = _
  rw [hlast]
  exact Scopes.lookup_of_mem (hnodup hopens.nodup) (List.mem_append_left inner hentry)

/-- The scope has a parameter of this name, which is an array of this type. -/
def Scopes.BindsArray (s : Scopes) (k : Nat) (n : String) (type : ArrayType) : Prop :=
  ∃ info, (s.symbolsOf k).lookup n = some (.dict [("kind", .text "parameter"), ("info", info)]) ∧
    type.Describes info

theorem ArrayType.Describes.iff {known own : ArrayType} (h : known.Describes info) :
    own.Describes info ↔ own.dimensions = known.dimensions ∧ own.element = known.element := by
  obtain ⟨size, values⟩ := h
  have hinjective : Function.Injective dimensionTree := fun d d' h => by
    simpa [dimensionTree, Prod.ext_iff, Int.natCast_inj] using h
  constructor
  · intro hown
    generalize hinfo : Tree.dict _ = info at hown
    cases hown
    simp only [Tree.dict.injEq, List.cons.injEq, Prod.mk.injEq, Tree.text.injEq, Tree.list.injEq,
      true_and] at hinfo
    exact ⟨(List.map_injective_iff.2 hinjective hinfo.2.2.1).symm, hinfo.1.symm⟩
  · rintro ⟨hdimensions, helement⟩
    rw [← hdimensions, ← helement]
    exact .mk size values

theorem Scopes.BindsArray.iff {s : Scopes} {k : Nat} {known own : ArrayType}
    (h : s.BindsArray k n known) :
    s.BindsArray k n own ↔ own.dimensions = known.dimensions ∧ own.element = known.element := by
  obtain ⟨info, hlookup, hknown⟩ := h
  rw [← hknown.iff]
  constructor
  · rintro ⟨info', hlookup', hown⟩
    obtain rfl : info = info' := by simpa using hlookup.symm.trans hlookup'
    exact hown
  · exact fun hown => ⟨info, hlookup, hown⟩

/-- The last array type belongs to a parameter, if any parameter has one. -/
theorem lastArray?_spec : ∀ (ps : List Parameter) (before : Option ArrayType),
    (∃ q ∈ ps, ∃ last, q.type = .array last ∧ lastArray? before ps = some last) ∨
      lastArray? before ps = before ∧ ∀ p ∈ ps, ∀ own, p.type ≠ .array own
  | [], _ => .inr ⟨rfl, List.forall_mem_nil _⟩
  | ⟨name, type, mode⟩ :: ps, before => by
    cases type with
    | array own =>
      refine .inl ?_
      rcases lastArray?_spec ps (some own) with ⟨q, hq, hlast⟩ | ⟨hlast, -⟩
      · exact ⟨q, List.mem_cons_of_mem _ hq, hlast⟩
      · exact ⟨_, List.mem_cons_self, own, rfl, hlast⟩
    | _ =>
      rcases lastArray?_spec ps before with ⟨q, hq, hlast⟩ | ⟨hlast, hnone⟩
      · exact .inl ⟨q, List.mem_cons_of_mem _ hq, hlast⟩
      · exact .inr ⟨hlast, List.forall_mem_cons.2 ⟨fun _ h => (by cases h), hnone⟩⟩

/-- In a routine that is accepted at any point of a program, each array parameter is bound to the
dimensions and the element type of the last array parameter. So each of them has its own if and only
if they are all of one type. -/
theorem declareRoutine_arrayParameters (hvisible : VisibleIn env a)
    (h : Runs (declareRoutine (.text kind) (.text n) (.list (ps.map Parameter.toTree)) block.toTree
      result.toTree) a info a') :
    ∃ locals code, info =
        routineInfo (.text kind) result.toTree code (.scope locals) (ps.map Parameter.pair) ∧
      (∀ p ∈ ps, ∀ own, p.type = .array own →
        ∃ last, lastArray? none ps = some last ∧ a'.scopes.BindsArray locals p.name last) ∧
      ((∀ p ∈ ps, ∀ own, p.type = .array own → a'.scopes.BindsArray locals p.name own) ↔
        ∀ p ∈ ps, ∀ q ∈ ps, ∀ own other, p.type = .array own → q.type = .array other →
          own.dimensions = other.dimensions ∧ own.element = other.element) := by
  obtain ⟨locals, code, hinfo, hentries⟩ := declareRoutine_locals hvisible h
  have hbound : ∀ p ∈ ps, ∀ own, p.type = .array own →
      ∃ last, lastArray? none ps = some last ∧ a'.scopes.BindsArray locals p.name last := by
    intro p hp own htype
    obtain ⟨entry, hlookup, hentry⟩ := hentries p hp
    rcases lastArray?_spec ps none with ⟨_, -, last, -, hlast⟩ | ⟨-, hnone⟩
    · rw [Parameter.meaning, htype, hlast] at hentry
      cases hentry with
      | arrayParameter _ _ hknown => exact ⟨last, hlast, _, hlookup, hknown⟩
    · exact absurd htype (hnone p hp own)
  refine ⟨locals, code, hinfo, hbound, fun hown p hp q hq own other htype htype' => ?_,
    fun hsame p hp own htype => ?_⟩
  · obtain ⟨last, hlast, hp'⟩ := hbound p hp own htype
    obtain ⟨last', hlast', hq'⟩ := hbound q hq other htype'
    obtain rfl : last = last' := Option.some.inj (hlast.symm.trans hlast')
    obtain ⟨hdimensions, helement⟩ := hp'.iff.1 (hown p hp own htype)
    obtain ⟨hdimensions', helement'⟩ := hq'.iff.1 (hown q hq other htype')
    exact ⟨hdimensions.trans hdimensions'.symm, helement.trans helement'.symm⟩
  · obtain ⟨last, hlast, hp'⟩ := hbound p hp own htype
    rcases lastArray?_spec ps none with ⟨q, hq, last', htype', hlast'⟩ | ⟨-, hnone⟩
    · obtain rfl : last' = last := Option.some.inj (hlast'.symm.trans hlast)
      exact hp'.iff.2 (hsame p hp q hq own last' htype htype')
    · exact absurd htype (hnone p hp own)

end Routine

/-- The parameters `a: array[1..1] of integer; b: array[1..2] of integer`. -/
def twoArrays : List Parameter :=
  [⟨"a", .array ⟨(1, 1), [], "integer", none⟩, none⟩,
    ⟨"b", .array ⟨(1, 2), [], "integer", none⟩, none⟩]

/-- The first parameter is taken for an array of two elements. -/
theorem declareRoutine_arrayParameters_twoArrays : ∃ info a' locals,
    Runs (declareRoutine (.text "procedure") (.text "q") (.list (twoArrays.map Parameter.toTree))
      (Block.mk [] []).toTree TypeExpr.omitted.toTree) .start info a' ∧
    a'.scopes.BindsArray locals "a" ⟨(1, 2), [], "integer", none⟩ ∧
    ¬a'.scopes.BindsArray locals "a" ⟨(1, 1), [], "integer", none⟩ := by
  have hrun : ((declareRoutine (.text "procedure") (.text "q")
      (.list (twoArrays.map Parameter.toTree)) (Block.mk [] []).toTree
      TypeExpr.omitted.toTree) .start).1.toOption.isSome = true := by decide +kernel
  obtain ⟨info, hinfo⟩ := Option.isSome_iff_exists.1 hrun
  have hruns : Runs (declareRoutine (.text "procedure") (.text "q")
      (.list (twoArrays.map Parameter.toTree)) (Block.mk [] []).toTree TypeExpr.omitted.toTree)
      .start info _ := Prod.ext (Except.eq_ok_of_toOption hinfo) rfl
  obtain ⟨locals, code, -, hbound, -⟩ := declareRoutine_arrayParameters .start hruns
  obtain ⟨last, hlast, ha⟩ := hbound _ List.mem_cons_self _ rfl
  obtain rfl := Option.some.inj hlast
  refine ⟨info, _, locals, hruns, ha, fun hown => ?_⟩
  exact absurd (ha.iff.1 hown).1 (by decide)

end MiniPascal
