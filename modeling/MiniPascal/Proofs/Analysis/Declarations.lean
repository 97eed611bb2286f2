import MiniPascal.Proofs.Analysis.Bodies
import MiniPascal.Proofs.Analysis.Entries

/-!
# What Declarations Do

Declarations are analysed one after the other, and each adds its names to the scope that it stands
in. `Decl.Adds` says which ones: a constant or a variable adds one name, a type at most one, and a
routine adds its name with the code of its body and the scope of its own names, which have been
added in the same way.

* `declareItem_runs`: a single declaration;
* `analyzeBlock_runs`: a block, whose statements come in a scope of their own.
-/

namespace MiniPascal

open Check Declare Declaring

/-! ### Names that are added -/

section Adds

variable (V : Vocabulary)

mutual

/-- The block adds these names to the scope `home` and has this code. -/
def Block.Adds (scopes : Scopes) (home : Nat) : Block → List (String × Tree) → Tree → Prop
  | .mk ds ss, added, code => declsAdd scopes home ds added ∧ IsBodyCode (keptStatements ss) code

/-- The declaration adds these names to the scope `home`. The scope of the names of a routine is
opened after `home`. -/
def Decl.Adds (scopes : Scopes) (home : Nat) : Decl → List (String × Tree) → Prop
  | .type _ (.named _), added | .type _ .omitted, added => added = []
  | .type n _, added | .const n _ _, added | .var n _ _ _, added =>
    ∃ info, PlainEntry V info ∧ added = [(n, info)]
  | .routine kind n ps body result, added =>
    ∃ code locals own inner,
      added = [(n, routineInfo (.text kind) result.toTree code (.scope locals)
        (ps.map Parameter.pair))] ∧
      home < locals ∧ locals < scopes.all.size ∧ scopes.parentOf locals = some home ∧
      scopes.symbolsOf locals = own ++ inner ∧ ((own ++ inner).map Prod.fst).Nodup ∧
      own.map Prod.fst = ps.map Parameter.name ∧ (∀ e ∈ own, ParameterEntry V e.2) ∧
      body.Adds scopes locals inner code

/-- The declarations add these names to the scope `home`. -/
def declsAdd (scopes : Scopes) (home : Nat) : List Decl → List (String × Tree) → Prop
  | [], added => added = []
  | d :: ds, added =>
    ∃ first rest, added = first ++ rest ∧ d.Adds scopes home first ∧ declsAdd scopes home ds rest

end

end Adds

variable {V : Vocabulary} {S : List Stmt → Prop}

/-- `s'` has all scopes of `s` that were opened after the scope `k`. -/
structure Scopes.Keeps (k : Nat) (s s' : Scopes) : Prop where
  size_le : s.all.size ≤ s'.all.size
  same : ∀ j, k < j → j < s.all.size → s'.all[j]? = s.all[j]?

theorem Scopes.Grows.keeps {k : Nat} {s s' : Scopes} {added : List (String × Tree)}
    (h : Grows k s s' added) : Keeps k s s' :=
  ⟨h.size_le, fun j hj hlt => h.others j hlt (Nat.ne_of_gt hj)⟩

section Keep

variable {s s' : Scopes}

mutual

/-- What a block has added stays as long as the scopes that it has opened are kept. -/
theorem Block.Adds.keep : ∀ {b : Block} {added : List (String × Tree)} {code : Tree} {home : Nat},
    Scopes.Keeps home s s' → b.Adds V s home added code → b.Adds V s' home added code
  | .mk _ _, _, _, _, h, ⟨hds, hss⟩ => ⟨declsAdd.keep h hds, hss⟩

@[inherit_doc Block.Adds.keep]
theorem Decl.Adds.keep : ∀ {d : Decl} {added : List (String × Tree)} {home : Nat},
    Scopes.Keeps home s s' → d.Adds V s home added → d.Adds V s' home added
  | .type _ (.named _), _, _, _, hd | .type _ .omitted, _, _, _, hd
  | .type _ (.array _), _, _, _, hd | .type _ (.record _), _, _, _, hd | .const _ _ _, _, _, _, hd
  | .var _ _ _ _, _, _, _, hd => hd
  | .routine _ _ _ _ _, _, _, h,
      ⟨code, locals, own, inner, hadded, hhome, hlocals, hparent, hsymbols, hnodup, hnames, hown,
        hbody⟩ => by
    have hsame := h.same locals hhome hlocals
    have hlater : Scopes.Keeps locals s s' :=
      ⟨h.size_le, fun j hj => h.same j (Nat.lt_trans hhome hj)⟩
    refine ⟨code, locals, own, inner, hadded, hhome, Nat.lt_of_lt_of_le hlocals h.size_le, ?_, ?_,
      hnodup, hnames, hown, hbody.keep hlater⟩
    · rw [Scopes.parentOf_congr hsame, hparent]
    · rw [Scopes.symbolsOf_congr hsame, hsymbols]

@[inherit_doc Block.Adds.keep]
theorem declsAdd.keep : ∀ {ds : List Decl} {added : List (String × Tree)} {home : Nat},
    Scopes.Keeps home s s' → declsAdd V s home ds added → declsAdd V s' home ds added
  | [], _, _, _, hds => hds
  | _ :: _, _, _, h, ⟨first, rest, hadded, hfirst, hrest⟩ =>
    ⟨first, rest, hadded, hfirst.keep h, declsAdd.keep h hrest⟩

end

end Keep

/-! ### Steps in one scope -/

/-- `s'` comes from `s` by declarations in the scope `k`, which have added these names. -/
structure Works (V : Vocabulary) (k : Nat) (s s' : Analysis) (added : List (String × Tree)) :
    Prop where
  grows : s.scopes.Grows k s'.scopes added
  current : s'.scopes.current = s.scopes.current
  code : s'.code = s.code
  within : s'.scopes.Within V

namespace Works

variable {k : Nat} {s s' s'' : Analysis} {added more : List (String × Tree)}

theorem refl (k : Nat) (hs : s.scopes.Within V) : Works V k s s [] :=
  ⟨.refl k s.scopes, rfl, rfl, hs⟩

theorem trans (h : Works V k s s' added) (h' : Works V k s' s'' more) :
    Works V k s s'' (added ++ more) :=
  ⟨h.grows.trans h'.grows, h'.current.trans h.current, h'.code.trans h.code, h'.within⟩

theorem current_lt (h : Works V s.scopes.current s s' added)
    (hcurrent : s.scopes.current < s.scopes.all.size) :
    s'.scopes.current < s'.scopes.all.size := by
  rw [h.current]
  exact Nat.lt_of_lt_of_le hcurrent h.grows.size_le

end Works

/-- The types of variables from the vocabulary. -/
def StoredType (V : Vocabulary) (t : Tree) : Prop :=
  ∃ type : DeclaredType, type.Within V ∧ type.StoredAs t

section Declare

variable {s s' : Analysis} {k : Nat} {n : String} {info : Tree} {u : Unit}

variable (hs : s.scopes.Within V)

include hs

theorem declareIn_runs (hk : k < s.scopes.all.size) (hn : V.name n) (hinfo : Entry V info)
    (h : Runs (declareIn k (.text n) info) s u s') :
    Works V k s s' [(n, info)] ∧ s'.scopes.all.size = s.scopes.all.size := by
  have hgrows := declareIn_grows hk h
  obtain ⟨key, hkey, -, rfl⟩ := declareIn_eq_runs h
  obtain rfl : n = key := Except.ok.inj hkey
  refine ⟨⟨hgrows, rfl, rfl, hs.setSymbols fun e he => ?_⟩, Scopes.size_setSymbols⟩
  rw [List.mem_append, List.mem_singleton] at he
  rcases he with he | rfl
  · exact hs k e he
  · exact ⟨hn, hinfo⟩

theorem declare_runs (hcurrent : s.scopes.current < s.scopes.all.size) (hn : V.name n)
    (hinfo : Entry V info) (h : Runs (declare (.text n) info) s u s') :
    Works V s.scopes.current s s' [(n, info)] ∧ s'.scopes.all.size = s.scopes.all.size :=
  declareIn_runs hs hcurrent hn hinfo (runs_get_bind.1 h)

/-- A constant adds its name. -/
theorem declareConstant_runs (hcurrent : s.scopes.current < s.scopes.all.size) (hn : V.name n)
    {type : DeclaredType} (htype : type.Within V) {value : Option ConstValue}
    (hvalue : ∀ v ∈ value, v.Within V)
    (h : Runs (declareConstant (.text n)
      (.tuple [type.toTree, Tree.ofOption (value.map ConstValue.toTree)])) s u s') :
    ∃ info, PlainEntry V info ∧ Works V s.scopes.current s s' [(n, info)] := by
  obtain ⟨info, hinfo, h⟩ := runs_check_bind.1 h
  have hentry := PlainEntry.constant (constantInfo_ensures hs htype hvalue info hinfo)
  exact ⟨_, hentry, (declare_runs hs hcurrent hn (.plain hentry) h).1⟩

/-- A variable adds its name. -/
theorem declareVariable_runs (hcurrent : s.scopes.current < s.scopes.all.size) (hn : V.name n)
    {type : DeclaredType} (htype : type.Within V) {t initial filled : Tree}
    (hstored : type.StoredAs t) (h : Runs (declareVariable (.text n) t initial) s filled s') :
    type.StoredAs filled ∧ ∃ info, PlainEntry V info ∧
      Works V s.scopes.current s s' [(n, info)] := by
  obtain ⟨filled', hfilled, h⟩ := runs_check_bind.1 h
  obtain ⟨info, hinfo, h⟩ := runs_check_bind.1 h
  obtain ⟨_, hdeclare, rfl⟩ := runs_bind_pure.1 h
  have hkept := filledType_storedAs hstored _ hfilled
  have hentry := PlainEntry.var (variableInfo_ensures hs htype hkept initial info hinfo)
  exact ⟨hkept, _, hentry, (declare_runs hs hcurrent hn (.plain hentry) hdeclare).1⟩

/-- A record or array type adds its name, any other type nothing. -/
theorem declareType_runs (hcurrent : s.scopes.current < s.scopes.all.size) (hn : V.name n)
    {type : TypeExpr} (htype : type.Within V) (h : Runs (declareType (.text n) type.toTree) s u s')
    {home : Nat} :
    ∃ added, Works V s.scopes.current s s' added ∧
      (Decl.type n type).Adds V s'.scopes home added := by
  cases type with
  | named _ | omitted =>
    obtain ⟨-, rfl⟩ := runs_pure.1 h
    exact ⟨[], .refl _ hs, rfl⟩
  | array type =>
    obtain ⟨info, hinfo, h⟩ := runs_check_bind.1 h
    have hdescribes := arrayInfo_describes (by decide) type _ info hinfo
    have hentry := PlainEntry.arrayType (hdescribes.info htype.1)
    exact ⟨_, (declare_runs hs hcurrent hn (.plain hentry) h).1, _, hentry, rfl⟩
  | record fields =>
    obtain ⟨infos, hinfos, h⟩ := runs_check_bind.1 h
    obtain ⟨trees, htrees, hinfos⟩ := bind_eq_ok.1 hinfos
    obtain rfl : memberTrees fields = trees := Except.ok.inj (fault_eq_ok.1 htrees)
    have hentry := PlainEntry.recordType hn (fieldInfoList_ensures hs htype infos hinfos)
    exact ⟨_, (declare_runs hs hcurrent hn (.plain hentry) h).1, _, hentry, rfl⟩

end Declare

/-! ### Routines -/

variable {ps : List Parameter} {s s' : Analysis} {routine : OpenRoutine}

theorem lastArray?_within : ∀ {ps : List Parameter}, (∀ p ∈ ps, p.Within V) →
    ∀ {last : Option ArrayType}, (∀ type ∈ last, V.name type.element) →
    ∀ type ∈ lastArray? last ps, V.name type.element
  | [], _, _, h => h
  | ⟨_, .array type, _⟩ :: ps, hps, last, _ => by
    rw [List.forall_mem_cons] at hps
    have hlast : ∀ t ∈ some type, V.name t.element := by simpa using hps.1.2.1
    exact lastArray?_within hps.2 hlast
  | ⟨_, .named _, _⟩ :: ps, hps, _, h | ⟨_, .record _, _⟩ :: ps, hps, _, h
  | ⟨_, .omitted, _⟩ :: ps, hps, _, h => lastArray?_within (List.forall_mem_cons.1 hps).2 h

/-- The entry of a parameter has its form. -/
theorem Parameter.Within.entry {p : Parameter} (hp : p.Within V) {last : Option ArrayType}
    (hlast : ∀ type ∈ last, V.name type.element) {n : String} {info : Tree}
    (h : (p.meaning last).Describes n info) : ParameterEntry V info := by
  obtain ⟨name, type, mode⟩ := p
  cases type with
  | array type =>
    obtain ⟨_, helement, -⟩ := hp
    cases h with
    | arrayParameter _ _ hknown =>
      cases last with
      | none => exact .array (hknown.info helement)
      | some known => exact .array (hknown.info (hlast known rfl))
  | named n | record fields | omitted => cases h; exact .typed hp.2

/-- The scope of a routine gets the names of its parameters. -/
theorem declareLocals_runs {k : Nat} {last : Option ArrayType} {array : Option Tree}
    (harray : Option.Rel ArrayType.Describes last array)
    (hlast : ∀ type ∈ last, V.name type.element) {u : Unit} :
    ∀ {ps : List Parameter}, (∀ p ∈ ps, p.Within V) → ∀ {s s' : Analysis},
      s.scopes.Within V → k < s.scopes.all.size →
      Runs (declareLocals k array (ps.map Parameter.pair)) s u s' →
      ∃ own, Works V k s s' own ∧ s'.scopes.all.size = s.scopes.all.size ∧
        own.map Prod.fst = ps.map Parameter.name ∧ ∀ e ∈ own, ParameterEntry V e.2
  | [], _, s, s', hs, _, h => by
    obtain ⟨-, rfl⟩ := runs_pure.1 h
    exact ⟨[], .refl k hs, rfl, rfl, by simp⟩
  | p :: ps, hps, s, s', hs, hk, h => by
    rw [List.forall_mem_cons] at hps
    obtain ⟨info, s₁, hdescribes, hfirst, hrest⟩ := declareLocals_cons_runs harray h
    have hinfo := hps.1.entry hlast hdescribes
    obtain ⟨hworks, hsize⟩ := declareIn_runs hs hk hps.1.1 (.plain (.parameter hinfo)) hfirst
    obtain ⟨own, hworks', hsize', hnames, hown⟩ :=
      declareLocals_runs harray hlast hps.2 hworks.within (hsize ▸ hk) hrest
    refine ⟨(p.name, info) :: own, hworks.trans hworks', hsize'.trans hsize, ?_, ?_⟩
    · rw [List.map_cons, hnames, List.map_cons]
    · exact List.forall_mem_cons.2 ⟨hinfo, hown⟩

/-- `s'` comes from `s` by opening a routine: the new scope, which is now the current one, has its
parameters. -/
structure Opens (V : Vocabulary) (s s' : Analysis) (ps : List Parameter) (routine : OpenRoutine)
    (own : List (String × Tree)) : Prop where
  routine_eq : routine =
    ⟨s.scopes.current, s.scopes.all.size, s.code, ps.map Parameter.pair⟩
  size_eq : s'.scopes.all.size = s.scopes.all.size + 1
  current : s'.scopes.current = s.scopes.all.size
  symbols : s'.scopes.symbolsOf s.scopes.all.size = own
  parent : s'.scopes.parentOf s.scopes.all.size = some s.scopes.current
  nodup : (own.map Prod.fst).Nodup
  names : own.map Prod.fst = ps.map Parameter.name
  entries : ∀ e ∈ own, ParameterEntry V e.2
  within : s'.scopes.Within V

/-- Opening a routine declares it and enters a new scope with its parameters. -/
theorem openRoutine_runs (hs : s.scopes.Within V) (hcurrent : s.scopes.current < s.scopes.all.size)
    {kind n : String} (hn : V.name n) (hps : ∀ p ∈ ps, p.Within V) {result : Tree}
    (h : Runs (openRoutine (.text kind) (.text n) (.list (ps.map Parameter.toTree)) result) s
      routine s') : ∃ own, Opens V s s' ps routine own := by
  obtain ⟨_, -, h⟩ := runs_check_bind.1 h
  obtain ⟨⟨_, array⟩, htyped, h⟩ := runs_check_bind.1 h
  obtain ⟨rfl, harray⟩ := routineParameters_ensures ps _ htyped
  obtain ⟨_, s₁, hdeclare, h⟩ := runs_bind.1 h
  have hentry := Entry.routine (V := V) kind result .null .null fun p hp => (hps p hp).1
  obtain ⟨hworks, hsize⟩ := declare_runs hs hcurrent hn hentry hdeclare
  -- The new scope is opened before it is entered, so that the parameters are declared from outside.
  have h := runs_modify_bind.1 (runs_get_bind.1 h)
  obtain ⟨_, s₂, (hlocals : Runs (σ := Analysis) _ { s₁ with
    scopes := (s₁.scopes.openIn (some s₁.scopes.current) []).2 } _ s₂), h⟩ := runs_bind.1 h
  have h := runs_modify_bind.1 h
  obtain ⟨rfl, rfl⟩ := runs_pure.1 h
  obtain ⟨own, hown, hsize', hnames, hentries⟩ := declareLocals_runs harray
    (lastArray?_within hps (by simp)) hps (hworks.within.openIn _) (by simp) hlocals
  -- The new scope had no names, so that it has those of the parameters alone.
  have hsymbols := hown.grows.symbols
  rw [Scopes.symbolsOf_openIn, List.nil_append] at hsymbols
  have hparent := hown.grows.parent
  rw [Scopes.parentOf_openIn, hworks.current] at hparent
  have hnodup := hown.grows.nodup
  rw [hsymbols, Scopes.symbolsOf_openIn] at hnodup
  rw [hsize] at hsymbols hparent
  refine ⟨own, ⟨?_, ?_, hsize, hsymbols, hparent, hnodup List.nodup_nil, hnames, hentries,
    hown.within⟩⟩
  · rw [hworks.current, hworks.code, hsize]
  · rw [← hsize, ← Scopes.size_openIn]
    exact hsize'

/-! ### Blocks -/

/-- `s'` comes from `s` by analysing a block, which has added these names and has this code. The
current scope is now the one of its statements, which has no names. -/
structure Analyses (V : Vocabulary) (b : Block) (s s' : Analysis) (added : List (String × Tree))
    (code : Tree) : Prop where
  grows : s.scopes.Grows s.scopes.current s'.scopes added
  adds : b.Adds V s'.scopes s.scopes.current added code
  code : s'.code = some code
  parent : s'.scopes.parentOf s'.scopes.current = some s.scopes.current
  symbols : s'.scopes.symbolsOf s'.scopes.current = []
  within : s'.scopes.Within V

/-- The statements of a block come in a new scope, and all but the compound ones have their code. -/
theorem finishBlock_runs (hs : s.scopes.Within V) (hcurrent : s.scopes.current < s.scopes.all.size)
    {ss : List Stmt} {code : Tree} (h : Runs (finishBlock (compoundTree ss)) s code s') :
    Analyses V (.mk [] ss) s s' [] code := by
  have h := runs_modify_bind.1 h
  obtain ⟨codes, hcodes, h⟩ := runs_check_bind.1 h
  have h := runs_modify_bind.1 h
  obtain ⟨rfl, rfl⟩ := runs_pure.1 h
  have hbody := checkCompound_ensures ss _ codes hcodes
  refine ⟨(Scopes.Grows.openIn _ hcurrent).withCurrent _, ⟨rfl, hbody⟩, rfl, ?_, ?_, hs.openIn _⟩
  · exact Scopes.parentOf_openIn _
  · exact Scopes.symbolsOf_openIn _

/-- After its body a routine is known with its code and its scope, and the scope around it is the
current one again. -/
theorem closeRoutine_runs {s₁ s₂ : Analysis} (hs : s.scopes.Within V)
    (hcurrent : s.scopes.current < s.scopes.all.size) {kind n : String} (hn : V.name n)
    (hps : ∀ p ∈ ps, p.Within V) {body : Block} {result : TypeExpr}
    {own inner : List (String × Tree)} {parameters code info : Tree}
    (hopens : Opens V s s₁ ps routine own) (hbody : Analyses V body s₁ s₂ inner code)
    (hopen : Runs (openRoutine (.text kind) (.text n) parameters result.toTree) s routine s₁)
    (hrun : Runs (analyzeBlock body.toTree) s₁ code s₂)
    (h : Runs (closeRoutine routine (.text kind) (.text n) result.toTree code) s₂ info s') :
    ∃ added, Works V s.scopes.current s s' added ∧
      (Decl.routine kind n ps body result).Adds V s'.scopes s.scopes.current added := by
  obtain ⟨_, hkey, -, -, hgrows⟩ := closeRoutine_grows hcurrent hopen hrun h
  obtain rfl := Except.ok.inj hkey
  obtain ⟨_, hkey, rfl, rfl⟩ := closeRoutine_eq_runs h
  obtain rfl := Except.ok.inj hkey
  obtain ⟨rfl, hsize₁, hcurrent₁, hsymbols₁, hparent₁, hnodup₁, hnames, hentries, -⟩ := hopens
  obtain ⟨hgrows₂, hadds, -, -, -, hsound⟩ := hbody
  rw [hcurrent₁] at hgrows₂ hadds
  have hsize : s.scopes.all.size < s₂.scopes.all.size :=
    Nat.lt_of_lt_of_le (hsize₁ ▸ Nat.lt_succ_self _) hgrows₂.size_le
  have hother : ∀ j, s.scopes.current < j → ∀ symbols,
      (s₂.scopes.setSymbols s.scopes.current symbols).all[j]? = s₂.scopes.all[j]? :=
    fun j hj symbols => Scopes.getElem?_setSymbols_of_ne (Nat.ne_of_gt hj)
  refine ⟨_, ⟨hgrows, rfl, rfl, ?_⟩, code, s.scopes.all.size, own, inner, rfl, hcurrent, ?_, ?_, ?_,
    ?_, hnames, hentries, ?_⟩
  · refine hsound.setSymbols fun e he => ?_
    have hhome : (s₂.scopes.setSymbols _ _).symbolsOf s.scopes.current = _ := hgrows.symbols
    rw [Scopes.symbolsOf_setSymbols (Nat.lt_trans hcurrent hsize)] at hhome
    rw [hhome, List.mem_append, List.mem_singleton] at he
    rcases he with he | rfl
    · exact hs _ e he
    · exact ⟨hn, .routine kind result.toTree code _ fun p hp => (hps p hp).1⟩
  · exact Nat.lt_of_lt_of_eq hsize Scopes.size_setSymbols.symm
  · exact (Scopes.parentOf_setSymbols.trans hgrows₂.parent).trans hparent₁
  · refine (Scopes.symbolsOf_congr (hother _ hcurrent _)).trans ?_
    rw [hgrows₂.symbols, hsymbols₁]
  · rw [← hsymbols₁, ← hgrows₂.symbols]
    exact hgrows₂.nodup (hsymbols₁ ▸ hnodup₁)
  · refine hadds.keep ⟨Nat.le_of_eq Scopes.size_setSymbols.symm, fun j hj _ => ?_⟩
    exact hother j (Nat.lt_trans hcurrent hj) _

mutual

theorem analyzeBlock_runs : ∀ {b : Block}, b.Within V S → ∀ {s s' : Analysis} {code : Tree},
    s.scopes.Within V → s.scopes.current < s.scopes.all.size →
    Runs (analyzeBlock b.toTree) s code s' → ∃ added, Analyses V b s s' added code
  | .mk [] ss, _, s, s', code, hs, hcurrent, h => ⟨[], finishBlock_runs hs hcurrent h⟩
  | .mk (d :: ds) ss, ⟨hds, _⟩, s, s', code, hs, hcurrent, h => by
    obtain ⟨_, s₁, hdeclare, h⟩ := runs_bind.1 h
    obtain ⟨added, hworks, hadds⟩ := declareList_runs hds hs hcurrent (by simp) hdeclare
    have hlt := hworks.current_lt hcurrent
    obtain ⟨hgrows, hbody, hcode, hparent, hsymbols, hsound⟩ := finishBlock_runs hworks.within hlt h
    rw [hworks.current] at hgrows hparent
    have hall := hworks.grows.trans hgrows
    rw [List.append_nil] at hall
    exact ⟨added, hall, ⟨hadds.keep hgrows.keeps, hbody.2⟩, hcode, hparent, hsymbols, hsound⟩

theorem declareItem_runs : ∀ {d : Decl}, d.Within V S →
    ∀ {s s' : Analysis} {before type : Option Tree}, s.scopes.Within V →
    s.scopes.current < s.scopes.all.size → (∀ t ∈ before, StoredType V t) →
    Runs (declareItem before d.toTree) s type s' →
    (∀ t ∈ type, StoredType V t) ∧ ∃ added, Works V s.scopes.current s s' added ∧
      d.Adds V s'.scopes s.scopes.current added
  | .const n type value, ⟨hn, htype, hvalue⟩, s, s', before, filled, hs, hcurrent, hbefore, h => by
    obtain ⟨_, hdeclare, rfl⟩ := runs_bind_pure.1 h
    obtain ⟨info, hinfo, hworks⟩ := declareConstant_runs hs hcurrent hn htype hvalue hdeclare
    exact ⟨nofun, _, hworks, info, hinfo, rfl⟩
  | .type n type, ⟨hn, htype⟩, s, s', before, filled, hs, hcurrent, hbefore, h => by
    obtain ⟨_, hdeclare, rfl⟩ := runs_bind_pure.1 h
    exact ⟨nofun, declareType_runs hs hcurrent hn htype hdeclare⟩
  | .var n type initial sharesType, ⟨hn, htype, _⟩, s, s', before, filled, hs, hcurrent, hbefore,
      h => by
    obtain ⟨filled, hdeclare, rfl⟩ := runs_bind_pure.1 h
    -- A variable of a group has the type that was filled for the one before it.
    obtain ⟨type', htype', hstored⟩ :
        StoredType V (if sharesType then before.getD type.toTree else type.toTree) := by
      split
      · cases before with
        | none => exact ⟨type, htype, type.storedAs⟩
        | some t => exact hbefore t rfl
      · exact ⟨type, htype, type.storedAs⟩
    obtain ⟨hfilled, info, hinfo, hworks⟩ :=
      declareVariable_runs hs hcurrent hn htype' hstored hdeclare
    exact ⟨by simpa using .intro type' ⟨htype', hfilled⟩, _, hworks, info, hinfo, rfl⟩
  | .routine kind n ps body result, ⟨_, hn, hps, hbody⟩, s, s', before, filled, hs, hcurrent, _,
      h => by
    obtain ⟨routine, s₁, hopen, h⟩ := runs_bind.1 h
    obtain ⟨code, s₂, hrun, h⟩ := runs_bind.1 h
    obtain ⟨_, hclose, rfl⟩ := runs_bind_pure.1 h
    obtain ⟨own, hopens⟩ := openRoutine_runs hs hcurrent hn hps hopen
    have hlt : s₁.scopes.current < s₁.scopes.all.size := by
      rw [hopens.current, hopens.size_eq]
      exact Nat.lt_succ_self _
    obtain ⟨inner, hbody⟩ := analyzeBlock_runs hbody hopens.within hlt hrun
    exact ⟨nofun, closeRoutine_runs hs hcurrent hn hps hopens hbody hopen hrun hclose⟩

theorem declareList_runs : ∀ {ds : List Decl}, declsWithin V S ds →
    ∀ {s s' : Analysis} {before : Option Tree} {u : Unit},
    s.scopes.Within V → s.scopes.current < s.scopes.all.size → (∀ t ∈ before, StoredType V t) →
    Runs (declareList before (declTrees ds)) s u s' →
    ∃ added, Works V s.scopes.current s s' added ∧ declsAdd V s'.scopes s.scopes.current ds added
  | [], _, s, s', before, _, hs, hcurrent, hbefore, h => by
    obtain ⟨-, rfl⟩ := runs_pure.1 h
    exact ⟨[], .refl _ hs, rfl⟩
  | d :: ds, ⟨hd, hds⟩, s, s', before, _, hs, hcurrent, hbefore, h => by
    obtain ⟨type, s₁, hfirst, h⟩ := runs_bind.1 h
    obtain ⟨htype, first, hworks, hadds⟩ := declareItem_runs hd hs hcurrent hbefore hfirst
    have hlt := hworks.current_lt hcurrent
    obtain ⟨rest, hworks', hadds'⟩ := declareList_runs hds hworks.within hlt htype h
    rw [hworks.current] at hworks' hadds'
    exact ⟨first ++ rest, hworks.trans hworks', first, rest, rfl, hadds.keep hworks'.grows.keeps,
      hadds'⟩

end

end MiniPascal
