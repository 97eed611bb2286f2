import MiniPascal.Proofs.Analysis.Scopes
import MiniPascal.Proofs.Analysis.Steps

/-!
# Scopes That Are Left as They Are

Which scopes an analysis works in. A block adds names to the scope that is current when it starts
and to scopes that it opens itself, whatever it is made of and whether it is accepted or not. So a
routine leaves all scopes around it as they are, but for its own entry.
-/

namespace MiniPascal

open Check Declare Declaring

/-- The scope `k`, or one that is opened after all scopes in `base`. -/
def Scopes.Free (base : Scopes) (k j : Nat) : Prop := j = k ∨ base.all.size ≤ j

/-- Of the scopes in `base`, all but the scope `k` are in `s` as they are there. -/
structure Scopes.Leaves (base : Scopes) (k : Nat) (s : Scopes) : Prop where
  size_le : base.all.size ≤ s.all.size
  others : ∀ j < base.all.size, j ≠ k → s.all[j]? = base.all[j]?

namespace Scopes.Leaves

variable {base s : Scopes} {k j : Nat}

theorem refl (s : Scopes) (k : Nat) : Leaves s k s := ⟨Nat.le_refl _, fun _ _ _ => rfl⟩

/-- Names come to the scope `k` or to one that was opened later. -/
theorem setSymbols (h : Leaves base k s) (hj : base.Free k j)
    (symbols : List (String × Tree)) : Leaves base k (s.setSymbols j symbols) := by
  refine ⟨by simpa using h.size_le, fun i hi hne => ?_⟩
  have hij : i ≠ j := by
    unfold Free at hj
    omega
  rw [getElem?_setSymbols_of_ne hij, h.others i hi hne]

theorem openIn (h : Leaves base k s) (parent : Option Nat) :
    Leaves base k (s.openIn parent []).2 := by
  refine ⟨by simpa using Nat.le_succ_of_le h.size_le, fun i hi hne => ?_⟩
  rw [getElem?_openIn parent (Nat.lt_of_lt_of_le hi h.size_le), h.others i hi hne]

theorem withCurrent (h : Leaves base k s) (current : Nat) : Leaves base k { s with current } :=
  ⟨h.size_le, h.others⟩

end Scopes.Leaves

/-- A scope that grew has grown as well in a table that differs from it in later scopes only. -/
theorem Scopes.Grows.leaves {s s' s'' : Scopes} {k j : Nat} {added : List (String × Tree)}
    (h : Grows k s s' added) (hk : k < s.all.size) (hj : s.all.size ≤ j) (h' : Leaves s' j s'') :
    Grows k s s'' added := by
  have hsame : ∀ i < s.all.size, s''.all[i]? = s'.all[i]? := fun i hi =>
    h'.others i (Nat.lt_of_lt_of_le hi h.size_le) (by omega)
  refine ⟨Nat.le_trans h.size_le h'.size_le, ?_, ?_, fun i hi hne => ?_, ?_⟩
  · rw [symbolsOf_congr (hsame k hk), h.symbols]
  · rw [parentOf_congr (hsame k hk), h.parent]
  · rw [hsame i hi, h.others i hi hne]
  · rw [symbolsOf_congr (hsame k hk)]
    exact h.nodup

namespace Declare

variable {α β : Type} {base : Scopes} {k : Nat} {s s' : Analysis} {result parameters kind : Tree}
  {j : Nat}

/-- Whether the step succeeds or not, the scopes of `base` other than `k` are as they were. -/
def LeavesOthers (base : Scopes) (k : Nat) (m : Declare α) (s : Analysis) : Prop :=
  base.Leaves k s.scopes → base.Leaves k (m s).2.scopes

namespace LeavesOthers

variable {m : Declare α} {f : α → Declare β}

theorem pure (x : α) : LeavesOthers base k (pure x) s := id

theorem throw (e : AnalysisError) : LeavesOthers base k (throw e : Declare α) s := id

theorem check (c : Check α) : LeavesOthers base k (liftM c) s := id

theorem bind (hm : LeavesOthers base k m s)
    (hf : ∀ x s', Runs m s x s' → LeavesOthers base k (f x) s') :
    LeavesOthers base k (m >>= f) s := by
  intro hs
  have hmid := hm hs
  change base.Leaves k (ExceptT.bindCont f (m s).1 (m s).2).2.scopes
  have hrun : ∀ x, (m s).1 = .ok x → Runs m s x (m s).2 := fun x hx => Prod.ext hx rfl
  cases hresult : (m s).1 with
  | error e => exact hmid
  | ok x => exact hf x _ (hrun x hresult) hmid

/-- What a run has left as it was. -/
theorem runs (hm : LeavesOthers base k m s) {x : α} (h : Runs m s x s')
    (hs : base.Leaves k s.scopes) : base.Leaves k s'.scopes := by
  have hlast := hm hs
  rw [show m s = _ from h] at hlast
  exact hlast

theorem get_bind {f : Analysis → Declare β} (hf : LeavesOthers base k (f s) s) :
    LeavesOthers base k (get >>= f) s := hf

theorem modify_bind {g : Analysis → Analysis} {f : PUnit → Declare β}
    (hg : base.Leaves k s.scopes → base.Leaves k (g s).scopes)
    (hf : LeavesOthers base k (f ⟨⟩) (g s)) : LeavesOthers base k (modify g >>= f) s :=
  fun hs => hf (hg hs)

theorem check_bind {c : Check α} (hf : ∀ x, LeavesOthers base k (f x) s) :
    LeavesOthers base k ((liftM c : Declare α) >>= f) s := by
  refine (check c).bind fun x s' hrun => ?_
  obtain ⟨-, rfl⟩ := runs_check.1 hrun
  exact hf x

end LeavesOthers

theorem declareIn_leavesOthers (hj : base.Free k j) (name info : Tree) :
    LeavesOthers base k (declareIn j name info) s := by
  refine .check_bind fun key => .get_bind ?_
  split
  next scopes hdeclared =>
    obtain ⟨-, rfl⟩ := Scopes.declareIn?_eq_some.1 hdeclared
    exact fun hs => hs.setSymbols hj _
  next => exact .throw _

variable {name info : Tree} {u : Unit} {routine : OpenRoutine}

/-- A name that has been declared is new in its scope, and no scope has been opened or entered. -/
theorem declareIn_eq_runs (h : Runs (declareIn j name info) s u s') :
    ∃ key, name.key = .ok key ∧
      key ∉ (s.scopes.symbolsOf j).map Prod.fst ∧
      s' = { s with scopes := s.scopes.setSymbols j (s.scopes.symbolsOf j ++ [(key, info)]) } := by
  obtain ⟨key, hkey, h⟩ := runs_check_bind.1 h
  have h := runs_get_bind.1 h
  split at h
  next scopes hdeclared =>
    obtain ⟨hnew, rfl⟩ := Scopes.declareIn?_eq_some.1 hdeclared
    exact ⟨key, fault_eq_ok.1 hkey, hnew, (runs_modify.1 h).symm⟩
  next => exact absurd h not_runs_throw

/-- A name that has been declared has come to its scope. -/
theorem declareIn_grows (hj : j < s.scopes.all.size) {n : String}
    (h : Runs (declareIn j (.text n) info) s u s') : s.scopes.Grows j s'.scopes [(n, info)] := by
  obtain ⟨key, hkey, hnew, rfl⟩ := declareIn_eq_runs h
  obtain rfl : n = key := Except.ok.inj hkey
  exact .declareIn? hj (Scopes.declareIn?_eq_some.2 ⟨hnew, rfl⟩)

theorem declare_keeps (h : Runs (declare name info) s u s') :
    s'.scopes.current = s.scopes.current ∧ s'.code = s.code := by
  obtain ⟨key, -, -, rfl⟩ := declareIn_eq_runs (runs_get_bind.1 h)
  exact ⟨rfl, rfl⟩

theorem declareLocals_leavesOthers {j : Nat} (hj : base.Free k j)
    (array : Option Tree) : ∀ (parameters : List (Tree × Tree)) (s : Analysis),
    LeavesOthers base k (declareLocals j array parameters) s
  | [], _ => .pure ()
  | (name, type) :: rest, s => by
    have hrest : ∀ s', LeavesOthers base k (declareLocals j array rest) s' :=
      declareLocals_leavesOthers hj array rest
    unfold declareLocals
    split
    · split
      · exact (declareIn_leavesOthers hj _ _).bind fun _ s' _ => hrest s'
      · exact (LeavesOthers.throw _).bind fun _ s' _ => hrest s'
    · exact (declareIn_leavesOthers hj _ _).bind fun _ s' _ => hrest s'

/-- Opening a routine works in the current scope and in the one that it opens. -/
theorem openRoutine_leavesOthers (hcurrent : base.Free k s.scopes.current)
    (kind name parameters result : Tree) :
    LeavesOthers base k (openRoutine kind name parameters result) s := by
  refine .check_bind fun _ => .check_bind fun typed => .bind ?_ fun _ s₁ _ => .get_bind fun hs => ?_
  · exact .get_bind (declareIn_leavesOthers hcurrent _ _)
  · have hlocals : base.Free k s₁.scopes.all.size := .inr hs.size_le
    refine LeavesOthers.modify_bind (fun hs => hs.openIn _) (.bind ?_ fun _ s₂ _ => ?_) hs
    · exact declareLocals_leavesOthers hlocals _ _ _
    · exact .modify_bind (fun hs => hs.withCurrent _) (.pure _)

/-- A routine that has been opened is new in its scope, which has got its name, and the scope that
has been opened for it is the current one. It starts without code. -/
theorem openRoutine_opened (h : Runs (openRoutine kind name parameters result) s routine s') :
    ∃ key info, name.key = .ok key ∧
      key ∉ (s.scopes.symbolsOf s.scopes.current).map Prod.fst ∧
      routine.home = s.scopes.current ∧ routine.code = s.code ∧ s'.code = none ∧
      s'.scopes.current = s.scopes.all.size ∧ Scopes.Leaves ((s.scopes.setSymbols s.scopes.current
        (s.scopes.symbolsOf s.scopes.current ++ [(key, info)])).openIn (some s.scopes.current) []).2
        s.scopes.all.size s'.scopes := by
  obtain ⟨_, -, h⟩ := runs_check_bind.1 h
  obtain ⟨typed, -, h⟩ := runs_check_bind.1 h
  obtain ⟨_, s₁, hdeclare, h⟩ := runs_bind.1 h
  obtain ⟨key, hkey, hnew, rfl⟩ := declareIn_eq_runs (runs_get_bind.1 hdeclare)
  have h := runs_modify_bind.1 (runs_get_bind.1 h)
  obtain ⟨_, s₂, hlocals, h⟩ := runs_bind.1 h
  have h := runs_modify_bind.1 h
  obtain ⟨rfl, rfl⟩ := runs_pure.1 h
  refine ⟨key, routineInfo kind result .null .null typed.1, hkey, hnew, rfl, rfl,
    rfl, Scopes.size_setSymbols, .withCurrent ?_ _⟩
  exact (declareLocals_leavesOthers (.inl Scopes.size_setSymbols) _ _ _).runs hlocals (.refl _ _)

theorem declare_leavesOthers (hcurrent : base.Free k s.scopes.current)
    (name info : Tree) : LeavesOthers base k (declare name info) s :=
  .get_bind (declareIn_leavesOthers hcurrent name info)

theorem declareType_leavesOthers
    (hcurrent : base.Free k s.scopes.current) (name type : Tree) :
    LeavesOthers base k (declareType name type) s := by
  unfold declareType
  split
  · exact .check_bind fun _ => declare_leavesOthers hcurrent _ _
  · exact .check_bind fun _ => declare_leavesOthers hcurrent _ _
  · exact .pure _

theorem declareType_keeps {type : Tree} (h : Runs (declareType name type) s u s') :
    s'.scopes.current = s.scopes.current ∧ s'.code = s.code := by
  unfold declareType at h
  split at h
  · obtain ⟨_, -, h⟩ := runs_check_bind.1 h
    exact declare_keeps h
  · obtain ⟨_, -, h⟩ := runs_check_bind.1 h
    exact declare_keeps h
  · obtain ⟨-, rfl⟩ := runs_pure.1 h
    exact ⟨rfl, rfl⟩

/-- Notes about a routine go to the scope that declares it, which is then the current one. -/
theorem closeRoutine_eq_runs {body : Tree}
    (h : Runs (closeRoutine routine kind name result body) s info s') :
    ∃ key, name.key = .ok key ∧
      info = routineInfo kind result body (.scope routine.locals) routine.parameters ∧
      s' = ⟨{ s.scopes.update routine.home key info with current := routine.home },
        routine.code⟩ := by
  obtain ⟨key, hkey, h⟩ := runs_check_bind.1 h
  have h := runs_modify_bind.1 h
  obtain ⟨rfl, rfl⟩ := runs_pure.1 h
  exact ⟨key, fault_eq_ok.1 hkey, rfl, rfl⟩

/-- A declaration leaves the current scope and the code as they are. -/
theorem declareItem_keeps {before type : Option Tree} {t : Tree}
    (h : Runs (declareItem before t) s type s') :
    s'.scopes.current = s.scopes.current ∧ s'.code = s.code := by
  cases t with
  | constDecl name value =>
    obtain ⟨_, hdeclare, -⟩ := runs_bind_pure.1 h
    obtain ⟨_, -, hdeclare⟩ := runs_check_bind.1 hdeclare
    exact declare_keeps hdeclare
  | typeDecl name type =>
    obtain ⟨_, hdeclare, -⟩ := runs_bind_pure.1 h
    exact declareType_keeps hdeclare
  | varDecl name type initial shares =>
    obtain ⟨_, hdeclare, -⟩ := runs_bind_pure.1 h
    obtain ⟨_, -, hdeclare⟩ := runs_check_bind.1 hdeclare
    obtain ⟨_, -, hdeclare⟩ := runs_check_bind.1 hdeclare
    obtain ⟨_, hname, -⟩ := runs_bind_pure.1 hdeclare
    exact declare_keeps hname
  | routine kind name parameters block result =>
    obtain ⟨routine, s₁, hopen, h⟩ := runs_bind.1 h
    obtain ⟨code, s₂, -, h⟩ := runs_bind.1 h
    obtain ⟨_, hclose, -⟩ := runs_bind_pure.1 h
    obtain ⟨_, _, -, -, hhome, hcode, -⟩ := openRoutine_opened hopen
    obtain ⟨_, -, -, rfl⟩ := closeRoutine_eq_runs hclose
    exact ⟨hhome, hcode⟩
  | _ =>
    obtain ⟨-, rfl⟩ := runs_pure.1 h
    exact ⟨rfl, rfl⟩

mutual

/-- Analysing a block works in the current scope and in those that it opens. -/
theorem analyzeBlock_leavesOthers : ∀ (t : Tree) (s : Analysis),
    base.Free k s.scopes.current →
    LeavesOthers base k (analyzeBlock t) s := by
  intro t s hcurrent
  cases t with
  | block declarations body =>
    have hfinish : ∀ s, LeavesOthers base k (finishBlock body) s := fun s =>
      .modify_bind (fun hs => (hs.openIn _).withCurrent _)
        (.check_bind fun _ => .modify_bind id (.pure _))
    unfold analyzeBlock
    split
    · exact (declareAll_leavesOthers declarations s hcurrent).bind fun _ s' _ => hfinish s'
    · exact hfinish s
  | _ => exact .throw _
termination_by structural t => t

theorem declareAll_leavesOthers : ∀ (t : Tree) (s : Analysis),
    base.Free k s.scopes.current →
    LeavesOthers base k (declareAll t) s := by
  intro t s hcurrent
  cases t with
  | list items | tuple items => exact declareList_leavesOthers items s none hcurrent
  | text _ | dict _ => exact .pure _
  | _ => exact .throw _
termination_by structural t => t

theorem declareList_leavesOthers : ∀ (ts : List Tree) (s : Analysis) (before : Option Tree),
    base.Free k s.scopes.current →
    LeavesOthers base k (declareList before ts) s
  | [], _, _, _ => .pure _
  | t :: ts, s, before, hcurrent => by
    refine (declareItem_leavesOthers t s before hcurrent).bind fun type s' hrun => ?_
    refine declareList_leavesOthers ts s' type ?_
    rw [(declareItem_keeps hrun).1]
    exact hcurrent
termination_by structural ts => ts

theorem declareItem_leavesOthers : ∀ (t : Tree) (s : Analysis) (before : Option Tree),
    base.Free k s.scopes.current →
    LeavesOthers base k (declareItem before t) s := by
  intro t s before hcurrent
  cases t with
  | routine kind name parameters block result =>
    have hopen := openRoutine_leavesOthers hcurrent kind name parameters result
    intro hs
    refine hopen.bind (fun routine s₁ hrun => ?_) hs
    obtain ⟨_, _, -, -, hhome, -, -, hlocals, -⟩ := openRoutine_opened hrun
    -- The scope of the routine is opened later than all scopes of `base`.
    refine (analyzeBlock_leavesOthers block s₁ (.inr (hlocals ▸ hs.size_le))).bind fun _ s₂ _ => ?_
    refine .bind (.check_bind fun key => ?_) fun _ _ _ => .pure _
    refine .modify_bind (fun hs₂ => .withCurrent (hs₂.setSymbols ?_ _) _) (.pure _)
    rw [hhome]
    exact hcurrent
  | constDecl name value =>
    refine .bind ?_ fun _ _ _ => .pure _
    exact .check_bind fun _ => declare_leavesOthers hcurrent _ _
  | typeDecl name type =>
    exact (declareType_leavesOthers hcurrent name type).bind fun _ _ _ => .pure _
  | varDecl name type initial shares =>
    refine .bind ?_ fun _ _ _ => .pure _
    refine .check_bind fun _ => .check_bind fun _ => ?_
    exact (declare_leavesOthers hcurrent _ _).bind fun _ _ _ => .pure _
  | _ => exact .pure _
termination_by structural t => t

end

/-- A routine adds its own name to the scope around it, and leaves that scope and all others as they
are otherwise. -/
theorem closeRoutine_grows (hcurrent : s.scopes.current < s.scopes.all.size) {s₁ s₂ : Analysis}
    {block code : Tree} (hopen : Runs (openRoutine kind name parameters result) s routine s₁)
    (hbody : Runs (analyzeBlock block) s₁ code s₂)
    (hclose : Runs (closeRoutine routine kind name result code) s₂ info s') :
    ∃ key, name.key = .ok key ∧
      info = routineInfo kind result code (.scope routine.locals) routine.parameters ∧
      s'.scopes.current = s.scopes.current ∧
      s.scopes.Grows s.scopes.current s'.scopes [(key, info)] := by
  obtain ⟨key, first, hkey, hnew, hhome, -, -, hlocals, hleaves⟩ := openRoutine_opened hopen
  obtain ⟨key', hkey', hinfo, rfl⟩ := closeRoutine_eq_runs hclose
  obtain rfl : key = key' := Except.ok.inj (hkey.symm.trans hkey')
  have hdeclared : Scopes.Grows s.scopes.current s.scopes _ [(key, first)] :=
    .declareIn? hcurrent (Scopes.declareIn?_eq_some.2 ⟨hnew, rfl⟩)
  have hopened := hdeclared.trans (.openIn (some s.scopes.current) (by simpa using hcurrent))
  -- All that follows happens in the scope that has been opened and in later ones.
  have hleaves := (analyzeBlock_leavesOthers block s₁ (.inl hlocals)).runs hbody hleaves
  have hgrown := hopened.leaves hcurrent (Nat.le_refl _) hleaves
  refine ⟨key, hkey, hinfo, hhome, ?_⟩
  rw [hhome]
  exact (hgrown.update hcurrent hnew).withCurrent _

end Declare

end MiniPascal
