import MiniPascal.Proofs.Analysis.Scopes

/-!
# Scopes Are a Stack of Maps

Whatever is done with scopes, from the empty outermost one on, the answers are those of a stack of
maps: entering a scope puts an empty map on the stack, leaving it takes the map off again unless it
is the last one, and a name is looked up in the maps from the innermost one outwards. All scopes
ever opened are kept, so the stack is found along the parents of the current scope.

* `Scopes.answers_eq_stack`: every history of operations.
-/

namespace MiniPascal

/-- The operations on scopes. -/
inductive ScopeCall where
  | enter
  | leave
  | declare (name : String) (info : Tree)
  | lookup (name : String)

/-- What an operation answers. -/
inductive ScopeAnswer where
  | done
  /-- The name is declared in the current scope already. -/
  | duplicate
  | found (info : Option Tree)

/-- One operation after the other: the answers, and what is left. -/
def ScopeCall.run {σ : Type} (step : σ → ScopeCall → ScopeAnswer × σ) (s : σ) :
    List ScopeCall → List ScopeAnswer × σ
  | [] => ([], s)
  | call :: calls =>
    let rest := run step (step s call).2 calls
    ((step s call).1 :: rest.1, rest.2)

/-- Operations that end in the scope in which they start and never leave it. -/
inductive ScopeCall.Balanced : List ScopeCall → Prop
  | nil : Balanced []
  | declare (name : String) (info : Tree) {calls : List ScopeCall} (h : Balanced calls) :
    Balanced (.declare name info :: calls)
  | lookup (name : String) {calls : List ScopeCall} (h : Balanced calls) :
    Balanced (.lookup name :: calls)
  | nested {inner calls : List ScopeCall} (hinner : Balanced inner) (h : Balanced calls) :
    Balanced (.enter :: inner ++ .leave :: calls)

/-- A stack of maps that keep the order of insertion. It is never empty. -/
structure ScopeStack where
  inner : List (String × Tree)
  outer : List (List (String × Tree))

namespace ScopeStack

/-- The maps from the innermost one outwards. -/
def maps (s : ScopeStack) : List (List (String × Tree)) := s.inner :: s.outer

def lookup (s : ScopeStack) (name : String) : Option Tree := s.maps.findSome? (·.lookup name)

def call (s : ScopeStack) : ScopeCall → ScopeAnswer × ScopeStack
  | .enter => (.done, ⟨[], s.maps⟩)
  | .leave =>
    match s.outer with
    | [] => (.done, s)
    | next :: rest => (.done, ⟨next, rest⟩)
  | .declare name info =>
    if name ∈ s.inner.map Prod.fst then (.duplicate, s)
    else (.done, { s with inner := s.inner ++ [(name, info)] })
  | .lookup name => (.found (s.lookup name), s)

end ScopeStack

namespace ScopeCall

variable {σ : Type} {step : σ → ScopeCall → ScopeAnswer × σ} {s : σ} {calls more : List ScopeCall}

theorem run_append : (run step s (calls ++ more)).2 = (run step (run step s calls).2 more).2 := by
  induction calls generalizing s with
  | nil => rfl
  | cons call calls ih => exact ih

/-- Balanced operations change the innermost map only. -/
theorem Balanced.outer (h : Balanced calls) (s : ScopeStack) :
    (run ScopeStack.call s calls).2.outer = s.outer := by
  induction h generalizing s with
  | nil => rfl
  | declare name info _ ih =>
    refine (ih _).trans ?_
    rw [ScopeStack.call]
    split <;> rfl
  | lookup name _ ih => exact ih s
  | @nested inner calls _ _ ihinner ih =>
    have hinner : (run ScopeStack.call ⟨[], s.maps⟩ inner).2.outer = s.maps := ihinner _
    change (run ScopeStack.call ⟨[], s.maps⟩ (inner ++ .leave :: calls)).2.outer = _
    rw [run_append]
    refine (ih _).trans ?_
    rw [ScopeStack.call, hinner]
    rfl

/-- A scope that is entered and left again leaves the stack as it was. -/
theorem Balanced.around (h : Balanced calls) (s : ScopeStack) :
    (run ScopeStack.call s (.enter :: calls ++ [.leave])).2 = s := by
  have hinner : (run ScopeStack.call ⟨[], s.maps⟩ calls).2.outer = s.maps := h.outer _
  change (run ScopeStack.call ⟨[], s.maps⟩ (calls ++ [.leave])).2 = s
  rw [run_append, run, ScopeStack.call, hinner]
  rfl

end ScopeCall

namespace Scopes

open ScopeCall

/-- From the scope outwards, the names are those of the maps. -/
inductive Shows (s : Scopes) : Nat → List (List (String × Tree)) → Prop
  | root {k : Nat} (hk : k < s.all.size) (hparent : s.parentOf k = none) :
    Shows s k [s.symbolsOf k]
  | nested {k parent : Nat} {maps : List (List (String × Tree))} (hk : k < s.all.size)
    (hparent : s.parentOf k = some parent) (hlt : parent < k) (h : Shows s parent maps) :
    Shows s k (s.symbolsOf k :: maps)

variable {s s' : Scopes} {k : Nat} {maps : List (List (String × Tree))} {stack : ScopeStack}

namespace Shows

theorem lt_size (h : s.Shows k maps) : k < s.all.size := by
  cases h with
  | root hk | nested hk => exact hk

/-- Only the scope and those opened before it matter. -/
theorem congr (h : s.Shows k maps) (hsize : s.all.size ≤ s'.all.size)
    (hsame : ∀ j ≤ k, s'.all[j]? = s.all[j]?) : s'.Shows k maps := by
  induction h with
  | @root k hk hparent =>
    have hsame := hsame k (Nat.le_refl k)
    rw [← symbolsOf_congr hsame]
    exact .root (Nat.lt_of_lt_of_le hk hsize) ((parentOf_congr hsame).trans hparent)
  | @nested k _ _ hk hparent hlt _ ih =>
    have hparents := ih fun j hj => hsame j (Nat.le_trans hj (Nat.le_of_lt hlt))
    have hsame := hsame k (Nat.le_refl k)
    rw [← symbolsOf_congr hsame]
    exact .nested (Nat.lt_of_lt_of_le hk hsize) ((parentOf_congr hsame).trans hparent) hlt hparents

/-- A name is found in the innermost map that has it. -/
theorem find (h : s.Shows k maps) (name : String) {fuel : Nat} (hfuel : k < fuel) :
    (s.find name fuel k).map (·.2) = maps.findSome? (·.lookup name) := by
  induction h generalizing fuel with
  | @root k _ hparent =>
    obtain ⟨fuel, rfl⟩ := Nat.exists_eq_add_one.2 (Nat.zero_lt_of_lt hfuel)
    rw [Scopes.find, hparent, List.findSome?_cons]
    cases (s.symbolsOf k).lookup name <;> rfl
  | @nested k _ _ _ hparent hlt _ ih =>
    obtain ⟨fuel, rfl⟩ := Nat.exists_eq_add_one.2 (Nat.zero_lt_of_lt hfuel)
    rw [Scopes.find, hparent, List.findSome?_cons]
    cases (s.symbolsOf k).lookup name with
    | some info => rfl
    | none => exact ih (Nat.lt_of_lt_of_le hlt (Nat.lt_succ_iff.1 hfuel))

end Shows

/-- One operation on scopes. -/
def call (s : Scopes) : ScopeCall → ScopeAnswer × Scopes
  | .enter => (.done, s.enter)
  | .leave => (.done, s.leave)
  | .declare name info =>
    match s.declareIn? s.current name info with
    | some declared => (.done, declared)
    | none => (.duplicate, s)
  | .lookup name => (.found (s.lookup name), s)

/-- The scopes after some operations, from the empty outermost one on. -/
def after (calls : List ScopeCall) : Scopes := (run call empty calls).2

/-- A name that the current scope has is refused, and any other one comes after those it has. -/
theorem call_declare (s : Scopes) (name : String) (info : Tree) :
    s.call (.declare name info) =
      if name ∈ (s.symbolsOf s.current).map Prod.fst then (.duplicate, s)
      else (.done, s.setSymbols s.current (s.symbolsOf s.current ++ [(name, info)])) := by
  rw [call]
  by_cases hmem : name ∈ (s.symbolsOf s.current).map Prod.fst
  · have hnone : s.declareIn? s.current name info = none :=
      Option.eq_none_iff_forall_ne_some.2 fun _ h => (declareIn?_eq_some.1 h).1 hmem
    rw [hnone, if_pos hmem]
  · rw [declareIn?_eq_some.2 ⟨hmem, rfl⟩, if_neg hmem]

theorem enter_shows (h : s.Shows s.current maps) :
    s.enter.Shows s.enter.current ([] :: maps) := by
  have hsize : s.enter.all.size = s.all.size + 1 := size_openIn (some s.current)
  have hcurrent := h.lt_size
  have hopened : s.enter.Shows s.current maps :=
    h.congr (by omega) fun j hj => getElem?_openIn _ (Nat.lt_of_le_of_lt hj hcurrent)
  have hempty : s.enter.symbolsOf s.enter.current = [] := symbolsOf_openIn _
  rw [← hempty]
  exact .nested (hsize ▸ Nat.lt_succ_self _) (parentOf_openIn _) hcurrent hopened

theorem leave_shows (h : s.Shows s.current stack.maps) :
    s.leave.Shows s.leave.current (stack.call .leave).2.maps := by
  have hleft {j maps} (h : s.Shows j maps) : s.leave.Shows j maps :=
    h.congr (Nat.le_refl _) fun _ _ => rfl
  obtain ⟨inner, outer⟩ := stack
  change s.leave.Shows ((s.parentOf s.current).getD s.current) _
  cases h with
  | root hk hparent =>
    rw [hparent]
    exact hleft (.root hk hparent)
  | nested hk hparent hlt hrest =>
    rw [hparent]
    cases outer with
    | nil => cases hrest
    | cons next rest => exact hleft hrest

/-- New symbols of the scope itself are seen in its own map. -/
theorem Shows.setSymbols (h : s.Shows k (symbols :: maps)) (symbols' : List (String × Tree)) :
    (s.setSymbols k symbols').Shows k (symbols' :: maps) := by
  suffices hshows : (s.setSymbols k symbols').Shows k
      ((s.setSymbols k symbols').symbolsOf k :: maps) by
    rwa [symbolsOf_setSymbols h.lt_size] at hshows
  cases h with
  | root hk hparent => exact .root (size_setSymbols.symm ▸ hk) (parentOf_setSymbols.trans hparent)
  | nested hk hparent hlt hrest =>
    refine .nested (size_setSymbols.symm ▸ hk) (parentOf_setSymbols.trans hparent) hlt ?_
    refine hrest.congr (Nat.le_of_eq size_setSymbols.symm) fun j hj => ?_
    exact getElem?_setSymbols_of_ne (Nat.ne_of_lt (Nat.lt_of_le_of_lt hj hlt))

/-- The innermost map has the names of the current scope. -/
theorem Shows.symbolsOf_eq (h : s.Shows k (symbols :: maps)) : s.symbolsOf k = symbols := by
  cases h with
  | root => rfl
  | nested => rfl

/-- One operation answers what it answers on the stack, and leaves what the stack is left with. -/
theorem call_shows (h : s.Shows s.current stack.maps) (call : ScopeCall) :
    (s.call call).1 = (stack.call call).1 ∧
      (s.call call).2.Shows (s.call call).2.current (stack.call call).2.maps := by
  cases call with
  | enter => exact ⟨rfl, enter_shows h⟩
  | leave => exact ⟨by rw [call, ScopeStack.call]; split <;> rfl, leave_shows h⟩
  | declare name info =>
    rw [call_declare, ScopeStack.call, h.symbolsOf_eq]
    split
    · exact ⟨rfl, h⟩
    · exact ⟨rfl, h.setSymbols _⟩
  | lookup name => exact ⟨congrArg _ (h.find name h.lt_size), h⟩

/-- The whole history, from any scopes that show the stack. -/
theorem run_shows (h : s.Shows s.current stack.maps) (calls : List ScopeCall) :
    (run call s calls).1 = (run ScopeStack.call stack calls).1 ∧
      (run call s calls).2.Shows (run call s calls).2.current
        (run ScopeStack.call stack calls).2.maps := by
  induction calls generalizing s stack with
  | nil => exact ⟨rfl, h⟩
  | cons call calls ih =>
    obtain ⟨hanswer, hshows⟩ := call_shows h call
    obtain ⟨hanswers, hrest⟩ := ih hshows
    exact ⟨congrArg₂ List.cons hanswer hanswers, hrest⟩

theorem empty_shows : empty.Shows empty.current (ScopeStack.maps ⟨[], []⟩) :=
  .root (Nat.zero_lt_one) rfl

/-- No operation takes a name from a scope or changes what is known about it. -/
theorem call_keeps (s : Scopes) (call : ScopeCall) {k : Nat} {name : String} {info : Tree}
    (h : (s.symbolsOf k).lookup name = some info) :
    ((s.call call).2.symbolsOf k).lookup name = some info := by
  have hk : k < s.all.size := by
    by_contra hk
    rw [symbolsOf, Array.getElem?_eq_none (Nat.le_of_not_lt hk)] at h
    cases h
  cases call with
  | enter =>
    have hsame : s.enter.symbolsOf k = s.symbolsOf k := symbolsOf_congr (getElem?_openIn _ hk)
    exact (congrArg _ hsame).trans h
  | leave => exact h
  | declare other _ =>
    rw [call_declare]
    split
    · exact h
    · by_cases hcurrent : k = s.current
      · rw [← hcurrent, symbolsOf_setSymbols hk, List.lookup_append, h, Option.some_or]
      · rw [symbolsOf_congr (getElem?_setSymbols_of_ne hcurrent), h]
  | lookup _ => exact h

theorem run_keeps (s : Scopes) (calls : List ScopeCall) {k : Nat} {name : String} {info : Tree}
    (h : (s.symbolsOf k).lookup name = some info) :
    ((run call s calls).2.symbolsOf k).lookup name = some info := by
  induction calls generalizing s with
  | nil => exact h
  | cons call calls ih => exact ih _ (call_keeps s call h)

/-- A scope that is entered and left again leaves no trace in any lookup. -/
theorem lookup_after_around {inner : List ScopeCall} (h : Balanced inner) (calls : List ScopeCall)
    (name : String) :
    (after (calls ++ (.enter :: inner ++ [.leave]))).lookup name = (after calls).lookup name := by
  have hbefore := (run_shows empty_shows calls).2
  have hafter := (run_shows empty_shows (calls ++ (.enter :: inner ++ [.leave]))).2
  have hstack : (run ScopeStack.call ⟨[], []⟩ (calls ++ (.enter :: inner ++ [.leave]))).2 =
      (run ScopeStack.call ⟨[], []⟩ calls).2 := run_append.trans (h.around _)
  rw [hstack] at hafter
  exact (hafter.find name hafter.lt_size).trans (hbefore.find name hbefore.lt_size).symm

/-- Scopes are a stack of maps: whatever was done so far, the answers are those of the stack; a name
is refused exactly when the current scope has it, and nothing changes then; what is known about a
name in its scope stays; and a scope that is entered and left leaves no trace in any lookup. -/
theorem answers_eq_stack (calls : List ScopeCall) :
    (run call empty calls).1 = (run ScopeStack.call ⟨[], []⟩ calls).1 ∧
      (after calls).symbolsOf (after calls).current =
        (run ScopeStack.call ⟨[], []⟩ calls).2.inner ∧
      (∀ name info,
        (((after calls).call (.declare name info)).1 = .duplicate ↔
          name ∈ ((after calls).symbolsOf (after calls).current).map Prod.fst) ∧
        (((after calls).call (.declare name info)).1 = .duplicate →
          ((after calls).call (.declare name info)).2 = after calls)) ∧
      (∀ more k name info, ((after calls).symbolsOf k).lookup name = some info →
        ((after (calls ++ more)).symbolsOf k).lookup name = some info) ∧
      ∀ inner, Balanced inner → ∀ name,
        (after (calls ++ (.enter :: inner ++ [.leave]))).lookup name =
          (after calls).lookup name := by
  obtain ⟨hanswers, hshows⟩ := run_shows empty_shows calls
  refine ⟨hanswers, hshows.symbolsOf_eq, fun name info => ?_, fun more k name info h => ?_,
    fun inner hinner => lookup_after_around hinner calls⟩
  · rw [call_declare]
    split
    next hmem => exact ⟨⟨fun _ => hmem, fun _ => rfl⟩, fun _ => rfl⟩
    next hmem =>
      exact ⟨⟨fun h => ScopeAnswer.noConfusion h, fun h => absurd h hmem⟩,
        fun h => ScopeAnswer.noConfusion h⟩
  · rw [after, run_append]
    exact run_keeps _ more h

/-- A name declared again inside hides the one outside, until its scope is left. -/
theorem answers_eq_stack_shadowing :
    (after [.declare "x" (.int 1), .enter, .declare "x" (.int 2)]).lookup "x" = some (.int 2) ∧
      (after [.declare "x" (.int 1), .enter, .declare "x" (.int 2), .leave]).lookup "x" =
        (after [.declare "x" (.int 1)]).lookup "x" :=
  ⟨rfl, (answers_eq_stack [.declare "x" (.int 1)]).2.2.2.2 _
    (.declare "x" (.int 2) .nil) "x"⟩

end Scopes

end MiniPascal
