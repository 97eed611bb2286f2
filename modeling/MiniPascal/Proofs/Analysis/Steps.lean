import MiniPascal.Analysis.Declaration
import MiniPascal.Proofs.Success

/-!
# Steps of Analyses

What it means for the steps of an analysis to succeed. A check that succeeds has only read the
state, and each of its parts has succeeded in the same state. A step that declares something leads
from one state to another.
-/

namespace MiniPascal

variable {α β : Type}

namespace Check

variable {a : Analysis} {f : α → Check β} {step : Except Fault α} {c : Check α} {x : α} {y : β}

/-- A sequence of checks succeeds if both of them do. -/
theorem bind_eq_ok :
    (c >>= f) a = .ok y ↔ ∃ x, c a = .ok x ∧ f x a = .ok y :=
  Except.bind_eq_ok

/-- After a check with a known result the next one is all that counts. -/
theorem bind_of_ok (h : c a = .ok x) :
    (c >>= f) a = f x a := by
  change (c a >>= fun y => f y a) = f x a
  rw [h]
  rfl

theorem ok_bind (h : c a = .ok x) (hf : f x a = .ok y) : (c >>= f) a = .ok y :=
  (bind_of_ok h).trans hf

/-- A sequence of checks fails if the first one does or if it is followed by one that does. -/
theorem bind_eq_error {e : AnalysisError} :
    (c >>= f) a = .error e ↔ c a = .error e ∨ ∃ x, c a = .ok x ∧ f x a = .error e := by
  change (c a >>= fun x => f x a) = .error e ↔ _
  cases c a with
  | error e' | ok x => simp [bind, Except.bind]

theorem pure_eq_ok {y : α} : (pure x : Check α) a = .ok y ↔ x = y :=
  Except.ok.injEq x y ▸ Iff.rfl

/-- A step that needs a shape succeeds in a check as it does by itself. -/
theorem fault_eq_ok :
    (liftM step : Check α) a = .ok x ↔ step = .ok x :=
  Except.mapError_eq_ok

theorem ok_step (h : step = .ok x) (hf : f x a = .ok y) :
    ((liftM step : Check α) >>= f) a = .ok y :=
  ok_bind (fault_eq_ok.2 h) hf

@[simp] theorem refuse_ne_ok {cause : SemanticCause} : (refuse cause : Check α) a ≠ .ok x := nofun

/-- The check gives no result in the state `a`. -/
def Stops (c : Check α) (a : Analysis) : Prop := ∀ x, c a ≠ .ok x

namespace Stops

variable {c : Check α} {f : α → Check β}

@[simp] theorem refuse {cause : SemanticCause} : (refuse cause : Check α).Stops a := nofun

@[simp] theorem fail {fault : Fault} : (fail fault : Check α).Stops a := nofun

@[simp] theorem bind_iff : (c >>= f).Stops a ↔ ∀ x, c a = .ok x → (f x).Stops a := by
  simp only [Stops, ne_eq, bind_eq_ok, not_exists, not_and]
  exact ⟨fun h x hx y => h y x hx, fun h y x hx => h x hx y⟩

@[simp] theorem map_iff {g : α → β} : (g <$> c).Stops a ↔ c.Stops a := by
  rw [← bind_pure_comp, bind_iff]
  exact forall₂_congr fun x _ => iff_of_false (fun h => h (g x) rfl) id

/-- What comes before a check that never succeeds makes no difference. -/
theorem bind (hf : ∀ x, (f x).Stops a) : (c >>= f).Stops a := by
  intro y h
  obtain ⟨x, -, hy⟩ := bind_eq_ok.1 h
  exact hf x y hy

/-- What comes after a check that never succeeds makes no difference. -/
theorem first (hc : c.Stops a) : (c >>= f).Stops a := by
  intro y h
  obtain ⟨x, hx, -⟩ := bind_eq_ok.1 h
  exact hc x hx

theorem not_succeeds (h : c.Stops a) : ¬Succeeds (c a) := by
  rintro ⟨x, hx⟩
  exact h x hx

end Stops

theorem succeeds_after (h : c a = .ok x) :
    Succeeds ((c >>= f) a) ↔ Succeeds (f x a) := by
  rw [bind_of_ok h]

theorem succeeds_step (h : step = .ok x) :
    Succeeds (((liftM step : Check α) >>= f) a) ↔ Succeeds (f x a) :=
  succeeds_after (fault_eq_ok.2 h)

/-- Code is generated while no block has been completed. -/
theorem generate_eq_ok {t : Tree} {c : Code} :
    generate t a = .ok c ↔ a.code = none ∧ t.generate = .ok c := by
  have hread : (read : Check Analysis) a = .ok a := rfl
  rw [generate, bind_eq_ok]
  constructor
  · rintro ⟨b, hb, h⟩
    obtain rfl := Except.ok.inj (hread.symm.trans hb)
    cases hcode : a.code with
    | some _ =>
      rw [hcode] at h
      exact absurd h (Stops.fail _)
    | none =>
      rw [hcode] at h
      exact ⟨rfl, Except.mapError_eq_ok.1 h⟩
  · rintro ⟨hcode, h⟩
    refine ⟨a, hread, ?_⟩
    rw [hcode]
    exact Except.mapError_eq_ok.2 h

/-- A name is looked up in the current scope and around it. -/
theorem lookup_eq_ok {name t : Tree} :
    lookup name a = .ok t ↔ a.scopes.lookupTree a.scopes.current name = .ok t := by
  change (liftM (a.scopes.lookupTree a.scopes.current name) : Check Tree) a = _ ↔ _
  exact fault_eq_ok

/-- Whatever the check gives in the state `a` satisfies `Q`. -/
def Ensures (c : Check α) (a : Analysis) (Q : α → Prop) : Prop := ∀ x, c a = .ok x → Q x

namespace Ensures

variable {c c' : Check α} {f : α → Check β} {x : α} {Q : α → Prop}

theorem mono {R : α → Prop} (h : Ensures c a Q) (hQ : ∀ x, Q x → R x) : Ensures c a R :=
  fun x hx => hQ x (h x hx)

theorem bind {Q : β → Prop} (hf : ∀ x, c a = .ok x → Ensures (f x) a Q) :
    Ensures (c >>= f) a Q := by
  intro y h
  obtain ⟨x, hx, hy⟩ := bind_eq_ok.1 h
  exact hf x hx y hy

/-- After a step with a known result the next check decides. -/
theorem step_bind {step : Except Fault α} {Q : β → Prop} (h : step = .ok x)
    (hf : Ensures (f x) a Q) : Ensures ((liftM step : Check α) >>= f) a Q :=
  bind fun _ hy => Except.ok.inj (h.symm.trans (fault_eq_ok.1 hy)) ▸ hf

theorem pure (h : Q x) : Ensures (pure x) a Q := fun _ hy => pure_eq_ok.1 hy ▸ h

theorem of_stops (h : c.Stops a) : Ensures c a Q := fun x hx => absurd hx (h x)

theorem refuse {cause : SemanticCause} : Ensures (refuse cause) a Q := of_stops .refuse

theorem refuse_bind {Q : β → Prop} {cause : SemanticCause} :
    Ensures (Check.refuse cause >>= f) a Q :=
  of_stops (.first .refuse)

theorem ite {p : Prop} [Decidable p] (hc : p → Ensures c a Q) (hc' : ¬p → Ensures c' a Q) :
    Ensures (if p then c else c') a Q := by
  by_cases h : p
  · rw [if_pos h]
    exact hc h
  · rw [if_neg h]
    exact hc' h

end Ensures

end Check

namespace Declare

variable {s s' : Analysis}

theorem runs_check {c : Check α} {x : α} :
    Runs (liftM c : Declare α) s x s' ↔ c s = .ok x ∧ s = s' := by
  change (c s, s) = (Except.ok x, s') ↔ _
  simp

/-- After a check the run goes on from the same state. -/
theorem runs_check_bind {c : Check α} {f : α → Declare β} {y : β} :
    Runs ((liftM c : Declare α) >>= f) s y s' ↔ ∃ x, c s = .ok x ∧ Runs (f x) s y s' := by
  rw [runs_bind]
  constructor
  · rintro ⟨x, mid, hc, hf⟩
    obtain ⟨hx, rfl⟩ := runs_check.1 hc
    exact ⟨x, hx, hf⟩
  · rintro ⟨x, hx, hf⟩
    exact ⟨x, s, runs_check.2 ⟨hx, rfl⟩, hf⟩

end Declare

end MiniPascal
