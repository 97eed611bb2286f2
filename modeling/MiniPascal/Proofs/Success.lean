import Mathlib.Data.List.Forall2
import Mathlib.Tactic.Common

/-!
# Success

Computations that may fail, and when they do not. A sequence of steps succeeds if each of its steps
does. Steps that have a state as well lead from one state to another.
-/

namespace Except

variable {ε δ α β : Type} {x : Except ε α} {f : α → Except ε β}

/-- A result that is kept was given. -/
theorem eq_ok_of_toOption {v : α} (h : x.toOption = some v) : x = .ok v := by
  cases x with
  | error cause => cases h
  | ok w => rw [Option.some.inj h]

/-- A result that passes a test was given. -/
theorem exists_of_any {test : α → Bool} (h : x.toOption.any test = true) :
    ∃ v, x = .ok v ∧ test v = true := by
  obtain ⟨v, hv, htest⟩ := (Option.any_eq_true _ _).1 h
  exact ⟨v, eq_ok_of_toOption hv, htest⟩

/-- Two steps give a result if the second gives it from a result of the first. -/
theorem bind_eq_ok {y : β} :
    (x >>= f) = .ok y ↔ ∃ a, x = .ok a ∧ f a = .ok y := by
  cases x with
  | error e | ok a => simp [Bind.bind, Except.bind]

theorem bind_of_eq_ok {a : α} (hx : x = .ok a) :
    (x >>= f) = f a := by
  rw [hx]
  rfl

theorem pure_eq_ok {x y : α} : (pure x : Except ε α) = .ok y ↔ x = y :=
  Except.ok.injEq x y ▸ Iff.rfl

theorem bind_pure_eq_ok {f : α → β} {y : β} :
    (x >>= fun a => pure (f a)) = .ok y ↔ ∃ a, x = .ok a ∧ f a = y := by
  simp only [bind_eq_ok, pure_eq_ok]

/-- Renaming errors does not touch results. -/
theorem mapError_eq_ok {f : ε → δ} {y : α} : x.mapError f = .ok y ↔ x = .ok y := by
  cases x <;> simp [Except.mapError]

end Except

namespace MiniPascal

variable {ε δ α β : Type} {f : α → Except ε β} {l : List α} {x : Except ε α}

/-- The computation gives a result. -/
def Succeeds (x : Except ε α) : Prop := ∃ v, x = .ok v

theorem succeeds_pure (v : α) : Succeeds (pure v : Except ε α) := ⟨v, rfl⟩

theorem succeeds_ok (v : α) : Succeeds (.ok v : Except ε α) := ⟨v, rfl⟩

theorem not_succeeds_error (e : ε) : ¬Succeeds (.error e : Except ε α) := fun ⟨_, h⟩ => nomatch h

theorem succeeds_bind :
    Succeeds (x >>= f) ↔ ∃ a, x = .ok a ∧ Succeeds (f a) := by
  constructor
  · rintro ⟨v, h⟩
    obtain ⟨a, hx, hf⟩ := Except.bind_eq_ok.1 h
    exact ⟨a, hx, v, hf⟩
  · rintro ⟨a, hx, v, hf⟩
    exact ⟨v, Except.bind_eq_ok.2 ⟨a, hx, hf⟩⟩

/-- After a step with a known result, the next one decides. -/
theorem succeeds_bind_of_eq {a : α} (hx : x = .ok a) :
    Succeeds (x >>= f) ↔ Succeeds (f a) := by
  rw [hx]
  exact Iff.rfl

theorem succeeds_mapError {f : ε → δ} : Succeeds (x.mapError f) ↔ Succeeds x := by
  simp only [Succeeds, Except.mapError_eq_ok]

namespace Succeeds

variable {x : Except ε α} {f : α → Except ε β} {p : Prop}

theorem bind (hx : Succeeds x) (hf : ∀ a, x = .ok a → Succeeds (f a)) : Succeeds (x >>= f) := by
  obtain ⟨a, ha⟩ := hx
  exact succeeds_bind.2 ⟨a, ha, hf a ha⟩

/-- Before a step that succeeds or not whatever it is given, both decide. -/
theorem bind_iff_and (hf : ∀ a, x = .ok a → (Succeeds (f a) ↔ p)) :
    Succeeds (x >>= f) ↔ Succeeds x ∧ p := by
  constructor
  · intro h
    obtain ⟨a, ha, h⟩ := succeeds_bind.1 h
    exact ⟨⟨a, ha⟩, (hf a ha).1 h⟩
  · rintro ⟨hx, hp⟩
    exact hx.bind fun a ha => (hf a ha).2 hp

end Succeeds

/-- The computation fails if `fails` says so, and gives a result with the property `P` if not. -/
def EndsAs (fails : Bool) (x : Except ε α) (P : α → Prop) : Prop :=
  if fails = true then ¬Succeeds x else ∃ v, x = .ok v ∧ P v

namespace EndsAs

variable {x : Except ε α} {f : α → Except ε β} {P : α → Prop} {Q : β → Prop} {fails fails' : Bool}

theorem pure {v : α} (h : P v) : EndsAs false (pure v : Except ε α) P := ⟨v, rfl, h⟩

theorem error (e : ε) : EndsAs true (.error e : Except ε α) P := not_succeeds_error e

/-- Two steps fail if one of them does. -/
theorem bind (hx : EndsAs fails x P) (hf : ∀ v, P v → EndsAs fails' (f v) Q) :
    EndsAs (fails || fails') (x >>= f) Q := by
  cases fails with
  | true => exact fun h => hx ((succeeds_bind.1 h).imp fun _ h => h.1)
  | false =>
    obtain ⟨v, rfl, hv⟩ := hx
    exact hf v hv

theorem andThen (hx : EndsAs false x P) (hf : ∀ v, P v → EndsAs fails (f v) Q) :
    EndsAs fails (x >>= f) Q :=
  hx.bind hf

theorem before (hx : EndsAs fails x P) (hf : ∀ v, P v → EndsAs false (f v) Q) :
    EndsAs fails (x >>= f) Q := by
  simpa only [Bool.or_false] using hx.bind hf

theorem imp {R : α → Prop} (hx : EndsAs fails x P) (h : ∀ v, P v → R v) : EndsAs fails x R := by
  cases fails with
  | true => exact hx
  | false => exact Exists.imp (fun v hv => ⟨hv.1, h v hv.2⟩) hx

theorem succeeds_iff (hx : EndsAs fails x P) : Succeeds x ↔ fails = false := by
  cases fails with
  | true => exact iff_of_false hx nofun
  | false => exact iff_of_true (Exists.imp (fun _ h => h.1) hx) rfl

theorem of_eq_ok (hx : EndsAs fails x P) {v : α} (h : x = .ok v) : P v := by
  cases fails with
  | true => exact absurd ⟨v, h⟩ hx
  | false =>
    obtain ⟨v', hv', hP⟩ := hx
    exact Except.ok.inj (hv'.symm.trans h) ▸ hP

end EndsAs

/-- The computation gives a result if and only if `p` holds, and what it gives has the property
`P`. -/
def SucceedsIff (p : Prop) (x : Except ε α) (P : α → Prop) : Prop :=
  (Succeeds x ↔ p) ∧ ∀ v, x = .ok v → P v

namespace SucceedsIff

variable {x : Except ε α} {f : α → Except ε β} {P : α → Prop} {Q : β → Prop} {p q : Prop}

theorem pure {v : α} (h : P v) : SucceedsIff True (pure v : Except ε α) P :=
  ⟨iff_of_true (succeeds_pure v) trivial, fun _ hv => Except.ok.inj hv ▸ h⟩

/-- Nothing is given if nothing is meant to be given. -/
theorem error {e : ε} (h : ¬p) : SucceedsIff p (.error e : Except ε α) P :=
  ⟨iff_of_false (not_succeeds_error e) h, fun v hv => absurd ⟨v, hv⟩ (not_succeeds_error e)⟩

theorem congr (hx : SucceedsIff p x P) (h : p ↔ q) : SucceedsIff q x P := ⟨hx.1.trans h, hx.2⟩

/-- After a step with a known result, the next one decides. -/
theorem step {v : α} (hx : x = .ok v) (hf : SucceedsIff p (f v) Q) : SucceedsIff p (x >>= f) Q := by
  rwa [Except.bind_of_eq_ok hx]

/-- Before a step that succeeds or not whatever it is given, both decide. -/
theorem bind (hx : SucceedsIff p x P) (hf : ∀ v, P v → SucceedsIff q (f v) Q) :
    SucceedsIff (p ∧ q) (x >>= f) Q := by
  refine ⟨?_, fun w hw => ?_⟩
  · rw [Succeeds.bind_iff_and fun v hv => (hf v (hx.2 v hv)).1, hx.1]
  · obtain ⟨v, hv, hw⟩ := Except.bind_eq_ok.1 hw
    exact (hf v (hx.2 v hv)).2 w hw

/-- Before a step that succeeds, the first one decides. -/
theorem before (hx : SucceedsIff p x P) (hf : ∀ v, P v → SucceedsIff True (f v) Q) :
    SucceedsIff p (x >>= f) Q :=
  (hx.bind hf).congr (and_iff_left trivial)

theorem andThen (hx : SucceedsIff True x P) (hf : ∀ v, P v → SucceedsIff p (f v) Q) :
    SucceedsIff p (x >>= f) Q :=
  (hx.bind hf).congr (and_iff_right trivial)

theorem mapError {g : ε → δ} (hx : SucceedsIff p x P) : SucceedsIff p (x.mapError g) P :=
  ⟨succeeds_mapError.trans hx.1, fun v hv => hx.2 v (Except.mapError_eq_ok.1 hv)⟩

end SucceedsIff

/-- A step for each item of a list succeeds if all of them do. -/
theorem succeeds_mapM :
    Succeeds (l.mapM f) ↔ ∀ a ∈ l, Succeeds (f a) := by
  induction l with
  | nil => simpa using succeeds_pure []
  | cons a l ih =>
    rw [List.mapM_cons, succeeds_bind, List.forall_mem_cons, ← ih]
    constructor
    · rintro ⟨b, hb, h⟩
      obtain ⟨bs, hbs, -⟩ := succeeds_bind.1 h
      exact ⟨⟨b, hb⟩, bs, hbs⟩
    · rintro ⟨⟨b, hb⟩, hl⟩
      exact ⟨b, hb, hl.bind fun bs _ => succeeds_pure _⟩

/-- The results of a step for each item of a list are the results of the step for these items. -/
theorem forall₂_of_mapM_eq_ok {f : α → Except ε β} : ∀ {l : List α} {bs : List β},
    l.mapM f = .ok bs → List.Forall₂ (fun a b => f a = .ok b) l bs
  | [], _, h => by
    rw [← Except.pure_eq_ok.1 h]
    exact .nil
  | a :: l, _, h => by
    rw [List.mapM_cons] at h
    obtain ⟨first, hfirst, h⟩ := Except.bind_eq_ok.1 h
    obtain ⟨rest, hrest, h⟩ := Except.bind_eq_ok.1 h
    rw [← Except.pure_eq_ok.1 h]
    exact .cons hfirst (forall₂_of_mapM_eq_ok hrest)

/-- Steps for the items of a list succeed if all of them do, and what they give goes with the
items. -/
theorem SucceedsIff.mapM {p : α → Prop} {P : α → β → Prop}
    (h : ∀ a ∈ l, SucceedsIff (p a) (f a) (P a)) :
    SucceedsIff (∀ a ∈ l, p a) (l.mapM f) (List.Forall₂ P l) := by
  refine ⟨succeeds_mapM.trans (forall₂_congr fun a ha => (h a ha).1), fun bs hbs => ?_⟩
  refine (List.forall₂_and_left l bs).2 ⟨fun _ ha => ha, forall₂_of_mapM_eq_ok hbs⟩ |>.imp ?_
  exact fun a b hab => (h a hab.1).2 b hab.2

theorem exists_mem_of_mapM_eq_ok {bs : List β} (h : l.mapM f = .ok bs) :
    ∀ b ∈ bs, ∃ a ∈ l, f a = .ok b := by
  intro b hb
  obtain ⟨i, hi, rfl⟩ := List.mem_iff_getElem.1 hb
  obtain ⟨hlength, hall⟩ := List.forall₂_iff_get.1 (forall₂_of_mapM_eq_ok h)
  exact ⟨l[i], List.getElem_mem _, hall i (hlength ▸ hi) hi⟩

/-- Steps that succeed for all items of a list give results with a property if each of them
does. -/
theorem SucceedsIff.forall_mapM {P : β → Prop} (h : ∀ a ∈ l, SucceedsIff True (f a) P) :
    SucceedsIff True (l.mapM f) fun bs => ∀ b ∈ bs, P b := by
  have hall : Succeeds (l.mapM f) := succeeds_mapM.2 fun a ha => (h a ha).1.2 trivial
  refine ⟨iff_of_true hall trivial, fun bs hbs b hb => ?_⟩
  obtain ⟨a, ha, hab⟩ := exists_mem_of_mapM_eq_ok hbs b hb
  exact (h a ha).2 b hab

/-- Steps that agree item by item agree on the whole lists. -/
theorem mapM_eq_of_forall₂ {γ : Type} {g : γ → Except ε β} {l' : List γ}
    (h : List.Forall₂ (fun a c => f a = g c) l l') : l.mapM f = l'.mapM g := by
  induction h with
  | nil => rfl
  | cons hfirst _ ih => rw [List.mapM_cons, List.mapM_cons, hfirst, ih]

/-! ### Steps with a state -/

section Runs

variable {σ : Type}

/-- From the state `s` the step gives `x` and leaves the state `s'`. -/
def Runs (m : ExceptT ε (StateM σ) α) (s : σ) (x : α) (s' : σ) : Prop := m s = (.ok x, s')

variable {s s' : σ} {m : ExceptT ε (StateM σ) α} {y : β}

/-- A run of two steps is a run of the first followed by one of the second. -/
theorem runs_bind {f : α → ExceptT ε (StateM σ) β} :
    Runs (m >>= f) s y s' ↔ ∃ x mid, Runs m s x mid ∧ Runs (f x) mid y s' := by
  unfold Runs
  change ExceptT.bindCont f (m s).1 (m s).2 = _ ↔ _
  rcases m s with ⟨e | x, mid⟩
  · refine ⟨fun h => ?_, fun ⟨x, mid', h, _⟩ => ?_⟩
    · exact absurd (congrArg Prod.fst h) nofun
    · exact absurd (congrArg Prod.fst h) nofun
  · refine ⟨fun h => ⟨x, mid, rfl, h⟩, fun ⟨x', mid', h, hf⟩ => ?_⟩
    obtain ⟨rfl, rfl⟩ : x = x' ∧ mid = mid' :=
      ⟨Except.ok.inj (congrArg Prod.fst h), congrArg Prod.snd h⟩
    exact hf

theorem runs_pure {x y : α} :
    Runs (pure x : ExceptT ε (StateM σ) α) s y s' ↔ x = y ∧ s = s' := by
  change (Except.ok x, s) = (Except.ok y, s') ↔ _
  simp

theorem runs_bind_pure {f : α → β} :
    Runs (m >>= fun x => pure (f x)) s y s' ↔ ∃ x, Runs m s x s' ∧ f x = y := by
  simp only [runs_bind, runs_pure]
  constructor
  · rintro ⟨x, _, hm, hf, rfl⟩
    exact ⟨x, hm, hf⟩
  · rintro ⟨x, hm, hf⟩
    exact ⟨x, s', hm, hf, rfl⟩

theorem runs_get {x : σ} : Runs (get : ExceptT ε (StateM σ) σ) s x s' ↔ s = x ∧ s = s' := runs_pure

theorem runs_modify {f : σ → σ} {u : PUnit} :
    Runs (modify f : ExceptT ε (StateM σ) PUnit) s u s' ↔ f s = s' := by
  change (Except.ok PUnit.unit, f s) = (Except.ok u, s') ↔ _
  simp

theorem not_runs_throw {e : ε} {x : α} : ¬Runs (throw e : ExceptT ε (StateM σ) α) s x s' := by
  change (Except.error e, s) ≠ (Except.ok x, s')
  simp

theorem runs_get_bind {f : σ → ExceptT ε (StateM σ) β} :
    Runs (get >>= f) s y s' ↔ Runs (f s) s y s' := by
  rw [runs_bind]
  constructor
  · rintro ⟨x, mid, hget, hf⟩
    obtain ⟨rfl, rfl⟩ := runs_get.1 hget
    exact hf
  · exact fun hf => ⟨s, s, runs_get.2 ⟨rfl, rfl⟩, hf⟩

theorem runs_modify_bind {g : σ → σ} {f : PUnit → ExceptT ε (StateM σ) β} :
    Runs (modify g >>= f) s y s' ↔ Runs (f ⟨⟩) (g s) y s' := by
  rw [runs_bind]
  constructor
  · rintro ⟨x, mid, hmodify, hf⟩
    obtain rfl := runs_modify.1 hmodify
    exact hf
  · exact fun hf => ⟨⟨⟩, g s, runs_modify.2 rfl, hf⟩

/-- From the state `s` the step gives a result. -/
def Completes (m : ExceptT ε (StateM σ) α) (s : σ) : Prop := ∃ x s', Runs m s x s'

end Runs

end MiniPascal
