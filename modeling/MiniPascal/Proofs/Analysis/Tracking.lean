import MiniPascal.Proofs.Analysis.Steps

/-!
# Runs Side by Side

Two computations that do the same to different data. What the second one gives is related to what
the first one gives, and whether it gives anything at all may depend on a condition `K` that is left
open here: where the two runs come to a point at which the second one could stop, `K` lets it go on.
-/

namespace MiniPascal

variable {ε δ α β γ η : Type} {K : Prop}

/-- Where the first computation gives a result, the second one gives a related one if it gives any,
and it does give one under the condition `K`. -/
def Tracks (K : Prop) (Q : α → β → Prop) (x : Except ε α) (y : Except δ β) : Prop :=
  ∀ ⦃a⦄, x = .ok a → (K → Succeeds y) ∧ ∀ ⦃b⦄, y = .ok b → Q a b

namespace Tracks

variable {Q : α → β → Prop} {S : γ → η → Prop} {x : Except ε α} {y : Except δ β}
  {f : α → Except ε γ}

theorem ok {a : α} {b : β} (h : Q a b) : Tracks K Q (.ok a : Except ε α) (.ok b : Except δ β) := by
  intro a' ha
  obtain rfl := Except.ok.inj ha
  exact ⟨fun _ => ⟨b, rfl⟩, fun b' hb => Except.ok.inj hb ▸ h⟩

theorem pure {a : α} {b : β} (h : Q a b) :
    Tracks K Q (Pure.pure a : Except ε α) (Pure.pure b : Except δ β) :=
  ok h

/-- Nothing is asked of the second computation if the first one gives nothing. -/
theorem of_ne (h : ∀ a, x ≠ .ok a) : Tracks K Q x y := fun a ha => absurd ha (h a)

theorem error {e : ε} : Tracks K Q (.error e : Except ε α) y := of_ne fun _ => nofun

/-- A computation beside itself. -/
theorem of_eq {x y : Except ε α} (h : x = y) : Tracks K Eq x y := by
  intro a ha
  exact ⟨fun _ => ⟨a, h ▸ ha⟩, fun b hb => Except.ok.inj ((h ▸ ha).symm.trans hb)⟩

/-- Where only success matters, a second computation that always succeeds will do. -/
theorem of_succeeds (h : Succeeds y) (hQ : ∀ a b, Q a b) : Tracks K Q x y :=
  fun a _ => ⟨fun _ => h, fun b _ => hQ a b⟩

theorem mono {Q' : α → β → Prop} (h : Tracks K Q x y) (hQ : ∀ a b, Q a b → Q' a b) :
    Tracks K Q' x y :=
  fun _ ha => ⟨(h ha).1, fun _ hb => hQ _ _ ((h ha).2 hb)⟩

/-- Two steps beside two steps. -/
theorem bind {g : β → Except δ η} (h : Tracks K Q x y) (hf : ∀ a b, Q a b → Tracks K S (f a) (g b))
    : Tracks K S (x >>= f) (y >>= g) := by
  intro c hc
  obtain ⟨a, ha, hc⟩ := Except.bind_eq_ok.1 hc
  obtain ⟨hsucceeds, hrelated⟩ := h ha
  constructor
  · intro hK
    obtain ⟨b, hb⟩ := hsucceeds hK
    exact succeeds_bind.2 ⟨b, hb, (hf a b (hrelated hb) hc).1 hK⟩
  · intro d hd
    obtain ⟨b, hb, hd⟩ := Except.bind_eq_ok.1 hd
    exact (hf a b (hrelated hb) hc).2 hd

/-- A first step beside itself. -/
theorem bind_eq {x : Except ε α} {g : α → Except ε η} (hf : ∀ a, Tracks K S (f a) (g a)) :
    Tracks K S (x >>= f) (x >>= g) :=
  (of_eq rfl).bind fun a _ hab => hab ▸ hf a

theorem mapError {ε' δ' : Type} {f : ε → ε'} {g : δ → δ'} (h : Tracks K Q x y) :
    Tracks K Q (x.mapError f) (y.mapError g) := by
  intro a ha
  obtain ⟨hsucceeds, hrelated⟩ := h (Except.mapError_eq_ok.1 ha)
  exact ⟨fun hK => succeeds_mapError.2 (hsucceeds hK),
    fun b hb => hrelated (Except.mapError_eq_ok.1 hb)⟩

theorem ite {p p' : Prop} [Decidable p] [Decidable p'] {x' : Except ε α} {y' : Except δ β}
    (hp : p ↔ p') (h : p → Tracks K Q x y) (h' : ¬p → Tracks K Q x' y') :
    Tracks K Q (if p then x else x') (if p' then y else y') := by
  by_cases hyes : p
  · rw [if_pos hyes, if_pos (hp.1 hyes)]
    exact h hyes
  · rw [if_neg hyes, if_neg (mt hp.2 hyes)]
    exact h' hyes

end Tracks

namespace Check

variable {a a' : Analysis}

/-- Where the first check gives a result in the state `a`, the second one gives a related one in the
state `a'` if it gives any, and it does give one under the condition `K`. -/
def Tracks (K : Prop) (Q : α → β → Prop) (c : Check α) (c' : Check β) (a a' : Analysis) : Prop :=
  MiniPascal.Tracks K Q (c a) (c' a')

namespace Tracks

variable {Q : α → β → Prop} {S : γ → η → Prop} {c : Check α} {c' : Check β} {f : α → Check γ}
  {d' : Check β} {g : α → Check η} {d : Check α} {p : Prop}

theorem pure {x : α} {y : β} (h : Q x y) : Tracks K Q (Pure.pure x) (Pure.pure y) a a' :=
  MiniPascal.Tracks.ok h

theorem of_stops (h : c.Stops a) : Tracks K Q c c' a a' := MiniPascal.Tracks.of_ne h

theorem of_eq {c c' : Check α} (h : c a = c' a') : Tracks K Eq c c' a a' :=
  MiniPascal.Tracks.of_eq h

theorem mono {Q' : α → β → Prop} (h : Tracks K Q c c' a a') (hQ : ∀ x y, Q x y → Q' x y) :
    Tracks K Q' c c' a a' :=
  MiniPascal.Tracks.mono h hQ

theorem bind {g : β → Check η} (h : Tracks K Q c c' a a')
    (hf : ∀ x y, Q x y → Tracks K S (f x) (g y) a a') : Tracks K S (c >>= f) (c' >>= g) a a' :=
  MiniPascal.Tracks.bind h hf

theorem bind_same {c c' : Check α} (h : Tracks K Eq c c' a a')
    (hf : ∀ x, Tracks K S (f x) (g x) a a') : Tracks K S (c >>= f) (c' >>= g) a a' :=
  h.bind fun x _ hxy => hxy ▸ hf x

/-- First steps that give the same. -/
theorem bind_eq {c c' : Check α} (h : c a = c' a') (hf : ∀ x, Tracks K S (f x) (g x) a a') :
    Tracks K S (c >>= f) (c' >>= g) a a' :=
  (of_eq h).bind_same hf

theorem ite {p' : Prop} [Decidable p] [Decidable p'] (hp : p ↔ p') (h : p → Tracks K Q c c' a a')
    (h' : ¬p → Tracks K Q d d' a a') :
    Tracks K Q (if p then c else d) (if p' then c' else d') a a' := by
  by_cases hyes : p
  · rw [if_pos hyes, if_pos (hp.1 hyes)]
    exact h hyes
  · rw [if_neg hyes, if_neg (mt hp.2 hyes)]
    exact h' hyes

/-- A test that both runs make, and that stops the first one where it fails. -/
theorem ite_stops [Decidable p] (hc : c.Stops a) (h : ¬p → Tracks K Q d d' a a') :
    Tracks K Q (if p then c else d) (if p then c' else d') a a' :=
  ite Iff.rfl (fun _ => of_stops hc) h

/-- A test that the second run may fail where the first one passes it, unless `K` holds. -/
theorem guard {p' : Prop} [Decidable p] [Decidable p'] (hc : c.Stops a) (hc' : c'.Stops a')
    (hp : K → p' → p) (h : ¬p → Tracks K Q d d' a a') :
    Tracks K Q (if p then c else d) (if p' then c' else d') a a' := by
  by_cases hyes : p
  · rw [if_pos hyes]
    exact of_stops hc
  rw [if_neg hyes]
  intro x hx
  by_cases hyes' : p'
  · rw [if_pos hyes']
    exact ⟨fun hK => absurd (hp hK hyes') hyes, fun y hy => absurd hy (hc' y)⟩
  · rw [if_neg hyes']
    exact h hyes hx

end Tracks

end Check

end MiniPascal
