import MiniPascal.Proofs.Analysis.Steps

/-!
# How Analyses End

An analysis that fails by design refuses the program or finds a name that is declared twice in one
scope. Everything else that can end it, a tree that does not have the shape that is needed or code
that cannot be generated, is a fault.
-/

namespace MiniPascal

variable {α β : Type}

def AnalysisError.isDesigned : AnalysisError → Bool
  | .semantic _ => true
  | .duplicate _ => true
  | .fault _ => false
  | .generate _ => false

namespace Check

variable {a : Analysis}

/-- The check gives a result that satisfies `Q`, or ends by design. -/
def Settles (c : Check α) (a : Analysis) (Q : α → Prop) : Prop :=
  c.Ensures a Q ∧ ∀ e, c a = .error e → e.isDesigned = true

namespace Settles

variable {c c' : Check α} {f : α → Check β} {x : α} {P Q : α → Prop} {R : β → Prop}

theorem mono (h : Settles c a P) (hQ : ∀ x, P x → Q x) : Settles c a Q := ⟨h.1.mono hQ, h.2⟩

/-- What else is known about the results may be used. -/
theorem ensures (h : Settles c a P) (hQ : c.Ensures a Q) : Settles c a Q := ⟨hQ, h.2⟩

theorem pure (h : Q x) : Settles (pure x) a Q := ⟨.pure h, fun _ h => absurd h nofun⟩

theorem refuse {cause : SemanticCause} : Settles (refuse cause) a Q := by
  refine ⟨.refuse, fun e h => ?_⟩
  obtain rfl : AnalysisError.semantic cause = e := Except.error.inj h
  rfl

/-- One check after the other: the second may use what the first one gives. -/
theorem bind (hc : Settles c a P) (hf : ∀ x, P x → Settles (f x) a R) :
    Settles (c >>= f) a R := by
  refine ⟨.bind fun x hx => (hf x (hc.1 x hx)).1, fun e h => ?_⟩
  change (c a >>= fun x => f x a) = .error e at h
  cases hx : c a with
  | ok x =>
    rw [hx] at h
    exact (hf x (hc.1 x hx)).2 e h
  | error e' =>
    rw [hx] at h
    obtain rfl : e' = e := Except.error.inj h
    exact hc.2 e' hx

/-- Nothing comes after a refusal. -/
theorem refuse_bind {cause : SemanticCause} : Settles (Check.refuse cause >>= f) a R :=
  (refuse (Q := fun _ => False)).bind fun _ h => absurd h id

theorem ite {p : Prop} [Decidable p] (hc : p → Settles c a Q) (hc' : ¬p → Settles c' a Q) :
    Settles (if p then c else c') a Q := by
  by_cases h : p
  · rw [if_pos h]
    exact hc h
  · rw [if_neg h]
    exact hc' h

/-- After a check with a known result the next one decides. -/
theorem ok_bind (h : c a = .ok x) (hf : Settles (f x) a R) : Settles (c >>= f) a R := by
  rw [Settles, Ensures, bind_of_ok h]
  exact hf

/-- A step that needs a shape and gives a result does so in a check. -/
theorem step {step : Except Fault α} (h : step = .ok x) (hQ : Q x) :
    Settles (liftM step : Check α) a Q := by
  subst h
  exact .pure hQ

/-- After a step with a known result the next one decides. -/
theorem step_bind {step : Except Fault α} (h : step = .ok x) (hf : Settles (f x) a R) :
    Settles ((liftM step : Check α) >>= f) a R := by
  subst h
  exact hf

/-- After a step that gives some result the next one decides. -/
theorem shown_bind {step : Except Fault α} (h : Succeeds step) (hf : ∀ x, Settles (f x) a R) :
    Settles ((liftM step : Check α) >>= f) a R := by
  obtain ⟨x, hx⟩ := h
  exact .step_bind hx (hf x)

theorem read_bind {f : Analysis → Check β} (hf : Settles (f a) a R) : Settles (read >>= f) a R := hf

/-- Code is generated as long as no block has been completed. -/
theorem generate {t : Tree} {code : Code} {Q : Code → Prop} (ha : a.code = none)
    (h : t.generate = .ok code) (hQ : Q code) : Settles (generate t) a Q := by
  have hok : Check.generate t a = .ok code := generate_eq_ok.2 ⟨ha, h⟩
  refine ⟨fun x hx => ?_, fun e he => absurd (hok.symm.trans he) nofun⟩
  rwa [← Except.ok.inj (hok.symm.trans hx)]

end Settles

end Check

/-! ### Checks that decide something -/

namespace Check

variable {α β : Type} {a : Analysis} {c c' : Check α} {f : α → Check β} {x : α} {y : β} {p q : Prop}

/-- The check gives the value if the property holds, and otherwise it refuses the program. -/
inductive Decides (c : Check α) (a : Analysis) (p : Prop) (x : α) : Prop
  | accepts (hp : p) (h : c a = .ok x)
  | refuses (hp : ¬p) (cause : SemanticCause) (h : c a = .error (.semantic cause))

namespace Decides

/-- What a check that decides a property can answer. -/
theorem answers (h : Decides c a p x) : ((∃ y, c a = .ok y) ↔ p) ∧
    (∀ y, c a = .ok y → y = x) ∧ ∀ e, c a = .error e → ∃ cause, e = .semantic cause := by
  cases h with
  | accepts hp h =>
    refine ⟨iff_of_true ⟨x, h⟩ hp, fun y hy => ?_, fun e he => ?_⟩
    · exact Except.ok.inj (hy.symm.trans h)
    · cases h.symm.trans he
  | refuses hp cause h =>
    refine ⟨iff_of_false ?_ hp, fun y hy => ?_, fun e he => ⟨cause, ?_⟩⟩
    · rintro ⟨y, hy⟩
      cases h.symm.trans hy
    · cases h.symm.trans hy
    · exact Except.error.inj (he.symm.trans h)

theorem settles (h : Decides c a p x) : c.Settles a fun y => p ∧ y = x := by
  cases h with
  | accepts hp h =>
    refine ⟨fun y hy => ⟨hp, Except.ok.inj (hy.symm.trans h)⟩, fun e he => ?_⟩
    cases h.symm.trans he
  | refuses hp cause h =>
    refine ⟨fun y hy => ?_, fun e he => Except.error.inj (h.symm.trans he) ▸ rfl⟩
    cases h.symm.trans hy

theorem congr (h : Decides c a p x) (hpq : p ↔ q) : Decides c a q x := propext hpq ▸ h

theorem pure (hp : p) : Decides (pure x) a p x := .accepts hp rfl

theorem refuse {cause : SemanticCause} (hp : ¬p) : Decides (refuse cause) a p x :=
  .refuses hp cause rfl

/-- Nothing comes after a refusal. -/
theorem refuse_bind {cause : SemanticCause} (hp : ¬p) :
    Decides (Check.refuse cause >>= f) a p y :=
  .refuses hp cause rfl

/-- One check after the other: both properties have to hold. -/
theorem bind (hc : Decides c a p x) (hf : p → Decides (f x) a q y) :
    Decides (c >>= f) a (p ∧ q) y := by
  have heq : (c >>= f) a = c a >>= fun x => f x a := rfl
  cases hc with
  | accepts hp hx =>
    rw [hx] at heq
    cases hf hp with
    | accepts hq hy => exact .accepts ⟨hp, hq⟩ (heq.trans hy)
    | refuses hq cause hy => exact .refuses (fun h => hq h.2) cause (heq.trans hy)
  | refuses hp cause hx =>
    rw [hx] at heq
    exact .refuses (fun h => hp h.1) cause heq

/-- After a check with a known result the next one decides. -/
theorem ok_bind (h : c a = .ok x) (hf : Decides (f x) a q y) : Decides (c >>= f) a q y :=
  ((accepts trivial h).bind fun _ => hf).congr (Iff.of_eq (true_and q))

/-- After a step with a known result the next check decides. -/
theorem step_bind {step : Except Fault α} (h : step = .ok x) (hf : Decides (f x) a q y) :
    Decides ((liftM step : Check α) >>= f) a q y :=
  ok_bind (fault_eq_ok.2 h) hf

theorem ite {d : Prop} [Decidable d] (hc : d → Decides c a p x) (hc' : ¬d → Decides c' a p x) :
    Decides (if d then c else c') a p x := by
  by_cases h : d
  · rw [if_pos h]
    exact hc h
  · rw [if_neg h]
    exact hc' h

/-- Code that can be generated is, as long as no block has been completed. -/
theorem generate {t : Tree} {code : Code} (ha : a.code = none) (h : t.generate = .ok code) :
    Decides (generate t) a True code :=
  .accepts trivial (generate_eq_ok.2 ⟨ha, h⟩)

end Decides

end Check

namespace Declare

variable {s : Analysis}

/-- The step, if it fails, ends by design. -/
def Settles (m : Declare α) (s : Analysis) : Prop :=
  ∀ e s', m s = (.error e, s') → e.isDesigned = true

namespace Settles

variable {m : Declare α} {f : α → Declare β}

theorem pure (x : α) : Settles (pure x : Declare α) s := fun _ _ h => absurd h nofun

/-- One step after the other: the second starts from the state that the first one leaves. -/
theorem bind (hm : Settles m s) (hf : ∀ x s', Runs m s x s' → Settles (f x) s') :
    Settles (m >>= f) s := by
  intro e s' h
  change ExceptT.bindCont f (m s).1 (m s).2 = _ at h
  rcases hrun : m s with ⟨e' | x, mid⟩
  · rw [hrun] at h
    obtain rfl : e' = e := Except.error.inj (congrArg Prod.fst h)
    exact hm e' mid hrun
  · rw [hrun] at h
    exact hf x mid hrun e s' h

theorem get_bind {f : Analysis → Declare β} (h : Settles (f s) s) : Settles (get >>= f) s := h

theorem modify_bind {g : Analysis → Analysis} {f : Unit → Declare β} (h : Settles (f ()) (g s)) :
    Settles (modify g >>= f) s := h

theorem modify (g : Analysis → Analysis) : Settles (modify g : Declare Unit) s :=
  fun _ _ h => absurd h nofun

/-- A check that is run as a step ends as it does by itself. -/
theorem check {c : Check α} {Q : α → Prop} (h : c.Settles s Q) :
    Settles (liftM c : Declare α) s := by
  intro e s' hrun
  exact h.2 e (congrArg Prod.fst hrun)

/-- After a check the next step starts from the same state. -/
theorem check_bind {c : Check α} {Q : α → Prop} (h : c.Settles s Q)
    (hf : ∀ x, c s = .ok x → Q x → Settles (f x) s) : Settles ((liftM c : Declare α) >>= f) s := by
  refine .bind (.check h) fun x s' hrun => ?_
  obtain ⟨hx, rfl⟩ := runs_check.1 hrun
  exact hf x hx (h.1 x hx)

end Settles

end Declare

end MiniPascal
