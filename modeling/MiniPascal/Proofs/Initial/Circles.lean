import Mathlib.Order.WellFounded
import MiniPascal.Proofs.Initial.Defaults

/-!
# Types that Lead Back to Themselves

The default value of a record type asks for those of the types of its fields, and the types of the
elements of its arrays are looked up only then.

* `defaultValue_circular_iff`: a default value runs in a circle just where it asks for a type that
  asks for itself.
-/

namespace MiniPascal

open Check Initial Relation Declaring Declare

/-! ### Checks that run in a circle -/

section Fuel

variable {α β : Type} {a : Analysis}

/-- A check runs in a circle, or it answers as another one does. -/
def Check.Approximates (c c' : Check α) (a : Analysis) : Prop :=
  c a = .error (.fault .circular) ∨ c a = c' a

namespace Check.Approximates

variable {c c' c'' : Check α} {f f' : α → Check β}

theorem bind (hc : Approximates c c' a) (hf : ∀ x, Approximates (f x) (f' x) a) :
    Approximates (c >>= f) (c' >>= f') a := by
  change (c a >>= fun x => f x a) = _ ∨ (c a >>= fun x => f x a) = (c' a >>= fun x => f' x a)
  rcases hc with hc | hc
  · exact .inl (by rw [hc]; rfl)
  · rw [← hc]
    cases c a with
    | error e => exact .inr rfl
    | ok x => exact hf x

theorem refl (c : Check α) : Approximates c c a := .inr rfl

theorem trans (h : Approximates c c' a) (h' : Approximates c' c'' a) : Approximates c c'' a :=
  h.elim .inl fun heq => by rwa [Approximates, heq]

end Check.Approximates

theorem filled_approximates {element element' : Check Tree} (h : Approximates element element' a)
    (dims : List Tree) : Approximates (filled element dims) (filled element' dims) a := by
  induction dims with
  | nil => exact h
  | cons d dims ih =>
    refine (Approximates.refl _).bind fun count => ?_
    split
    · exact .refl _
    · exact ih.bind fun _ => .refl _

end Fuel

section Asks

variable {env : Env} {a : Analysis} {record : Tree} {n : String} {infos : List Tree}
  {fields : List (String × TypeExpr)} {value : Tree → Check Tree} {fuel : Nat} {t u : String}

/-- The type whose default value that of a field asks for; an array without elements has none. -/
def TypeExpr.asked? : TypeExpr → Option String
  | .named t => some t
  | .array type => if ∀ d ∈ type.bounds, 0 < extentOf d then some type.element else none
  | _ => none

/-- Nested lists have an element, which decides whether there are any, or they have none. -/
theorem filled_eq (element : Check Tree) (dims : List (Int × Int)) :
    ((∀ d ∈ dims, 0 < extentOf d) ∧
      ∃ nest : Tree → Tree,
        filled element (boundTrees dims) a = (element >>= fun v => pure (nest v)) a) ∨
    (¬(∀ d ∈ dims, 0 < extentOf d) ∧ ∃ v, filled element (boundTrees dims) a = .ok v) := by
  induction dims with
  | nil => exact .inl ⟨List.forall_mem_nil _, id, congrFun (bind_pure element).symm a⟩
  | cons d dims ih =>
    rw [filled_cons, List.forall_mem_cons]
    by_cases hd : 0 < extentOf d
    · rw [if_neg (by omega)]
      rcases ih with ⟨hdims, nest, hnest⟩ | ⟨hdims, v, hv⟩
      · refine .inl ⟨⟨hd, hdims⟩, fun v => .list (List.replicate (extentOf d).toNat (nest v)), ?_⟩
        change (filled element _ a >>= fun v => .ok _) = (element a >>= fun v => .ok _)
        rw [hnest]
        change ((element a >>= fun v => .ok _) >>= fun v => .ok _) = _
        cases element a <;> rfl
      · refine .inr ⟨fun h => hdims h.2, ?_⟩
        rw [bind_of_ok hv]
        exact ⟨_, rfl⟩
    · rw [if_pos (by omega)]
      exact .inr ⟨fun h => hd h.1, _, rfl⟩

/-- A field has a value by itself, or it has one just as the type has that it asks for. -/
theorem fieldDefault_eq (value : Tree → Check Tree) (type : TypeExpr) :
    (type.asked? = none ∧ ∃ v, fieldDefault value type a = .ok v) ∨
      ∃ (u : String) (nest : Tree → Tree), type.asked? = some u ∧
        fieldDefault value type a = (value (.text u) >>= fun v => pure (nest v)) a := by
  cases type with
  | named t => exact .inr ⟨t, id, rfl, congrFun (bind_pure (value (.text t))).symm a⟩
  | array type =>
    rw [TypeExpr.asked?]
    rcases filled_eq (a := a) (value (.text type.element)) type.bounds with
      ⟨hdims, nest, hnest⟩ | ⟨hdims, hvalue⟩
    · rw [if_pos hdims]
      exact .inr ⟨_, nest, rfl, hnest⟩
    · rw [if_neg hdims]
      exact .inl ⟨rfl, hvalue⟩
  | _ => exact .inl ⟨rfl, _, rfl⟩

/-! ### More fuel -/

theorem defaultFields_approximates (hname : record.entry "name" = .ok (.text n))
    {value' : Tree → Check Tree} (h : ∀ t, Approximates (value (.text t)) (value' (.text t)) a)
    (hinfos : List.Forall₂ FieldDescribes fields infos) (entries : List (String × Tree)) :
    Approximates (defaultFields value record infos entries)
      (defaultFields value' record infos entries) a := by
  induction hinfos generalizing entries with
  | nil => exact .refl _
  | @cons field info fields infos hfield _ ih =>
    have hvalue : Approximates (fieldDefault value field.2) (fieldDefault value' field.2) a := by
      cases hfield with
      | named name type => exact h type
      | @array name type _ _ => exact filled_approximates (h type.element) _
    rcases defaultFields_cons hname hfield with ⟨-, _, herror⟩ | ⟨-, heq⟩
    · exact .inr ((herror value infos entries).trans (herror value' infos entries).symm)
    · rw [Approximates, heq, heq]
      exact hvalue.bind fun v => ih _

/-! ### Circles -/

/-- Fields run in a circle where one of them does and those before it have values. -/
theorem defaultFields_circular (hname : record.entry "name" = .ok (.text n))
    (hinfos : List.Forall₂ FieldDescribes fields infos) {entries : List (String × Tree)}
    (h : defaultFields value record infos entries a = .error (.fault .circular)) :
    ∃ before f after, fields = before ++ f :: after ∧
      (∀ g ∈ before, ∀ w ∈ g.2.asked?, ∃ v, value (.text w) a = .ok v) ∧
      ∃ u ∈ f.2.asked?, value (.text u) a = .error (.fault .circular) := by
  induction hinfos generalizing entries with
  | nil => cases h
  | @cons field info fields infos hfield _ ih =>
    rcases defaultFields_cons hname hfield with ⟨-, _, herror⟩ | ⟨-, heq⟩
    · cases (herror _ _ _).symm.trans h
    rw [heq, bind_eq_error] at h
    rcases h with h | ⟨v, hv, h⟩
    · refine ⟨[], field, fields, rfl, List.forall_mem_nil _, ?_⟩
      rcases fieldDefault_eq (a := a) value field.2 with ⟨-, v, hv⟩ | ⟨u, nest, hasked, hu⟩
      · cases hv.symm.trans h
      · rcases bind_eq_error.1 (hu.symm.trans h) with hcircular | ⟨_, -, hno⟩
        · exact ⟨u, hasked, hcircular⟩
        · cases hno
    · obtain ⟨before, f, after, rfl, hbefore, hf⟩ := ih h
      refine ⟨field :: before, f, after, rfl, List.forall_mem_cons.2 ⟨fun w hw => ?_, hbefore⟩, hf⟩
      rcases fieldDefault_eq (a := a) value field.2 with ⟨hnone, -⟩ | ⟨u, nest, hasked, hu⟩
      · cases hnone.symm.trans hw
      · obtain rfl := Option.some.inj (hasked.symm.trans hw)
        obtain ⟨x, hx, -⟩ := bind_eq_ok.1 (hu.symm.trans hv)
        exact ⟨x, hx⟩

theorem circular_defaultFields (hname : record.entry "name" = .ok (.text n))
    {before after : List (String × TypeExpr)} {f : String × TypeExpr}
    (hf : f.2 ≠ .named "array") (hasked : f.2.asked? = some u)
    (hu : value (.text u) a = .error (.fault .circular))
    (hbefore : ∀ g ∈ before, g.2 ≠ .named "array" ∧ ∀ w ∈ g.2.asked?,
      value (.text w) a = .error (.fault .circular) ∨ ∃ v, value (.text w) a = .ok v)
    (hinfos : List.Forall₂ FieldDescribes (before ++ f :: after) infos)
    (entries : List (String × Tree)) :
    defaultFields value record infos entries a = .error (.fault .circular) := by
  induction before generalizing infos entries with
  | nil =>
    cases hinfos with
    | cons hfield _ =>
      rcases defaultFields_cons hname hfield with ⟨heq, -⟩ | ⟨-, heq⟩
      · exact absurd heq hf
      rw [heq, bind_eq_error]
      rcases fieldDefault_eq (a := a) value f.2 with ⟨hnone, -⟩ | ⟨w, nest, hw, heq⟩
      · cases hnone.symm.trans hasked
      · obtain rfl := Option.some.inj (hasked.symm.trans hw)
        exact .inl (heq.trans (bind_eq_error.2 (.inl hu)))
  | cons g before ih =>
    rw [List.forall_mem_cons] at hbefore
    cases hinfos with
    | cons hfield hinfos =>
      have hrest := ih hbefore.2 hinfos
      rcases defaultFields_cons hname hfield with ⟨heq, -⟩ | ⟨-, heq⟩
      · exact absurd heq hbefore.1.1
      rw [heq, bind_eq_error]
      rcases fieldDefault_eq (a := a) value g.2 with ⟨-, v, hv⟩ | ⟨w, nest, hw, hvalue⟩
      · exact .inr ⟨v, hv, hrest _⟩
      · rcases hbefore.1.2 w hw with hcircular | ⟨v, hv⟩
        · exact .inl (hvalue.trans (bind_eq_error.2 (.inl hcircular)))
        · exact .inr ⟨nest v, hvalue.trans (ok_bind hv rfl), hrest _⟩

/-- The default value of a record type asks for that of another type: a field does so, and the
fields before it have values. -/
def Env.Asks (env : Env) (a : Analysis) (t u : String) : Prop :=
  BasicType.ofName? t = none ∧ t ≠ "array" ∧ ∃ fields before f after,
    env.fields? t = some fields ∧ keptFields fields = before ++ f :: after ∧
    (∀ g ∈ before, ∀ w ∈ g.2.asked?, ∃ v, defaultValue (.text w) .null a = .ok v) ∧
    u ∈ f.2.asked?

variable (henv : a.Sees env)

include henv

/-- With more fuel a default value is the same, unless there was too little. -/
theorem defaultWithin_approximates : ∀ (fuel : Nat) (t : String),
    Approximates (defaultWithin fuel (.text t) .null) (defaultWithin (fuel + 1) (.text t) .null) a
  | 0, _ => .inl rfl
  | fuel + 1, t => by
    rcases defaultWithin_succ henv t with ⟨_, -, heq⟩ |
      ⟨-, -, fields, record, -, -, hrecord, heq⟩ | ⟨-, _, herror⟩
    · exact .inr ((heq fuel).trans (heq (fuel + 1)).symm)
    · rw [Approximates, heq, heq]
      rcases defaultRecordWith_eq hrecord with ⟨-, _, herror⟩ | ⟨infos, hinfos, -, heq⟩
      · exact .inr ((herror _).trans (herror _).symm)
      · rw [heq, heq]
        exact (defaultFields_approximates hrecord.entry_name (defaultWithin_approximates fuel)
          hinfos []).bind fun _ => .refl _
    · exact .inr ((herror fuel).trans (herror (fuel + 1)).symm)

theorem defaultWithin_approximates_of_le (t : String) {fuel' : Nat} (h : fuel ≤ fuel') :
    Approximates (defaultWithin fuel (.text t) .null) (defaultWithin fuel' (.text t) .null) a := by
  induction fuel', h using Nat.le_induction with
  | base => exact .refl _
  | succ fuel' _ ih => exact ih.trans (defaultWithin_approximates henv fuel' t)

/-- A default value that needs more fuel asks for one that needs more than the rest. -/
theorem exists_asks_of_circular (hfuel : fuel ≤ a.symbolCount + 2)
    (h : defaultWithin (fuel + 1) (.text t) .null a = .error (.fault .circular)) :
    ∃ u, env.Asks a t u ∧ defaultWithin fuel (.text u) .null a = .error (.fault .circular) := by
  rcases defaultWithin_succ henv t with ⟨_, -, heq⟩ |
    ⟨hbasic, harray, fields, record, hfields, -, hrecord, heq⟩ | ⟨-, _, herror⟩
  · cases (heq fuel).symm.trans h
  · rw [heq] at h
    rcases defaultRecordWith_eq hrecord with ⟨-, _, herror⟩ | ⟨infos, hinfos, -, heq⟩
    · cases (herror _).symm.trans h
    rw [heq, bind_eq_error] at h
    obtain hcircular : defaultFields _ record infos [] a = .error (.fault .circular) := by
      rcases h with h | ⟨_, -, h⟩
      · exact h
      · cases h
    obtain ⟨before, f, after, hkept, hbefore, u, hu, hcircular⟩ :=
      defaultFields_circular hrecord.entry_name hinfos hcircular
    refine ⟨u, ⟨hbasic, harray, fields, before, f, after, hfields, hkept, ?_, hu⟩, hcircular⟩
    intro g hg w hw
    obtain ⟨v, hv⟩ := hbefore g hg w hw
    rcases defaultWithin_approximates_of_le henv w hfuel with hcircular | heq
    · cases hcircular.symm.trans hv
    · exact ⟨v, heq.symm.trans hv⟩
  · cases (herror fuel).symm.trans h

theorem Env.Asks.circular (hfuel : fuel ≤ a.symbolCount + 2) (h : env.Asks a t u)
    (hne : u ≠ "array") (hu : defaultWithin fuel (.text u) .null a = .error (.fault .circular)) :
    defaultWithin (fuel + 1) (.text t) .null a = .error (.fault .circular) := by
  obtain ⟨hbasic, harray, fields, before, f, after, hfields, hkept, hbefore, hasked⟩ := h
  rcases defaultWithin_succ henv t with ⟨_, hb, -⟩ |
    ⟨-, -, _, record, hfields', -, hrecord, heq⟩ | ⟨hnone, -⟩
  · cases hbasic.symm.trans hb
  · obtain rfl := Option.some.inj (hfields.symm.trans hfields')
    rw [heq]
    rcases defaultRecordWith_eq (s := a) hrecord with ⟨hnone, -⟩ | ⟨infos, hinfos, -, heq⟩
    · simp [hkept] at hnone
    rw [hkept] at hinfos
    rw [heq, bind_eq_error]
    refine .inl (circular_defaultFields hrecord.entry_name ?_ hasked hu ?_ hinfos [])
    · intro hf
      rw [hf] at hasked
      exact hne (Option.some.inj hasked).symm
    · intro g hg
      constructor
      · intro hg'
        obtain ⟨v, hv⟩ := hbefore g hg "array" (by rw [hg']; rfl)
        cases hv
      · intro w hw
        obtain ⟨v, hv⟩ := hbefore g hg w hw
        rcases defaultWithin_approximates_of_le henv w hfuel with hcircular | heq
        · exact .inl hcircular
        · exact .inr ⟨v, heq.trans hv⟩
  · rcases hnone with rfl | hnone
    · exact absurd rfl harray
    · cases hnone.symm.trans hfields

/-- A chain of types that is longer than the names there are comes back to one of them. The
induction collects the types that have asked for the current one. -/
theorem exists_circle (hfuel : fuel ≤ a.symbolCount + 2) {seen : List String} (hnodup : seen.Nodup)
    (hseen : ∀ x ∈ seen, x ∈ env.map Prod.fst ∧ TransGen (env.Asks a) x t)
    (hlength : env.length < fuel + seen.length)
    (h : defaultWithin fuel (.text t) .null a = .error (.fault .circular)) :
    ∃ u, ReflTransGen (env.Asks a) t u ∧ TransGen (env.Asks a) u u := by
  induction fuel generalizing t seen with
  | zero =>
    have hle := (List.subperm_of_subset hnodup fun x hx => (hseen x hx).1).length_le
    rw [List.length_map] at hle
    omega
  | succ fuel ih =>
    obtain ⟨u, hasks, hu⟩ := exists_asks_of_circular henv (by omega) h
    by_cases ht : t ∈ seen
    · exact ⟨t, .refl, (hseen t ht).2⟩
    have hmem : t ∈ env.map Prod.fst := by
      obtain ⟨-, -, fields, -, -, -, hfields, -⟩ := hasks
      obtain ⟨_, _, heq, -⟩ := List.lookup_eq_some_iff.1 (Env.fields?_eq_some.1 hfields)
      simp [heq]
    have hseen' : ∀ x ∈ t :: seen, x ∈ env.map Prod.fst ∧ TransGen (env.Asks a) x u :=
      List.forall_mem_cons.2 ⟨⟨hmem, .single hasks⟩,
        fun x hx => (hseen x hx).imp_right fun h => h.tail hasks⟩
    obtain ⟨w, huw, hw⟩ :=
      ih (by omega) (List.nodup_cons.2 ⟨ht, hnodup⟩) hseen' (by simp; omega) hu
    exact ⟨w, .head hasks huw, hw⟩

/-- On a circle the fuel is always too little. -/
theorem circular_of_transGen {u : String} (h : TransGen (env.Asks a) u u) :
    ∀ {fuel : Nat}, fuel ≤ a.symbolCount + 2 → ∀ {t : String}, TransGen (env.Asks a) t u →
      defaultWithin fuel (.text t) .null a = .error (.fault .circular)
  | 0, _, _, _ => rfl
  | fuel + 1, hfuel, t, ht => by
    obtain ⟨w, hasks, hw⟩ := TransGen.head'_iff.1 ht
    have hw := TransGen.trans_right hw h
    -- The next type asks for another one in turn, so it is a record type.
    obtain ⟨_, ⟨-, hne, -⟩, -⟩ := TransGen.head'_iff.1 hw
    exact Env.Asks.circular henv (by omega) hasks hne (circular_of_transGen h (by omega) hw)

/-! ### Record types that are declared in order -/

omit henv

theorem Env.Asks.leads (h : env.Asks a t u) : env.Leads t u := by
  obtain ⟨hbasic, -, fields, before, f, after, hfields, hkept, -, hasked⟩ := h
  have hmem : f ∈ keptFields fields := by simp [hkept]
  refine ⟨hbasic, fields, hfields, f, List.mem_of_mem_filter hmem, ?_⟩
  cases hf : f.2 with
  | array type =>
    rw [hf, TypeExpr.asked?] at hasked
    split at hasked
    · exact hasked
    · cases hasked
  | _ =>
    rw [hf] at hasked
    exact hasked

theorem Env.Regular.not_leads_self (henv : env.Regular) (u : String) : ¬TransGen env.Leads u u := by
  have hwf : WellFounded (Function.swap env.Leads) :=
    ⟨henv.induction (P := fun _ => Acc _) (fun _ t ih => .intro t ih) (Nat.lt_succ_self _)⟩
  exact fun hu => hwf.transGen.irrefl.irrefl u (transGen_swap.2 hu)

/-- At a point of a program the default value of a type runs in a circle just where it asks for a
type that asks for itself. It does not where no record type leads back to itself, and none does
where record types have new names and fields of known types. -/
theorem defaultValue_circular_iff (h : VisibleIn env a) :
    (∀ t, defaultValue (.text t) .null a = .error (.fault .circular) ↔
      ∃ u, ReflTransGen (env.Asks a) t u ∧ TransGen (env.Asks a) u u) ∧
    ((∀ u, ¬TransGen env.Leads u u) →
      ∀ t, defaultValue (.text t) .null a ≠ .error (.fault .circular)) ∧
    (env.Regular → ∀ u, ¬TransGen env.Leads u u) := by
  have henv := h.fits
  have hiff : ∀ t, defaultValue (.text t) .null a = .error (.fault .circular) ↔
      ∃ u, ReflTransGen (env.Asks a) t u ∧ TransGen (env.Asks a) u u := by
    intro t
    constructor
    · intro hcircular
      have hcount := henv.length_le_symbolCount
      exact exists_circle henv (Nat.le_refl _) List.nodup_nil (List.forall_mem_nil _)
        (by simp; omega) hcircular
    · rintro ⟨u, htu, hu⟩
      exact circular_of_transGen henv hu (Nat.le_refl _) (TransGen.trans_right htu hu)
  refine ⟨hiff, fun hleads t hcircular => ?_, Env.Regular.not_leads_self⟩
  obtain ⟨u, -, hu⟩ := (hiff t).1 hcircular
  exact hleads u (TransGen.mono (fun _ _ hasks => Env.Asks.leads hasks) u u hu)

/-- A record type with an array of itself. -/
theorem defaultValue_circular_iff_node : ∃ env a, VisibleIn env a ∧ env.Asks a "node" "node" ∧
    defaultValue (.text "node") .null a = .error (.fault .circular) := by
  have hrun : Runs (declareAll (.list (declTrees
      [.type "node" (.record [("next", .array ⟨(1, 1), [], "node", none⟩)])]))) .start () _ := rfl
  have hvisible := VisibleIn.declare .start hrun
  refine ⟨_, _, hvisible, ?_⟩
  suffices hasks : Env.Asks _ _ "node" "node" from
    ⟨hasks, ((defaultValue_circular_iff hvisible).1 "node").2 ⟨"node", .refl, .single hasks⟩⟩
  exact ⟨by decide, by decide, _, [], _, [], rfl, rfl, List.forall_mem_nil _, rfl⟩

end Asks

end MiniPascal
