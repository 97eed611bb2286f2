import MiniPascal.Proofs.Analysis.Tracking
import MiniPascal.Proofs.Code.Shape
import MiniPascal.Proofs.Parsing.Rewording
import MiniPascal.Proofs.Rendering

/-!
# The Code of Other Words

Programs that differ in words only have code that differs in operators only. No literal of the code
depends on them, and none of the words decides whether there is code at all, as long as the
directions of loops are the same up to case.
-/

namespace MiniPascal

open MiniPascal.Tree

/-- The words are the same, or they are one keyword in two cases. -/
def Respelled (w w' : String) : Prop :=
  w = w' ∨ Text.toLower w = Text.toLower w' ∧ Cursor.wordKind w ≠ .identifier ∧
    Cursor.wordKind w' ≠ .identifier

/-- The relation allows words to be kept and keywords to be spelled in another case. -/
structure Respells (R : String → String → Prop) : Prop where
  refl : ∀ w, R w w
  respelled : ∀ {w w'}, R w w' → Respelled w w'

namespace Respelled

variable {w w' : String}

theorem toLower_eq (h : Respelled w w') : Text.toLower w = Text.toLower w' := by
  obtain rfl | ⟨h, -⟩ := h
  · rfl
  · exact h

/-- What is no keyword has one spelling only. -/
theorem eq_iff {s : String} (h : Respelled w w') (hs : Cursor.wordKind s = .identifier) :
    w = s ↔ w' = s := by
  obtain rfl | ⟨-, hw, hw'⟩ := h
  · rfl
  · refine iff_of_false ?_ ?_
    · rintro rfl
      exact hw hs
    · rintro rfl
      exact hw' hs

theorem isTruthy_eq (h : Respelled w w') : (text w).isTruthy = (text w').isTruthy := by
  have hempty : w = "" ↔ w' = "" := h.eq_iff (by decide)
  rw [isTruthy, isTruthy, Bool.eq_iff_iff, Bool.not_eq_true', Bool.not_eq_true',
    ← Bool.not_eq_true, ← Bool.not_eq_true, String.isEmpty_iff, String.isEmpty_iff, hempty]

end Respelled

/-! ### Codes that differ in operators -/

section

variable (R : String → String → Prop)

mutual

/-- The codes differ in operators only. -/
inductive Code.Reworded : Code → Code → Prop
  | same (c : Code) : Code.Reworded c c
  | name {d d' : Designator} (hd : d.Reworded R d') :
      Code.Reworded (.name d.toTree) (.name d'.toTree)
  | element (array : String) {is is' : List Code} (his : CodesReworded is is') :
      Code.Reworded (.element array is) (.element array is')
  | field {c c' : Code} (hc : Code.Reworded c c') (name : Tree) :
      Code.Reworded (.field c name) (.field c' name)
  | compare {w w' : String} (hw : R w w') {l l' r r' : Code} (hl : Code.Reworded l l')
      (hr : Code.Reworded r r') :
      Code.Reworded (.compare (.text w) l r) (.compare (.text w') l' r')
  | binary {w w' : String} (hw : R w w') {l l' r r' : Code} (hl : Code.Reworded l l')
      (hr : Code.Reworded r r') : Code.Reworded (.binary (.text w) l r) (.binary (.text w') l' r')
  | functionCall {d d' : Designator} (hd : d.Reworded R d') {cs cs' : List Code}
      (hcs : CodesReworded cs cs') :
      Code.Reworded (.functionCall d.toTree cs) (.functionCall d'.toTree cs')
  | procedureCall (name : Tree) {cs cs' : List Code} (hcs : CodesReworded cs cs') :
      Code.Reworded (.procedureCall name cs) (.procedureCall name cs')
  | assign {c c' v v' : Code} (hc : Code.Reworded c c') (hv : Code.Reworded v v') :
      Code.Reworded (.assign c v) (.assign c' v')
  | block {cs cs' : List Code} (hcs : CodesReworded cs cs') :
      Code.Reworded (.block cs) (.block cs')
  | whileLoop {c c' b b' : Code} (hc : Code.Reworded c c') (hb : Code.Reworded b b') :
      Code.Reworded (.whileLoop c b) (.whileLoop c' b')
  | ifElse {c c' t t' e e' : Code} (hc : Code.Reworded c c') (ht : Code.Reworded t t')
      (he : Code.Reworded e e') : Code.Reworded (.ifElse c t e) (.ifElse c' t' e')

inductive CodesReworded : List Code → List Code → Prop
  | nil : CodesReworded [] []
  | cons {c c' : Code} {cs cs' : List Code} (hc : Code.Reworded c c')
      (hcs : CodesReworded cs cs') : CodesReworded (c :: cs) (c' :: cs')

end

end

section

variable {R : String → String → Prop} {K : Prop} {d d' : Designator} {o o' : Operand}

theorem CodesReworded.append : ∀ {cs cs' ds ds' : List Code}, CodesReworded R cs cs' →
    CodesReworded R ds ds' → CodesReworded R (cs ++ ds) (cs' ++ ds')
  | _, _, _, _, .nil, hds => hds
  | _, _, _, _, .cons hc hcs, hds => .cons hc (hcs.append hds)

/-! ### Literals -/

theorem Code.toTree_ne_int (c : Code) (n : Int) : c.toTree ≠ .int n := by
  cases c <;> exact nofun

theorem entryLiterals_cons {key : String} {value : Tree} (h : key = "value" → ∀ n, value ≠ .int n)
    (rest : List (String × Tree)) : entryLiterals ((key, value) :: rest) = (do
      let inner ← literals value
      return inner ++ (← entryLiterals rest)) := by
  cases value with
  | int n =>
    cases n with
    | ofNat n =>
      have hkey : key ≠ "value" := fun hkey => h hkey _ rfl
      rw [entryLiterals, if_neg hkey]
      rfl
    | negSucc n => rfl
  | _ => rfl

theorem Designator.Reworded.literals_eq (h : d.Reworded R d') :
    d.toTree.literals = d'.toTree.literals := by
  cases h <;> rfl

mutual

/-- Codes that differ in operators only have the same literals. -/
theorem Code.Reworded.literals_eq : ∀ {c c' : Code}, c.Reworded R c' →
    c.toTree.literals = c'.toTree.literals
  | _, _, .same _ => rfl
  | _, _, .name hd => by
    simp [Code.toTree, literals, entryLiterals_cons, hd.literals_eq]
  | _, _, .element array his => by
    simp [Code.toTree, literals, entryLiterals_cons, his.literals_eq]
  | _, _, .field hc name => by
    simp [Code.toTree, literals, entryLiterals_cons, hc.literals_eq]
  | _, _, .compare hw hl hr | _, _, .binary hw hl hr => by
    simp [Code.toTree, literals, entryLiterals_cons, hl.literals_eq, hr.literals_eq]
  | _, _, .functionCall hd hcs => by
    simp [Code.toTree, literals, entryLiterals_cons, hd.literals_eq, hcs.literals_eq]
  | _, _, .procedureCall name hcs => by
    simp [Code.toTree, literals, entryLiterals_cons, hcs.literals_eq]
  | _, _, .assign hc hv => by
    simp [Code.toTree, literals, entryLiterals_cons, Code.toTree_ne_int, hc.literals_eq,
      hv.literals_eq]
  | _, _, .block hcs => by
    simp [Code.toTree, literals, entryLiterals_cons, hcs.literals_eq]
  | _, _, .whileLoop hc hb => by
    simp [Code.toTree, literals, entryLiterals_cons, hc.literals_eq, hb.literals_eq]
  | _, _, .ifElse hc ht he => by
    simp [Code.toTree, literals, entryLiterals_cons, hc.literals_eq, ht.literals_eq, he.literals_eq]

theorem CodesReworded.literals_eq : ∀ {cs cs' : List Code}, CodesReworded R cs cs' →
    itemLiterals (Code.toTrees cs) = itemLiterals (Code.toTrees cs')
  | _, _, .nil => rfl
  | _, _, .cons hc hcs => by
    rw [Code.toTrees, Code.toTrees, itemLiterals, itemLiterals, hc.literals_eq, hcs.literals_eq]

end

/-! ### Expressions -/

theorem Designator.Reworded.arrayBase_eq : ∀ {d d' : Designator}, d.Reworded R d' →
    (∃ n, d.toTree.arrayBase = .text n ∧ d'.toTree.arrayBase = .text n) ∨
      d.toTree.arrayBase.isText = false ∧ d'.toTree.arrayBase.isText = false
  | _, _, .name n => .inl ⟨n, rfl, rfl⟩
  | _, _, .element hd _ => hd.arrayBase_eq
  | _, _, .field _ _ | _, _, .call _ _ => .inr ⟨rfl, rfl⟩

theorem Designator.Reworded.baseName_eq (h : d.Reworded R d') :
    baseName d.toTree = baseName d'.toTree := by
  have hother : ∀ {t : Tree}, t.arrayBase.isText = false → baseName t = .error .unnamedArray := by
    intro t ht
    unfold baseName
    split
    next heq =>
      rw [heq] at ht
      cases ht
    next => rfl
  obtain ⟨n, hd, hd'⟩ | ⟨hd, hd'⟩ := h.arrayBase_eq
  · rw [baseName, baseName, hd, hd']
  · rw [hother hd, hother hd']

theorem Designator.Reworded.isText_eq (h : d.Reworded R d') :
    d.toTree.isText = d'.toTree.isText := by
  cases h <;> rfl

mutual

theorem Expr.Reworded.generate (hR : Respells R) : ∀ {e e' : Expr}, e.Reworded R e' →
    Tracks K (Code.Reworded R) (generate e.toTree) (generate e'.toTree)
  | _, _, .operand ho => (ho.generate hR)
  | _, _, .compare hl hw hr => by
    refine .ite (by rw [(hR.respelled hw).isTruthy_eq]) (fun _ => ?_) fun _ => (hl.generate hR)
    exact (hl.generate hR).bind fun _ _ hl => (hr.generate hR).bind fun _ _ hr =>
      .pure (.compare hw hl hr)
termination_by structural _ _ h => h

theorem Operand.Reworded.generate (hR : Respells R) : ∀ {o o' : Operand}, o.Reworded R o' →
    Tracks K (Code.Reworded R) (generate o.toTree) (generate o'.toTree)
  | _, _, .number _ | _, _, .literal _ | _, _, .truth _ =>
    (Tracks.of_eq rfl).mono fun _ _ h => h ▸ .same _
  | _, _, .designator hd => by
    have hother := hd.generate hR
    cases hd with
    | name n => exact (Tracks.of_eq rfl).mono fun _ _ h => h ▸ .same _
    | _ => exact hother rfl
  | _, _, .group he => by
    rw [Operand.toTree, Operand.toTree, generate_factor_inner (Expr.isTruthy_toTree _),
      generate_factor_inner (Expr.isTruthy_toTree _)]
    exact (he.generate hR)
  | _, _, .negation ho => by
    rw [Operand.toTree, Operand.toTree, generate_factor_inner (Operand.isTruthy_toTree _),
      generate_factor_inner (Operand.isTruthy_toTree _)]
    exact (ho.generate hR)
  | _, _, .binary hl hw hr =>
    (hl.generate hR).bind fun _ _ hl => (hr.generate hR).bind fun _ _ hr =>
      .ok (.binary hw hl hr)
termination_by structural _ _ h => h

theorem Designator.Reworded.generate (hR : Respells R) : ∀ {d d' : Designator}, d.Reworded R d' →
    d.toTree.isText = false →
    Tracks K (Code.Reworded R) (generate d.toTree) (generate d'.toTree)
  | _, _, .name _, hname => nomatch hname
  | _, _, .element hd he, _ => by
    rw [Designator.toTree, Designator.toTree, generate_arrayAccess, generate_arrayAccess,
      hd.baseName_eq]
    exact .bind_eq fun _ => (hd.generateIndices hR).bind fun _ _ houter =>
      (he.generate hR).bind fun _ _ hlast => .pure (.element _ (houter.append (.cons hlast .nil)))
  | _, _, .field n hd, _ => by
    refine .ite (by rw [hd.isText_eq]) (fun htext => ?_) fun htext => ?_
    · cases hd with
      | name m => exact .ok (.same _)
      | _ => exact absurd htext nofun
    · exact (hd.generate hR (by simpa using htext)).bind fun _ _ hc => .pure (.field hc _)
  | _, _, .call hd hes, _ => by
    refine .ite (by cases hes <;> rfl) (fun _ => ?_) fun _ => .ok (.functionCall hd .nil)
    exact (hes.generate hR).bind fun _ _ hcs => .pure (.functionCall hd hcs)
termination_by structural _ _ h => h

theorem Designator.Reworded.generateIndices (hR : Respells R) : ∀ {d d' : Designator},
    d.Reworded R d' →
    Tracks K (CodesReworded R) (generateIndices d.toTree) (generateIndices d'.toTree)
  | _, _, .name _ => .ok .nil
  | _, _, .element hd he => by
    rw [Designator.toTree, Designator.toTree, generateIndices_arrayAccess,
      generateIndices_arrayAccess]
    exact (hd.generateIndices hR).bind fun _ _ houter => (he.generate hR).bind fun _ _ hlast =>
      .pure (houter.append (.cons hlast .nil))
  | _, _, .field _ _ | _, _, .call _ _ => .ok .nil
termination_by structural _ _ h => h

theorem ExprsReworded.generate (hR : Respells R) : ∀ {es es' : List Expr}, ExprsReworded R es es' →
    Tracks K (CodesReworded R) (generateAll (exprTrees es)) (generateAll (exprTrees es'))
  | _, _, .nil => .ok .nil
  | _, _, .cons he hes =>
    (he.generate hR).bind fun _ _ hc => (hes.generate hR).bind fun _ _ hcs => .pure (.cons hc hcs)
termination_by structural _ _ h => h

end

theorem Operand.Reworded.hasOutline_eq (h : o.Reworded R o') :
    o.toTree.hasOutline = o'.toTree.hasOutline := by
  cases h with
  | designator hd => cases hd <;> rfl
  | _ => rfl

/-- An operand without an outline can be written. -/
theorem Operand.succeeds_plain_of_hasOutline (h : ¬o.toTree.hasOutline) :
    Succeeds (text <$> o.toTree.plain) := by
  refine Succeeds.bind ?_ fun _ _ => succeeds_pure _
  cases o with
  | designator place =>
    cases place with
    | name n => exact absurd rfl h
    | _ => exact Designator.succeeds_render _
  | _ => exact absurd rfl h

/-- Both of two operands are shown by their outlines, or both as they are written. -/
theorem Operand.Reworded.shown_bind {α β : Type} {S : α → β → Prop} {f : Tree → Except Fault α}
    {g : Tree → Except Fault β} (ho : o.Reworded R o')
    (houtline : Tracks K (fun _ _ => True) o.toTree.outline o'.toTree.outline)
    (hf : ∀ shown shown', Tracks K S (f shown) (g shown')) :
    Tracks K S (if o.toTree.hasOutline then o.toTree.outline >>= f
        else (text <$> o.toTree.plain) >>= f)
      (if o'.toTree.hasOutline then o'.toTree.outline >>= g
        else (text <$> o'.toTree.plain) >>= g) := by
  refine .ite (by rw [ho.hasOutline_eq]) (fun _ => houtline.bind fun _ _ _ => hf _ _) fun hno => ?_
  have hplain : Tracks K (fun _ _ => True) (text <$> o.toTree.plain) (text <$> o'.toTree.plain) :=
    .of_succeeds (Operand.succeeds_plain_of_hasOutline (ho.hasOutline_eq ▸ hno)) fun _ _ => trivial
  exact hplain.bind fun _ _ _ => hf _ _

theorem Operand.Reworded.outlineItems {ts ts' : List Tree} (ho : o.Reworded R o')
    (houtline : Tracks K (fun _ _ => True) o.toTree.outline o'.toTree.outline)
    (hts : Tracks K (fun _ _ => True) (outlineItems ts) (outlineItems ts')) :
    Tracks K (fun _ _ => True) (outlineItems (o.toTree :: ts))
      (outlineItems (o'.toTree :: ts')) := by
  refine .ite (by rw [ho.hasOutline_eq]) (fun _ => ?_) fun _ => ?_
  · exact houtline.bind fun _ _ _ => hts.bind fun _ _ _ => .pure trivial
  · exact hts.bind fun _ _ _ => .pure trivial

mutual

/-- Of two expressions that differ in operators, both have an outline or none. -/
theorem Expr.Reworded.outline (hR : Respells R) : ∀ {e e' : Expr}, e.Reworded R e' →
    Tracks K (fun _ _ => True) e.toTree.outline e'.toTree.outline
  | _, _, .operand ho => by
    exact ho.shown_bind (ho.outline hR) fun _ _ => .pure trivial
  | _, _, .compare hl hw hr => by
    refine hl.shown_bind (hl.outline hR) fun _ _ => ?_
    refine .ite (by rw [(hR.respelled hw).isTruthy_eq, Operand.isTruthy_toTree,
      Operand.isTruthy_toTree]) (fun _ => ?_) fun _ => ?_
    · exact hr.shown_bind (hr.outline hR) fun _ _ => .pure trivial
    · exact .pure trivial

theorem Operand.Reworded.outline (hR : Respells R) : ∀ {o o' : Operand}, o.Reworded R o' →
    Tracks K (fun _ _ => True) o.toTree.outline o'.toTree.outline
  | _, _, .number _ | _, _, .literal _ | _, _, .truth _ | _, _, .designator (.name _) => .ok trivial
  | _, _, .designator (.element _ _) | _, _, .designator (.field _ _)
  | _, _, .designator (.call _ _) => .error
  | _, _, .group he => by
    rw [Operand.toTree, Operand.toTree, Tree.outline, Tree.outline]
    refine .ite Iff.rfl (fun _ => .pure trivial) fun _ => .ite Iff.rfl (fun _ => .pure trivial)
      fun _ => .ite ?_ (fun _ => ?_) fun _ => .pure trivial
    · rw [Expr.isNull_toTree, Expr.isNull_toTree]
    · exact (he.outline hR).bind fun _ _ _ => .pure trivial
  | _, _, .negation ho => by
    rw [Operand.toTree, Operand.toTree, Tree.outline, Tree.outline]
    refine .ite Iff.rfl (fun _ => .pure trivial) fun _ => .ite Iff.rfl (fun _ => .pure trivial)
      fun _ => .ite ?_ (fun _ => ?_) fun _ => .pure trivial
    · rw [Operand.isNull_toTree, Operand.isNull_toTree]
    · exact (ho.outline hR).bind fun _ _ _ => .pure trivial
  | _, _, .binary hl hw hr => by
    refine Tracks.bind (hl.outlineItems (hl.outline hR) ?_) fun _ _ _ => .pure trivial
    have hnil : Tracks K (fun _ _ => True) (outlineItems []) (outlineItems []) := .ok trivial
    exact (hr.outlineItems (hr.outline hR) hnil).bind fun _ _ _ => .pure trivial

end

/-! ### Statements -/

theorem generate_assign_tracks (hR : Respells R) {e e' : Expr} (hd : d.Reworded R d')
    (he : e.Reworded R e') :
    Tracks K (Code.Reworded R) (generate (.assign d.toTree e.toTree))
      (generate (.assign d'.toTree e'.toTree)) := by
  have hend : ∀ {place place' : Code}, place.Reworded R place' → Tracks K (Code.Reworded R)
      (do return Code.assign place (← generate e.toTree))
      (do return Code.assign place' (← generate e'.toTree)) := fun hplace =>
    (he.generate hR).bind fun _ _ hv => .pure (.assign hplace hv)
  cases hd with
  | name n => exact hend (.same _)
  | element hd hi =>
    exact (Designator.Reworded.generate hR (.element hd hi) rfl).bind fun _ _ h => hend h
  | field n hd =>
    exact (Designator.Reworded.generate hR (.field n hd) rfl).bind fun _ _ h => hend h
  | call hd hes => exact hend (.name (.call hd hes))

mutual

/-- The codes of statements that differ in words. -/
theorem Stmt.Reworded.generate (hR : Respells R) : ∀ {s s' : Stmt}, s.Reworded R s' →
    Tracks K (Code.Reworded R) (generate s.toTree) (generate s'.toTree)
  | _, _, .compound hss => (hss.generate hR).bind fun _ _ hcs => .pure (.block hcs)
  | _, _, .assign hd he => generate_assign_tracks hR hd he
  | _, _, .ifThen he hs =>
    (he.generate hR).bind fun _ _ hc => (hs.generate hR).bind fun _ _ ht =>
      .ok (.ifElse hc ht (.same _))
  | _, _, .ifElse he hs hu => by
    refine (he.generate hR).bind fun _ _ hc => (hs.generate hR).bind fun _ _ ht => ?_
    simp only [Stmt.isNull_toTree, Bool.false_eq_true, if_false]
    exact (hu.generate hR).bind fun _ _ hno => .pure (.ifElse hc ht hno)
  | _, _, .whileLoop he hs =>
    (he.generate hR).bind fun _ _ hc => (hs.generate hR).bind fun _ _ hb => .pure (.whileLoop hc hb)
  | _, _, .forLoop n ha hw hb hs => by
    refine (ha.generate hR).bind fun _ _ hfirst => ?_
    have hlower : ∀ {w : String}, lowered (.text w) = .ok (Text.toLower w) := rfl
    rw [hlower, hlower, (hR.respelled hw).toLower_eq]
    refine .bind_eq fun word => .ite Iff.rfl (fun _ => ?_) fun _ => ?_
    · refine (hb.generate hR).bind fun _ _ hlast => (hs.generate hR).bind fun _ _ hbody => .pure ?_
      -- The loop that counts is made of the same pieces in both codes.
      exact .block (.cons (.assign (.same _) hfirst) (.cons (.whileLoop
        (.compare (hR.refl _) (.same _) hlast) (.block (.cons hbody (.cons (.same _) .nil)))) .nil))
    · exact .of_ne fun _ h => by
        obtain ⟨_, -, h⟩ := Except.bind_eq_ok.1 h
        exact absurd h nofun
  | _, _, .call n hes => by
    refine .ite (by cases hes <;> rfl) (fun _ => ?_) fun _ => .ok (.same _)
    exact (hes.generate hR).bind fun _ _ hcs => .pure (.procedureCall _ hcs)

theorem StmtsReworded.generate (hR : Respells R) : ∀ {ss ss' : List Stmt}, StmtsReworded R ss ss' →
    Tracks K (CodesReworded R) (generateAll (stmtTrees ss)) (generateAll (stmtTrees ss'))
  | _, _, .nil => .ok .nil
  | _, _, .cons hs hss =>
    (hs.generate hR).bind fun _ _ hc => (hss.generate hR).bind fun _ _ hcs => .pure (.cons hc hcs)

end

end

end MiniPascal
