import MiniPascal.Proofs.Parsing.Steps

/-!
# Parsing Other Words

Some words of a text are kept in the program as they are written: operators, the directions of loops
and the words that start routines. Apart from them a program depends only on the kinds of its tokens
and on its names and literals. So tokens that differ in such words form programs that differ in
these places only, and it does not matter either where the tokens stand, how much fuel there is
beyond what is needed, or what comes after the tokens that are taken.
-/

namespace MiniPascal

/-! ### Programs that differ in words -/

section

variable (R : String → String → Prop)

mutual

/-- The expressions differ in operators only. -/
inductive Expr.Reworded : Expr → Expr → Prop
  | operand {o o' : Operand} (ho : Operand.Reworded o o') :
      Expr.Reworded (.operand o) (.operand o')
  | compare {l l' r r' : Operand} {w w' : String} (hl : Operand.Reworded l l') (hw : R w w')
      (hr : Operand.Reworded r r') : Expr.Reworded (.compare l w r) (.compare l' w' r')

inductive Operand.Reworded : Operand → Operand → Prop
  | number (n : Nat) : Operand.Reworded (.number n) (.number n)
  | literal (s : String) : Operand.Reworded (.literal s) (.literal s)
  | truth (b : Bool) : Operand.Reworded (.truth b) (.truth b)
  | designator {d d' : Designator} (hd : Designator.Reworded d d') :
      Operand.Reworded (.designator d) (.designator d')
  | group {e e' : Expr} (he : Expr.Reworded e e') : Operand.Reworded (.group e) (.group e')
  | negation {o o' : Operand} (ho : Operand.Reworded o o') :
      Operand.Reworded (.negation o) (.negation o')
  | binary {l l' r r' : Operand} {w w' : String} (hl : Operand.Reworded l l') (hw : R w w')
      (hr : Operand.Reworded r r') : Operand.Reworded (.binary l w r) (.binary l' w' r')

inductive Designator.Reworded : Designator → Designator → Prop
  | name (n : String) : Designator.Reworded (.name n) (.name n)
  | element {d d' : Designator} {e e' : Expr} (hd : Designator.Reworded d d')
      (he : Expr.Reworded e e') : Designator.Reworded (.element d e) (.element d' e')
  | field {d d' : Designator} (n : String) (hd : Designator.Reworded d d') :
      Designator.Reworded (.field d n) (.field d' n)
  | call {d d' : Designator} {es es' : List Expr} (hd : Designator.Reworded d d')
      (hes : ExprsReworded es es') : Designator.Reworded (.call d es) (.call d' es')

inductive ExprsReworded : List Expr → List Expr → Prop
  | nil : ExprsReworded [] []
  | cons {e e' : Expr} {es es' : List Expr} (he : Expr.Reworded e e')
      (hes : ExprsReworded es es') : ExprsReworded (e :: es) (e' :: es')

end

mutual

/-- The statements differ in operators and directions only. -/
inductive Stmt.Reworded : Stmt → Stmt → Prop
  | compound {ss ss' : List Stmt} (hss : StmtsReworded ss ss') :
      Stmt.Reworded (.compound ss) (.compound ss')
  | assign {d d' : Designator} {e e' : Expr} (hd : d.Reworded R d') (he : e.Reworded R e') :
      Stmt.Reworded (.assign d e) (.assign d' e')
  | ifThen {e e' : Expr} {s s' : Stmt} (he : e.Reworded R e') (hs : Stmt.Reworded s s') :
      Stmt.Reworded (.ifThen e s) (.ifThen e' s')
  | ifElse {e e' : Expr} {s s' u u' : Stmt} (he : e.Reworded R e') (hs : Stmt.Reworded s s')
      (hu : Stmt.Reworded u u') : Stmt.Reworded (.ifElse e s u) (.ifElse e' s' u')
  | whileLoop {e e' : Expr} {s s' : Stmt} (he : e.Reworded R e') (hs : Stmt.Reworded s s') :
      Stmt.Reworded (.whileLoop e s) (.whileLoop e' s')
  | forLoop {a a' b b' : Expr} {w w' : String} {s s' : Stmt} (n : String) (ha : a.Reworded R a')
      (hw : R w w') (hb : b.Reworded R b') (hs : Stmt.Reworded s s') :
      Stmt.Reworded (.forLoop n a w b s) (.forLoop n a' w' b' s')
  | call {es es' : List Expr} (n : String) (hes : ExprsReworded R es es') :
      Stmt.Reworded (.call n es) (.call n es')

inductive StmtsReworded : List Stmt → List Stmt → Prop
  | nil : StmtsReworded [] []
  | cons {s s' : Stmt} {ss ss' : List Stmt} (hs : Stmt.Reworded s s')
      (hss : StmtsReworded ss ss') : StmtsReworded (s :: ss) (s' :: ss')

end

mutual

/-- The declarations are the same, or routines with other words. -/
inductive Decl.Reworded : Decl → Decl → Prop
  | same (d : Decl) : Decl.Reworded d d
  | routine {w w' : String} {b b' : Block} (n : String) (ps : List Parameter) (result : TypeExpr)
      (hw : R w w') (hb : Block.Reworded b b') :
      Decl.Reworded (.routine w n ps b result) (.routine w' n ps b' result)

inductive Block.Reworded : Block → Block → Prop
  | mk {ds ds' : List Decl} {ss ss' : List Stmt} (hds : DeclsReworded ds ds')
      (hss : StmtsReworded R ss ss') : Block.Reworded (.mk ds ss) (.mk ds' ss')

inductive DeclsReworded : List Decl → List Decl → Prop
  | nil : DeclsReworded [] []
  | cons {d d' : Decl} {ds ds' : List Decl} (hd : Decl.Reworded d d')
      (hds : DeclsReworded ds ds') : DeclsReworded (d :: ds) (d' :: ds')

end

/-- The programs differ in words only. -/
def Program.Reworded (p p' : Program) : Prop := p.name = p'.name ∧ p.block.Reworded R p'.block

end

/-- Declarations may be put before others. -/
theorem DeclsReworded.append_left {R : String → String → Prop} {ds ds' : List Decl} :
    ∀ first : List Decl, DeclsReworded R ds ds' → DeclsReworded R (first ++ ds) (first ++ ds')
  | [], h => h
  | d :: first, h => .cons (.same d) (h.append_left first)

/-! ### Words that are kept -/

section

variable {R : String → String → Prop}

mutual

theorem Expr.reworded_refl (h : ∀ w, R w w) : ∀ e : Expr, e.Reworded R e
  | .operand o => .operand (o.reworded_refl h)
  | .compare l w r => .compare (l.reworded_refl h) (h w) (r.reworded_refl h)

theorem Operand.reworded_refl (h : ∀ w, R w w) : ∀ o : Operand, o.Reworded R o
  | .number n => .number n
  | .literal s => .literal s
  | .truth b => .truth b
  | .designator d => .designator (d.reworded_refl h)
  | .group e => .group (e.reworded_refl h)
  | .negation o => .negation (o.reworded_refl h)
  | .binary l w r => .binary (l.reworded_refl h) (h w) (r.reworded_refl h)

theorem Designator.reworded_refl (h : ∀ w, R w w) : ∀ d : Designator, d.Reworded R d
  | .name n => .name n
  | .element d e => .element (d.reworded_refl h) (e.reworded_refl h)
  | .field d n => .field n (d.reworded_refl h)
  | .call d es => .call (d.reworded_refl h) (exprsReworded_refl h es)

theorem exprsReworded_refl (h : ∀ w, R w w) : ∀ es : List Expr, ExprsReworded R es es
  | [] => .nil
  | e :: es => .cons (e.reworded_refl h) (exprsReworded_refl h es)

end

mutual

theorem Stmt.reworded_refl (h : ∀ w, R w w) : ∀ s : Stmt, s.Reworded R s
  | .compound ss => .compound (stmtsReworded_refl h ss)
  | .assign d e => .assign (d.reworded_refl h) (e.reworded_refl h)
  | .ifThen e s => .ifThen (e.reworded_refl h) (s.reworded_refl h)
  | .ifElse e s u => .ifElse (e.reworded_refl h) (s.reworded_refl h) (u.reworded_refl h)
  | .whileLoop e s => .whileLoop (e.reworded_refl h) (s.reworded_refl h)
  | .forLoop n a w b s =>
    .forLoop n (a.reworded_refl h) (h w) (b.reworded_refl h) (s.reworded_refl h)
  | .call n es => .call n (exprsReworded_refl h es)

theorem stmtsReworded_refl (h : ∀ w, R w w) : ∀ ss : List Stmt, StmtsReworded R ss ss
  | [] => .nil
  | s :: ss => .cons (s.reworded_refl h) (stmtsReworded_refl h ss)

end

theorem declsReworded_refl : ∀ ds : List Decl, DeclsReworded R ds ds
  | [] => .nil
  | d :: ds => .cons (.same d) (declsReworded_refl ds)

theorem Block.reworded_refl (h : ∀ w, R w w) : ∀ b : Block, b.Reworded R b
  | .mk ds ss => .mk (declsReworded_refl ds) (stmtsReworded_refl h ss)

end

/-! ### The same words -/

mutual

theorem Expr.Reworded.eq : ∀ {e e' : Expr}, e.Reworded Eq e' → e = e'
  | _, _, .operand ho => congrArg _ ho.eq
  | _, _, .compare hl hw hr => by rw [hl.eq, hw, hr.eq]

theorem Operand.Reworded.eq : ∀ {o o' : Operand}, o.Reworded Eq o' → o = o'
  | _, _, .number _ | _, _, .literal _ | _, _, .truth _ => rfl
  | _, _, .designator hd => congrArg _ hd.eq
  | _, _, .group he => congrArg _ he.eq
  | _, _, .negation ho => congrArg _ ho.eq
  | _, _, .binary hl hw hr => by rw [hl.eq, hw, hr.eq]

theorem Designator.Reworded.eq : ∀ {d d' : Designator}, d.Reworded Eq d' → d = d'
  | _, _, .name _ => rfl
  | _, _, .element hd he => by rw [hd.eq, he.eq]
  | _, _, .field _ hd => by rw [hd.eq]
  | _, _, .call hd hes => by rw [hd.eq, hes.eq]

theorem ExprsReworded.eq : ∀ {es es' : List Expr}, ExprsReworded Eq es es' → es = es'
  | _, _, .nil => rfl
  | _, _, .cons he hes => by rw [he.eq, hes.eq]

end

mutual

theorem Stmt.Reworded.eq : ∀ {s s' : Stmt}, s.Reworded Eq s' → s = s'
  | _, _, .compound hss => congrArg _ hss.eq
  | _, _, .assign hd he => by rw [hd.eq, he.eq]
  | _, _, .ifThen he hs => by rw [he.eq, hs.eq]
  | _, _, .ifElse he hs hu => by rw [he.eq, hs.eq, hu.eq]
  | _, _, .whileLoop he hs => by rw [he.eq, hs.eq]
  | _, _, .forLoop _ ha hw hb hs => by rw [ha.eq, hw, hb.eq, hs.eq]
  | _, _, .call _ hes => by rw [hes.eq]

theorem StmtsReworded.eq : ∀ {ss ss' : List Stmt}, StmtsReworded Eq ss ss' → ss = ss'
  | _, _, .nil => rfl
  | _, _, .cons hs hss => by rw [hs.eq, hss.eq]

end

mutual

theorem Decl.Reworded.eq : ∀ {d d' : Decl}, d.Reworded Eq d' → d = d'
  | _, _, .same _ => rfl
  | _, _, .routine _ _ _ hw hb => by rw [hw, hb.eq]

theorem Block.Reworded.eq : ∀ {b b' : Block}, b.Reworded Eq b' → b = b'
  | _, _, .mk hds hss => by rw [hds.eq, hss.eq]

theorem DeclsReworded.eq : ∀ {ds ds' : List Decl}, DeclsReworded Eq ds ds' → ds = ds'
  | _, _, .nil => rfl
  | _, _, .cons hd hds => by rw [hd.eq, hds.eq]

end

/-! ### A second run beside a first one -/

def namedKinds : List TokenKind := [.identifier, .string, .char, .number]

/-- Two tokens of one kind, with the same text if it is a name or a literal. -/
structure Token.Reworded (R : String → String → Prop) (t t' : Token) : Prop where
  kind_eq : t.kind = t'.kind
  value_eq : t.kind ∈ namedKinds → t.value = t'.value
  word : R t.value t'.value

/-- The tokens of a second run beside those of a first one. -/
structure Pairing where
  /-- How the words that programs keep are related. -/
  Words : String → String → Prop
  /-- How the tokens that are left in the two runs are related. -/
  Paired : List Token → List Token → Prop
  /-- The tokens that are left in the first run tell what comes next in both. -/
  Ample : List Token → Prop
  words_refl : ∀ w, Words w w
  ample_cons : ∀ {t ts}, Ample ts → Ample (t :: ts)
  kinds_eq : ∀ {ts us}, Ample ts → Paired ts us → ∀ i < 3,
    ts[i]?.map Token.kind = us[i]?.map Token.kind
  paired_cons : ∀ {t ts us}, Ample ts → Paired (t :: ts) us →
    ∃ u us', us = u :: us' ∧ t.Reworded Words u ∧ Paired ts us'

/-- A second run on the tokens of the first one. -/
def Pairing.same : Pairing where
  Words := Eq
  Paired := Eq
  Ample _ := True
  words_refl _ := rfl
  ample_cons _ := trivial
  kinds_eq _ h i _ := by rw [h]
  paired_cons _ h := ⟨_, _, h.symm, ⟨rfl, fun _ => rfl, rfl⟩, rfl⟩

namespace Pairing

variable {P : Pairing}

theorem kindOf_eq {ts us : List Token} (hts : P.Ample ts) (h : P.Paired ts us) :
    kindOf ts = kindOf us := by
  have hfirst := P.kinds_eq hts h 0 (by decide)
  match ts, us, hfirst with
  | [], [], _ => rfl
  | _ :: _, _ :: _, hfirst => exact Option.some.inj hfirst

theorem ample_of_suffix (P : Pairing) {ts rest : List Token} (h : rest <:+ ts)
    (hrest : P.Ample rest) : P.Ample ts := by
  obtain ⟨front, rfl⟩ := h
  induction front with
  | nil => exact hrest
  | cons t front ih => exact P.ample_cons ih

/-- The next three tokens are of the same kinds. -/
def KindsAgree (ts us : List Token) : Prop :=
  ∀ i < 3, ts[i]?.map Token.kind = us[i]?.map Token.kind

instance : Std.Refl KindsAgree := ⟨fun _ _ _ => rfl⟩

instance : Std.Refl P.Words := ⟨P.words_refl⟩

instance : Std.Refl (Expr.Reworded P.Words) := ⟨Expr.reworded_refl P.words_refl⟩

instance : Std.Refl (Operand.Reworded P.Words) := ⟨Operand.reworded_refl P.words_refl⟩

instance : Std.Refl (Designator.Reworded P.Words) := ⟨Designator.reworded_refl P.words_refl⟩

instance : Std.Refl (ExprsReworded P.Words) := ⟨exprsReworded_refl P.words_refl⟩

instance : Std.Refl (Stmt.Reworded P.Words) := ⟨Stmt.reworded_refl P.words_refl⟩

instance : Std.Refl (StmtsReworded P.Words) := ⟨stmtsReworded_refl P.words_refl⟩

instance : Std.Refl (Decl.Reworded P.Words) := ⟨.same⟩

instance : Std.Refl (DeclsReworded P.Words) := ⟨declsReworded_refl⟩

instance : Std.Refl (Block.Reworded P.Words) := ⟨Block.reworded_refl P.words_refl⟩

instance : Std.Refl (Program.Reworded P.Words) := ⟨fun p => ⟨rfl, Std.Refl.refl p.block⟩⟩

end Pairing

end MiniPascal
