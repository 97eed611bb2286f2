import MiniPascal.Proofs.Listing.Nesting
import MiniPascal.Proofs.Rendering

/-!
# Written Values, Types and Designators in Texts

Some parts of a program come into its listing in their written form: the values of constants, the
types of parameters, and what is called. Texts may stand in them as they are or between quotes of
either sort, so that parentheses in them may count or not. But no double quote is left open, unless
there was one in the program.

* `Listing.Closed`: no double quote is left open.
-/

namespace MiniPascal

namespace Listing

def Closed (text : String) : Prop := endsQuoted false text.toList = false

def textDepth (text : String) : Depth → Depth := Depth.read (outside false text.toList)

variable {s : String}

theorem Closed.moves (h : Closed s) : Moves s (textDepth s) := ⟨h, fun _ => rfl⟩

theorem Moves.closed {f : Depth → Depth} (h : Moves s f) : Closed s := h.1

theorem Closed.append {s t : String} (hs : Closed s) (ht : Closed t) : Closed (s ++ t) :=
  (hs.moves.append ht.moves).closed

theorem closed_of_notMem (h : '"' ∉ s.toList) : Closed s :=
  (outside_of_notMem false h).2

theorem Closed.intercalate {s : String} (hs : Closed s) : ∀ {pieces : List String},
    (∀ p ∈ pieces, Closed p) → Closed (s.intercalate pieces)
  | [], _ => by
    exact Moves.empty.closed
  | [p], h => by
    exact h p List.mem_cons_self
  | p :: q :: rest, h => by
    rw [List.forall_mem_cons] at h
    rw [String.intercalate_cons_cons]
    exact (h.1.append hs).append (hs.intercalate h.2)

/-! ### Quoted texts -/

theorem digitChar_ne_quote : ∀ n < 16, Nat.digitChar n ≠ '"' := by decide

theorem quote_notMem_hexDigits (width n : Nat) : '"' ∉ (Text.hexDigits width n).toList := by
  rw [Text.hexDigits, String.toList_ofList, List.mem_map]
  rintro ⟨i, -, hi⟩
  exact digitChar_ne_quote _ (Nat.mod_lt _ (by decide)) hi

/-- A character other than a double quote is written without one. -/
theorem quote_notMem_escape {mark c : Char} (hc : c ≠ '"') : '"' ∉ (Text.escape mark c).toList := by
  have hcode : '"' ∉ (Text.escapeCode c).toList := by
    unfold Text.escapeCode
    split
    · simpa using quote_notMem_hexDigits 2 c.toNat
    split
    · simpa using quote_notMem_hexDigits 4 c.toNat
    · simpa using quote_notMem_hexDigits 8 c.toNat
  unfold Text.escape
  split
  · simp [hc.symm]
  split
  · decide
  split
  · decide
  split
  · decide
  split
  · simp [Char.toString, hc.symm]
  · exact hcode

/-- A quoted text has no double quotes but its own two. -/
theorem closed_quote (h : '"' ∉ s.toList) : Closed (Text.quote s) := by
  have hinside : '"' ∉ (String.join (s.toList.map (Text.escape (Text.quoteMark s)))).toList := by
    rw [String.toList_join, List.mem_flatMap]
    rintro ⟨piece, hpiece, hmem⟩
    obtain ⟨c, hc, rfl⟩ := List.mem_map.1 hpiece
    exact quote_notMem_escape (fun heq => h (heq ▸ hc)) hmem
  unfold Text.quote
  by_cases hmark : Text.quoteMark s = '"'
  · rw [hmark] at hinside ⊢
    exact (Moves.quoted hinside).closed
  · have hmark : Text.quoteMark s = '\'' := by
      unfold Text.quoteMark at hmark ⊢
      split
      · next hquotes => exact absurd (if_pos hquotes) hmark
      · rfl
    rw [hmark] at hinside ⊢
    refine closed_of_notMem ?_
    simpa [Char.toString] using hinside

end Listing

open MiniPascal.Tree Listing

/-! ### Values -/

theorem closed_commas {forms : List String} (h : ∀ f ∈ forms, Closed f) : Closed (commas forms) :=
  Closed.intercalate (closed_of_notMem (by decide)) h

theorem closed_render_text (quoted : Bool) {s form : String} (hs : '"' ∉ s.toList)
    (h : render quoted (.text s) = .ok form) : Closed form := by
  obtain rfl := Except.ok.inj h
  cases quoted
  · exact closed_of_notMem hs
  · exact closed_quote hs

theorem closed_render_list (quoted : Bool) {ts : List Tree}
    (hts : ∀ forms, renderItems ts = .ok forms → ∀ f ∈ forms, Closed f) {form : String}
    (h : render quoted (.list ts) = .ok form) : Closed form := by
  obtain ⟨forms, hforms, rfl⟩ := Except.bind_pure_eq_ok.1 h
  exact ((closed_of_notMem (by decide)).append (closed_commas (hts forms hforms))).append
    (closed_of_notMem (by decide))

theorem closed_renderPairs_cons {name : String} (hname : '"' ∉ name.toList) {t : Tree}
    (ht : ∀ form, render false t = .ok form → Closed form) {ts : List Tree}
    (hts : ∀ forms, renderPairs ts = .ok forms → ∀ f ∈ forms, Closed f) {forms : List String}
    (h : renderPairs (.tuple [.text name, t] :: ts) = .ok forms) : ∀ f ∈ forms, Closed f := by
  obtain ⟨first, hfirst, h⟩ := Except.bind_eq_ok.1 h
  obtain ⟨rest, hrest, rfl⟩ := Except.bind_pure_eq_ok.1 h
  obtain ⟨shown, hshown, hfirst⟩ := Except.bind_eq_ok.1 hfirst
  obtain ⟨form, hform, rfl⟩ := Except.bind_pure_eq_ok.1 hfirst
  have hpair := ((closed_render_text false hname hshown).append
    (closed_of_notMem (by decide : '"' ∉ ": ".toList))).append (ht form hform)
  exact List.forall_mem_cons.2 ⟨hpair, hts rest hrest⟩

theorem quote_notMem_of_name {quiet : Prop} {n : String} (h : (vocabulary quiet).name n) :
    '"' ∉ n.toList :=
  fun hmem => h.2 _ hmem (by decide)

mutual

theorem ConstValue.closed_render : ∀ (v : ConstValue) (quoted : Bool) {form : String},
    v.Within (vocabulary True) → render quoted v.toTree = .ok form → Closed form
  | .number n, quoted, _, _, h => by
    obtain rfl := Except.ok.inj h
    exact (Moves.unmarked (unmarked_toString n)).closed
  | .literal s, quoted, _, hs, h => closed_render_text quoted (hs trivial) h
  | .list vs, quoted, _, hvs, h => closed_render_list quoted (closed_renderItems vs hvs) h
  | .record fs, quoted, _, hfs, h => by
    obtain ⟨forms, hforms, rfl⟩ := Except.bind_pure_eq_ok.1 h
    have hfields := Closed.intercalate (closed_of_notMem (by decide : '"' ∉ "; ".toList))
      (closed_renderFields fs hfs forms hforms)
    exact ((closed_of_notMem (by decide)).append hfields).append (closed_of_notMem (by decide))

theorem closed_renderItems : ∀ vs : List ConstValue, constsWithin (vocabulary True) vs →
    ∀ forms, renderItems (constTrees vs) = .ok forms → ∀ f ∈ forms, Closed f
  | [], _, _, h => by
    obtain rfl := Except.ok.inj h
    exact fun f hf => absurd hf List.not_mem_nil
  | v :: vs, ⟨hv, hvs⟩, _, h => by
    obtain ⟨first, hfirst, h⟩ := Except.bind_eq_ok.1 h
    obtain ⟨rest, hrest, rfl⟩ := Except.bind_pure_eq_ok.1 h
    exact List.forall_mem_cons.2 ⟨v.closed_render true hv hfirst,
      closed_renderItems vs hvs rest hrest⟩

theorem closed_renderFields : ∀ fs : List (String × ConstValue), fieldsWithin (vocabulary True) fs →
    ∀ forms, renderPairs (fieldTrees fs) = .ok forms → ∀ f ∈ forms, Closed f
  | [], _, _, h => by
    obtain rfl := Except.ok.inj h
    exact fun f hf => absurd hf List.not_mem_nil
  | (n, v) :: fs, ⟨hn, hv, hfs⟩, _, h =>
    closed_renderPairs_cons (quote_notMem_of_name hn) (fun _ => v.closed_render false hv)
      (closed_renderFields fs hfs) h

end

/-! ### Types -/

theorem quote_notMem_of_typeName {n : String} (h : (vocabulary True).typeName n) :
    '"' ∉ n.toList := by
  rcases h with h | h
  · exact quote_notMem_of_name h
  · exact h trivial

theorem closed_renderDimensions : ∀ (ds : List (Nat × Nat)) (forms : List String),
    renderItems (ds.map dimensionTree) = .ok forms → ∀ f ∈ forms, Closed f
  | [], _, h => by
    obtain rfl := Except.ok.inj h
    exact fun f hf => absurd hf List.not_mem_nil
  | (low, high) :: ds, _, h => by
    obtain ⟨first, hfirst, h⟩ := Except.bind_eq_ok.1 h
    obtain ⟨rest, hrest, rfl⟩ := Except.bind_pure_eq_ok.1 h
    refine List.forall_mem_cons.2 ⟨?_, closed_renderDimensions ds rest hrest⟩
    -- A dimension is a pair of numbers.
    have hpair : render true (dimensionTree (low, high)) =
        .ok ("(" ++ commas [toString low, toString high] ++ ")") := by
      simp only [dimensionTree, render, renderItems]
      rfl
    obtain rfl := Except.ok.inj hfirst
    have hnumbers : ∀ f ∈ [toString low, toString high], Closed f := by
      intro f hf
      rcases (by simpa using hf : f = toString low ∨ f = toString high) with rfl | rfl
      · exact (Moves.unmarked (unmarked_toString low)).closed
      · exact (Moves.unmarked (unmarked_toString high)).closed
    exact ((closed_of_notMem (by decide)).append (closed_commas hnumbers)).append
      (closed_of_notMem (by decide))

theorem ArrayType.closed_render {type : ArrayType} (htype : type.Within (vocabulary True))
    {form : String} (h : render false type.toTree = .ok form) : Closed form := by
  obtain ⟨dimensions, hdimensions, h⟩ := Except.bind_eq_ok.1 h
  obtain ⟨element, helement, h⟩ := Except.bind_eq_ok.1 h
  obtain ⟨initial, hinitial, rfl⟩ := Except.bind_pure_eq_ok.1 h
  have hdimensions := closed_render_list false (closed_renderDimensions _) hdimensions
  have helement := closed_render_text false (quote_notMem_of_name htype.1) helement
  have hinitial : Closed initial := by
    cases hvalues : type.initial with
    | none =>
      rw [hvalues] at hinitial
      obtain rfl := Except.ok.inj hinitial
      exact closed_of_notMem (by decide)
    | some values =>
      rw [hvalues] at hinitial
      exact closed_render_list false (closed_renderItems values (htype.2 values hvalues)) hinitial
  have hliteral : ∀ {s : String}, '"' ∉ s.toList → Closed s := closed_of_notMem
  exact ((((((hliteral (by decide)).append hdimensions).append (hliteral (by decide))).append
    helement).append (hliteral (by decide))).append hinitial).append (hliteral (by decide))

mutual

/-- A written type leaves no double quote open. -/
theorem TypeExpr.closed_render : ∀ (type : TypeExpr) {form : String},
    type.Within (vocabulary True) →
    render false type.toTree = .ok form → Closed form
  | .named n, _, hn, h => by
    obtain rfl : n = _ := Except.ok.inj h
    exact closed_of_notMem (quote_notMem_of_typeName hn)
  | .array type, _, htype, h => ArrayType.closed_render htype h
  | .record fs, _, hfs, h => by
    obtain ⟨forms, hforms, rfl⟩ := Except.bind_pure_eq_ok.1 h
    have hfields := Closed.intercalate (closed_of_notMem (by decide : '"' ∉ "; ".toList))
      (closed_renderMembers fs hfs forms hforms)
    exact ((closed_of_notMem (by decide)).append hfields).append (closed_of_notMem (by decide))
  | .omitted, _, _, h => by
    obtain rfl := Except.ok.inj h
    exact closed_of_notMem (by decide)

theorem closed_renderMembers : ∀ fs : List (String × TypeExpr), membersWithin (vocabulary True) fs →
    ∀ forms, renderPairs (memberTrees fs) = .ok forms → ∀ f ∈ forms, Closed f
  | [], _, _, h => by
    obtain rfl := Except.ok.inj h
    exact fun f hf => absurd hf List.not_mem_nil
  | (n, type) :: fs, ⟨hn, htype, hfs⟩, _, h =>
    closed_renderPairs_cons (quote_notMem_of_name hn) (fun _ => type.closed_render htype)
      (closed_renderMembers fs hfs) h

end

/-! ### Designators -/

theorem Expr.render_toTree (e : Expr) : render false e.toTree = .ok "ExpressionNode()" := by
  cases e <;> rfl

theorem moves_expressionNode : Moves "ExpressionNode()" id :=
  (Moves.literal ['(', ')'] (by decide)).congr (funext Depth.closed_opened)

theorem renderTexts_exprTrees (es : List Expr) :
    renderTexts (exprTrees es) = .ok (es.map fun _ => "ExpressionNode()") := by
  induction es with
  | nil => rfl
  | cons e es ih =>
    rw [exprTrees, renderTexts, e.render_toTree, ih]
    rfl

/-- The written form of a designator has as many opening as closing parentheses. -/
theorem Designator.moves_render {quiet : Prop} : ∀ (place : Designator) {form : String},
    place.Within (vocabulary quiet) → render false place.toTree = .ok form → Moves form id
  | .name n, _, hn, h => by
    obtain rfl := Except.ok.inj h
    exact .unmarked hn.2
  | .element base index, _, ⟨hbase, _⟩, h => by
    rw [Designator.toTree, render, index.render_toTree] at h
    obtain ⟨first, hfirst, h⟩ := Except.bind_eq_ok.1 h
    obtain rfl := Except.ok.inj h
    exact ((base.moves_render hbase hfirst).append (.literal [] (by decide))).slot
      moves_expressionNode [] (by decide)
  | .field base n, _, ⟨hbase, hn⟩, h => by
    obtain ⟨first, hfirst, h⟩ := Except.bind_eq_ok.1 h
    obtain rfl := Except.ok.inj h
    exact ((base.moves_render hbase hfirst).append (.literal [] (by decide))).append
      (.unmarked hn.2)
  | .call base arguments, _, ⟨hbase, _⟩, h => by
    rw [Designator.toTree, render, renderElements, renderTexts_exprTrees] at h
    obtain ⟨given, hgiven, h⟩ := Except.bind_eq_ok.1 h
    obtain rfl := Except.ok.inj hgiven
    obtain ⟨first, hfirst, rfl⟩ := Except.bind_pure_eq_ok.1 h
    -- The arguments between the parentheses are balanced by themselves.
    have harguments : Moves (commas (arguments.map fun _ => "ExpressionNode()")) id := by
      refine Moves.intercalate_id (.literal [] (by decide)) ?_
      rw [List.forall_mem_map]
      exact fun _ _ => moves_expressionNode
    refine (((base.moves_render hbase hfirst).append (.literal ['('] (by decide))).slot harguments
      [')'] (by decide)).congr ?_
    exact funext Depth.closed_opened

end MiniPascal
