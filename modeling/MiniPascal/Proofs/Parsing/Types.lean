import MiniPascal.Proofs.Parsing.Expressions

/-!
# Parsing Spelled Constants and Types

Constant values and types are read back from their spelling. Two tokens after an opening parenthesis
tell a record from a list, and an equals sign after an array type belongs to the type.
-/

namespace MiniPascal

open Parse Grammar

/-! ### Lists of values -/

/-- A test that lets values be read up to the closing parenthesis. -/
def SeesValues (more : Parse Bool) : Prop :=
  (∀ ts, kindOf ts ∈ constValueKinds → Gives more ts true ts) ∧
    ∀ ts, kindOf ts = .rparen → Gives more ts false ts

theorem seesValues_atAny : SeesValues (atAny constValueKinds) := by
  refine ⟨fun ts h => ?_, fun ts h => ?_⟩
  · exact List.contains_iff_mem.2 h ▸ gives_atAny constValueKinds ts
  · have hnot : constValueKinds.contains (kindOf ts) = false := by rw [h]; decide
    exact hnot ▸ gives_atAny constValueKinds ts

theorem seesValues_notAtEnd : SeesValues (do return !(← at? .rparen)) := by
  refine ⟨fun ts h => ?_, fun ts h => ?_⟩
  · refine (gives_at? _ _).bind ?_
    have hnot : (kindOf ts == .rparen) = false := by
      revert h
      cases kindOf ts <;> decide
    rw [hnot]
    exact .pure _ _
  · refine (gives_at? _ _).bind ?_
    rw [h]
    exact .pure _ _

theorem ConstValue.startsWith (v : ConstValue) : StartsWith constValueKinds v.lexemes := by
  cases v with
  | number n => exact ⟨.number n, [], rfl, by simp [Lexeme.number, constValueKinds]⟩
  | literal s => exact ⟨.literal s, [], rfl, by simp [Lexeme.literal, constValueKinds]; tauto⟩
  | list | record => exact ⟨.lparen, _, rfl, by decide⟩

/-- Values are read back from their spelling, up to the parenthesis after them. -/
def ValuesRead (vs : List ConstValue) : Prop :=
  ∀ more, SeesValues more →
    Reads (constValues more) 2 (· = .rparen) (Lexeme.separated .comma (constSpellings vs)) vs

theorem nil_valuesRead : ValuesRead [] := fun _ hmore =>
  .succ fun _ _ => .look hmore.2 (.nil fun _ => id) .pure

variable {v : ConstValue} {vs : List ConstValue} {fs : List (String × ConstValue)}

theorem singleton_valuesRead (hv : Parses constValue 1 [] v.lexemes v) : ValuesRead [v] := by
  refine fun more hmore => .succ fun fuel hfuel => ?_
  refine .look hmore.1 (v.startsWith.heads fun _ => id) ?_
  refine ((hv fuel hfuel).mono fun _ _ => List.not_mem_nil).last ?_
  exact .skip_neg (.next (by decide)) .pure

/-- One more value before the others. -/
theorem cons_valuesRead {v' : ConstValue} (hv : Parses constValue 1 [] v.lexemes v)
    (hvs : ValuesRead (v' :: vs)) : ValuesRead (v :: v' :: vs) := by
  refine fun more hmore => .succ fun fuel hfuel => ?_
  simp only [constSpellings, Lexeme.separated, List.length_append, List.length_cons] at hfuel
  refine .look hmore.1 ((v.startsWith.append _).heads fun _ => id) ?_
  refine (hv fuel (by omega)).bind (.cons (by decide)) (.skip rfl ?_)
  exact (hvs more hmore fuel (by simp only [constSpellings]; omega)).give

/-! ### Named values -/

/-- Named values are read back from their spelling, up to the parenthesis after them. -/
def FieldValuesRead (fs : List (String × ConstValue)) : Prop :=
  Reads fieldValues 2 (· = .rparen) (Lexeme.separated .semicolon (fieldSpellings fs)) fs

theorem singleton_fieldValuesRead (n : String) (hv : Parses constValue 1 [] v.lexemes v) :
    FieldValuesRead [(n, v)] := by
  refine .succ fun fuel hfuel => .at?_pos (.cons rfl) (.take rfl (.take rfl ?_))
  simp only [fieldSpellings, Lexeme.separated, List.length_cons] at hfuel
  refine ((hv fuel (by omega)).mono fun _ _ => List.not_mem_nil).last ?_
  exact .atAny_neg (.next (by decide)) .pure

/-- One more named value before the others. -/
theorem cons_fieldValuesRead {f : String × ConstValue} (n : String)
    (hv : Parses constValue 1 [] v.lexemes v) (hfs : FieldValuesRead (f :: fs)) :
    FieldValuesRead ((n, v) :: f :: fs) := by
  refine .succ fun fuel hfuel => .at?_pos (.cons rfl) (.take rfl (.take rfl ?_))
  simp only [fieldSpellings, Lexeme.separated, List.length_append, List.length_cons] at hfuel
  refine (hv fuel (by omega)).bind (.cons (by decide)) ?_
  refine .atAny_pos (.cons (by decide)) (.takeAny ?_)
  exact (hfs fuel (by simp only [fieldSpellings]; omega)).give

/-! ### Constant values -/

theorem number_constValue_parses {n : Nat} (h : IsNumeral n) :
    Parses constValue 1 [] [.number n] (.number n) :=
  .succ fun _ _ => .kind .number (.cons rfl) (.takeNumber (Text.readNat?_toString h) .pure)

theorem literal_constValue_parses (s : String) :
    Parses constValue 1 [] [.literal s] (.literal s) := by
  refine .succ fun _ _ => ?_
  by_cases hs : s.length = 1
  · exact .kind .char (.cons (if_pos hs)) (.take (if_pos hs) .pure)
  · exact .kind .string (.cons (if_neg hs)) (.take (if_neg hs) .pure)

/-- Values in parentheses. None of them starts with a name, so that they are not taken for a
record. -/
theorem list_constValue_parses (hvs : ValuesRead vs) :
    Parses constValue 1 [] (ConstValue.list vs).lexemes (.list vs) := by
  refine .succ fun fuel hfuel => .kind .lparen (.cons rfl) fun ts rest hts hrest => ?_
  simp only [ConstValue.lexemes, List.length_append, List.length_cons, List.length_nil] at hfuel
  obtain ⟨fuel, rfl⟩ : ∃ f, fuel = f + 1 := ⟨fuel - 1, by omega⟩
  have hread : Accepts (listValue (fuel + 1)) (· ∉ []) (ConstValue.list vs).lexemes vs :=
    .take rfl ((hvs _ seesValues_atAny fuel (by omega)).bind (.cons rfl) (.take rfl .pure))
  have hfirst : Heads (Lexeme.separated .comma (constSpellings vs) ++ [.rparen]) (· ∉ [])
      (· ≠ .identifier) := by
    cases vs with
    | nil => exact .cons (by decide)
    | cons v vs => exact ((v.startsWith.separated _ _).append _).heads (by decide)
  -- So the test for a record, which looks for a name after the parenthesis, fails.
  have hlist : ts[1]?.map Token.kind ≠ some .identifier := by
    obtain ⟨t, ts, rfl, -, -, hts⟩ := spells_cons.1 hts
    intro hname
    refine hfirst hts hrest ?_
    cases ts with
    | nil => exact absurd hname (Option.some_ne_none _).symm
    | cons u ts => exact Option.some.inj hname
  exact (gives_get _).bind (.ite_neg (fun h => hlist h.1) (hread.give hts hrest))

/-- Named values in parentheses. The first name and the colon after it tell them from a list. -/
theorem record_constValue_parses (hne : fs ≠ []) (hfs : FieldValuesRead fs) :
    Parses constValue 1 [] (ConstValue.record fs).lexemes (.record fs) := by
  refine .succ fun fuel hfuel => .kind .lparen (.cons rfl) fun ts rest hts hrest => ?_
  simp only [ConstValue.lexemes, List.length_append, List.length_cons, List.length_nil] at hfuel
  obtain ⟨fuel, rfl⟩ : ∃ f, fuel = f + 1 := ⟨fuel - 1, by omega⟩
  have hread : Accepts (recordValue (fuel + 1)) (· ∉ []) (ConstValue.record fs).lexemes fs :=
    .take rfl ((hfs fuel (by omega)).bind (.cons rfl) (.take rfl .pure))
  have hrecord : ts[1]?.map Token.kind = some .identifier ∧
      ts[2]?.map Token.kind = some .colon := by
    obtain ⟨⟨n, v⟩, fs, rfl⟩ := List.exists_cons_of_ne_nil hne
    obtain ⟨ls, hls⟩ : ∃ ls, (ConstValue.record ((n, v) :: fs)).lexemes =
        .lparen :: .name n :: .colon :: ls := by
      cases fs with
      | nil | cons f fs => exact ⟨_, rfl⟩
    rw [hls] at hts
    obtain ⟨_, _, rfl, -, -, hts⟩ := spells_cons.1 hts
    obtain ⟨w, _, rfl, (hw : w.kind = .identifier), -, hts⟩ := spells_cons.1 hts
    obtain ⟨w', _, rfl, (hw' : w'.kind = .colon), -, -⟩ := spells_cons.1 hts
    exact ⟨congrArg some hw, congrArg some hw'⟩
  exact (gives_get _).bind (.ite_pos hrecord (hread.give hts hrest))

mutual

theorem ConstValue.parses :
    ∀ v : ConstValue, v.WellFormed → Parses constValue 1 [] v.lexemes v
  | .number _, h => number_constValue_parses h
  | .literal s, _ => literal_constValue_parses s
  | .list vs, h => list_constValue_parses (consts_read vs h)
  | .record fs, ⟨hne, h⟩ => record_constValue_parses hne (fieldValues_read fs hne h)

theorem consts_read : ∀ vs : List ConstValue, constsWellFormed vs → ValuesRead vs
  | [], _ => nil_valuesRead
  | [v], ⟨hv, _⟩ => singleton_valuesRead (v.parses hv)
  | v :: v' :: vs, ⟨hv, hvs⟩ => cons_valuesRead (v.parses hv) (consts_read (v' :: vs) hvs)

theorem fieldValues_read : ∀ fs : List (String × ConstValue), fs ≠ [] → fieldsWellFormed fs →
    FieldValuesRead fs
  | [], h, _ => absurd rfl h
  | [(n, v)], _, ⟨hv, _⟩ => singleton_fieldValuesRead n (v.parses hv)
  | (n, v) :: f :: fs, _, ⟨hv, hfs⟩ =>
    cons_fieldValuesRead n (v.parses hv) (fieldValues_read (f :: fs) (List.cons_ne_nil _ _) hfs)

end

/-! ### Repetitions -/

variable {fuel : Nat} {next : TokenKind → Prop} {ls : List Lexeme} {fs : List (String × TypeExpr)}

section Repetitions

variable {α β γ : Type} {body : Parse β} {spelling : α → List Lexeme} {mark : Lexeme} {a : α}
  {as : List α} {stop : List TokenKind}

theorem separated_map_cons :
    Lexeme.separated mark ((a :: as).map spelling) =
      spelling a ++ as.flatMap fun a' => mark :: spelling a' := by
  induction as generalizing a with
  | nil => exact (List.append_nil _).symm
  | cons b bs ih =>
    rw [List.map_cons, List.map_cons, Lexeme.separated, ← List.map_cons, ih]
    rfl

/-- What follows an item is the mark of the next one, or what follows them all. -/
theorem heads_marked (as : List α) (spelling : α → List Lexeme) (hmark : mark.1 ∉ stop)
    (h : Heads ls next (· ∉ mark.1 :: stop)) :
    Heads ((as.flatMap fun a => mark :: spelling a) ++ ls) next (· ∉ stop) := by
  cases as with
  | nil => exact h.mono fun _ hk hmem => hk (List.mem_cons_of_mem _ hmem)
  | cons b bs => exact .cons hmark

/-- Items with a mark before each of them are read one after the other, as often as the mark
follows. -/
theorem repeatWhile_accepts (value : α → β) (hmark : mark.1 ∉ stop)
    (hbody : ∀ a ∈ as, Accepts body (· ∉ stop) (spelling a) (value a)) (hfuel : as.length < fuel) :
    Accepts (repeatWhile (skip mark.1) body fuel) (· ∉ mark.1 :: stop)
      (as.flatMap fun a => mark :: spelling a) (as.map value) := by
  induction as generalizing fuel with
  | nil =>
    obtain ⟨fuel, rfl⟩ : ∃ f, fuel = f + 1 := ⟨fuel - 1, by omega⟩
    exact .skip_neg (.stop List.mem_cons_self) .pure
  | cons b bs ih =>
    obtain ⟨fuel, rfl⟩ : ∃ f, fuel = f + 1 := ⟨fuel - 1, by omega⟩
    have hmore := ih (fun a h => hbody a (List.mem_cons_of_mem b h)) (Nat.lt_of_succ_lt_succ hfuel)
    have hnext := heads_marked bs spelling hmark (.nil fun _ => id)
    rw [List.append_nil] at hnext
    exact .skip rfl ((hbody b List.mem_cons_self).bind hnext hmore.give)

/-- One item, and the others with a mark before each of them. -/
theorem separated_accepts (mark : Lexeme) (value : α → β)
    (hmark : mark.1 ∉ stop)
    (hbody : ∀ a' ∈ a :: as, Accepts body (· ∉ stop) (spelling a') (value a'))
    (hfuel : as.length < fuel) {f : β → List β → Parse γ} {c : γ}
    (hls : Heads ls next (· ∉ mark.1 :: stop))
    (hf : Accepts (f (value a) (as.map value)) next ls c) :
    Accepts (body >>= fun first => repeatWhile (skip mark.1) body fuel >>= f first) next
      (Lexeme.separated mark ((a :: as).map spelling) ++ ls) c := by
  rw [separated_map_cons, List.append_assoc]
  refine (hbody a List.mem_cons_self).bind (heads_marked as spelling hmark hls) ?_
  have hothers := fun a' h => hbody a' (List.mem_cons_of_mem a h)
  exact (repeatWhile_accepts value hmark hothers hfuel).bind hls hf

theorem length_le_separated (mark : Lexeme) (spelling : α → List Lexeme)
    (hne : ∀ a, spelling a ≠ []) :
    ∀ as : List α, as.length ≤ (Lexeme.separated mark (as.map spelling)).length
  | [] => Nat.le_refl 0
  | [a] => List.length_pos_iff.2 (hne a)
  | a :: b :: as => by
    have hrest := length_le_separated mark spelling hne (b :: as)
    simp only [List.map_cons, Lexeme.separated, List.length_append, List.length_cons] at hrest ⊢
    omega

theorem length_le_separated_of_mem (mark : Lexeme) (spelling : α → List Lexeme) :
    ∀ {as : List α}, a ∈ as →
      (spelling a).length ≤ (Lexeme.separated mark (as.map spelling)).length
  | [b], h => by
    rw [List.mem_singleton.1 h]
    exact Nat.le_refl _
  | b :: c :: as, h => by
    rw [List.map_cons, List.map_cons, Lexeme.separated, List.length_append, List.length_cons]
    rcases List.mem_cons.1 h with rfl | h
    · omega
    · have hrest := length_le_separated_of_mem mark spelling h
      rw [List.map_cons] at hrest
      omega

end Repetitions

theorem names_accepts {β : Type} {f : List String → Parse β} {b : β} {n : String} (hfuel : 0 < fuel)
    (hls : Heads ls next (· ≠ .comma)) (hf : Accepts (f [n]) next ls b) :
    Accepts (names fuel >>= f) next (.name n :: ls) b := by
  obtain ⟨fuel, rfl⟩ : ∃ f, fuel = f + 1 := ⟨fuel - 1, by omega⟩
  have hnames : Accepts (names (fuel + 1)) (· ≠ .comma) [.name n] [n] :=
    .take rfl (Accepts.give (.skip_neg (.nil fun _ => id) .pure))
  exact hnames.bind hls hf

/-! ### Array types -/

theorem dimension_accepts {d : Nat × Nat} (h : IsNumeral d.1 ∧ IsNumeral d.2) :
    Accepts dimension next (dimensionLexemes d) d :=
  .takeNumber (Text.readNat?_toString h.1)
    (.take rfl (.takeNumber (Text.readNat?_toString h.2) .pure))

/-- The kinds of token that go on with an array type: it has no values yet. -/
def ArrayType.stop (a : ArrayType) : List TokenKind :=
  if a.initial = none then [.eq] else []

/-- An array type is read back from its spelling, with the values after it. -/
theorem ArrayType.parses {a : ArrayType} (h : a.WellFormed) :
    Parses (arrayType true) 1 a.stop a.lexemes a := by
  intro fuel hfuel
  obtain ⟨hnumerals, hinitial⟩ := h
  -- There is fuel for every dimension after the first one.
  have hlength : a.others.length <
      (Lexeme.separated .comma (a.dimensions.map dimensionLexemes)).length :=
    length_le_separated .comma dimensionLexemes (fun _ => List.cons_ne_nil _ _) a.dimensions
  obtain ⟨first, others, element, initial⟩ := a
  simp only [ArrayType.lexemes, List.length_append, List.length_cons] at hfuel hlength
  refine .take rfl (.take rfl (separated_accepts .comma id List.not_mem_nil
    (fun d hd => dimension_accepts (hnumerals d hd)) (hlength.trans_le (by omega))
    (.cons (by decide)) ?_))
  rw [List.map_id]
  refine .take rfl (.take rfl (.at?_pos (.cons rfl) (.ite_neg (by decide) (.take rfl ?_))))
  cases initial with
  | none => exact .at?_neg (.stop (List.mem_singleton_self _)) .pure
  | some values =>
    simp only [initialLexemes, List.length_append, List.length_cons] at hfuel
    have hread := consts_read values (hinitial values rfl) _ seesValues_notAtEnd fuel (by omega)
    exact .at?_pos (.cons rfl) (.takeAny (.take rfl (hread.bind (.cons rfl) (.take rfl .pure))))

/-! ### Types -/

/-- The kinds of token that can go on with a type. Where no type is written, one could start. -/
def typeStop : List TokenKind := [.eq, .kwArray, .kwRecord, .identifier, .string]

theorem named_typeExpr_parses (n : String) : Parses typeExpr 2 typeStop [.name n] (.named n) :=
  .succ fun _ _ => .kind .identifier (.cons rfl) (.take rfl .pure)

theorem array_typeExpr_parses {a : ArrayType} (h : a.WellFormed) :
    Parses typeExpr 2 typeStop a.lexemes (.array a) := by
  have hstop : a.stop ⊆ typeStop := by
    rw [ArrayType.stop]
    split <;> decide
  refine .succ fun fuel hfuel => .kind .kwArray (.cons rfl) ?_
  exact ((ArrayType.parses h fuel hfuel).weaken hstop).give

theorem omitted_typeExpr_parses : Parses typeExpr 2 typeStop [] .omitted := by
  refine .succ fun fuel _ ts rest hts hrest => ?_
  obtain rfl := spells_nil.1 hts
  refine (gives_kind _).bind ?_
  revert hrest
  cases kindOf ts <;> first | exact fun _ => .pure _ _ | exact fun h => absurd h (by decide)

/-- The members of a record type are read back from their spelling, up to the `END` after them. -/
def MembersRead (fs : List (String × TypeExpr)) : Prop :=
  Reads members 1 (· = .kwEnd) (membersLexemes fs) fs

theorem nil_membersRead : MembersRead [] :=
  .succ fun _ _ => .at?_pos (.next rfl) .pure

/-- One more member before the others. -/
theorem cons_membersRead {type : TypeExpr} (n : String)
    (htype : Parses typeExpr 2 typeStop type.lexemes type) (hfs : MembersRead fs) :
    MembersRead ((n, type) :: fs) := by
  refine .succ fun fuel hfuel => .at?_neg (.cons TokenKind.noConfusion) ?_
  simp only [membersLexemes, List.length_append, List.length_cons] at hfuel
  refine names_accepts (by omega) (.cons (by decide)) (.take rfl ?_)
  exact (htype fuel (by omega)).bind (.cons (by decide)) (.skip rfl (hfs fuel (by omega)).give)

/-- The members between `RECORD` and `END`. -/
theorem record_typeExpr_parses (hfs : MembersRead fs) :
    Parses typeExpr 2 typeStop (TypeExpr.record fs).lexemes (.record fs) := by
  refine .succ fun fuel hfuel => .kind .kwRecord (.cons rfl) ?_
  simp only [TypeExpr.lexemes, List.length_append, List.length_cons, List.length_nil] at hfuel
  obtain ⟨fuel, rfl⟩ : ∃ f, fuel = f + 1 := ⟨fuel - 1, by omega⟩
  refine Accepts.give (.take rfl ?_)
  exact (hfs fuel (by omega)).bind (.cons rfl) (.take rfl .pure)

mutual

/-- A type is read back from its spelling. -/
theorem TypeExpr.parses :
    ∀ type : TypeExpr, type.WellFormed → Parses typeExpr 2 typeStop type.lexemes type
  | .named n, _ => named_typeExpr_parses n
  | .array _, h => array_typeExpr_parses h
  | .record fs, h => record_typeExpr_parses (members_read fs h)
  | .omitted, _ => omitted_typeExpr_parses

theorem members_read : ∀ fs : List (String × TypeExpr), membersWellFormed fs → MembersRead fs
  | [], _ => nil_membersRead
  | (n, type) :: fs, ⟨h, hfs⟩ => cons_membersRead n (type.parses h) (members_read fs hfs)

end

end MiniPascal
