import MiniPascal.Proofs.Handover.Tables
import MiniPascal.Proofs.Listing.Names

/-!
# Bodies That Are Listed Alike

Code that makes no use of what lies around its scope is listed alike with the scope and with a table
by itself that has the names of the scope. What the listings of single variables, elements and
fields read from entries is the same for entries that are alike, and all other code is listed by its
parts.
-/

namespace MiniPascal.Listing

open MiniPascal.Tree

variable {context : Context} {k : Nat} {x y : Except Fault Tree} {t t' : Table}

/-! ### Single names -/

/-- The two forms of the entry of a parameter that are alike. -/
theorem AnswersAlike.bind {α : Type} {f g : Tree → Except Fault α}
    (h : AnswersAlike x y) (hsame : ∀ entry, f entry = g entry)
    (hparameter : ∀ n, isTypeWord n = true →
      f (.dict [("kind", .text "parameter"), ("type", .typeName (.text n) .null)]) =
        g (.dict [("kind", .text "parameter"), ("type", .text n)])) :
    (x >>= f) = (y >>= g) := by
  rcases h with rfl | ⟨a, b, rfl, rfl, h⟩
  · exact congrArg (x >>= ·) (funext hsame)
  · cases h with
    | refl => exact hsame a
    | parameter hn => exact hparameter _ hn

/-- A variable is listed alike by answers that are alike, or if it is listed by its name alone. -/
theorem variableCode_of_answersClose (h : AnswersClose x y) (isAddress : Bool) (n : String) :
    (x >>= variableCode isAddress (.text n)) = (y >>= variableCode isAddress (.text n)) := by
  rcases h with h | ⟨a, rfl, ha, rfl⟩
  · exact h.bind (fun _ => rfl) fun _ _ => rfl
  · obtain ⟨kind, info, type, hkind, hinfo, htype, hparameter, hbasic, hrecord, harray⟩ :=
      exists_of_isSilent ha
    change variableCode isAddress (.text n) a = .ok (.text n)
    rw [variableCode]
    split
    · rfl
    · have hplain : (Tree.text n).plain = .ok n := rfl
      simp [hplain, hkind, hinfo, htype, hparameter, hbasic, hrecord, harray, bind, Except.bind,
        pure, Except.pure]

section Lookups

variable {t t' : Table} {name : Tree}
  (h : AnswersAlike (t.lookup context name) (t'.lookup context name))

include h

/-- Elements of an array are listed alike if the answers about the array are alike. -/
theorem accessCode_of_answersAlike {indices : Tree} {part : Option ExpressionPart}
    (hindex : firstIndexCode indices part t = firstIndexCode indices part t') (isAddress : Bool) :
    accessCode context isAddress t name indices part =
      accessCode context isAddress t' name indices part :=
  h.bind (fun _ => by rw [hindex]) fun _ _ => rfl

/-- An assignment to an element of an array is listed alike if the answers about the array are. -/
theorem elementAssignment_of_answersAlike {target : Tree} (htarget : target.get "array" = .ok name)
    (address value : String) :
    elementAssignment context t target address value =
      elementAssignment context t' target address value := by
  rw [elementAssignment, elementAssignment, htarget]
  refine congrArg (target.get "type" >>= ·) (funext fun type => ?_)
  split
  · exact h.bind (fun _ => rfl) fun _ _ => rfl
  · rfl

end Lookups

/-- The parts of code are listed alike, as far as they are listed at all. -/
structure PartsAlike (t t' : Table) (parts : List (String × ExpressionPart)) : Prop where
  /-- Parts that are listed whole. -/
  listing : ∀ {key part}, key ∉ namingKeys →
    parts.lookup key = some part → ∀ isAddress, part.listing isAddress t = part.listing isAddress t'
  /-- Elements of parts of which all elements are listed. -/
  elements : ∀ {key part elements}, key ∉ namingKeys →
    parts.lookup key = some part → part.elements = .ok elements →
    ∀ e ∈ elements, ∀ isAddress, e.2 isAddress t = e.2 isAddress t'
  /-- The first index. -/
  index : ∀ {part element listing rest}, parts.lookup "indices" = some part →
    part.elements = .ok ((element, listing) :: rest) →
    indexCode element listing t = indexCode element listing t'

namespace PartsAlike

variable {t t' : Table} {parts : List (String × ExpressionPart)} (h : PartsAlike t t' parts)

include h

/-- A part that is listed whole. -/
theorem listed {α : Type} {key : String} (hkey : key ∉ namingKeys)
    (isAddress : Bool) {f g : String → Except Fault α} (hnext : ∀ code, f code = g code) :
    ((match parts.lookup key with
      | some part => do (← part.listing isAddress t).plain
      | none => .error .noSuchPart) >>= f) =
    ((match parts.lookup key with
      | some part => do (← part.listing isAddress t').plain
      | none => .error .noSuchPart) >>= g) := by
  rw [funext hnext]
  split
  next part hpart => rw [h.listing hkey hpart]
  next => rfl

/-- A part of which all elements are listed. -/
theorem joined {key : String} (hkey : key ∉ namingKeys)
    (isAddress : Bool) :
    joinedListings isAddress t (parts.lookup key) =
      joinedListings isAddress t' (parts.lookup key) := by
  unfold joinedListings
  cases hpart : parts.lookup key with
  | none => rfl
  | some part =>
    cases helements : part.elements with
    | error => simp only [helements]; rfl
    | ok elements =>
      have hcodes : elements.mapM (fun e => e.2 isAddress t) =
          elements.mapM fun e => e.2 isAddress t' :=
        mapM_eq_of_forall₂ (List.forall₂_same.2 fun e he =>
          h.elements hkey hpart helements e he isAddress)
      simp only [helements]
      exact congrArg (fun codes => do return " ".intercalate (← (← codes).mapM textOf)) hcodes

theorem firstIndex (indices : Tree) :
    firstIndexCode indices (parts.lookup "indices") t =
      firstIndexCode indices (parts.lookup "indices") t' := by
  rw [firstIndexCode, firstIndexCode]
  split
  · split
    next part hpart =>
      cases helements : part.elements with
      | error => rfl
      | ok elements =>
        cases elements with
        | nil => cases indices <;> rfl
        | cons e rest =>
          cases indices with
          | dict => rfl
          | _ => exact h.index hpart helements
    next => rfl
  · rfl

end PartsAlike

section Local

variable (hown : OwnAlike context k) {name : Tree}

include hown

theorem answersAlike_of_namePasses (h : name.namePasses (context.scopes.isOwn k) = true) :
    AnswersAlike ((Table.scope k).lookup context name)
      ((Table.spelled context.scopes k).lookup context name) := by
  cases name with
  | text n => exact Table.answersAlike_of_isOwn hown h
  | _ => exact .inl rfl

theorem answersClose_of_namePasses (h : name.namePasses (context.scopes.isOwnOrSilent k) = true) :
    AnswersClose ((Table.scope k).lookup context name)
      ((Table.spelled context.scopes k).lookup context name) := by
  cases name with
  | text n => exact Table.answersClose_of_isOwnOrSilent hown h
  | _ => exact .inl (.inl rfl)

/-- A variable is listed alike if it is not taken from around the scope, or listed by itself. -/
theorem variable_of_namePasses (h : name.namePasses (context.scopes.isOwnOrSilent k) = true)
    (isAddress : Bool) :
    ((Table.scope k).lookup context name >>= variableCode isAddress name) =
      ((Table.spelled context.scopes k).lookup context name >>= variableCode isAddress name) := by
  cases name with
  | text n => exact variableCode_of_answersClose (answersClose_of_namePasses hown h) isAddress n
  | _ => rfl

/-- A field is listed alike if the record starts with a name of the scope. -/
theorem fieldCode_of_startIsOwn {record : Tree} (h : record.startIsOwn context.scopes k = true)
    (field : Tree) (isAddress : Bool) :
    fieldCode context isAddress (.scope k) record field =
      fieldCode context isAddress (.spelled context.scopes k) record field := by
  cases record with
  | dict entries =>
    rw [startIsOwn] at h
    rw [fieldCode, fieldCode]
    cases hname : entries.lookup "name" with
    | some name =>
      rw [hname] at h
      have hholds : holds (.dict entries) "name" = .ok true := by rw [holds, hname]; rfl
      have hentry : (Tree.dict entries).entry "name" = .ok name := by
        rw [Tree.entry, hname, entry.found]
      rw [hholds, hentry]
      exact (answersAlike_of_namePasses hown h).bind (fun _ => rfl) fun _ _ => rfl
    | none =>
      rw [hname] at h
      have hholds : holds (.dict entries) "name" = .ok false := by rw [holds, hname]; rfl
      rw [hholds]
      cases harray : entries.lookup "array" with
      | some array =>
        rw [harray] at h
        have hholds : holds (.dict entries) "array" = .ok true := by rw [holds, harray]; rfl
        have hentry : (Tree.dict entries).entry "array" = .ok array := by
          rw [Tree.entry, harray, entry.found]
        rw [hholds, hentry]
        exact (answersAlike_of_namePasses hown h).bind (fun _ => rfl) fun _ _ => rfl
      | none =>
        have hholds : holds (.dict entries) "array" = .ok false := by rw [holds, harray]; rfl
        rw [hholds]
        rfl
  | _ => rfl

/-! ### Expressions -/

/-- Code is listed alike if its entries are local and its parts are listed alike. -/
theorem expressionCode_of_local {entries : List (String × Tree)}
    {parts : List (String × ExpressionPart)} (h : EntriesLocal context.scopes k entries)
    (hparts : PartsAlike (.scope k) (.spelled context.scopes k) parts) (isAddress : Bool) :
    expressionCode context entries parts isAddress (.scope k) =
      expressionCode context entries parts isAddress (.spelled context.scopes k) := by
  unfold expressionCode
  dsimp only
  split
  · rfl
  · rfl
  · rfl
  · exact variable_of_namePasses hown h.name isAddress
  · split
    · exact hparts.listed (by decide) _ fun _ => hparts.listed (by decide) _ fun _ => rfl
    · rfl
  · split
    · exact hparts.listed (by decide) _ fun _ => hparts.listed (by decide) _ fun _ => rfl
    · rfl
  · rw [hparts.joined (by decide)]
  · exact accessCode_of_answersAlike (answersAlike_of_namePasses hown h.array)
      (hparts.firstIndex _) isAddress
  · rw [fieldCode_of_startIsOwn hown h.record]
  · rfl

end Local

theorem expression_of_isBlockCode {t : Tree} (h : t.isBlockCode = true) (isAddress : Bool)
    (table : Table) : expression context t isAddress table = .ok (.text "UNKNOWN_EXPR") := by
  cases t with
  | dict entries =>
    simp only [isBlockCode, isBlockType, isOneOf, List.any_cons, List.any_nil, Bool.or_false,
      Bool.or_eq_true] at h
    rw [expression, expressionCode]
    dsimp only
    rcases h with h | h <;> rw [eq_text_of_isTextOf h] <;> rfl
  | _ => exact absurd h Bool.false_ne_true

/-- An index that is a number or a single variable is listed without a table. -/
theorem indexCode_of_isPlainIndex {element : Tree} (h : element.isPlainIndex = true)
    (listing : ExpressionListing) (t t' : Table) :
    indexCode element listing t = indexCode element listing t' := by
  cases element with
  | dict entries =>
    simp only [isPlainIndex, isOneOf, List.any_cons, List.any_nil, Bool.or_false,
      Bool.or_eq_true] at h
    have htype : (Tree.dict entries).get "type" = .ok ((entries.lookup "type").getD null) := rfl
    rw [indexCode, indexCode, htype]
    rcases h with h | h <;> rw [eq_text_of_isTextOf h] <;> rfl
  | _ => exact absurd h Bool.false_ne_true

theorem listing_of_elements {x : Except Fault (List Tree)}
    {elements : List (Tree × ExpressionListing)}
    (h : (do return (← x).map fun element => (element, noExpression)) = Except.ok elements) :
    ∀ e ∈ elements, e.2 = noExpression := by
  obtain ⟨found, -, h⟩ := Except.bind_eq_ok.1 h
  rw [← Except.pure_eq_ok.1 h]
  intro e he
  obtain ⟨element, -, rfl⟩ := List.mem_map.1 he
  rfl

theorem PartsAlike.nil : PartsAlike t t' [] := ⟨nofun, nofun, nofun⟩

/-- One more part, which is listed whole, or by its first index, or not at all. -/
theorem PartsAlike.cons {key : String} {part : ExpressionPart}
    {parts : List (String × ExpressionPart)}
    (hwhole : key ∉ namingKeys →
      (∀ isAddress, part.listing isAddress t = part.listing isAddress t') ∧
      ∀ elements, part.elements = .ok elements →
        ∀ e ∈ elements, ∀ isAddress, e.2 isAddress t = e.2 isAddress t')
    (hindex : key = "indices" → ∀ element listing rest,
      part.elements = .ok ((element, listing) :: rest) →
        indexCode element listing t = indexCode element listing t')
    (h : PartsAlike t t' parts) : PartsAlike t t' ((key, part) :: parts) where
  listing {other found} hkey hfound isAddress := by
    rw [List.lookup_cons] at hfound
    split at hfound
    next heq =>
      obtain rfl := Option.some.inj hfound
      obtain rfl := eq_of_beq heq
      exact (hwhole hkey).1 isAddress
    next => exact h.listing hkey hfound isAddress
  elements {other found elements} hkey hfound helements := by
    rw [List.lookup_cons] at hfound
    split at hfound
    next heq =>
      obtain rfl := Option.some.inj hfound
      obtain rfl := eq_of_beq heq
      exact (hwhole hkey).2 elements helements
    next => exact h.elements hkey hfound helements
  index {found element listing rest} hfound helements := by
    rw [List.lookup_cons] at hfound
    split at hfound
    next heq =>
      obtain rfl := Option.some.inj hfound
      exact hindex (eq_of_beq heq).symm element listing rest helements
    next => exact h.index hfound helements

mutual

/-- An expression that makes no use of what lies around its scope is listed alike with the scope and
with the names of the scope alone. -/
theorem expression_of_isLocal (hown : OwnAlike context k) (t : Tree)
    (h : t.isLocal context.scopes k = true) (isAddress : Bool) :
    expression context t isAddress (.scope k) =
      expression context t isAddress (.spelled context.scopes k) := by
  cases t with
  | dict entries =>
    exact expressionCode_of_local hown (entriesLocal_of_test h)
      (partsAlike_of_local hown entries h) isAddress
  | _ => rfl

theorem partsAlike_of_local (hown : OwnAlike context k)
    (entries : List (String × Tree)) (h : entriesAreLocal context.scopes k entries = true) :
    PartsAlike (.scope k) (.spelled context.scopes k) (expressionParts context entries) := by
  cases entries with
  | nil => exact .nil
  | cons e rest =>
    obtain ⟨key, value⟩ := e
    rw [entriesAreLocal, Bool.and_eq_true] at h
    refine .cons (fun hkey => ?_) ?_ (partsAlike_of_local hown rest h.2)
    · have hvalue := h.1
      simp only [namingKeys, List.mem_cons, not_or] at hkey
      rw [if_neg hkey.1, if_neg hkey.2.1, if_neg hkey.2.2.1, if_neg hkey.2.2.2.1] at hvalue
      exact ⟨expression_of_isLocal hown value hvalue, elements_of_isLocal hown value hvalue⟩
    · rintro rfl
      exact firstIndex_of_local hown value h.1

theorem elements_of_isLocal (hown : OwnAlike context k)
    (t : Tree) (h : t.isLocal context.scopes k = true) (elements : List (Tree × ExpressionListing))
    (helements : expressionElements context t = .ok elements) :
    ∀ e ∈ elements, ∀ isAddress,
      e.2 isAddress (.scope k) = e.2 isAddress (.spelled context.scopes k) := by
  cases t with
  | list items | tuple items =>
    obtain rfl := Except.ok.inj helements
    exact items_of_local hown items h
  | _ => exact fun e he _ => by rw [listing_of_elements helements e he]; rfl

theorem items_of_local (hown : OwnAlike context k)
    (items : List Tree) (h : itemsAreLocal context.scopes k items = true) :
    ∀ e ∈ expressionItems context items, ∀ isAddress,
      e.2 isAddress (.scope k) = e.2 isAddress (.spelled context.scopes k) := by
  cases items with
  | nil => exact nofun
  | cons item rest =>
    rw [itemsAreLocal, Bool.and_eq_true, Bool.or_eq_true] at h
    refine List.forall_mem_cons.2 ⟨fun isAddress => ?_, items_of_local hown rest h.2⟩
    rcases h.1 with hblock | hitem
    · exact (expression_of_isBlockCode hblock isAddress _).trans
        (expression_of_isBlockCode hblock isAddress _).symm
    · exact expression_of_isLocal hown item hitem isAddress

theorem firstIndex_of_local (hown : OwnAlike context k)
    (t : Tree) (h : t.firstIsLocal context.scopes k = true) (element : Tree)
    (listing : ExpressionListing) (rest : List (Tree × ExpressionListing))
    (helements : expressionElements context t = .ok ((element, listing) :: rest)) :
    indexCode element listing (.scope k) =
      indexCode element listing (.spelled context.scopes k) := by
  cases t with
  | list items | tuple items =>
    exact head_of_local hown items h element listing rest (Except.ok.inj helements)
  | _ =>
    have hlisting : listing = noExpression := listing_of_elements helements _ List.mem_cons_self
    rw [hlisting]
    rfl

theorem head_of_local (hown : OwnAlike context k)
    (items : List Tree) (h : headIsLocal context.scopes k items = true) (element : Tree)
    (listing : ExpressionListing) (rest : List (Tree × ExpressionListing))
    (hitems : expressionItems context items = (element, listing) :: rest) :
    indexCode element listing (.scope k) =
      indexCode element listing (.spelled context.scopes k) := by
  cases items with
  | nil => exact absurd hitems nofun
  | cons item others =>
    obtain ⟨rfl, rfl⟩ := Prod.mk.inj (List.cons.inj hitems).1
    rw [headIsLocal, Bool.or_eq_true] at h
    rcases h with hplain | hitem
    · exact indexCode_of_isPlainIndex hplain _ _ _
    · rw [indexCode, indexCode, expression_of_isLocal hown item hitem]

end

/-! ### Statements -/

/-- The name of a type is the name of no compound one. -/
theorem isTextOf_of_isTypeWord {n : String} (h : isTypeWord n = true) :
    (Tree.text n).isTextOf "record" = false ∧ (Tree.text n).isTextOf "array" = false := by
  have hword : n ∉ ["array", "record"] := by simpa [isTypeWord] using h
  simp only [List.mem_cons, not_or] at hword
  exact ⟨beq_eq_false_iff_ne.2 hword.2.1, beq_eq_false_iff_ne.2 hword.1⟩

/-- A part of a statement is listed alike in any of its roles. -/
structure PartAlike (t t' : Table) (part : StatementPart) : Prop where
  statement : part.statement t = part.statement t'
  block : ∀ indent, part.block indent t = part.block indent t'
  elements : ∀ {statements}, part.elements = .ok statements → ∀ s ∈ statements, s t = s t'

/-- The parts of a statement are listed alike, as far as they are listed at all. -/
def StatementsAlike (t t' : Table) (parts : List (String × StatementPart)) : Prop :=
  ∀ key ∉ namingKeys, ∀ part, parts.lookup key = some part → PartAlike t t' part

/-- The listing of an assignment by what is known about the name that is assigned to; `other` is
listed unless the name stands for a record or an array. -/
def assignTo (address shown : String) (other : Except Fault String) (symbol : Tree) :
    Except Fault String :=
  if symbol.isTruthy then do
    let info ← valueInfo symbol
    let type ← info.get "type"
    if type.isTextOf "record" then return s!"{address} {shown}"
    else if type.isTextOf "array" then arrayCopy info address shown
    else other
  else other

/-- A variable that is listed by its name alone is neither a record nor an array. -/
theorem assignTo_of_isSilent {entry : Tree} (h : entry.isSilent = true) (address shown : String)
    (other : Except Fault String) : assignTo address shown other entry = other := by
  obtain ⟨kind, info, type, -, hinfo, htype, -, -, hrecord, harray⟩ := exists_of_isSilent h
  rw [assignTo]
  split
  · simp [hinfo, htype, hrecord, harray, bind, Except.bind]
  · rfl

theorem assignTo_of_answersClose (h : AnswersClose x y) (address shown : String)
    (other : Except Fault String) :
    (x >>= assignTo address shown other) = (y >>= assignTo address shown other) := by
  rcases h with h | ⟨entry, rfl, hsilent, rfl⟩
  · refine h.bind (fun _ => rfl) fun n hn => ?_
    -- Of the entry of a parameter only its type is read.
    obtain ⟨hrecord, harray⟩ := isTextOf_of_isTypeWord hn
    change other = if (Tree.text n).isTextOf "record" then _ else
      if (Tree.text n).isTextOf "array" then _ else other
    rw [hrecord, harray]
    rfl
  · exact assignTo_of_isSilent hsilent address shown other

section Local

variable (hown : OwnAlike context k)

include hown

/-- An assignment is listed alike if its target and its value make no use of what lies around the
scope. -/
theorem assignment_of_isLocal {target value : Tree}
    (htarget : target.isLocal context.scopes k = true)
    (hvalue : value.isLocal context.scopes k = true) :
    assignment context (.scope k) target value =
      assignment context (.spelled context.scopes k) target value := by
  rw [assignment, assignment, expression_of_isLocal hown target htarget,
    expression_of_isLocal hown value hvalue]
  cases target with
  | dict entries =>
    have hentries : EntriesLocal context.scopes k entries := entriesLocal_of_test htarget
    have helement : ∀ address shown,
        elementAssignment context (.scope k) (.dict entries) address shown =
          elementAssignment context (.spelled context.scopes k) (.dict entries) address shown :=
      elementAssignment_of_answersAlike (answersAlike_of_namePasses hown hentries.array) rfl
    have hget : (Tree.dict entries).get? "name" = .ok (entries.lookup "name") := rfl
    have hname := hentries.name
    refine bind_congr fun address => bind_congr fun address => bind_congr fun shown =>
      bind_congr fun shown => ?_
    rw [hget]
    cases hlookup : entries.lookup "name" with
    | none => exact helement address shown
    | some name =>
      rw [hlookup] at hname
      rw [helement]
      exact assignTo_of_answersClose (answersClose_of_namePasses hown hname) address shown _
  | _ => rfl

variable {entries : List (String × Tree)} {parts : List (String × StatementPart)}

variable (h : EntriesLocal context.scopes k entries)

include h

/-- A condition of a statement is listed alike. -/
theorem condition_of_local {α : Type} {f g : String → Except Fault α}
    (hnext : ∀ code, f code = g code) :
    (do f (← (← expression context ((entries.lookup "condition").getD null) false
        (.scope k)).plain)) =
      (do g (← (← expression context ((entries.lookup "condition").getD null) false
        (.spelled context.scopes k)).plain)) := by
  rw [expression_of_isLocal hown _ (h.part "condition" (by decide)), funext hnext]

theorem conditionalCode_of_local
    (hparts : StatementsAlike (.scope k) (.spelled context.scopes k) parts) (indent : String) :
    conditionalCode context entries parts indent (.scope k) =
      conditionalCode context entries parts indent (.spelled context.scopes k) := by
  unfold conditionalCode
  refine condition_of_local hown h fun condition => ?_
  cases hyes : parts.lookup "then" with
  | none => rfl
  | some yes =>
    have hyes := hparts "then" (by decide) yes hyes
    cases hno : parts.lookup "else" with
    | none =>
      dsimp only
      rw [hyes.block]
    | some no =>
      have hno := hparts "else" (by decide) no hno
      dsimp only
      rw [hyes.block, hno.block, hno.statement]

/-- Statements are listed alike if their entries are local and their parts are listed alike. -/
theorem statementCode_of_local
    (hparts : StatementsAlike (.scope k) (.spelled context.scopes k) parts) :
    statementCode context entries parts (.scope k) =
      statementCode context entries parts (.spelled context.scopes k) := by
  unfold statementCode
  dsimp only
  split
  · exact assignment_of_isLocal hown (h.part "target" (by decide)) (h.part "value" (by decide))
  · rfl
  · refine bind_congr fun _ => bind_congr fun _ => bind_congr fun _ => bind_congr fun _ => ?_
    cases hbody : parts.lookup "body" with
    | none => rfl
    | some body =>
      dsimp only
      rw [(hparts "body" (by decide) body hbody).block]
  · refine condition_of_local hown h fun condition => ?_
    cases hbody : parts.lookup "body" with
    | none => rfl
    | some body =>
      dsimp only
      rw [(hparts "body" (by decide) body hbody).block]
  · exact conditionalCode_of_local hown h hparts ""
  · rfl
  · rfl
  · rfl

end Local

theorem blockLines_alike {part : Option StatementPart} (h : ∀ p ∈ part, PartAlike t t' p)
    (indent : String) :
    blockLines indent t part = blockLines indent t' part := by
  cases part with
  | none => rfl
  | some part =>
    unfold blockLines
    cases helements : part.elements with
    | error => simp only [helements]; rfl
    | ok statements =>
      have hlines : statements.mapM (fun s => do return indent ++ (← s t)) =
          statements.mapM fun s => do return indent ++ (← s t') :=
        mapM_eq_of_forall₂ (List.forall₂_same.2 fun s hs => by
          rw [(h part rfl).elements helements s hs])
      simp only [helements]
      exact congrArg (fun lines => do return "\n  ".intercalate (← lines)) hlines

/-- A block that is itself a statement is looked up in the outermost table. -/
theorem statement_of_isBlockCode {t : Tree} (h : t.isBlockCode = true) :
    statement context t (.scope k) = statement context t (.spelled context.scopes k) := by
  cases t with
  | dict entries =>
    simp only [isBlockCode, isBlockType, isOneOf, List.any_cons, List.any_nil, Bool.or_false,
      Bool.or_eq_true] at h
    rw [statement, statementCode, statementCode]
    dsimp only
    rcases h with h | h <;> rw [eq_text_of_isTextOf h] <;> rfl
  | _ => exact absurd h Bool.false_ne_true

theorem statement_of_elements {x : Except Fault (List Tree)}
    {statements : List (Table → Except Fault String)}
    (h : (do return (← x).map fun _ _ => .error .noSuchPart) = Except.ok statements) :
    ∀ s ∈ statements, s = fun _ => .error .noSuchPart := by
  obtain ⟨found, -, h⟩ := Except.bind_eq_ok.1 h
  rw [← Except.pure_eq_ok.1 h]
  intro s hs
  obtain ⟨element, -, rfl⟩ := List.mem_map.1 hs
  rfl

mutual

/-- A statement that makes no use of what lies around its scope is listed alike with the scope and
with the names of the scope alone. -/
theorem statement_of_isLocal (hown : OwnAlike context k) (t : Tree)
    (h : t.isLocal context.scopes k = true) :
    statement context t (.scope k) = statement context t (.spelled context.scopes k) := by
  cases t with
  | dict entries =>
    exact statementCode_of_local hown (entriesLocal_of_test h)
      (statementsAlike_of_local hown entries h)
  | _ => rfl

/-- A block that makes no use of what lies around its scope is listed alike with the scope and with
the names of the scope alone. -/
theorem block_of_isLocal (hown : OwnAlike context k) (t : Tree)
    (h : t.isLocal context.scopes k = true) (indent : String) :
    block context t indent (.scope k) = block context t indent (.spelled context.scopes k) := by
  cases t with
  | dict entries =>
    have hparts := statementsAlike_of_local hown entries h
    unfold block
    split
    · exact blockLines_alike (fun part hpart => hparts "statements" (by decide) part hpart) indent
    · exact statementCode_of_local hown (entriesLocal_of_test h) hparts
  | _ => rfl

theorem statementsAlike_of_local (hown : OwnAlike context k)
    (entries : List (String × Tree)) (h : entriesAreLocal context.scopes k entries = true) :
    StatementsAlike (.scope k) (.spelled context.scopes k) (statementParts context entries) := by
  cases entries with
  | nil => exact fun _ _ _ hpart => absurd hpart nofun
  | cons e rest =>
    obtain ⟨key, value⟩ := e
    rw [entriesAreLocal, Bool.and_eq_true] at h
    intro other hother part hpart
    rw [statementParts, List.lookup_cons] at hpart
    split at hpart
    next heq =>
      obtain rfl := eq_of_beq heq
      have hvalue := h.1
      simp only [namingKeys, List.mem_cons, not_or] at hother
      rw [if_neg hother.1, if_neg hother.2.1, if_neg hother.2.2.1, if_neg hother.2.2.2.1] at hvalue
      obtain rfl := Option.some.inj hpart
      exact ⟨statement_of_isLocal hown value hvalue, block_of_isLocal hown value hvalue,
        statements_of_isLocal hown value hvalue⟩
    next => exact statementsAlike_of_local hown rest h.2 other hother part hpart

theorem statements_of_isLocal (hown : OwnAlike context k)
    (t : Tree) (h : t.isLocal context.scopes k = true)
    {statements : List (Table → Except Fault String)}
    (hstatements : statementElements context t = .ok statements) :
    ∀ s ∈ statements, s (.scope k) = s (.spelled context.scopes k) := by
  cases t with
  | list items | tuple items =>
    obtain rfl := Except.ok.inj hstatements
    exact statementItems_of_local hown items h
  | _ => exact fun s hs => by rw [statement_of_elements hstatements s hs]

theorem statementItems_of_local (hown : OwnAlike context k)
    (items : List Tree) (h : itemsAreLocal context.scopes k items = true) :
    ∀ s ∈ statementItems context items, s (.scope k) = s (.spelled context.scopes k) := by
  cases items with
  | nil => exact nofun
  | cons item rest =>
    rw [itemsAreLocal, Bool.and_eq_true, Bool.or_eq_true] at h
    refine List.forall_mem_cons.2 ⟨?_, statementItems_of_local hown rest h.2⟩
    rcases h.1 with hblock | hitem
    · exact statement_of_isBlockCode hblock
    · exact statement_of_isLocal hown item hitem

end

end MiniPascal.Listing
