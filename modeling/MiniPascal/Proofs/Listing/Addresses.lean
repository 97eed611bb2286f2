import MiniPascal.Proofs.Listing.Programs
import MiniPascal.Proofs.Safety.Expressions

/-!
# Addresses

The parts of an array are listed by what selects them: constant indices, and then fields. Only one
of these is written into an address: the first index for an element, and the field for a field of an
element, whichever element that is. A field of a field has no address at all.

* `exists_address?_eq_iff`: paths that have the same address.
-/

namespace MiniPascal

open Listing Check Typing Checking

/-! ### Arrays that are known -/

section

variable {a : Analysis} {k : Nat} {n : String}

theorem Tree.isArrayEntry_of_info {entry info type : Tree} (hinfo : entry.info = .ok info)
    (htype : info.get "type" = .ok type) (harray : type.isTextOf "array" = true) :
    entry.isArrayEntry = true := by
  obtain ⟨found, hfound, rfl⟩ := Except.bind_pure_eq_ok.1 hinfo
  cases found with
  | none =>
    obtain rfl : Tree.null = type := Except.ok.inj htype
    exact absurd harray nofun
  | some info =>
    have hnull : info.isNull = false := by
      cases info with
      | null => exact absurd htype nofun
      | _ => rfl
    have hvalue : valueInfo entry = .ok info := by
      rw [valueInfo, Tree.get, hfound]
      change Except.ok (if info.isNull then entry else info) = .ok info
      rw [hnull]
      rfl
    have htype : info.get "type" = .ok type := htype
    rw [Tree.isArrayEntry, Except.bind_of_eq_ok hvalue, htype]
    exact harray

theorem knowsArray_arrayOf {access : Tree} (hbase : access.arrayBase = .text n) :
    (arrayOf access).Ensures a fun _ => a.scopes.KnowsArray a.scopes.current n := by
  refine .bind fun flat hflat => .bind fun symbol hsymbol => .ite (fun _ => ?_) fun htruthy => ?_
  · exact .refuse_bind
  obtain rfl := flatAccess_ensures hbase flat hflat
  refine .bind fun info hinfo => .bind fun type htype => .ite (fun _ => ?_) fun harray => .pure ?_
  · exact .refuse_bind
  rw [fault_eq_ok] at hinfo htype
  rw [lookup_eq_ok, Scopes.lookupTree] at hsymbol
  cases hentry : a.scopes.lookupIn a.scopes.current n with
  | none =>
    rw [hentry] at hsymbol
    obtain rfl := Except.ok.inj hsymbol
    exact absurd rfl htruthy
  | some entry =>
    rw [hentry] at hsymbol
    obtain rfl : entry = symbol := Except.ok.inj hsymbol
    exact ⟨entry, hentry, Tree.isArrayEntry_of_info hinfo htype (by simpa using harray)⟩

theorem Scopes.find_current (s : Scopes) (n : String) (fuel number : Nat) :
    Scopes.find { s with current := k } n fuel number = s.find n fuel number := by
  induction fuel generalizing number with
  | zero => rfl
  | succ fuel ih =>
    simp only [Scopes.find, ih]
    rfl

end

/-! ### The texts of addresses -/

namespace Listing

variable {a : Analysis} {k : Nat} {n : String}

theorem within_plain {text : String} (h : Pipeline.analyze text = .ok a) :
    a.scopes.Within .plain := by
  obtain ⟨tokens, p, code, htokens, hparse, hrun⟩ := analyze_eq_ok h
  obtain ⟨added, hblock⟩ := analyzeBlock_runs (Program.within_of_lex htokens hparse)
    (Analysis.start_within .plain) Nat.zero_lt_one hrun
  exact hblock.within

/-- The templates for the address of an element: the index stands between two texts that do not
depend on it, and the first of them opens a second bracket before or after the array. -/
theorem elementCode_address (element base low : String) :
    ∃ pre post, (∀ index, elementCode true (.text element) base index low =
        .ok (pre ++ index ++ post)) ∧
      (pre = "(" ++ base ++ " \"+\" ((" ∨ pre = "((" ++ base ++ " \"+\" ") := by
  by_cases hcell : isOneOf (.text element) ["integer", "char"]
  · refine ⟨_, " \"-\" " ++ low ++ ")))", fun index => ?_, .inl rfl⟩
    rw [elementCode, if_pos hcell]
    simp only [String.append_assoc]
    rfl
  by_cases hstring : (Tree.text element).isTextOf "string"
  · refine ⟨_, " \"-\" " ++ low ++ "))", fun index => ?_, .inr rfl⟩
    rw [elementCode, if_neg hcell, if_pos hstring]
    simp only [String.append_assoc]
    rfl
  · refine ⟨_, " \"-\" " ++ low ++ ") \"*\" " ++ element ++ "))", fun index => ?_, .inl rfl⟩
    rw [elementCode, if_neg hcell, if_neg hstring]
    simp only [String.append_assoc]
    rfl

/-- The address of a field in an array of records. -/
def fieldAddress (n element f : String) : String :=
  "(" ++ (n ++ " \"+\" " ++ element ++ "_" ++ f) ++ ")"

/-- What the addresses of the parts of an array look like. -/
theorem exists_address (hs : a.scopes.Within .plain) (h : a.scopes.KnowsArray k n) :
    Vocabulary.plain.name n ∧ ∃ base element low, (base = n ∨ base = load n) ∧
      Vocabulary.plain.name element ∧
      (∀ (i : Nat) others, expression ⟨a.scopes, 0⟩
        (Code.element n (.integer (.int i) :: others)).toTree true (.scope k) =
          (do return .text (← elementCode true (.text element) base (toString i) low))) ∧
      ∀ indices f, expression ⟨a.scopes, 0⟩
        (Code.field (.element n indices) (.text f)).toTree true (.scope k) =
          .ok (.text (fieldAddress n element f)) := by
  obtain ⟨entry, hentry, harray⟩ := h
  obtain ⟨hn, hform⟩ := hs.lookupIn hentry
  obtain ⟨info, hinfo, ⟨-, hknown⟩ | ⟨hnot, -⟩⟩ := hform.isArrayEntry_cases
  case inr => exact absurd (hnot.symm.trans harray) Bool.false_ne_true
  have hlookup : Table.lookup ⟨a.scopes, 0⟩ (.scope k) (.text n) = .ok entry := by
    rw [(Table.Reads.scope ⟨a.scopes, 0⟩ k).lookup hs n, hentry, Option.getD_some]
  obtain ⟨entries, rfl⟩ := hform.exists_dict
  obtain @⟨first, others, element, helement, size, values⟩ := hknown
  refine ⟨hn, if ((entries.lookup "kind").getD .null).isTextOf "parameter" then load n else n,
    element, toString first.1, ?_, helement, fun i others => ?_, fun indices f => ?_⟩
  · split
    · exact .inr rfl
    · exact .inl rfl
  · rw [expression_element, accessCode, Except.bind_of_eq_ok hlookup, Except.bind_of_eq_ok hinfo]
    rfl
  · have hcode : fieldCode ⟨a.scopes, 0⟩ true (.scope k) (Code.element n indices).toTree (.text f) =
        .ok (fieldAddress n element f) := by
      change (do
        let info ← valueInfo (← Table.lookup ⟨a.scopes, 0⟩ (.scope k) (.text n))
        let type ← ((← info.get? "element_type").getD (.text "")).plain
        return wrap s!"{n} \"+\" {type}_{f}") = _
      rw [Except.bind_of_eq_ok hlookup, Except.bind_of_eq_ok hinfo]
      rfl
    exact Except.bind_of_eq_ok hcode

/-- A name starts with a character that is no bracket. -/
theorem exists_head_of_name {n : String} (h : Vocabulary.plain.name n) :
    ∃ c cs, n.toList = c :: cs ∧ c ≠ '(' := by
  obtain ⟨hne, hmarks⟩ := h
  match hn : n.toList with
  | [] => exact absurd (String.toList_eq_nil_iff.1 hn) hne
  | c :: cs =>
    refine ⟨c, cs, rfl, ?_⟩
    rintro rfl
    exact hmarks '(' (by rw [hn]; exact List.mem_cons_self) (by decide)

/-- An address of an element is no address of a field: it has a second bracket where the other one
has a name. -/
theorem element_ne_field {base n element pre index post f : String} (hn : Vocabulary.plain.name n)
    (helement : Vocabulary.plain.name element) (hbase : base = n ∨ base = load n)
    (hpre : pre = "(" ++ base ++ " \"+\" ((" ∨ pre = "((" ++ base ++ " \"+\" ") :
    pre ++ index ++ post ≠ fieldAddress n element f := by
  obtain ⟨c, cs, hc, hcne⟩ := exists_head_of_name hn
  obtain ⟨d, ds, hd, hdne⟩ := exists_head_of_name helement
  have hload : load n = "(L " ++ n ++ ")" := rfl
  intro h
  have hlist := congrArg String.toList h
  rcases hpre with rfl | rfl
  · rcases hbase with rfl | rfl
    · simp [fieldAddress, hd, hdne.symm] at hlist
    · simp [fieldAddress, hload, hc, hcne.symm] at hlist
  · simp [fieldAddress, hc, hcne.symm] at hlist

end Listing

/-! ### Access paths -/

/-- What selects a part of an array: at least one constant index, and then fields. -/
structure AccessPath where
  /-- The first index. -/
  first : Nat
  /-- The indices after the first one. -/
  others : List Nat
  /-- The fields, the outermost first. -/
  fields : List String
  deriving DecidableEq

namespace AccessPath

/-- The element of an array that the indices select. -/
def element (p : AccessPath) (n : String) : Designator :=
  p.others.foldl (fun d i => .element d (.operand (.number i)))
    (.element (.name n) (.operand (.number p.first)))

/-- The codes of the indices. -/
def indexCodes (p : AccessPath) : List Code :=
  (p.first :: p.others).map fun i : Nat => .integer (.int i)

/-- The part of an array that the path selects. -/
def designator (p : AccessPath) (n : String) : Designator := p.fields.foldl .field (p.element n)

end AccessPath

/-- What the address of a part of an array depends on. -/
inductive AddressPart
  /-- The first index, in the address of an element. -/
  | index (i : Nat)
  /-- The field, in the address of a field of an element. -/
  | field (f : String)
  /-- Nothing, where a field of a field is selected. -/
  | unknown
  deriving DecidableEq

/-- The text of an address. -/
def AddressPart.text (pre post n element : String) : AddressPart → String
  | .index i => pre ++ toString i ++ post
  | .field f => fieldAddress n element f
  | .unknown => "UNKNOWN_FIELD_ACCESS"

theorem AddressPart.text_injective {pre post n element : String}
    (hopen : pre.toList.head? = some '(')
    (hapart : ∀ index f, pre ++ index ++ post ≠ fieldAddress n element f) :
    Function.Injective (AddressPart.text pre post n element) := by
  have hindex : ∀ index : String, pre ++ index ++ post ≠ "UNKNOWN_FIELD_ACCESS" := by
    intro index h
    have hhead := congrArg (·.toList.head?) h
    rw [String.append_assoc, String.toList_append, List.head?_append, hopen] at hhead
    exact absurd hhead (show some '(' ≠ some 'U' by decide)
  have hfield : ∀ f, fieldAddress n element f ≠ "UNKNOWN_FIELD_ACCESS" := by
    intro f h
    have hhead := congrArg (·.toList.head?) h
    rw [fieldAddress, String.append_assoc, String.toList_append] at hhead
    exact absurd hhead (show some '(' ≠ some 'U' by decide)
  intro x y h
  cases x with
  | index i =>
    cases y with
    | index j =>
      rw [text, text, String.append_left_inj, String.append_right_inj] at h
      rw [Text.toString_inj h]
    | field g => exact absurd h (hapart _ g)
    | unknown => exact absurd h (hindex _)
  | field f =>
    cases y with
    | index j => exact absurd h.symm (hapart _ f)
    | field g =>
      rw [text, text, fieldAddress, fieldAddress, String.append_left_inj, String.append_right_inj,
        String.append_right_inj] at h
      rw [h]
    | unknown => exact absurd h (hfield f)
  | unknown =>
    cases y with
    | index j => exact absurd h.symm (hindex _)
    | field g => exact absurd h.symm (hfield g)
    | unknown => rfl

/-- What the address of the selected part depends on. Indices after the first one are never looked
at, and none is where a field is selected. -/
def AccessPath.addressPart (p : AccessPath) : AddressPart :=
  match p.fields with
  | [] => .index p.first
  | [f] => .field f
  | _ => .unknown

/-- The program could use the designator in the scope `k`. -/
def Analysis.accepts (a : Analysis) (k : Nat) (d : Designator) : Bool :=
  (Checking.checkExpression .null d.toTree
    { scopes := { a.scopes with current := k }, code := none }).isOk

/-- The listing of a designator as an address, with the names of the scope `k`. -/
def Analysis.address? (a : Analysis) (k : Nat) (d : Designator) : Option String := do
  let code ← d.toTree.generate.toOption
  match ← (expression ⟨a.scopes, 0⟩ code.toTree true (.scope k)).toOption with
  | .text s => some s
  | _ => none

theorem Analysis.address?_eq {a : Analysis} {k : Nat} {d : Designator} {code : Code} {s : String}
    (hcode : d.toTree.generate = .ok code)
    (hlisting : expression ⟨a.scopes, 0⟩ code.toTree true (.scope k) = .ok (.text s)) :
    a.address? k d = some s := by
  rw [Analysis.address?, hcode]
  change (expression ⟨a.scopes, 0⟩ code.toTree true (.scope k)).toOption.bind _ = _
  rw [hlisting]
  rfl

namespace AccessPath

variable {a : Analysis} {k : Nat} {n : String}

/-! ### Code -/

theorem generate_foldl_element (indices : List Nat) {d : Designator} {codes : List Code}
    (hbase : d.toTree.baseName = .ok n) (hindices : d.toTree.generateIndices = .ok codes)
    (hcode : d.toTree.generate = .ok (.element n codes)) :
    (indices.foldl (fun d i => Designator.element d (.operand (.number i))) d).toTree.generate =
      .ok (.element n (codes ++ indices.map fun i : Nat => .integer (.int i))) := by
  induction indices generalizing d codes with
  | nil => rw [List.map_nil, List.append_nil]; exact hcode
  | cons i indices ih =>
    have hnumber : (Expr.operand (.number i)).toTree.generate = .ok (.integer (.int i)) := rfl
    rw [List.foldl_cons, List.map_cons, List.append_cons]
    refine ih hbase ?_ ?_
    · rw [Designator.toTree, generateIndices_arrayAccess, hindices, hnumber]
      rfl
    · rw [Designator.toTree, generate_arrayAccess, hbase, hindices, hnumber]
      rfl

theorem generate_element (p : AccessPath) (n : String) :
    (p.element n).toTree.generate = .ok (.element n p.indexCodes) := by
  have hindices :
      (Designator.element (.name n) (.operand (.number p.first))).toTree.generateIndices =
        .ok [.integer (.int p.first)] := rfl
  exact generate_foldl_element p.others rfl hindices rfl

/-- The indices select an element, and the accesses start at the name of the array. -/
theorem exists_element (p : AccessPath) (n : String) :
    ∃ base index, p.element n = .element base index ∧
      (Designator.element base index).root? = some n := by
  obtain ⟨first, others, fields⟩ := p
  induction others using List.reverseRecOn with
  | nil => exact ⟨_, _, rfl, rfl⟩
  | append_singleton others i ih =>
    obtain ⟨base, index, helement, hroot⟩ := ih
    refine ⟨.element base index, .operand (.number i), ?_, hroot⟩
    rw [element, List.foldl_append, ← helement]
    rfl

theorem knowsArray_of_accepts {p : AccessPath} (hfields : p.fields.length ≤ 1)
    (h : a.accepts k (p.designator n) = true) : a.scopes.KnowsArray k n := by
  obtain ⟨base, index, helement, hroot⟩ := p.exists_element n
  -- With a field or without, the dimensions of the array are asked for first.
  have hdimensions : (accessDimensions (p.element n).toTree).Ensures
      { scopes := { a.scopes with current := k }, code := none } fun _ =>
      a.scopes.KnowsArray k n := by
    refine .bind fun flat _ => .bind fun found hfound _ _ => ?_
    rw [helement] at hfound
    have hknown := knowsArray_arrayOf (Designator.arrayBase_toTree hroot) found hfound
    rwa [Scopes.KnowsArray, Scopes.lookupIn, Scopes.resolve, Scopes.find_current] at hknown
  cases hok : checkExpression .null (p.designator n).toTree
      { scopes := { a.scopes with current := k }, code := none } with
  | error => rw [Analysis.accepts, hok] at h; exact absurd h Bool.false_ne_true
  | ok code =>
    rw [Nat.le_one_iff_eq_zero_or_eq_one, List.length_eq_zero_iff,
      List.length_eq_one_iff] at hfields
    obtain hp | ⟨f, hp⟩ := hfields
    · rw [designator, hp, List.foldl_nil, helement, checkExpression_element] at hok
      obtain ⟨dimensions, hfound, -⟩ := bind_eq_ok.1 hok
      rw [helement] at hdimensions
      exact hdimensions dimensions hfound
    · rw [designator, hp, List.foldl_cons, List.foldl_nil, helement] at hok
      change checkFieldAccess .null (.text f) (Designator.element base index).toTree _ = _ at hok
      rw [checkFieldAccess_element] at hok
      obtain ⟨dimensions, hfound, -⟩ := bind_eq_ok.1 hok
      rw [helement] at hdimensions
      exact hdimensions dimensions hfound

theorem generate_foldl_field (fields : List String) {d : Designator} {code : Code}
    (hd : ∀ m, d ≠ .name m) (hcode : d.toTree.generate = .ok code) :
    (fields.foldl Designator.field d).toTree.generate =
      .ok (fields.foldl (fun code f => .field code (.text f)) code) := by
  induction fields generalizing d code with
  | nil => exact hcode
  | cons f fields ih =>
    have hfield : (d.field f).toTree.generate =
        (do return Code.field (← d.toTree.generate) (.text f)) := by
      cases d with
      | name m => exact absurd rfl (hd m)
      | element | field | call => rfl
    refine ih (fun m => Designator.noConfusion) ?_
    rw [hfield, hcode]
    rfl

/-- A field of a field is listed without looking at what has it. -/
theorem expression_field_field (code : Code) (f g : Tree) :
    expression ⟨a.scopes, 0⟩ (Code.field (.field code f) g).toTree true (.scope k) =
      .ok (.text "UNKNOWN_FIELD_ACCESS") := rfl

theorem expression_foldl_field (fields : List String) (hfields : fields ≠ []) (code : Code)
    (f : Tree) : expression ⟨a.scopes, 0⟩
      (fields.foldl (fun code f => Code.field code (.text f)) (.field code f)).toTree true
        (.scope k) = .ok (.text "UNKNOWN_FIELD_ACCESS") := by
  induction fields generalizing code f with
  | nil => exact absurd rfl hfields
  | cons g fields ih =>
    cases fields with
    | nil => exact expression_field_field code f (.text g)
    | cons => exact ih (List.cons_ne_nil _ _) (.field code f) (.text g)

/-- The code for a part of an array. -/
theorem generate_designator (p : AccessPath) (n : String) : (p.designator n).toTree.generate =
    .ok (p.fields.foldl (fun code f => .field code (.text f)) (.element n p.indexCodes)) := by
  refine generate_foldl_field p.fields (fun m h => ?_) (p.generate_element n)
  obtain ⟨base, index, helement, -⟩ := p.exists_element n
  exact Designator.noConfusion (helement.symm.trans h)

/-- Fields of fields have one address in common. -/
theorem address?_of_addressPart_eq_unknown (a : Analysis) (k : Nat) (n : String) {p : AccessPath}
    (hp : p.addressPart = .unknown) :
    a.address? k (p.designator n) = some "UNKNOWN_FIELD_ACCESS" := by
  obtain ⟨first, others, fields⟩ := p
  rcases fields with _ | ⟨f, _ | ⟨g, fields⟩⟩
  · cases hp
  · cases hp
  exact Analysis.address?_eq (generate_designator _ n)
    (expression_foldl_field (g :: fields) (List.cons_ne_nil _ _) _ _)

/-- Each part of an array that is known has an address, a text for what it depends on, and these
texts differ. -/
theorem exists_injective_address? {text : String} (haccepted : Pipeline.analyze text = .ok a)
    (h : a.scopes.KnowsArray k n) : ∃ write : AddressPart → String, Function.Injective write ∧
      ∀ p : AccessPath, a.address? k (p.designator n) = some (write p.addressPart) := by
  have hs := within_plain haccepted
  obtain ⟨hn, base, element, low, hbase, helement, hindex, hfield⟩ := exists_address hs h
  obtain ⟨pre, post, hcode, hpre⟩ := elementCode_address element base low
  have hopen : pre.toList.head? = some '(' := by
    rcases hpre with rfl | rfl <;> simp
  refine ⟨AddressPart.text pre post n element, AddressPart.text_injective hopen fun index f =>
    element_ne_field hn helement hbase hpre, fun p => ?_⟩
  obtain ⟨first, others, fields⟩ := p
  rcases fields with _ | ⟨f, _ | ⟨g, fields⟩⟩
  · have hlisting := hindex first (others.map fun i : Nat => .integer (.int i))
    rw [hcode] at hlisting
    exact Analysis.address?_eq (generate_designator _ n) hlisting
  · exact Analysis.address?_eq (generate_designator _ n) (hfield _ f)
  · exact address?_of_addressPart_eq_unknown a k n rfl

/-- Two paths that are accepted in a scope of an accepted program select parts of one array that
have addresses, and these are the same exactly if what they depend on is. So neither the element of
which a field is selected nor an index after the first makes a difference. -/
theorem exists_address?_eq_iff {text : String} (haccepted : Pipeline.analyze text = .ok a)
    {p q : AccessPath} (hp : a.accepts k (p.designator n) = true)
    (hq : a.accepts k (q.designator n) = true) :
    ∃ s t, a.address? k (p.designator n) = some s ∧ a.address? k (q.designator n) = some t ∧
      (s = t ↔ p.addressPart = q.addressPart) := by
  have hsame : a.scopes.KnowsArray k n → ∃ s t, a.address? k (p.designator n) = some s ∧
      a.address? k (q.designator n) = some t ∧ (s = t ↔ p.addressPart = q.addressPart) := by
    intro hknows
    obtain ⟨write, hwrite, hlisting⟩ := exists_injective_address? haccepted hknows
    exact ⟨_, _, hlisting p, hlisting q, hwrite.eq_iff⟩
  by_cases hpfields : p.fields.length ≤ 1
  · exact hsame (knowsArray_of_accepts hpfields hp)
  by_cases hqfields : q.fields.length ≤ 1
  · exact hsame (knowsArray_of_accepts hqfields hq)
  -- Where both paths have several fields, nothing has to be known about the array.
  have hpart : ∀ r : AccessPath, ¬r.fields.length ≤ 1 → r.addressPart = .unknown := by
    rintro ⟨first, others, _ | ⟨f, _ | ⟨g, fields⟩⟩⟩ hr
    · exact absurd (Nat.zero_le 1) hr
    · exact absurd (Nat.le_refl 1) hr
    · rfl
  have hpunknown := hpart p hpfields
  have hqunknown := hpart q hqfields
  exact ⟨_, _, address?_of_addressPart_eq_unknown a k n hpunknown,
    address?_of_addressPart_eq_unknown a k n hqunknown,
    iff_of_true rfl (hpunknown.trans hqunknown.symm)⟩

/-- A program with an array of records. -/
def records : String :=
  "program p; type t = record x: integer; end; var a: array[1..2] of t; begin end."

/-- A field has one address in all elements. -/
theorem exists_address?_eq_iff_records : ∃ a s, Pipeline.analyze records = .ok a ∧
    a.accepts 0 ((AccessPath.mk 1 [] ["x"]).designator "a") = true ∧
    a.accepts 0 ((AccessPath.mk 2 [] ["x"]).designator "a") = true ∧
    a.address? 0 ((AccessPath.mk 1 [] ["x"]).designator "a") = some s ∧
    a.address? 0 ((AccessPath.mk 2 [] ["x"]).designator "a") = some s := by
  obtain ⟨a, ha, htest⟩ := Pipeline.exists_of_analyzeChars (s := records) String.toList_ofList
    (fun a => a.accepts 0 ((AccessPath.mk 1 [] ["x"]).designator "a") &&
      a.accepts 0 ((AccessPath.mk 2 [] ["x"]).designator "a")) (by decide +kernel)
  obtain ⟨hfirst, hsecond⟩ := Bool.and_eq_true_iff.1 htest
  obtain ⟨s, t, hs, ht, hsame⟩ := exists_address?_eq_iff ha hfirst hsecond
  obtain rfl := hsame.2 rfl
  exact ⟨a, s, ha, hfirst, hsecond, hs, ht⟩

end AccessPath

end MiniPascal
