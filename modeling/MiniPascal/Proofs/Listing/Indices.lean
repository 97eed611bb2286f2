import MiniPascal.Proofs.Listing.Expressions

/-!
# Indices

An index is listed in its own way: a number stands by itself, a single name is loaded once, and all
other code is listed as an address. In arithmetic on integers the address listing loads every name
once less than the value listing does.

* `index_eq_value_iff`: where the listing of an index is the listing of its value.
-/

namespace MiniPascal

open Listing

/-! ### Arithmetic -/

namespace Listing

theorem length_load (code : String) : (load code).length = code.length + 4 := by
  change ("(L " ++ code ++ ")").length = _
  simp only [String.length_append]
  change 3 + _ + 1 = _
  omega

def givesWord (step : Except Fault Tree) (word : String) : Bool :=
  match step with
  | .ok t => t.isTextOf word
  | .error _ => false

theorem givesWord_iff {step : Except Fault Tree} {word : String} :
    givesWord step word ↔ step = .ok (.text word) := by
  cases step with
  | error => simp [givesWord]
  | ok t =>
    rw [Except.ok.injEq]
    exact ⟨Tree.eq_text_of_isTextOf, fun h => h ▸ decide_eq_true rfl⟩

variable (context : Context) (table : Table)

/-- Whether a table says that a name is a parameter. -/
def isParameter (n : String) : Bool :=
  givesWord (do (← table.lookup context (.text n)).get "kind") "parameter"

def isIntegerVariable (n : String) : Bool :=
  !isParameter context table n &&
    givesWord (do (← valueInfo (← table.lookup context (.text n))).get "type") "integer"

/-- The address of what a name stands for. Parameters hold the address of their value. -/
def addressOf (n : String) : String := if isParameter context table n then load n else n

end Listing

namespace Code

/-- Whether code is made of integers, variables for integers and parameters by operators. -/
def isArithmetic (context : Context) (table : Table) : Code → Bool
  | integer (.int _) => true
  | name (.text n) => isParameter context table n || isIntegerVariable context table n
  | binary (.text _) left right =>
    left.isArithmetic context table && right.isArithmetic context table
  | _ => false

theorem isArithmetic_cases {context : Context} {table : Table} {c : Code}
    (h : c.isArithmetic context table) :
    (∃ n, c = integer (.int n)) ∨
      (∃ n, c = name (.text n) ∧
        (isParameter context table n || isIntegerVariable context table n)) ∨
      ∃ operator left right, c = binary (.text operator) left right := by
  unfold isArithmetic at h
  split at h
  · exact .inl ⟨_, rfl⟩
  · exact .inr (.inl ⟨_, rfl, h⟩)
  · exact .inr (.inr ⟨_, _, _, rfl⟩)
  · exact absurd h Bool.false_ne_true

/-- The text of arithmetic, with a text for each name. -/
def written (spell : String → String) : Code → String
  | integer (.int n) => toString n
  | name (.text n) => spell n
  | binary (.text operator) left right =>
    s!"({left.written spell} \"{operatorSign operator}\" {right.written spell})"
  | _ => ""

/-- The number of places where arithmetic mentions a name. -/
def nameCount : Code → Nat
  | name _ => 1
  | binary _ left right => left.nameCount + right.nameCount
  | _ => 0

theorem written_congr {spell spell' : String → String} (c : Code) (h : c.nameCount = 0) :
    c.written spell = c.written spell' := by
  fun_induction written spell c with
  | case1 n => rfl
  | case2 n => exact absurd h (by simp [nameCount])
  | case3 operator left right ihleft ihright =>
    simp only [nameCount, Nat.add_eq_zero_iff] at h
    rw [written, ihleft h.1, ihright h.2]
  | case4 c hinteger hname hbinary => rw [written] <;> assumption

/-- Loading every name makes a text longer by what is put around each of them. -/
theorem length_written_load (spell : String → String) (c : Code)
    (h : c.isArithmetic context table) :
    (c.written fun n => load (spell n)).length = (c.written spell).length + 4 * c.nameCount := by
  fun_induction isArithmetic context table c with
  | case1 n => rfl
  | case2 n => exact length_load _
  | case3 operator left right ihleft ihright =>
    rw [Bool.and_eq_true] at h
    have hleft := ihleft h.1
    have hright := ihright h.2
    simp only [written, nameCount, String.length_append, toString] at hleft hright ⊢
    omega
  | case4 => exact absurd h Bool.false_ne_true

end Code

/-! ### Listings of arithmetic -/

namespace Listing

variable {context : Context} {table : Table} {n : String}

/-- What has one entry that can be asked for is there, and can be asked for any other. -/
theorem exists_get_of_get {t v : Tree} {key : String} (h : t.get key = .ok v) (other : String) :
    t.isNull = false ∧ ∃ w, t.get other = .ok w := by
  cases t with
  | dict | table => exact ⟨rfl, _, rfl⟩
  | _ => cases h

theorem expression_name {symbol : Tree} (h : table.lookup context (.text n) = .ok symbol)
    (isAddress : Bool) : expression context (Code.name (.text n)).toTree isAddress table =
      variableCode isAddress (.text n) symbol := by
  change (do variableCode isAddress (.text n) (← table.lookup context (.text n))) = _
  exact Except.bind_of_eq_ok h

/-- A parameter is loaded once for its address and twice for its value. -/
theorem expression_parameter (h : isParameter context table n) (isAddress : Bool) :
    expression context (Code.name (.text n)).toTree isAddress table =
      .ok (.text (if isAddress then load n else load (load n))) := by
  obtain ⟨symbol, hlookup, hkind⟩ := Except.bind_eq_ok.1 (givesWord_iff.1 h)
  rw [expression_name hlookup, variableCode, (exists_get_of_get hkind "kind").1, hkind]
  rfl

/-- A variable for integers or truth values stands by itself for its address and is loaded once for
its value. -/
theorem expression_scalarVariable {word : String} (hword : word = "integer" ∨ word = "boolean")
    (hparameter : isParameter context table n = false)
    (h : givesWord (do (← valueInfo (← table.lookup context (.text n))).get "type") word)
    (isAddress : Bool) : expression context (Code.name (.text n)).toTree isAddress table =
      .ok (.text (if isAddress then n else load n)) := by
  obtain ⟨symbol, hlookup, hrest⟩ := Except.bind_eq_ok.1 (givesWord_iff.1 h)
  obtain ⟨info, hinfo, htype⟩ := Except.bind_eq_ok.1 hrest
  obtain ⟨entry, hentry, -⟩ := Except.bind_eq_ok.1 hinfo
  obtain ⟨hnull, kind, hkind⟩ := exists_get_of_get hentry "kind"
  have hother : kind.isTextOf "parameter" = false := by
    rw [isParameter, Except.bind_of_eq_ok hlookup, hkind] at hparameter
    exact hparameter
  rw [expression_name hlookup, variableCode, hnull, hkind]
  change (if kind.isTextOf "parameter" then _ else _) = _
  rw [hother, if_neg Bool.false_ne_true, hinfo]
  change (do let type ← info.get "type"; _) = _
  rw [htype]
  rcases hword with rfl | rfl <;> cases isAddress <;> rfl

/-- A variable for integers is listed as a variable for integers or truth values is. -/
theorem expression_integerVariable (h : isIntegerVariable context table n) (isAddress : Bool) :
    expression context (Code.name (.text n)).toTree isAddress table =
      .ok (.text (if isAddress then n else load n)) := by
  rw [isIntegerVariable, Bool.and_eq_true, Bool.not_eq_true'] at h
  exact expression_scalarVariable (.inl rfl) h.1 h.2 isAddress

theorem expression_isArithmetic (c : Code) (h : c.isArithmetic context table) :
    expression context c.toTree false table =
        .ok (.text (c.written fun n => load (addressOf context table n))) ∧
      expression context c.toTree true table =
        .ok (.text (c.written (addressOf context table))) := by
  fun_induction Code.isArithmetic context table c with
  | case1 n => exact ⟨rfl, rfl⟩
  | case2 n =>
    by_cases hparameter : isParameter context table n
    · simp [expression_parameter hparameter, Code.written, addressOf, hparameter]
    · have hvariable : isIntegerVariable context table n := by simpa [hparameter] using h
      simp [expression_integerVariable hvariable, Code.written, addressOf, hparameter]
  | case3 operator left right ihleft ihright =>
    rw [Bool.and_eq_true] at h
    obtain ⟨hvalue, haddress⟩ := ihleft h.1
    obtain ⟨hvalue', haddress'⟩ := ihright h.2
    simp only [expression_binary, expression_compare, hvalue, haddress, hvalue', haddress']
    exact ⟨rfl, rfl⟩
  | case4 => exact absurd h Bool.false_ne_true

/-- A name is listed as an index with a single load, other arithmetic as its address. -/
theorem index_isArithmetic (c : Code) (h : c.isArithmetic context table) :
    index context table c.toTree = .ok (.text (match c with
      | .name (.text n) => load n
      | _ => c.written (addressOf context table))) := by
  have haddress := (expression_isArithmetic c h).2
  obtain ⟨n, rfl⟩ | ⟨n, rfl, -⟩ | ⟨operator, left, right, rfl⟩ := Code.isArithmetic_cases h
  · rfl
  · rfl
  · exact haddress

/-- In arithmetic on integers the value listing loads every name once more than the address listing.
An index is listed as its address, but for a single name, which is loaded once. This is the value
listing for constants and for a variable by itself only: not for a parameter, and not for a name
under an operator. -/
theorem index_eq_value_iff (c : Code) (h : c.isArithmetic context table) :
    expression context c.toTree false table =
        .ok (.text (c.written fun n => load (addressOf context table n))) ∧
      expression context c.toTree true table =
        .ok (.text (c.written (addressOf context table))) ∧
      index context table c.toTree = .ok (.text (match c with
        | .name (.text n) => load n
        | _ => c.written (addressOf context table))) ∧
      (index context table c.toTree = expression context c.toTree false table ↔
        c.nameCount = 0 ∨ ∃ n, c = .name (.text n) ∧ isIntegerVariable context table n) := by
  obtain ⟨hvalue, haddress⟩ := expression_isArithmetic c h
  have hindex := index_isArithmetic c h
  refine ⟨hvalue, haddress, hindex, ?_⟩
  rw [hvalue, hindex, Except.ok.injEq, Tree.text.injEq]
  -- A text with a load around a name is longer than the text without it.
  have hlength := Code.length_written_load (addressOf context table) c h
  obtain ⟨n, rfl⟩ | ⟨n, rfl, hn⟩ | ⟨operator, left, right, rfl⟩ := Code.isArithmetic_cases h
  · exact iff_of_true rfl (.inl rfl)
  · change load n = load (addressOf context table n) ↔ _
    by_cases hparameter : isParameter context table n
    · refine iff_of_false (fun heq => ?_) ?_
      · rw [addressOf, if_pos hparameter] at heq
        have := congrArg String.length heq
        simp [length_load] at this
      · simp [Code.nameCount, isIntegerVariable, hparameter]
    · rw [Bool.or_eq_true, or_iff_right hparameter] at hn
      exact iff_of_true (by rw [addressOf, if_neg hparameter]) (.inr ⟨n, rfl, hn⟩)
  · refine ⟨fun heq => .inl ?_, ?_⟩
    · have hsame := congrArg String.length heq
      change (Code.written (addressOf context table) _).length = _ at hsame
      omega
    · rintro (hnone | ⟨n, hname, -⟩)
      · exact Code.written_congr _ hnone
      · cases hname

/-- A table with a variable for integers and a parameter. -/
def mixedTable : Table :=
  .loose [("i", .dict [("type", .text "var"), ("info", .dict [("type", .text "integer")])]),
    ("n", .dict [("kind", .text "parameter"), ("type", .text "integer")])]

theorem index_eq_value_iff_mixedTable :
    index ⟨.empty, 0⟩ mixedTable (Code.binary (.text "+") (.name (.text "i")) (.binary (.text "div")
        (.name (.text "n")) (.integer (.int 2)))).toTree =
      .ok (.text "(i \"+\" ((L n) \"/\" 2))") := by
  have h : (Code.binary (.text "+") (.name (.text "i")) (.binary (.text "div")
      (.name (.text "n")) (.integer (.int 2)))).isArithmetic ⟨.empty, 0⟩ mixedTable = true := by
    decide
  exact (index_eq_value_iff _ h).2.2.1

/-- The index `i + 1` is listed without loading `i`. -/
theorem index_ne_value_sum :
    let c := Code.binary (.text "+") (.name (.text "i")) (.integer (.int 1))
    c.isArithmetic ⟨.empty, 0⟩ mixedTable = true ∧
      index ⟨.empty, 0⟩ mixedTable c.toTree = .ok (.text "(i \"+\" 1)") ∧
      expression ⟨.empty, 0⟩ c.toTree false mixedTable = .ok (.text "((L i) \"+\" 1)") ∧
      index ⟨.empty, 0⟩ mixedTable c.toTree ≠ expression ⟨.empty, 0⟩ c.toTree false mixedTable := by
  intro c
  have hc : c.isArithmetic ⟨.empty, 0⟩ mixedTable = true := by decide
  have hindex : index ⟨.empty, 0⟩ mixedTable c.toTree = .ok (.text "(i \"+\" 1)") :=
    index_isArithmetic c hc
  have hvalue : expression ⟨.empty, 0⟩ c.toTree false mixedTable =
      .ok (.text "((L i) \"+\" 1)") := (expression_isArithmetic c hc).1
  refine ⟨hc, hindex, hvalue, ?_⟩
  rw [hindex, hvalue]
  simp

end Listing

end MiniPascal
