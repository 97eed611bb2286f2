import MiniPascal.Proofs.Listing.Indices

/-!
# Readability

The listing of a scalar expression can be read in one way only. Its text tells the numbers, the
cells that are loaded, the signs of the operators and how they are nested. What the text does not
tell is which of the names of a sign an operator was given, whether a 1 or a 0 was a truth value,
and whether an operation was a comparison.

* `expression_eq_iff_reading_eq`: the scalar expressions that have the same listing.
-/

namespace MiniPascal

open Listing

/-! ### Readings -/

/-- What the text of a scalar expression tells: a number, a cell whose value is loaded, or two
readings with the sign of an operator between them. -/
inductive Reading
  | number (value : Int)
  | cell (name : String)
  | operation (sign : String) (left right : Reading)
  deriving DecidableEq

namespace Reading

def text : Reading → String
  | number value => toString value
  | cell name => load name
  | operation sign left right => s!"({left.text} \"{sign}\" {right.text})"

/-- Names are made of letters and digits and signs have no quotes, so that the text tells where a
name or a sign ends. -/
def IsLegible : Reading → Prop
  | number _ => True
  | cell name => ∀ c ∈ name.toList, Cursor.isWordChar c
  | operation sign left right => '"' ∉ sign.toList ∧ left.IsLegible ∧ right.IsLegible

/-- What follows a reading in a text: nothing, a blank or a closing bracket. -/
def Stops (rest : List Char) : Prop := ∀ c ∈ rest.head?, c = ' ' ∨ c = ')'

theorem stops_nil : Stops [] := by simp [Stops]

theorem stops_blank (rest : List Char) : Stops (' ' :: rest) := by simp [Stops]

theorem stops_bracket (rest : List Char) : Stops (')' :: rest) := by simp [Stops]

theorem toList_text_cell (name : String) :
    (cell name).text.toList = '(' :: 'L' :: ' ' :: (name.toList ++ [')']) := by
  change ("(L " ++ name ++ ")").toList = _
  simp

theorem toList_text_operation (sign : String) (left right : Reading) :
    (operation sign left right).text.toList =
      '(' :: (left.text.toList ++
        ' ' :: '"' :: (sign.toList ++ '"' :: ' ' :: (right.text.toList ++ [')']))) := by
  change ("(" ++ left.text ++ " \"" ++ sign ++ "\" " ++ right.text ++ ")").toList = _
  simp

theorem toList_text_negSucc (n : Nat) :
    (number (.negSucc n)).text.toList = '-' :: (n + 1).repr.toList := by
  change ("-" ++ (n + 1).repr).toList = _
  simp

theorem isDigit_of_mem_repr {n : Nat} {c : Char} (h : c ∈ n.repr.toList) : c.isDigit = true := by
  rw [Nat.toList_repr] at h
  exact Nat.isDigit_of_mem_toDigits (by decide) (by decide) h

theorem isDigit_of_mem_number {value : Int} {c : Char} (h : c ∈ (number value).text.toList) :
    c.isDigit = true ∨ c = '-' := by
  cases value with
  | ofNat n => exact .inl (isDigit_of_mem_repr h)
  | negSucc n =>
    rw [toList_text_negSucc, List.mem_cons] at h
    exact h.symm.imp_left isDigit_of_mem_repr

/-- Different numbers are written differently. -/
theorem eq_of_text_number_eq {m n : Int} (h : (number m).text = (number n).text) : m = n := by
  have hminus : ∀ {i j : Nat}, (number (.ofNat i)).text ≠ (number (.negSucc j)).text := by
    intro i j heq
    have hmem : '-' ∈ i.repr.toList := by
      rw [show i.repr = _ from heq, toList_text_negSucc]
      exact List.mem_cons_self
    exact absurd (isDigit_of_mem_repr hmem) (by decide)
  cases m with
  | ofNat i =>
    cases n with
    | ofNat j => exact congrArg Int.ofNat (Text.toString_inj h)
    | negSucc j => exact absurd h hminus
  | negSucc i =>
    cases n with
    | ofNat j => exact absurd h.symm hminus
    | negSucc j =>
      have hdigits := congrArg String.toList h
      rw [toList_text_negSucc, toList_text_negSucc, List.cons.injEq, String.toList_inj] at hdigits
      exact congrArg Int.negSucc (Nat.succ.inj (Text.toString_inj hdigits.2))

theorem number_append_ne (value : Int) {c : Char} {rest other : List Char} (hrest : Stops rest)
    (hc : ¬(c.isDigit ∨ c = '-')) (hstop : ¬(c = ' ' ∨ c = ')')) :
    (number value).text.toList ++ rest ≠ c :: other := by
  intro h
  cases hdigits : (number value).text.toList with
  | nil =>
    rw [hdigits] at h
    exact hstop (hrest c (by simp [show rest = _ from h]))
  | cons d cs =>
    rw [hdigits] at h
    obtain rfl := (List.cons.inj h).1
    exact hc (isDigit_of_mem_number (hdigits ▸ List.mem_cons_self))

variable {rest other rest' : List Char}

/-- A reading does not start with a letter, and so it is not taken for what stands in a cell. -/
theorem text_append_ne_letter (r : Reading) (hrest : Stops rest) :
    r.text.toList ++ rest ≠ 'L' :: other := by
  intro h
  cases r with
  | number value => exact number_append_ne value hrest (by decide) (by decide) h
  | cell name => simp [toList_text_cell] at h
  | operation sign left right => simp [toList_text_operation] at h

theorem number_append_ne_bracket (value : Int) (hrest : Stops rest) :
    (number value).text.toList ++ rest ≠ '(' :: other :=
  number_append_ne value hrest (by decide) (by decide)

/-- Numbers are told by their texts, whatever stands behind them. -/
theorem number_append_inj {m n : Int} (hrest : Stops rest) (hrest' : Stops rest')
    (h : (number m).text.toList ++ rest = (number n).text.toList ++ rest') :
    m = n ∧ rest = rest' := by
  have hdigits : ∀ (value : Int), ∀ c ∈ (number value).text.toList,
      (c.isDigit || c == '-') = true := by
    intro value c hc
    simpa using isDigit_of_mem_number hc
  have hstop : ∀ {rest : List Char}, Stops rest →
      ∀ c ∈ rest.head?, ¬(c.isDigit || c == '-') = true := by
    intro rest hrest c hc
    rcases hrest c hc with rfl | rfl <;> decide
  obtain ⟨htext, hsame⟩ := append_inj_of_run (hdigits m) (hstop hrest) (hdigits n) (hstop hrest') h
  exact ⟨eq_of_text_number_eq (String.toList_inj.1 htext), hsame⟩

/-- A reading is told by its text, whatever stands behind it. -/
theorem text_append_inj {r r' : Reading} (hr : r.IsLegible) (hr' : r'.IsLegible)
    (hrest : Stops rest) (hrest' : Stops rest')
    (h : r.text.toList ++ rest = r'.text.toList ++ rest') : r = r' ∧ rest = rest' := by
  -- What follows varies, since the left side of an operation is followed by its sign.
  induction r generalizing r' rest rest' with
  | number m =>
    cases r' with
    | number n =>
      obtain ⟨rfl, hrest⟩ := number_append_inj hrest hrest' h
      exact ⟨rfl, hrest⟩
    | cell name =>
      rw [toList_text_cell] at h
      exact absurd h (number_append_ne_bracket m hrest)
    | operation sign left right =>
      rw [toList_text_operation] at h
      exact absurd h (number_append_ne_bracket m hrest)
  | cell name =>
    rw [toList_text_cell] at h
    cases r' with
    | number n => exact absurd h.symm (number_append_ne_bracket n hrest')
    | cell name' =>
      simp only [toList_text_cell, List.cons_append, List.append_assoc, List.cons.injEq,
        true_and] at h
      -- A name goes up to the bracket behind it.
      have hend : ∀ {rest : List Char}, ∀ c ∈ ([')'] ++ rest).head?, ¬Cursor.isWordChar c := by
        intro rest c hc
        obtain rfl : ')' = c := Option.some.inj hc
        decide
      obtain ⟨hname, hsame⟩ := append_inj_of_run hr hend hr' hend h
      exact ⟨congrArg cell (String.toList_inj.1 hname), by simpa using hsame⟩
    | operation sign left right =>
      simp only [toList_text_operation, List.cons_append, List.append_assoc, List.cons.injEq,
        true_and] at h
      exact absurd h.symm (text_append_ne_letter left (stops_blank _))
  | operation sign left right ihleft ihright =>
    obtain ⟨hsign, hleft, hright⟩ := hr
    rw [toList_text_operation] at h
    cases r' with
    | number n => exact absurd h.symm (number_append_ne_bracket n hrest')
    | cell name =>
      simp only [toList_text_cell, List.cons_append, List.append_assoc, List.cons.injEq,
        true_and] at h
      exact absurd h (text_append_ne_letter left (stops_blank _))
    | operation sign' left' right' =>
      obtain ⟨hsign', hleft', hright'⟩ := hr'
      simp only [toList_text_operation, List.cons_append, List.append_assoc, List.cons.injEq,
        true_and] at h
      obtain ⟨rfl, hbehind⟩ := ihleft hleft hleft' (stops_blank _) (stops_blank _) h
      simp only [List.cons.injEq, true_and] at hbehind
      -- A sign goes up to the quote behind it.
      have hplain : ∀ {s : String}, '"' ∉ s.toList → ∀ c ∈ s.toList, (c != '"') = true := by
        intro s hs c hc
        simpa using fun heq : c = '"' => hs (heq ▸ hc)
      have hend : ∀ {rest : List Char}, ∀ c ∈ ('"' :: rest).head?, ¬(c != '"') = true := by simp
      obtain ⟨hsame, hbehind⟩ := append_inj_of_run (hplain hsign) hend (hplain hsign') hend hbehind
      simp only [List.cons.injEq, true_and] at hbehind
      obtain ⟨rfl, hbehind⟩ := ihright hright hright' (stops_bracket _) (stops_bracket _) hbehind
      rw [String.toList_inj.1 hsame]
      exact ⟨rfl, by simpa using hbehind⟩

theorem text_inj {r r' : Reading} (hr : r.IsLegible) (hr' : r'.IsLegible) :
    r.text = r'.text ↔ r = r' := by
  refine ⟨fun h => ?_, congrArg text⟩
  exact (text_append_inj hr hr' stops_nil stops_nil (by rw [h])).1

end Reading

/-! ### Scalar expressions -/

namespace Listing

/-- Whether a table says that a name is a variable for integers or truth values. -/
def isScalarVariable (context : Context) (table : Table) (n : String) : Bool :=
  !isParameter context table n && ["integer", "boolean"].any
    (givesWord (do (← valueInfo (← table.lookup context (.text n))).get "type"))

end Listing

namespace Code

/-- Whether code is made of integers, truth values and variables for these by operators. A name is a
letter with letters and digits behind it, and an operator has no quotes. -/
def isScalar (context : Context) (table : Table) : Code → Bool
  | integer (.int _) => true
  | integer (.bool _) => true
  | name (.text n) =>
    n.toList.head?.any Text.isLetter && n.toList.all Cursor.isWordChar &&
      isScalarVariable context table n
  | compare (.text operator) left right | binary (.text operator) left right =>
    !operator.toList.contains '"' && left.isScalar context table && right.isScalar context table
  | _ => false

/-- The reading of code. A truth value is read as 1 or 0, an operator as its sign, and a comparison
as an operation like any other. -/
def reading? : Code → Option Reading
  | integer (.int n) => some (.number n)
  | integer (.bool b) => some (.number (if b then 1 else 0))
  | name (.text n) => some (.cell n)
  | compare (.text operator) left right | binary (.text operator) left right => do
    return .operation (operatorSign operator) (← left.reading?) (← right.reading?)
  | _ => none

end Code

namespace Listing

variable {context : Context} {table : Table}

theorem expression_isScalarVariable {n : String} (h : isScalarVariable context table n = true) :
    expression context (Code.name (.text n)).toTree false table = .ok (.text (load n)) := by
  simp only [isScalarVariable, List.any_cons, List.any_nil, Bool.or_false, Bool.and_eq_true,
    Bool.not_eq_true', Bool.or_eq_true] at h
  obtain ⟨hparameter, htype | htype⟩ := h
  · exact expression_scalarVariable (.inl rfl) hparameter htype false
  · exact expression_scalarVariable (.inr rfl) hparameter htype false

theorem expression_compare_of_text {operator : String} {left right : Code} {r r' : Reading}
    (hleft : expression context left.toTree false table = .ok (.text r.text))
    (hright : expression context right.toTree false table = .ok (.text r'.text)) :
    expression context (Code.compare (.text operator) left right).toTree false table =
      .ok (.text (Reading.operation (operatorSign operator) r r').text) := by
  rw [expression_compare, hleft, hright]
  rfl

theorem exists_reading_of_isScalar (c : Code) (h : c.isScalar context table = true) :
    ∃ r, c.reading? = some r ∧ r.IsLegible ∧
      expression context c.toTree false table = .ok (.text r.text) := by
  fun_induction Code.isScalar context table c with
  | case1 n => exact ⟨.number n, rfl, trivial, rfl⟩
  | case2 b => exact ⟨.number (if b then 1 else 0), rfl, trivial, by cases b <;> rfl⟩
  | case3 n =>
    simp only [Bool.and_eq_true, List.all_eq_true] at h
    exact ⟨.cell n, rfl, h.1.2, expression_isScalarVariable h.2⟩
  | case4 operator left right ihleft ihright =>
    simp only [Bool.and_eq_true, Bool.not_eq_true', List.contains_eq_mem, decide_eq_false_iff_not]
      at h
    obtain ⟨r, hr, hlegible, htext⟩ := ihleft h.1.2
    obtain ⟨r', hr', hlegible', htext'⟩ := ihright h.2
    refine ⟨.operation (operatorSign operator) r r', by simp [Code.reading?, hr, hr'], ?_, ?_⟩
    · exact ⟨quote_notMem_operatorSign h.1.1, hlegible, hlegible'⟩
    · exact expression_compare_of_text htext htext'
  | case5 operator left right ihleft ihright =>
    simp only [Bool.and_eq_true, Bool.not_eq_true', List.contains_eq_mem, decide_eq_false_iff_not]
      at h
    obtain ⟨r, hr, hlegible, htext⟩ := ihleft h.1.2
    obtain ⟨r', hr', hlegible', htext'⟩ := ihright h.2
    refine ⟨.operation (operatorSign operator) r r', by simp [Code.reading?, hr, hr'], ?_, ?_⟩
    · exact ⟨quote_notMem_operatorSign h.1.1, hlegible, hlegible'⟩
    · exact expression_compare_of_text htext htext'
  | case6 => cases h

/-- Two scalar expressions of one table are both listed, each as the text of its reading, and the
two listings are the same only where the readings are: the same numbers, names and signs in the same
nesting. -/
theorem expression_eq_iff_reading_eq (c c' : Code) (h : c.isScalar context table = true)
    (h' : c'.isScalar context table = true) :
    ∃ r r' : Reading, c.reading? = some r ∧ c'.reading? = some r' ∧
      expression context c.toTree false table = .ok (.text r.text) ∧
      expression context c'.toTree false table = .ok (.text r'.text) ∧
      (expression context c.toTree false table = expression context c'.toTree false table ↔
        r = r') := by
  obtain ⟨r, hr, hlegible, htext⟩ := exists_reading_of_isScalar c h
  obtain ⟨r', hr', hlegible', htext'⟩ := exists_reading_of_isScalar c' h'
  refine ⟨r, r', hr, hr', htext, htext', ?_⟩
  rw [htext, htext', Except.ok.injEq, Tree.text.injEq]
  exact Reading.text_inj hlegible hlegible'

/-- A table with a variable for integers and one for truth values. -/
def scalarTable : Table :=
  .loose [("i", .dict [("type", .text "var"), ("info", .dict [("type", .text "integer")])]),
    ("b", .dict [("type", .text "var"), ("info", .dict [("type", .text "boolean")])])]

/-- A comparison of `b` with an operation on `i` and a truth value, under two names of one
operator. -/
theorem expression_eq_iff_reading_eq_scalarTable :
    let c := Code.compare (.text "=") (.name (.text "b")) (.binary (.text "DIV")
      (.name (.text "i")) (.integer (.bool true)))
    let c' := Code.binary (.text "=") (.name (.text "b")) (.binary (.text "/")
      (.name (.text "i")) (.integer (.int 1)))
    expression ⟨.empty, 0⟩ c.toTree false scalarTable =
        .ok (.text "((L b) \"=\" ((L i) \"/\" 1))") ∧
      expression ⟨.empty, 0⟩ c.toTree false scalarTable =
        expression ⟨.empty, 0⟩ c'.toTree false scalarTable := by
  intro c c'
  have hc : c.isScalar ⟨.empty, 0⟩ scalarTable = true := by decide
  have hc' : c'.isScalar ⟨.empty, 0⟩ scalarTable = true := by decide
  obtain ⟨r, r', hr, hr', htext, -, hiff⟩ := expression_eq_iff_reading_eq c c' hc hc'
  have hread : c.reading? = some (.operation "=" (.cell "b")
      (.operation "/" (.cell "i") (.number 1))) := by decide +kernel
  have hread' : c'.reading? = c.reading? := by decide +kernel
  refine ⟨?_, hiff.2 (Option.some.inj (by rw [← hr, ← hr', hread']))⟩
  rfl

end Listing

end MiniPascal
