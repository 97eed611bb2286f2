import MiniPascal.Proofs.Analysis.Programs
import MiniPascal.Proofs.Code.Shape
import MiniPascal.Proofs.Lexing.Plain
import MiniPascal.Proofs.Parsing.Reading
import MiniPascal.Proofs.Parsing.Statements
import MiniPascal.Workload

/-!
# Sample Programs of Every Length

A sample program has an opening that does not depend on its length, and after it statements that
repeat. What the opening means is computed once; the rest is an induction over the repetitions,
through all stages.

* `Workload.checkedSample_accepted`: sample programs of every length are accepted.
-/

namespace MiniPascal

open Check Checking Parse Workload

/-! ### Lines and what comes after them -/

/-- The lines are read as the lexemes `ls`, whatever text comes after them. -/
def Precedes (lines : List Char) (ls : List Lexeme) : Prop :=
  ∀ ⦃text : List Char⦄ ⦃us : List Token⦄, Segments text us →
    ∃ ts, Segments (lines ++ text) (ts ++ us) ∧ ts.map Token.lexeme = ls

namespace Precedes

variable {lines lines' : List Char} {ls ls' : List Lexeme}

theorem nil : Precedes [] [] := fun _ _ h => ⟨[], h, rfl⟩

theorem append (h : Precedes lines ls) (h' : Precedes lines' ls') :
    Precedes (lines ++ lines') (ls ++ ls') := by
  intro text us hus
  obtain ⟨ts', hts', rfl⟩ := h' hus
  obtain ⟨ts, hts, rfl⟩ := h hts'
  refine ⟨ts ++ ts', ?_, List.map_append⟩
  rwa [List.append_assoc, List.append_assoc]

theorem flatMap {α : Type} {f : α → List Char} {g : α → List Lexeme} :
    ∀ l : List α, (∀ a ∈ l, Precedes (f a) (g a)) → Precedes (l.flatMap f) (l.flatMap g)
  | [], _ => nil
  | a :: l, h => by
    obtain ⟨ha, hl⟩ := List.forall_mem_cons.1 h
    rw [List.flatMap_cons, List.flatMap_cons]
    exact ha.append (flatMap l hl)

theorem of_plainTokens {fuel : Nat} {ts : List Token} (h : plainTokens fuel lines = some ts)
    (hbreak : lines.getLast? = some '\n') (hend : ts.getLast?.map Token.lexeme = some .semicolon) :
    Precedes lines (ts.map Token.lexeme) := by
  refine fun text us hus => ⟨ts, (segments_of_plainTokens fuel h).append_line hbreak ?_ hus, rfl⟩
  intro t ht
  rw [Option.mem_def.1 ht] at hend
  exact Option.some.inj hend

end Precedes

/-! ### Lists of statements -/

theorem stmtsLexemes_append : ∀ ss ss' : List Stmt,
    stmtsLexemes (ss ++ ss') = stmtsLexemes ss ++ stmtsLexemes ss'
  | [], _ => rfl
  | s :: ss, ss' => by
    rw [List.cons_append, stmtsLexemes, stmtsLexemes_append ss ss', stmtsLexemes, List.append_assoc,
      List.cons_append]

theorem stmtsLexemes_flatMap {α : Type} (f : α → List Stmt) : ∀ l : List α,
    stmtsLexemes (l.flatMap f) = l.flatMap fun a => stmtsLexemes (f a)
  | [] => rfl
  | a :: l => by
    rw [List.flatMap_cons, List.flatMap_cons, stmtsLexemes_append, stmtsLexemes_flatMap f l]

theorem stmtsWellFormed_iff {ss : List Stmt} :
    stmtsWellFormed ss ↔ ∀ s ∈ ss, s.WellFormed := by
  induction ss with
  | nil => simp [stmtsWellFormed]
  | cons s ss ih => rw [stmtsWellFormed, ih, List.forall_mem_cons]

theorem stmtTrees_append : ∀ ss ss' : List Stmt,
    stmtTrees (ss ++ ss') = stmtTrees ss ++ stmtTrees ss'
  | [], _ => rfl
  | s :: ss, ss' => congrArg (s.toTree :: ·) (stmtTrees_append ss ss')

theorem checkStatementList_append {a : Analysis} : ∀ {ts ts' : List Tree} {cs cs' : List Code},
    checkStatementList ts a = .ok cs → checkStatementList ts' a = .ok cs' →
    checkStatementList (ts ++ ts') a = .ok (cs ++ cs')
  | [], _, _, _, h, h' => by
    rw [← pure_eq_ok.1 h]
    exact h'
  | t :: ts, ts', _, cs', h, h' => by
    obtain ⟨code, hcode, h⟩ := bind_eq_ok.1 h
    obtain ⟨rest, hrest, h⟩ := bind_eq_ok.1 h
    rw [← pure_eq_ok.1 h, List.append_assoc]
    exact bind_eq_ok.2 ⟨code, hcode, bind_eq_ok.2
      ⟨rest ++ cs', checkStatementList_append hrest h', rfl⟩⟩

theorem checkStatementList_flatMap {a : Analysis} {α : Type} {f : α → List Stmt}
    {g : α → List Code} : ∀ l : List α,
    (∀ x ∈ l, checkStatementList (stmtTrees (f x)) a = .ok (g x)) →
    checkStatementList (stmtTrees (l.flatMap f)) a = .ok (l.flatMap g)
  | [], _ => rfl
  | x :: l, h => by
    obtain ⟨hx, hl⟩ := List.forall_mem_cons.1 h
    rw [List.flatMap_cons, List.flatMap_cons, stmtTrees_append]
    exact checkStatementList_append hx (checkStatementList_flatMap l hl)

/-! ### More tokens after declarations -/

/-- A second run on the lexemes of the first one and more, without looking further than three
tokens. -/
def Pairing.extending (more : List Lexeme) : Pairing where
  Words := Eq
  Paired ts us := us.map Token.lexeme = ts.map Token.lexeme ++ more
  Ample ts := 3 ≤ ts.length
  words_refl _ := rfl
  ample_cons h := Nat.le_succ_of_le h
  kinds_eq := by
    intro ts us hample h i hi
    have hi : i < ts.length := Nat.lt_of_lt_of_le hi hample
    have hlexeme : us[i]?.map Token.lexeme = ts[i]?.map Token.lexeme := by
      rw [← List.getElem?_map, h, List.getElem?_append_left (by rwa [List.length_map]),
        List.getElem?_map]
    have hkind := congrArg (Option.map Prod.fst) hlexeme
    rw [Option.map_map, Option.map_map] at hkind
    exact hkind.symm
  paired_cons := by
    intro t ts us _ h
    cases us with
    | nil => exact absurd h nofun
    | cons u us =>
      obtain ⟨hu, hus⟩ := List.cons_eq_cons.1 h
      have hkind : t.kind = u.kind := congrArg Prod.fst hu.symm
      have hvalue : t.value = u.value := congrArg Prod.snd hu.symm
      exact ⟨u, us, rfl, ⟨hkind, fun _ => hvalue, hvalue⟩, hus⟩

/-- Declarations are read as before if more tokens come after those that end them and there is more
fuel. -/
theorem Grammar.declarations_extend {fuel : Nat} {ts us rest : List Token} {ds : List Decl}
    {more : List Lexeme} (h : Gives (declarations fuel) ts ds rest) (hrest : 3 ≤ rest.length)
    (hus : us.map Token.lexeme = ts.map Token.lexeme ++ more) (extra : Nat) :
    ∃ left, Gives (declarations (extra + fuel)) us ds left ∧
      left.map Token.lexeme = rest.map Token.lexeme ++ more := by
  obtain ⟨-, -, hsecond⟩ := EndsBy.of_gives (V := .any) (.extending more) extra
    (fun t _ => Vocabulary.any_admits t) h (ends_blocks _ _).2.1
  obtain ⟨ds', left, hgives, hsame, hleft⟩ := hsecond hrest hus
  obtain rfl := hsame.eq
  exact ⟨left, hgives, hleft⟩

namespace Workload

/-! ### Statements that repeat -/

/-- `i := i + c * j - n div 2`; all operators are grouped from the left. -/
def countStmt (c : Nat) : Stmt :=
  let value (n : String) : Operand := .designator (.name n)
  .assign (.name "i") (.operand (.binary (.binary (.binary (.binary (value "i") "+" (.number c))
    "*" (value "j")) "-" (value "n")) "div" (.number 2)))

/-- An element of the array that the repeated statements change. -/
def cell (index : Nat) : Designator := .element (.name "niz") (.operand (.number index))

/-- `niz[target] := niz[source] + 1`. -/
def moveStmt (target source : Nat) : Stmt :=
  .assign (cell target) (.operand (.binary (.designator (cell source)) "+" (.number 1)))

/-- The statements that repeat, the `k`-th time. -/
def repeatedStmts (k : Nat) : List Stmt :=
  [countStmt (k % 7 + 1), moveStmt (k % 10 + 1) ((k + 1) % 10 + 1)]

/-- The line of `countStmt`. -/
def countLine (c : Nat) : List Char :=
  "  i := i + ".toList ++ (toString c).toList ++ " * j - n div 2;\n".toList

/-- The line of `moveStmt`. -/
def moveLine (target source : Nat) : List Char :=
  "  niz[".toList ++ (toString target).toList ++ "] := niz[".toList ++ (toString source).toList ++
    "] + 1;\n".toList

theorem toList_repeatedStatements (k : Nat) : (repeatedStatements k).toList =
    countLine (k % 7 + 1) ++ moveLine (k % 10 + 1) ((k + 1) % 10 + 1) := by
  have hparts : repeatedStatements k = "  i := i + " ++ toString (k % 7 + 1) ++
      " * j - n div 2;\n  niz[" ++ toString (k % 10 + 1) ++ "] := niz[" ++
      toString ((k + 1) % 10 + 1) ++ "] + 1;\n" := rfl
  have hbreak : " * j - n div 2;\n  niz[" = " * j - n div 2;\n" ++ "  niz[" := by decide +kernel
  have hjoin : ∀ a b c d e f g h : String, (a ++ b ++ (c ++ d) ++ e ++ f ++ g ++ h).toList =
      a.toList ++ b.toList ++ c.toList ++
        (d.toList ++ e.toList ++ f.toList ++ g.toList ++ h.toList) := by
    intro a b c d e f g h
    simp only [String.toList_append, List.append_assoc]
  rw [hparts, hbreak]
  exact hjoin _ _ _ _ _ _ _ _

/-- Whether a line is read as a statement with a semicolon after it. -/
def isLineOf (line : List Char) (s : Stmt) : Bool :=
  (plainTokens (line.length + 1) line).map (·.map Token.lexeme) = some (stmtsLexemes [s]) ∧
    line.getLast? = some '\n' ∧ stmtsWellFormed [s]

theorem Precedes.of_isLineOf {line : List Char} {s : Stmt} (h : isLineOf line s) :
    Precedes line (stmtsLexemes [s]) ∧ s.WellFormed := by
  obtain ⟨hlexemes, hbreak, hs, -⟩ := of_decide_eq_true h
  obtain ⟨ts, hts, hlexemes⟩ := Option.map_eq_some_iff.1 hlexemes
  refine ⟨hlexemes ▸ .of_plainTokens hts hbreak ?_, hs⟩
  rw [← List.getLast?_map, hlexemes, stmtsLexemes, List.getLast?_append]
  rfl

-- Only the remainders of the number of the repetition are written in the lines, so there are
-- seven lines of one kind and ten of the other.
set_option maxRecDepth 20000 in
theorem isLineOf_countLine : ∀ c < 7, isLineOf (countLine (c + 1)) (countStmt (c + 1)) := by
  decide +kernel

set_option maxRecDepth 20000 in
theorem isLineOf_moveLine : ∀ c < 10, isLineOf (moveLine (c + 1) ((c + 1) % 10 + 1))
    (moveStmt (c + 1) ((c + 1) % 10 + 1)) := by
  decide +kernel

theorem precedes_repeatedStatements (k : Nat) :
    Precedes (repeatedStatements k).toList (stmtsLexemes (repeatedStmts k)) ∧
      stmtsWellFormed (repeatedStmts k) := by
  obtain ⟨hcount, hcounted⟩ :=
    Precedes.of_isLineOf (isLineOf_countLine _ (Nat.mod_lt k (by decide : 0 < 7)))
  obtain ⟨hmove, hmoved⟩ :=
    Precedes.of_isLineOf (isLineOf_moveLine _ (Nat.mod_lt k (by decide : 0 < 10)))
  rw [Nat.mod_add_mod] at hmove hmoved
  rw [toList_repeatedStatements, repeatedStmts, ← List.singleton_append, stmtsLexemes_append]
  exact ⟨hcount.append hmove, hcounted, hmoved, trivial⟩

theorem generate_countStmt (c : Nat) : ∃ value,
    (countStmt c).toTree.generate = .ok (.assign (.name (.text "i")) value) :=
  ⟨_, rfl⟩

theorem generate_moveStmt (target source : Nat) : ∃ value,
    (moveStmt target source).toTree.generate =
      .ok (.assign (.element "niz" [.integer (.int target)]) value) :=
  ⟨_, rfl⟩

theorem toList_sampleWith (statements : String) (n : Nat) : (sampleWith statements n).toList =
    declarations.toList ++ statements.toList ++
      (List.range n).flatMap (fun k => (repeatedStatements k).toList) ++ "end.\n".toList := by
  have hjoin : ∀ l : List Nat, (String.join (l.map repeatedStatements)).toList =
      l.flatMap fun k => (repeatedStatements k).toList := by
    intro l
    rw [String.toList_join, List.flatMap_map]
  unfold sampleWith
  generalize declarations = d, "end.\n" = e
  rw [String.toList_append, String.toList_append, String.toList_append, hjoin]

theorem lex_program {lines : List Char} {ls : List Lexeme} (h : Precedes lines ls) {text : String}
    (htext : text.toList = lines ++ "end.\n".toList) :
    ∃ tokens, Token.lex text = .ok tokens ∧
      tokens.map Token.lexeme = ls ++ [Lexeme.kwEnd, .dot, (.eof, "EOF")] := by
  have hend : Segments "end.\n".toList
      [Token.unplaced .kwEnd "end".toList, .unplaced .dot ".".toList] :=
    segments_of_plainTokens 10 (by decide +kernel)
  obtain ⟨ts, hts, hlexemes⟩ := h hend
  rw [← htext] at hts
  have hbreak : text.toList.getLast? = some '\n' := by
    rw [htext, List.getLast?_append]
    rfl
  obtain ⟨us, line, column, hlex, hus⟩ := Token.lex_of_segments hts hbreak (by decide)
  refine ⟨_, hlex, ?_⟩
  rw [List.map_append, hus, List.map_append, hlexemes, List.append_assoc]
  rfl

/-! ### What all samples share -/

/-- The tokens, the syntax and the analysis of what comes before the statements that repeat. -/
structure Opening where
  /-- The tokens of the declarations. -/
  front : List Token
  /-- The tokens of the statements, with the word that starts them. -/
  body : List Token
  decls : List Decl
  stmts : List Stmt
  /-- What is known after the declarations. -/
  declared : Analysis

/-- What a parser gives if it leaves the given tokens. -/
def parsed? {α : Type} (p : Parse α) (ts rest : List Token) : Option α :=
  match p ts with
  | (.ok a, left) => if left = rest then some a else none
  | _ => none

theorem gives_of_parsed? {α : Type} {p : Parse α} {ts rest : List Token} {a : α}
    (h : parsed? p ts rest = some a) : Gives p ts a rest := by
  unfold parsed? at h
  split at h
  next left hp =>
    obtain ⟨hleft, ha⟩ := Option.ite_none_right_eq_some.1 h
    exact hleft ▸ Option.some.inj ha ▸ hp
  next => exact absurd h nofun

def declared? (ds : List Decl) : Option Analysis :=
  match (Declaring.declareAll (.list (declTrees ds))) Analysis.start with
  | (.ok (), a) => some a
  | _ => none

theorem runs_of_declared? {ds : List Decl} {a : Analysis} (h : declared? ds = some a) :
    Runs (Declaring.declareAll (.list (declTrees ds))) .start () a := by
  unfold declared? at h
  split at h
  next hrun => exact Option.some.inj h ▸ hrun
  next => exact absurd h nofun

namespace Opening

def inside (o : Opening) : Analysis := { o.declared with scopes := o.declared.scopes.enter }

/-- Whether statements are accepted after the declarations. -/
def accepts (o : Opening) (ss : List Stmt) : Bool :=
  (checkStatementList (stmtTrees ss) o.inside).toOption.isSome

theorem exists_of_accepts {o : Opening} {ss : List Stmt} (h : o.accepts ss) :
    ∃ codes, checkStatementList (stmtTrees ss) o.inside = .ok codes := by
  unfold accepts at h
  cases hcheck : checkStatementList (stmtTrees ss) o.inside with
  | error e =>
    rw [hcheck] at h
    exact absurd h nofun
  | ok codes => exact ⟨codes, rfl⟩

def read? (declarations statements : List Char) : Option Opening := do
  let front ← plainTokens (declarations.length + 1) declarations
  let body ← plainTokens (statements.length + 1) statements
  let decls ← parsed? (Grammar.declarations (8 * front.length)) (front.drop 3 ++ body.take 3)
    (body.take 3)
  let stmts ← parsed? (Grammar.compound (8 * body.length)) (body ++ [⟨.kwEnd, "end", 0, 0⟩]) []
  return { front, body, decls, stmts, declared := ← declared? decls }

/-- Whether the opening has the shape that samples need: it starts with the head of a program, its
lines end in semicolons, and its statements are accepted, as are those that repeat. -/
def isSound (o : Opening) (declarations statements : List Char) : Bool :=
  (o.front.take 3).map Token.kind = [.identifier, .identifier, .semicolon] ∧
  declarations.getLast? = some '\n' ∧ o.front.getLast?.map Token.lexeme = some .semicolon ∧
  statements.getLast? = some '\n' ∧ o.body.getLast?.map Token.lexeme = some .semicolon ∧
  o.body.map Token.lexeme = (.kwBegin, "begin") :: stmtsLexemes o.stmts ∧
  stmtsWellFormed o.stmts ∧ 3 ≤ o.body.length ∧ (Tree.list (declTrees o.decls)).isTruthy ∧
  o.accepts o.stmts ∧
  (∀ c < 7, o.accepts [countStmt (c + 1)]) ∧
  ∀ c < 10, o.accepts [moveStmt (c + 1) ((c + 1) % 10 + 1)]

/-- The opening is what all samples share. -/
structure IsShared (o : Opening) : Prop where
  head : (o.front.take 3).map Token.kind = [.identifier, .identifier, .semicolon]
  front_precedes : Precedes declarations.toList (o.front.map Token.lexeme)
  body_precedes : Precedes firstStatements.toList (o.body.map Token.lexeme)
  body_lexemes : o.body.map Token.lexeme = (.kwBegin, "begin") :: stmtsLexemes o.stmts
  body_length : 3 ≤ o.body.length
  decls_given : Gives (Grammar.declarations (8 * o.front.length))
    (o.front.drop 3 ++ o.body.take 3) o.decls (o.body.take 3)
  wellFormed : stmtsWellFormed o.stmts
  declares_some : (Tree.list (declTrees o.decls)).isTruthy
  declares : Runs (Declaring.declareAll (.list (declTrees o.decls))) .start () o.declared
  accepts_stmts : o.accepts o.stmts
  accepts_count : ∀ c < 7, o.accepts [countStmt (c + 1)]
  accepts_move : ∀ c < 10, o.accepts [moveStmt (c + 1) ((c + 1) % 10 + 1)]

-- The texts are handed to the kernel as lists of characters: it cannot take long strings apart.
set_option maxRecDepth 20000 in
theorem exists_isSound : ∃ d s, declarations.toList = d ∧ firstStatements.toList = s ∧
    (read? d s).any (·.isSound d s) = true :=
  ⟨_, _, String.toList_ofList, String.toList_ofList, by decide +kernel⟩

theorem exists_isShared : ∃ o : Opening, o.IsShared := by
  obtain ⟨d, s, hd, hs, hsound⟩ := exists_isSound
  cases hread : read? d s with
  | none =>
    rw [hread] at hsound
    exact absurd hsound nofun
  | some o =>
    rw [hread] at hsound
    obtain ⟨hhead, hbreak, hend, hbreak', hend', hlexemes, hwf, hlength, hsome, hstmts, hcount,
      hmove⟩ :=
      of_decide_eq_true hsound
    obtain ⟨front, hfront, hread⟩ := Option.bind_eq_some_iff.1 hread
    obtain ⟨body, hbody, hread⟩ := Option.bind_eq_some_iff.1 hread
    obtain ⟨decls, hdecls, hread⟩ := Option.bind_eq_some_iff.1 hread
    obtain ⟨stmts, -, hread⟩ := Option.bind_eq_some_iff.1 hread
    obtain ⟨declared, hdeclared, hread⟩ := Option.bind_eq_some_iff.1 hread
    obtain rfl := Option.some.inj hread
    exact ⟨_, {
      head := hhead
      front_precedes := hd ▸ .of_plainTokens hfront hbreak hend
      body_precedes := hs ▸ .of_plainTokens hbody hbreak' hend'
      body_lexemes := hlexemes
      body_length := hlength
      decls_given := gives_of_parsed? hdecls
      wellFormed := hwf
      declares_some := hsome
      declares := runs_of_declared? hdeclared
      accepts_stmts := hstmts
      accepts_count := hcount
      accepts_move := hmove }⟩

def sampleStmts (o : Opening) (n : Nat) : List Stmt :=
  o.stmts ++ (List.range n).flatMap repeatedStmts

variable {o : Opening}

namespace IsShared

theorem wellFormed_sampleStmts (h : o.IsShared) (n : Nat) : stmtsWellFormed (o.sampleStmts n) := by
  refine stmtsWellFormed_iff.2 fun s hs => ?_
  rcases List.mem_append.1 hs with hs | hs
  · exact stmtsWellFormed_iff.1 h.wellFormed s hs
  · obtain ⟨k, -, hs⟩ := List.mem_flatMap.1 hs
    exact stmtsWellFormed_iff.1 (precedes_repeatedStatements k).2 s hs

theorem exists_front_eq (h : o.IsShared) : ∃ a b c ts, o.front = a :: b :: c :: ts ∧
    a.kind = .identifier ∧ b.kind = .identifier ∧ c.kind = .semicolon := by
  have hhead := h.head
  rcases hfront : o.front with _ | ⟨a, _ | ⟨b, _ | ⟨c, ts⟩⟩⟩
  all_goals rw [hfront] at hhead
  · simp at hhead
  · simp at hhead
  · simp at hhead
  · exact ⟨a, b, c, ts, rfl, by simpa using hhead⟩

theorem lex_checkedSample (h : o.IsShared) (n : Nat) :
    ∃ tokens, Token.lex (checkedSample n) = .ok tokens ∧ tokens.map Token.lexeme =
      o.front.map Token.lexeme ++ (Stmt.compound (o.sampleStmts n)).lexemes ++
        [Lexeme.dot, (.eof, "EOF")] := by
  have hrepeated := Precedes.flatMap (List.range n)
    fun k _ => (precedes_repeatedStatements k).1
  obtain ⟨tokens, hlex, htokens⟩ :=
    lex_program ((h.front_precedes.append h.body_precedes).append hrepeated)
      (toList_sampleWith firstStatements n)
  refine ⟨tokens, hlex, ?_⟩
  rw [htokens, h.body_lexemes, ← stmtsLexemes_flatMap, Stmt.lexemes, sampleStmts,
    stmtsLexemes_append]
  simp only [List.append_assoc, List.cons_append, List.nil_append]

theorem parse_tokens (h : o.IsShared) {n : Nat} {tokens : List Token}
    (htokens : tokens.map Token.lexeme = o.front.map Token.lexeme ++
      (Stmt.compound (o.sampleStmts n)).lexemes ++ [Lexeme.dot, (.eof, "EOF")]) :
    ∃ name, Program.parse tokens = .ok ⟨name, .mk o.decls (o.sampleStmts n)⟩ := by
  -- The parser of declarations has seen the body only up to its third token.
  obtain ⟨more, hmore⟩ : ∃ more, (Stmt.compound (o.sampleStmts n)).lexemes ++
      [Lexeme.dot, (.eof, "EOF")] = (o.body.take 3).map Token.lexeme ++ more := by
    refine ⟨(o.body.drop 3).map Token.lexeme ++ (stmtsLexemes ((List.range n).flatMap repeatedStmts)
      ++ [Lexeme.kwEnd, .dot, (.eof, "EOF")]), ?_⟩
    rw [← List.append_assoc, ← List.map_append, List.take_append_drop, h.body_lexemes, Stmt.lexemes,
      sampleStmts, stmtsLexemes_append]
    simp only [List.append_assoc, List.cons_append, List.nil_append]
  obtain ⟨a, b, c, declTokens, hfront, ha, hb, hc⟩ := h.exists_front_eq
  rw [hfront, List.append_assoc, hmore] at htokens
  obtain ⟨a', tokens, rfl, ha', htokens⟩ := List.map_eq_cons_iff.1 htokens
  obtain ⟨b', tokens, rfl, hb', htokens⟩ := List.map_eq_cons_iff.1 htokens
  obtain ⟨c', tokens, rfl, hc', htokens⟩ := List.map_eq_cons_iff.1 htokens
  have htokens : tokens.map Token.lexeme =
      (o.front.drop 3 ++ o.body.take 3).map Token.lexeme ++ more := by
    rw [hfront, List.map_append, List.append_assoc]
    exact htokens
  have hlength : 3 ≤ (o.body.take 3).length := by
    rw [List.length_take]
    exact Nat.le_min.2 ⟨Nat.le_refl 3, h.body_length⟩
  have hcount : tokens.length =
      o.front.length - 3 + ((Stmt.compound (o.sampleStmts n)).lexemes.length + 2) := by
    have hcount := congrArg List.length htokens
    rwa [List.map_append, List.append_assoc, ← hmore, List.length_map, List.length_append,
      List.length_map, List.length_drop, List.length_append] at hcount
  let fuel := 8 * (a' :: b' :: c' :: tokens).length + 15
  have hfuel : fuel - 8 * o.front.length + 8 * o.front.length = fuel := by
    simp only [List.length_cons, fuel]
    omega
  obtain ⟨left, hdecls, hleft⟩ := Grammar.declarations_extend h.decls_given hlength htokens
    (fuel - 8 * o.front.length)
  rw [hfuel] at hdecls
  rw [← hmore] at hleft
  obtain ⟨stmtTokens, lastTokens, rfl, hstmts, hlast⟩ := List.map_eq_append_iff.1 hleft
  obtain ⟨d, eofTokens, rfl, hd, -⟩ := List.map_eq_cons_iff.1 hlast
  have hfuel' : 8 * (Stmt.compound (o.sampleStmts n)).lexemes.length + 0 ≤ fuel := by
    simp only [List.length_cons, fuel]
    omega
  have hcompound := compound_parses (stmts_read _ (h.wellFormed_sampleStmts n)) fuel hfuel'
    (spells_of_map_eq hstmts (d :: eofTokens)) List.not_mem_nil
  refine ⟨b'.value, Program.parse_eq_ok.2 ⟨eofTokens, ?_⟩⟩
  refine (gives_take _ ((congrArg Prod.fst ha').trans ha)).bind ?_
  refine (gives_take _ ((congrArg Prod.fst hb').trans hb)).bind ?_
  refine (gives_take _ ((congrArg Prod.fst hc').trans hc)).bind ?_
  refine Gives.bind (hdecls.bind (hcompound.bind (.pure _ _))) ?_
  exact (gives_take _ (congrArg Prod.fst hd)).bind (.pure _ _)

theorem check_of_accepts {s : Stmt} {code : Code} (hs : s.isCompound = false)
    (h : o.accepts [s]) (hcode : s.toTree.generate = .ok code) :
    checkStatementList (stmtTrees [s]) o.inside = .ok [code] := by
  obtain ⟨codes, hcodes⟩ := exists_of_accepts h
  have hgenerate := checkStatementList_ensures _ _ _ hcodes
  rw [keptStatements, List.filter_cons_of_pos (by simp [hs]), stmtTrees, Tree.generateAll, hcode]
    at hgenerate
  obtain rfl : [code] = codes := Except.ok.inj hgenerate
  exact hcodes

/-- The code of the statements that repeat. -/
theorem check_repeatedStmts (h : o.IsShared) (k : Nat) : ∃ value value',
    checkStatementList (stmtTrees (repeatedStmts k)) o.inside =
      .ok [.assign (.name (.text "i")) value,
        .assign (.element "niz" [.integer (.int (k % 10 + 1 : Nat))]) value'] := by
  obtain ⟨value, hvalue⟩ := generate_countStmt (k % 7 + 1)
  obtain ⟨value', hvalue'⟩ := generate_moveStmt (k % 10 + 1) ((k + 1) % 10 + 1)
  have hcount := h.accepts_count _ (Nat.mod_lt k (by decide : 0 < 7))
  have hmove := h.accepts_move _ (Nat.mod_lt k (by decide : 0 < 10))
  rw [Nat.mod_add_mod] at hmove
  refine ⟨value, value', ?_⟩
  rw [repeatedStmts, ← List.singleton_append, stmtTrees_append]
  exact checkStatementList_append (check_of_accepts rfl hcount hvalue)
    (check_of_accepts rfl hmove hvalue')

theorem exists_repeatedCodes (h : o.IsShared) :
    ∃ (codes : Nat → List Code) (value value' : Nat → Code),
    (∀ k, checkStatementList (stmtTrees (repeatedStmts k)) o.inside = .ok (codes k)) ∧
      ∀ k, codes k = [.assign (.name (.text "i")) (value k),
        .assign (.element "niz" [.integer (.int (k % 10 + 1 : Nat))]) (value' k)] := by
  choose value value' hcheck using h.check_repeatedStmts
  exact ⟨_, value, value', hcheck, fun _ => rfl⟩

/-- The analysis of a sample: only the code of its statements depends on its length. -/
theorem analyze_checkedSample {codes : List Code} (h : o.IsShared) {n : Nat}
    (hcodes : checkStatementList (stmtTrees (o.sampleStmts n)) o.inside = .ok codes) :
    Pipeline.analyze (checkedSample n) =
      .ok { o.inside with code := some (Code.bodyTree codes) } := by
  obtain ⟨tokens, hlex, htokens⟩ := h.lex_checkedSample n
  obtain ⟨name, hparse⟩ := h.parse_tokens htokens
  have hfinish : Runs (Declaring.finishBlock (compoundTree (o.sampleStmts n))) o.declared
      (Code.bodyTree codes) { o.inside with code := some (Code.bodyTree codes) } := by
    refine runs_modify_bind.2 (Declare.runs_check_bind.2 ⟨codes, hcodes, ?_⟩)
    exact runs_modify_bind.2 (runs_pure.2 ⟨rfl, rfl⟩)
  have hrun : Runs (Declaring.analyzeBlock (Block.mk o.decls (o.sampleStmts n)).toTree) .start
      (Code.bodyTree codes) { o.inside with code := some (Code.bodyTree codes) } := by
    rw [Block.toTree, Declaring.analyzeBlock, if_pos h.declares_some]
    exact runs_bind.2 ⟨(), o.declared, h.declares, hfinish⟩
  exact analyze_of_runs hlex hparse hrun

/-- The code of the statements of a sample: that of the shortest one, then the repetitions. -/
theorem check_sampleStmts {first : List Code} {codes : Nat → List Code}
    (hfirst : checkStatementList (stmtTrees o.stmts) o.inside = .ok first)
    (hcodes : ∀ k, checkStatementList (stmtTrees (repeatedStmts k)) o.inside = .ok (codes k))
    (n : Nat) : checkStatementList (stmtTrees (o.sampleStmts n)) o.inside =
      .ok (first ++ (List.range n).flatMap codes) := by
  rw [sampleStmts, stmtTrees_append]
  exact checkStatementList_append hfirst
    (checkStatementList_flatMap (List.range n) fun k _ => hcodes k)

end IsShared

end Opening

/-! ### Samples of every length -/

/-- The code of `n` repetitions, with two statements in each of them. -/
theorem getElem?_flatMap_range {α : Type} {f : Nat → List α} {g g' : Nat → α}
    (hf : ∀ k, f k = [g k, g' k]) (n : Nat) :
    ((List.range n).flatMap f).length = 2 * n ∧ ∀ k < n,
      ((List.range n).flatMap f)[2 * k]? = some (g k) ∧
      ((List.range n).flatMap f)[2 * k + 1]? = some (g' k) := by
  induction n with
  | zero => exact ⟨rfl, fun k hk => absurd hk (Nat.not_lt_zero k)⟩
  | succ n ih =>
    obtain ⟨hlength, hget⟩ := ih
    rw [List.range_succ, List.flatMap_append, List.flatMap_singleton, hf]
    refine ⟨by rw [List.length_append, hlength]; rfl, fun k hk => ?_⟩
    rcases Nat.lt_or_eq_of_le (Nat.lt_succ_iff.1 hk) with hk | rfl
    · rw [List.getElem?_append_left (by omega), List.getElem?_append_left (by omega)]
      exact hget k hk
    · rw [← hlength, List.getElem?_append_right (Nat.le_refl _),
        List.getElem?_append_right (Nat.le_add_right _ 1), Nat.sub_self, Nat.add_sub_cancel_left]
      exact ⟨rfl, rfl⟩

/-- Sample programs of every length are accepted. They declare the same names, and the code of the
longer ones is that of the shortest one followed by two assignments for each repetition: one to `i`
and one to an element of `niz`. -/
theorem checkedSample_accepted : ∃ start first,
    Pipeline.analyze (checkedSample 0) = .ok start ∧ Pipeline.statements start = .ok first ∧
    ∀ n, ∃ a added, Pipeline.analyze (checkedSample n) = .ok a ∧
      Pipeline.symbols a = Pipeline.symbols start ∧
      Pipeline.statements a = .ok (first ++ added) ∧ added.length = 2 * n ∧
      ∀ k < n,
        (∃ value, added[2 * k]? = some (Code.assign (.name (.text "i")) value).toTree) ∧
        ∃ value, added[2 * k + 1]? = some
          (Code.assign (.element "niz" [.integer (.int (k % 10 + 1 : Nat))]) value).toTree := by
  obtain ⟨o, ho⟩ := Opening.exists_isShared
  obtain ⟨first, hfirst⟩ := Opening.exists_of_accepts ho.accepts_stmts
  obtain ⟨codes, value, value', hrepeated, hcodes⟩ := ho.exists_repeatedCodes
  have hcheck := Opening.IsShared.check_sampleStmts hfirst hrepeated
  have hstatements : ∀ codes : List Code,
      Pipeline.statements { o.inside with code := some (Code.bodyTree codes) } =
        .ok (Code.toTrees codes) := fun _ => rfl
  refine ⟨_, Code.toTrees first, ho.analyze_checkedSample (hcheck 0), ?_, fun n => ?_⟩
  · rw [hstatements, List.range_zero, List.flatMap_nil, List.append_nil]
  obtain ⟨hlength, hget⟩ := getElem?_flatMap_range hcodes n
  refine ⟨_, Code.toTrees ((List.range n).flatMap codes), ho.analyze_checkedSample (hcheck n), rfl,
    ?_, ?_, fun k hk => ?_⟩
  · rw [hstatements, Code.toTrees_eq_map, List.map_append, ← Code.toTrees_eq_map,
      ← Code.toTrees_eq_map]
  · rw [length_toTrees, hlength]
  · obtain ⟨hcount, hmove⟩ := hget k hk
    rw [Code.toTrees_eq_map, List.getElem?_map, List.getElem?_map, hcount, hmove]
    exact ⟨⟨value k, rfl⟩, value' k, rfl⟩

end Workload

end MiniPascal
