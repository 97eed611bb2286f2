import MiniPascal.Proofs.Parsing.Statements
import MiniPascal.Proofs.Parsing.Types
import MiniPascal.Syntax.Production

/-!
# Parsing Spelled Programs

Declarations, routines and whole programs are read back from their spelling. A section of
declarations ends only where a token comes that is no name; since each declaration is spelled as a
section of its own, this is always the word that starts the next one, or the `BEGIN` of the
statements.

* `program_parse_lexemes`: a program is read back, and nothing after its last dot is taken.
-/

namespace MiniPascal

open Parse Grammar

/-! ### Declarations of types, constants and variables -/

variable {fuel : Nat} {next : TokenKind → Prop} {ls : List Lexeme} {type : DeclaredType}
  {isConst : Bool} {value : Option ConstValue} {n : String} {ps : List Parameter}
  {result : TypeExpr}

/-- A section with a single declaration. -/
theorem repeatWhile_once_accepts {α : Type} {body : Parse α} {a : α} (hfuel : 2 ≤ fuel)
    (hls : Heads ls (· ≠ .identifier) (· = .identifier))
    (hbody : Accepts body (· ≠ .identifier) ls a) :
    Accepts (repeatWhile (at? .identifier) body fuel) (· ≠ .identifier) ls [a] := by
  obtain ⟨fuel, rfl⟩ : ∃ f, fuel = f + 2 := ⟨fuel - 2, by omega⟩
  exact .at?_pos hls (hbody.last (Accepts.give (.at?_neg (.nil fun _ => id) .pure)))

/-- A declaration is read back from its spelling, and reading goes on with the declarations after
it. -/
def DeclarationRead (d : Decl) : Prop :=
  ∀ ⦃fuel next ls ds⦄, 8 * d.lexemes.length ≤ fuel → Heads ls next (· ≠ .identifier) →
    Accepts (declarations fuel) next ls ds →
    Accepts (declarations (fuel + 1)) next (d.lexemes ++ ls) (d.ungrouped :: ds)

theorem type_declarationRead {type : TypeExpr} (n : String) (h : type.WellFormed) :
    DeclarationRead (.type n type) := by
  intro fuel next ls ds hfuel hls hmore
  simp only [Decl.lexemes, List.length_append, List.length_cons, List.length_nil] at hfuel
  have hsection : Accepts (typeSection fuel) (· ≠ .identifier) (Decl.type n type).lexemes
      [.type n type] := by
    refine .take rfl (repeatWhile_once_accepts (by omega) (.cons rfl) (.take rfl (.take rfl ?_)))
    exact (type.parses h fuel (by omega)).bind (.cons (by decide)) (.skip rfl .pure)
  exact .kind .kwType (.cons rfl) (hsection.bind hls hmore.give)

def DeclaredType.stop : DeclaredType → List TokenKind
  | .named _ => []
  | .array a => a.stop

theorem DeclaredType.parses {cause : ParseCause} :
    ∀ type : DeclaredType, type.WellFormed →
      Parses (declaredType cause) 1 type.stop type.lexemes type
  | .named _, _ => fun _ _ => .kind .identifier (.cons rfl) (.take rfl .pure)
  | .array _, h => fun fuel hfuel =>
    .kind .kwArray (.cons rfl) (ArrayType.parses h fuel hfuel).give

def valueDeclared (isConst : Bool) (n : String) (type : DeclaredType)
    (value : Option ConstValue) : Decl :=
  if isConst then .const n type value else .var n type value false

/-- What comes after the type in a declaration that the value fits, an equals sign or the semicolon,
does not belong to the type. -/
theorem ValueFits.notMem_stop (h : ValueFits isConst type value) :
    (if value.isSome then .eq else .semicolon) ∉ type.stop := by
  obtain ⟨-, hfits⟩ := h
  cases type with
  | named name => exact List.not_mem_nil
  | array a =>
    rw [DeclaredType.stop, ArrayType.stop]
    split
    · rename_i hinitial
      rw [hfits hinitial]
      decide
    · exact List.not_mem_nil

theorem valueDecl_accepts (htype : type.WellFormed) (hvalue : ValueFits isConst type value)
    (hfuel : 8 * (type.lexemes.length + (valueLexemes value).length) + 1 ≤ fuel) :
    Accepts (valueDecl isConst fuel) next
      (.name n :: .colon :: (type.lexemes ++ (valueLexemes value ++ [.semicolon])))
      [valueDeclared isConst n type value] := by
  have hends : Heads (valueLexemes value ++ [.semicolon]) next (· ∉ type.stop) := by
    have hstop := hvalue.notMem_stop
    cases value <;> exact .cons hstop
  have hdeclared : (if isConst then [n].map (.const · type value)
      else variableGroup type value [n]) = [valueDeclared isConst n type value] := by
    cases isConst <;> rfl
  rw [← hdeclared]
  refine names_accepts (by omega) (.cons (by decide)) (.skip rfl (.ite_neg (by decide) ?_))
  refine (type.parses htype fuel (by omega)).bind hends ?_
  cases value with
  | none =>
    -- A constant without a value is an array, whose type may have the values.
    refine .at?_neg (.cons (by decide)) (.ite_neg ?_ ?_)
    · cases type with
      | named name => simpa using hvalue.2
      | array a => simp
    · exact .skip_neg (.cons (by decide)) (.pure_bind (.take rfl .pure))
  | some v =>
    simp only [valueLexemes, List.length_cons] at hfuel
    refine .at?_pos (.cons rfl) (.ite_neg (by simp) (.skip rfl ?_))
    exact (v.parses (hvalue.1 v rfl) fuel (by omega)).map.bind (.cons List.not_mem_nil)
      (.take rfl .pure)

def sectionLexeme (isConst : Bool) : Lexeme :=
  if isConst then (.kwConst, "const") else (.kwVar, "var")

theorem valueSection_accepts (htype : type.WellFormed) (hvalue : ValueFits isConst type value)
    (hfuel : 8 * (type.lexemes.length + (valueLexemes value).length) + 2 ≤ fuel) :
    Accepts (valueSection isConst fuel) (· ≠ .identifier)
      (sectionLexeme isConst :: .name n :: .colon ::
        (type.lexemes ++ (valueLexemes value ++ [.semicolon])))
      [valueDeclared isConst n type value] := by
  have hword : (sectionLexeme isConst).1 = if isConst then .kwConst else .kwVar := by
    cases isConst <;> rfl
  have hdecl : Accepts (repeatWhile (at? .identifier) (valueDecl isConst fuel) fuel) _ _
      [[valueDeclared isConst n type value]] :=
    repeatWhile_once_accepts (by omega) (.cons rfl) (valueDecl_accepts htype hvalue (by omega))
  exact .take hword hdecl.give

theorem const_declarationRead (n : String) (htype : type.WellFormed)
    (hvalue : ValueFits true type value) : DeclarationRead (.const n type value) := by
  intro fuel next ls ds hfuel hls hmore
  simp only [Decl.lexemes, List.length_append, List.length_cons, List.length_nil] at hfuel
  refine .kind .kwConst (.cons rfl) ?_
  exact (valueSection_accepts htype hvalue (by omega)).bind hls hmore.give

theorem var_declarationRead (n : String) (sharesType : Bool) (htype : type.WellFormed)
    (hvalue : ValueFits false type value) : DeclarationRead (.var n type value sharesType) := by
  intro fuel next ls ds hfuel hls hmore
  simp only [Decl.lexemes, List.length_append, List.length_cons, List.length_nil] at hfuel
  refine .kind .kwVar (.cons rfl) ?_
  exact (valueSection_accepts htype hvalue (by omega)).bind hls hmore.give

/-! ### Parameters and results -/

/-- The way a parameter is passed is read, where there is one. -/
theorem passingMode_accepts {mode : Option String}
    (hmode : mode = none ∨ mode = some "var" ∨ mode = some "const") :
    Accepts passingMode (· = .identifier) (modeLexemes mode) mode := by
  rcases hmode with rfl | rfl | rfl
  · exact .skip_neg (.next (by decide)) (.skip_neg (.next (by decide)) .pure)
  · exact .skip rfl .pure
  · exact .skip_neg (.cons (by decide)) (.skip rfl .pure)

theorem parameterGroup_accepts {p : Parameter} (h : p.WellFormed)
    (hfuel : 8 * p.lexemes.length ≤ fuel) :
    Accepts (parameterGroup fuel) (· ∉ typeStop) p.lexemes [p] := by
  obtain ⟨n, type, mode⟩ := p
  obtain ⟨hmode, htype⟩ := h
  simp only [Parameter.lexemes, List.length_append, List.length_cons] at hfuel
  refine (passingMode_accepts hmode).bind (.cons rfl) ?_
  refine names_accepts (by omega) (.cons (by decide)) (.take rfl ?_)
  exact (type.parses htype fuel (by omega)).give

def parameterStart : List TokenKind := [.kwVar, .kwConst, .identifier]

theorem Parameter.startsWith (p : Parameter) : StartsWith parameterStart p.lexemes := by
  rw [Parameter.lexemes]
  unfold modeLexemes
  split
  · exact ⟨_, _, rfl, by decide⟩
  · exact ⟨_, _, rfl, by decide⟩
  · exact ⟨.name p.name, _, rfl, by simp [Lexeme.name, parameterStart]⟩

theorem parameterList_accepts {p : Parameter} (h : ∀ p' ∈ p :: ps, p'.WellFormed)
    (hfuel : 8 * (parametersLexemes (p :: ps)).length ≤ fuel) :
    Accepts (parameterList fuel) next (parametersLexemes (p :: ps)) (p :: ps) := by
  simp only [parametersLexemes, List.length_append, List.length_cons, List.length_nil] at hfuel
  -- There is fuel for every group, and in each of them for its only parameter.
  have hcount := length_le_separated .semicolon Parameter.lexemes
    (fun _ => List.append_ne_nil_of_right_ne_nil _ (List.cons_ne_nil _ _)) (p :: ps)
  have hbody : ∀ p' ∈ p :: ps, Accepts (parameterGroup fuel) (· ∉ typeStop) p'.lexemes [p'] := by
    intro p' hp'
    have hle := length_le_separated_of_mem .semicolon Parameter.lexemes hp'
    exact parameterGroup_accepts (h p' hp') (by omega)
  have hopen := (p.startsWith.separated .semicolon (ps.map Parameter.lexemes)).append [.rparen]
  have hlast : Accepts (pure ([p] ++ (ps.map fun p => [p]).flatten)) next [] (p :: ps) := by
    rw [← List.flatMap_def, List.flatMap_singleton', List.singleton_append]
    exact .pure
  refine .take rfl (.skip_neg (hopen.heads (by decide)) (.ite_neg (by decide) ?_))
  rw [List.length_cons] at hcount
  exact separated_accepts .semicolon (fun p => [p]) (by decide) hbody (by omega)
    (.cons (by decide)) (.take rfl hlast)

theorem routineLexeme_snd (kind : String) (result : TypeExpr) :
    (routineLexeme kind result).2 = kind := by
  cases result <;> rfl

theorem routineLexeme_fst_mem (kind : String) (result : TypeExpr) :
    (routineLexeme kind result).1 ∈ [TokenKind.kwProcedure, .kwFunction] := by
  cases result <;> simp [routineLexeme]

theorem routineLexeme_of_ne_omitted (h : result ≠ .omitted) (kind : String) :
    (routineLexeme kind result).1 = .kwFunction ∧
      resultLexemes result = .colon :: result.lexemes := by
  cases result with
  | omitted => exact absurd rfl h
  | _ => exact ⟨rfl, rfl⟩

/-- The type of the result is read where the routine is a function. -/
theorem resultType_accepts (h : result.WellFormed) (kind name : String)
    (hfuel : 8 * (resultLexemes result).length ≤ fuel) :
    Accepts (resultType ((routineLexeme kind result).1 = .kwFunction) name fuel) (· = .semicolon)
      (resultLexemes result) result := by
  by_cases hresult : result = .omitted
  · subst hresult
    exact Accepts.pure
  · obtain ⟨hkind, hspelled⟩ := routineLexeme_of_ne_omitted hresult kind
    rw [hspelled, List.length_cons] at hfuel
    rw [hspelled, resultType, hkind]
    refine .ite_pos (by decide) (.skip rfl ?_)
    exact (result.parses h fuel (by omega)).mono fun _ hk => hk ▸ by decide

/-! ### Routines and blocks -/

/-- The parameters of a routine, which has no parentheses if there are none, and what follows. -/
theorem parameters_accepts (h : ∀ p ∈ ps, p.WellFormed)
    (hfuel : 8 * (parametersLexemes ps).length ≤ fuel) (hls : Heads ls next (· ≠ .lparen))
    {α : Type} {f : List Parameter → Parse α} {a : α} (hf : Accepts (f ps) next ls a) :
    Accepts (at? .lparen >>= fun b => if b then parameterList fuel >>= f else pure [] >>= f) next
      (parametersLexemes ps ++ ls) a := by
  cases ps with
  | nil => exact .at?_neg hls (.pure_bind hf)
  | cons p ps =>
    have hlist : Accepts (parameterList fuel) (fun _ => True) _ (p :: ps) :=
      parameterList_accepts h hfuel
    exact .at?_pos (.cons rfl) (hlist.bind (fun _ _ _ _ => trivial) hf)

/-- A procedure or a function is read back from its spelling. -/
theorem routine_parses {kind : String} {body : Block} (hps : ∀ p ∈ ps, p.WellFormed)
    (hbody : Parses block 2 [] body.lexemes body.ungrouped) (hresult : result.WellFormed) :
    Parses routine 0 [] (Decl.routine kind n ps body result).lexemes
      (.routine kind n ps body.ungrouped result) := by
  intro fuel hfuel
  simp only [Decl.lexemes, List.length_append, List.length_cons, List.length_nil] at hfuel
  obtain ⟨fuel, rfl⟩ : ∃ f, fuel = f + 1 := ⟨fuel - 1, by omega⟩
  have hword := not_not.2 (routineLexeme_fst_mem kind result)
  refine .kind _ (.cons rfl) (.ite_neg hword (.takeAny (.take rfl ?_)))
  rw [routineLexeme_snd]
  -- What follows the parameters is a semicolon or the colon before the result.
  refine parameters_accepts hps (by omega) (by cases result <;> exact .cons (by decide)) ?_
  refine (resultType_accepts hresult kind _ (by omega)).bind (.cons rfl) (.take rfl ?_)
  exact (hbody fuel (by omega)).bind (.cons List.not_mem_nil) (.take rfl .pure)

theorem routine_declarationRead {kind : String} {body : Block} (hps : ∀ p ∈ ps, p.WellFormed)
    (hbody : Parses block 2 [] body.lexemes body.ungrouped) (hresult : result.WellFormed) :
    DeclarationRead (.routine kind n ps body result) := by
  intro fuel next ls ds hfuel _ hmore
  have hroutine : Accepts (routine fuel) _ (Decl.routine kind n ps body result).lexemes _ :=
    routine_parses hps hbody hresult fuel hfuel
  refine .kind (routineLexeme kind result).1 (.cons rfl) ?_
  cases result <;> exact hroutine.bind (fun _ _ _ _ => List.not_mem_nil) hmore.give

/-- The kinds of token that a section of declarations or a routine starts with. -/
def declarationStart : List TokenKind :=
  [.kwType, .kwConst, .kwVar, .kwProcedure, .kwFunction]

theorem Decl.startsWith : ∀ d : Decl, StartsWith declarationStart d.lexemes
  | .type .. | .const .. | .var .. => ⟨_, _, rfl, by decide⟩
  | .routine kind _ _ _ result =>
    ⟨_, _, rfl, List.mem_of_mem_drop (i := 3) (routineLexeme_fst_mem kind result)⟩

/-- Declarations are read back from their spelling, up to the `BEGIN` after them. -/
def DeclarationsRead (ds : List Decl) : Prop :=
  Reads declarations 1 (· = .kwBegin) (declsLexemes ds) (ungroupedDecls ds)

theorem nil_declarationsRead : DeclarationsRead [] :=
  .succ fun _ _ => .kind .kwBegin (.nil fun _ => id) .pure

/-- One more declaration before the others. -/
theorem cons_declarationsRead {d : Decl} {ds : List Decl} (hd : DeclarationRead d)
    (hds : DeclarationsRead ds) : DeclarationsRead (d :: ds) := by
  refine .succ fun fuel hfuel => ?_
  simp only [declsLexemes, List.length_append] at hfuel
  have hpos : 0 < d.lexemes.length := by
    obtain ⟨l, ls, hls, -⟩ := d.startsWith
    rw [hls]
    exact Nat.succ_pos _
  -- A name would be read as one more item of the section that has just been read.
  have hnext : Heads (declsLexemes ds) (· = .kwBegin) (· ≠ .identifier) := by
    cases ds with
    | nil => exact .next (by decide)
    | cons d' ds => exact (d'.startsWith.append _).heads (by decide)
  exact hd (by omega) hnext (hds fuel (by omega))

/-- Declarations and the statements after them. -/
theorem block_parses {ds : List Decl} {ss : List Stmt} (hds : DeclarationsRead ds)
    (hss : StatementsRead ss) :
    Parses block 2 [] (Block.mk ds ss).lexemes (Block.mk ds ss).ungrouped := by
  refine .succ fun fuel hfuel => ?_
  simp only [Block.lexemes, List.length_append] at hfuel
  exact (hds fuel (by omega)).bind (.cons rfl) (compound_parses hss fuel (by omega)).give

mutual

/-- A declaration is read back from its spelling, and reading goes on with the next one. -/
theorem Decl.reads : ∀ d : Decl, d.WellFormed → DeclarationRead d
  | .type n _, h => type_declarationRead n h
  | .const n _ _, ⟨htype, hvalue⟩ => const_declarationRead n htype hvalue
  | .var n _ _ sharesType, ⟨htype, hvalue⟩ => var_declarationRead n sharesType htype hvalue
  | .routine _ _ _ body _, ⟨hps, hbody, hresult⟩ =>
    routine_declarationRead hps (body.parses hbody) hresult

theorem Block.parses : ∀ b : Block, b.WellFormed → Parses block 2 [] b.lexemes b.ungrouped
  | .mk ds ss, ⟨hds, hss⟩ => block_parses (decls_read ds hds) (stmts_read ss hss)

theorem decls_read : ∀ ds : List Decl, declsWellFormed ds → DeclarationsRead ds
  | [], _ => nil_declarationsRead
  | d :: ds, ⟨hd, hds⟩ => cons_declarationsRead (d.reads hd) (decls_read ds hds)

end

/-! ### Programs -/

/-- The production of programs gives back a program from its spelling, whatever follows. -/
theorem Program.accepts {p : Program} (h : p.WellFormed) (hfuel : 8 * p.lexemes.length ≤ fuel) :
    Accepts (program fuel) (fun _ => True) p.lexemes p.ungrouped := by
  simp only [Program.lexemes, List.length_append, List.length_cons, List.length_nil] at hfuel
  refine .take rfl (.take rfl (.take rfl ?_))
  exact (p.block.parses h fuel (by omega)).bind (.cons List.not_mem_nil) (.take rfl .pure)

/-- Parsing inverts spelling: tokens that spell a program form that program, and of what comes after
its last dot nothing is taken. -/
theorem program_parse_lexemes {p : Program} (h : p.WellFormed) {tokens : List Token}
    (htokens : tokens.map Token.lexeme = p.lexemes) (rest : List Token) :
    (program (depthFor (tokens ++ rest))).run (tokens ++ rest) = .ok (p.ungrouped, rest) ∧
      Program.parse (tokens ++ rest) = .ok p.ungrouped ∧
      Production.program.parse (tokens ++ rest) = .ok (p.ungrouped.toTree, tokens.length) := by
  have hlength : p.lexemes.length = tokens.length := by rw [← htokens, List.length_map]
  have hfuel : 8 * p.lexemes.length ≤ depthFor (tokens ++ rest) := by
    rw [depthFor, List.length_append]
    omega
  have hgives := Program.accepts h hfuel (spells_of_map_eq htokens rest) trivial
  refine ⟨hgives.run_eq, ?_, ?_⟩
  · rw [Program.parse, hgives.run_eq]
    rfl
  · have htree : Gives (Production.program.parser (depthFor (tokens ++ rest))) (tokens ++ rest)
        p.ungrouped.toTree rest := hgives.map
    rw [Production.parse, htree.run_eq]
    simp [bind, Except.bind, pure, Except.pure]

/-- A program with a table of records, a function that changes its parameter, and an `else` that
belongs to the outer of two conditional statements. -/
def nestedProgram : Program where
  name := "nested"
  block := .mk
    [.const "table" (.array
        ⟨(1, 2), [], "pair",
          some [.record [("low", .number 1), ("high", .list [.number 2])]]⟩) none,
      .routine "function" "step" [⟨"n", .named "integer", some "var"⟩]
        (.mk [.var "x" (.named "integer") (some (.number 3)) false]
          [.assign (.element (.name "n") (.operand (.number 1)))
            (.operand (.binary (.binary (.number 2) "+" (.designator (.name "x"))) "*"
              (.group (.compare (.number 4) "<" (.number 5)))))])
        (.named "integer")]
    [.ifElse (.operand (.truth true))
      (.compound [.ifThen (.operand (.truth false)) (.call "step" [])])
      (.call "step" [.operand (.literal "s")])]

theorem program_parse_lexemes_nestedProgram :
    nestedProgram.WellFormed ∧
      Program.parse (tokensAt 1 1 nestedProgram.lexemes) = .ok nestedProgram := by
  have hwell : nestedProgram.WellFormed := by
    simp +decide [nestedProgram, Program.WellFormed, Block.WellFormed, declsWellFormed,
      Decl.WellFormed, DeclaredType.WellFormed, ArrayType.WellFormed, constsWellFormed,
      ConstValue.WellFormed, fieldsWellFormed, ValueFits, Parameter.WellFormed, TypeExpr.WellFormed]
  have htokens := map_lexeme_tokensAt 1 1 nestedProgram.lexemes
  have hparse := (program_parse_lexemes hwell htokens []).2.1
  exact ⟨hwell, hparse⟩

end MiniPascal
