import MiniPascal.Proofs.Analysis.Programs
import MiniPascal.Proofs.Handover.Bodies

/-!
# Programs That Are Listed Alike

What is known about the names of a program is handed to its listing as data or in writing. Written
data that can be read back is as it was, with the names of types as texts. What does not come back
is the place of a routine among the scopes: a routine that has been read back knows its own names
only, and a routine inside another one cannot be read back at all.

* `list_written_eq_list_data`: a program with such names only is listed alike.
-/

namespace MiniPascal

open Listing Declaring

namespace Tree

/-! ### Names of routines -/

def isTypedParameter (entries : List (String × Tree)) : Bool :=
  match entries.lookup "type" with
  | some (typeName (text n) null) => isTypeWord n
  | _ => false

/-- Whether the entry of a name that a routine declares is listed alike when it has been read back:
it is no routine, and no name of a type stands in it but for the type of a parameter. -/
def isLocalEntry : Tree → Bool
  | dict entries =>
    match entries.lookup "kind" with
    | none => (dict entries).isReadAs false (dict entries)
    | some kind => kind.isTextOf "parameter" &&
      ((dict entries).isReadAs false (dict entries) || isTypedParameter entries)
  | _ => false

variable {entries : List (String × Tree)}

theorem exists_of_isTypedParameter (h : isTypedParameter entries = true) :
    ∃ n, entries.lookup "type" = some (typeName (text n) null) ∧ isTypeWord n = true := by
  unfold isTypedParameter at h
  split at h
  next n htype => exact ⟨n, htype, h⟩
  next => exact absurd h Bool.false_ne_true

/-- What the test says about entries: they are data, or of parameters with types. -/
theorem isLocalEntry_cases (h : (dict entries).isLocalEntry = true) :
    (dict entries).isReadAs false (dict entries) = true ∨ isTypedParameter entries = true := by
  rw [isLocalEntry] at h
  split at h
  next => exact .inl h
  next =>
    rw [Bool.and_eq_true, Bool.or_eq_true] at h
    exact h.2

/-- Entries that pass the test are read back as entries that listings do not tell apart. -/
theorem Alike.of_isLocalEntry {V : Vocabulary} {entry : Tree} (hentry : Entry V entry)
    (h : entry.isLocalEntry = true) : entry.Alike entry.spelled := by
  obtain ⟨entries, rfl⟩ := hentry.exists_dict
  rcases isLocalEntry_cases h with hdata | htyped
  · rw [(eq_of_isReadAs hdata).1]
    exact .refl _
  · -- Only the entries of parameters have types that are not texts.
    obtain ⟨n, htype, hn⟩ := exists_of_isTypedParameter htyped
    generalize hdict : dict entries = entry at hentry
    cases hentry with
    | plain hplain =>
      cases hplain with
      | parameter h =>
        cases h with
        | @typed type =>
          obtain rfl := Tree.dict.inj hdict
          have htype : type.toTree = typeName (text n) null := Option.some.inj htype
          rw [htype]
          exact .parameter hn
        | array =>
          obtain rfl := Tree.dict.inj hdict
          cases htype
      | _ =>
        obtain rfl := Tree.dict.inj hdict
        exact absurd htype nofun
    | routine =>
      obtain rfl := Tree.dict.inj hdict
      exact absurd htype nofun

end Tree

namespace Listing

variable {α : Type} {V : Vocabulary} {context : Context} {entries : List (String × Tree)}

theorem bind_congr_ok {β γ : Type} {x : Except Fault α} {y : Except Fault β}
    {f : α → Except Fault γ} {g : β → Except Fault γ} {a : α} {b : β} (hx : x = .ok a)
    (hy : y = .ok b) (h : f a = g b) : (x >>= f) = (y >>= g) := by
  rw [hx, hy]
  exact h

theorem bind_congr_of_eq {γ : Type} {x y : Except Fault α} {f g : α → Except Fault γ} (hx : x = y)
    (h : ∀ a, f a = g a) : (x >>= f) = (y >>= g) := by
  rw [hx, funext h]

/-- A name that passes the test is listed alike among the names of a routine, whatever is done with
routines among them. -/
theorem localDeclaration_spelled {entry : Tree} (h : entry.isLocalEntry = true)
    (nested nested' : String → Tree → Except Fault String) (name : String) :
    localDeclaration nested name entry = localDeclaration nested' name entry.spelled := by
  cases entry with
  | dict entries =>
    have hget : (Tree.dict entries).get? "kind" = .ok (entries.lookup "kind") := rfl
    rw [Tree.isLocalEntry] at h
    split at h
    next hkind =>
      rw [(Tree.eq_of_isReadAs h).1, localDeclaration, localDeclaration, hget, hkind]
      rfl
    next kind hkind =>
      rw [Bool.and_eq_true] at h
      obtain rfl := Tree.eq_text_of_isTextOf h.1
      have hspelled : (Tree.spelledEntries entries).lookup "kind" = some (.text "parameter") := by
        rw [lookup_spelledEntries, hkind]
        rfl
      have hparameter : (Tree.dict entries).get "kind" = .ok (.text "parameter") := by
        rw [Tree.get, hget, hkind]
        rfl
      have hparameter' : (Tree.dict entries).spelled.get "kind" = .ok (.text "parameter") := by
        rw [Tree.spelled, Tree.get, Tree.get?, hspelled]
        rfl
      rw [localDeclaration, localDeclaration, hparameter, hparameter']
      rfl
  | _ => exact absurd h Bool.false_ne_true

/-- A routine whose names and whose body pass the tests is listed alike when it has been read back.
-/
theorem routineWithin_spelled {k : Nat} (hs : context.scopes.Within V)
    (hlocals : ∀ e ∈ context.scopes.symbolsOf k, e.2.isLocalEntry = true) {code : Tree}
    (hspelled : code.spelled = code) (hcode : code.isLocal context.scopes k = true)
    (fuel fuel' : Nat) (name kind : String) (result : Tree) (ps : List Parameter) :
    routineWithin context (fuel + 1) name
        (routineInfo (.text kind) result code (.scope k) (ps.map Parameter.pair)) =
      routineWithin context (fuel' + 1) name
        (routineInfo (.text kind) result code (.dict (context.scopes.symbolsOf k))
          (ps.map Parameter.pair)).spelled := by
  have hown : OwnAlike context k := fun e he =>
    .of_isLocalEntry (hs k e he).2 (hlocals e he)
  -- The parameters are listed by their names, which are texts in both.
  have hnames : ((ps.map Parameter.pair).map fun pair =>
        Tree.dict [("name", pair.1), ("type", pair.2)]).mapM (·.entry "name") =
      (Tree.spelledItems ((ps.map Parameter.pair).map fun pair =>
        Tree.dict [("name", pair.1), ("type", pair.2)])).mapM (·.entry "name") := by
    rw [Tree.spelledItems_eq_map]
    refine mapM_eq_of_forall₂ (List.forall₂_map_right_iff.2 (List.forall₂_same.2 ?_))
    intro parameter hparameter
    simp only [List.map_map, List.mem_map] at hparameter
    obtain ⟨p, -, rfl⟩ := hparameter
    rfl
  have hdeclared : (context.scopes.symbolsOf k).mapM (fun e =>
        localDeclaration (routineWithin context fuel) e.1 e.2) =
      (Tree.spelledEntries (context.scopes.symbolsOf k)).mapM fun e =>
        localDeclaration (routineWithin context fuel') e.1 e.2 := by
    rw [Tree.spelledEntries_eq_map]
    refine mapM_eq_of_forall₂ (List.forall₂_map_right_iff.2 (List.forall₂_same.2 fun e he => ?_))
    exact localDeclaration_spelled (hlocals e he) _ _ e.1
  have hbody := block_of_isLocal hown code hcode "  "
  have hinfo : (routineInfo (.text kind) result code (.dict (context.scopes.symbolsOf k))
        (ps.map Parameter.pair)).spelled =
      .dict [("kind", .text kind), ("parameters", .list (Tree.spelledItems
        ((ps.map Parameter.pair).map fun pair => .dict [("name", pair.1), ("type", pair.2)]))),
        ("return_type", result.spelled), ("block_code", code),
        ("local_symbol_table", .dict (Tree.spelledEntries (context.scopes.symbolsOf k)))] := by
    simp only [routineInfo, Tree.spelled, Tree.spelledEntries, hspelled]
  rw [hinfo, routineWithin, routineWithin]
  refine bind_congr_ok rfl rfl (bind_congr_ok rfl rfl ?_)
  refine bind_congr_of_eq hnames fun names => bind_congr fun listed => ?_
  refine bind_congr_ok (a := .scope k) rfl rfl ?_
  refine bind_congr_of_eq hdeclared fun declared => ?_
  refine bind_congr_ok rfl rfl (bind_congr fun type => ?_)
  exact ite_congr rfl (fun _ => bind_congr_of_eq hbody fun _ => rfl) fun _ => rfl

/-! ### Names of programs -/

/-- The scope of the names of a routine, if an entry has one. -/
def localScope? : Tree → Option Nat
  | .dict entries =>
    match entries.lookup "local_symbol_table" with
    | some (.scope k) => some k
    | _ => none
  | _ => none

/-- An entry with the names of the scope `k` in place of the scope. -/
def withNames (s : Scopes) (k : Nat) : Tree → Tree
  | .dict entries => .dict (Tree.setEntry "local_symbol_table" (.dict (s.symbolsOf k)) entries)
  | t => t

/-- Whether data comes back when it is written and read: as it is, or, if they are allowed for, with
the names of types as texts. -/
def comesBack (words : Bool) (t : Tree) : Bool :=
  match t.plain with
  | .ok s => t.isReadAs words (Tree.readBack (Text.chars s))
  | .error _ => false

/-- Whether what is known about a name comes back with all that the listing of the name depends on.
A routine comes back with its own names and its code, but without what lies around it. -/
def isKept (s : Scopes) (info : Tree) : Bool :=
  match localScope? info with
  | none => comesBack false info
  | some k =>
    comesBack true (withNames s k info) && ((s.symbolsOf k).all fun e => e.2.isLocalEntry) &&
      match info.get "block_code" with
      | .ok code => code.isReadAs false code && code.isLocal s k
      | .error _ => false

theorem lookup_of_localScope? {k : Nat} (h : localScope? (.dict entries) = some k) :
    entries.lookup "local_symbol_table" = some (.scope k) := by
  rw [localScope?] at h
  split at h
  next hlookup => rw [hlookup, Option.some.inj h]
  next => cases h

/-- Only routines have scopes. -/
theorem exists_of_localScope? {info : Tree} {k : Nat} (hentry : Entry V info)
    (h : localScope? info = some k) :
    ∃ kind result code, ∃ ps : List Parameter, info =
      routineInfo (.text kind) result code (.scope k) (ps.map Parameter.pair) := by
  cases hentry with
  | plain hplain =>
    cases hplain with
    | parameter hparameter => cases hparameter <;> cases h
    | _ => cases h
  | @routine kind result code locals ps =>
    obtain rfl : locals = .scope k := Option.some.inj (lookup_of_localScope? h)
    exact ⟨kind, result, code, ps, rfl⟩

theorem readBack_of_comesBack {words : Bool} {t : Tree} (h : comesBack words t = true) :
    ∃ s, t.plain = .ok s ∧ t.isReadAs words (Tree.readBack s.toList) = true := by
  unfold comesBack at h
  split at h
  next s hs => exact ⟨s, hs, Text.chars_eq_toList s ▸ h⟩
  next => exact absurd h Bool.false_ne_true

theorem writtenInfo_of_localScope?_eq_none {s : Scopes} (h : localScope? (.dict entries) = none) :
    writtenInfo s (.dict entries) = (Tree.dict entries).plain := by
  rw [localScope?] at h
  rw [writtenInfo]
  cases hlookup : entries.lookup "local_symbol_table" with
  | none => rfl
  | some value =>
    rw [hlookup] at h
    cases value with
    | scope k => cases h
    | _ => rfl

theorem declaration_of_readBack {name s : String} (h : Tree.readBack s.toList = .dict entries) :
    declaration context name (.text s) = declaration context name (.dict entries) := by
  have hinfo : readInfo (.text s) = readInfo (.dict entries) := h
  rw [declaration, declaration, hinfo]

/-- A name that passes the test can be written, and is listed alike when it has been read back. -/
theorem declaration_of_isKept (hs : context.scopes.Within V) {info : Tree} (hentry : Entry V info)
    (h : isKept context.scopes info = true) :
    ∃ s, writtenInfo context.scopes info = .ok s ∧
      ∀ name, declaration context name (.text s) = declaration context name info := by
  rw [isKept] at h
  split at h
  next hnone =>
    obtain ⟨entries, rfl⟩ := hentry.exists_dict
    obtain ⟨s, hs, hread⟩ := readBack_of_comesBack h
    refine ⟨s, (writtenInfo_of_localScope?_eq_none hnone).trans hs, fun name => ?_⟩
    exact declaration_of_readBack ((Tree.eq_of_isReadAs hread).2 rfl).symm
  next k hk =>
    obtain ⟨kind, result, code, ps, rfl⟩ := exists_of_localScope? hentry hk
    rw [Bool.and_eq_true, Bool.and_eq_true] at h
    obtain ⟨⟨hwritten, hlocals⟩, hcode⟩ := h
    have hcode : code.isReadAs false code = true ∧
        code.isLocal context.scopes k = true := by
      rw [← Bool.and_eq_true]
      exact hcode
    obtain ⟨s, hplain, hread⟩ := readBack_of_comesBack hwritten
    refine ⟨s, hplain, fun name => ?_⟩
    rw [declaration_of_readBack (Tree.eq_of_isReadAs hread).1.symm]
    refine congrArg Output.addPiece ?_
    exact (routineWithin_spelled hs (List.all_eq_true.1 hlocals)
      (Tree.eq_of_isReadAs hcode.1).1 hcode.2 _ _ name kind result ps).symm

/-- Names that pass the test can all be written, and are listed alike when they have been read
back. -/
theorem exists_written {context : Context} (hs : context.scopes.Within V) :
    ∀ {symbols : List (String × Tree)}, (∀ e ∈ symbols, Entry V e.2) →
    (∀ e ∈ symbols, isKept context.scopes e.2 = true) →
    ∃ written, symbols.mapM (fun e => do
        return (e.1, Tree.text (← writtenInfo context.scopes e.2))) = .ok written ∧
      List.Forall₂ (fun w e => declaration context w.1 w.2 = declaration context e.1 e.2) written
        symbols
  | [], _, _ => ⟨[], rfl, .nil⟩
  | (name, info) :: rest, hentries, hkept => by
    rw [List.forall_mem_cons] at hentries hkept
    obtain ⟨s, hwritten, hlisted⟩ := declaration_of_isKept hs hentries.1 hkept.1
    obtain ⟨others, hothers, halike⟩ := exists_written hs hentries.2 hkept.2
    refine ⟨(name, .text s) :: others, ?_, .cons (hlisted name) halike⟩
    rw [List.mapM_cons, hwritten, hothers]
    rfl

/-- Steps that agree item by item agree on the whole lists. -/
theorem forM_eq_of_forall₂ {m : Type → Type} [Monad m] {β : Type} {f : α → m Unit} {g : β → m Unit}
    {l : List α} {l' : List β} (h : List.Forall₂ (fun a b => f a = g b) l l') :
    l.forM f = l'.forM g := by
  induction h with
  | nil => rfl
  | cons hfirst _ ih => rw [List.forM, List.forM, hfirst, ih]

end Listing

/-- The listing of an accepted program does not depend on how its names are handed over, if each of
them comes back with all that its listing depends on: it can be read back, and if it is the name of
a routine, the routine has no routines inside it and makes no use of what lies around it, except for
names that are listed by themselves. -/
theorem list_written_eq_list_data {text : String} {a : Analysis}
    (haccepted : Pipeline.analyze text = .ok a)
    (h : ((Pipeline.symbols a).all fun e => isKept a.scopes e.2) = true) :
    Pipeline.list a .written = Pipeline.list a .data := by
  obtain ⟨-, p, code, -, -, hblock, -⟩ := analyze_analyses haccepted
  have hentries : ∀ e ∈ Pipeline.symbols a, Entry .any e.2 := fun e he => (hblock.within _ e he).2
  have hs : (Pipeline.listingContext a).scopes.Within .any := hblock.within
  obtain ⟨written, hwritten, halike⟩ := exists_written hs hentries (List.all_eq_true.1 h)
  have hprogram : ∀ statements, Listing.program (Pipeline.listingContext a) written statements =
      Listing.program (Pipeline.listingContext a) (Pipeline.symbols a) statements := by
    intro statements
    rw [Listing.program, Listing.program, continueProgram, continueProgram,
      forM_eq_of_forall₂ halike]
  have hhanded : Pipeline.handOver a .written = .ok written := hwritten
  rw [Pipeline.list, Pipeline.list, hhanded, Pipeline.handOver]
  exact congrArg (Except.mapError StageError.listing)
    (bind_congr fun statements => hprogram statements)

/-- A program with a variable and a procedure, which makes no use of the variable. -/
def selfContained : String :=
  "program p; var x: integer; procedure q(n: integer); var k: integer; begin k := n; end; " ++
    "begin x := 1; end."

/-- The program has a listing, and the same one either way. -/
theorem list_written_eq_list_data_selfContained :
    ∃ a listing, Pipeline.analyze selfContained = .ok a ∧ Pipeline.list a .data = .ok listing ∧
      Pipeline.list a .written = .ok listing := by
  obtain ⟨a, ha, htest⟩ := Pipeline.exists_of_analyzeChars (s := selfContained)
    (Text.toList_append_eq String.toList_ofList String.toList_ofList)
    (fun a => ((Pipeline.symbols a).all fun e => isKept a.scopes e.2) &&
      (Pipeline.list a .data).toOption.any fun _ => true) (by decide +kernel)
  obtain ⟨hkept, hlisted⟩ := Bool.and_eq_true_iff.1 htest
  obtain ⟨listing, hlisting, -⟩ := Except.exists_of_any hlisted
  exact ⟨a, listing, ha, hlisting, (list_written_eq_list_data ha hkept).trans hlisting⟩

end MiniPascal
