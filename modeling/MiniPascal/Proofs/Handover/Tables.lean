import MiniPascal.Listing.Program
import MiniPascal.Proofs.Success

/-!
# Tables That Are Listed Alike

The names of a routine that has been read back are looked up in a table by itself, with nothing
around it. Code is listed alike with such a table and with the scope of the routine if it makes no
use of what lies around the scope: a name from there may stand only where it is listed as it is.
-/

namespace MiniPascal

open Listing

namespace Tree

/-! ### Data that is read back -/

mutual

/-- Data with names of types as texts. -/
def spelled : Tree → Tree
  | list items => list (spelledItems items)
  | tuple items => tuple (spelledItems items)
  | dict entries => dict (spelledEntries entries)
  | typeName (text n) null => text n
  | t => t

def spelledItems : List Tree → List Tree
  | [] => []
  | item :: rest => item.spelled :: spelledItems rest

def spelledEntries : List (String × Tree) → List (String × Tree)
  | [] => []
  | (key, value) :: rest => (key, value.spelled) :: spelledEntries rest

end

theorem spelledEntries_eq_map : ∀ entries : List (String × Tree),
    spelledEntries entries = entries.map fun e => (e.1, e.2.spelled)
  | [] => rfl
  | _ :: entries => congrArg _ (spelledEntries_eq_map entries)

theorem spelledItems_eq_map : ∀ items : List Tree, spelledItems items = items.map spelled
  | [] => rfl
  | _ :: items => congrArg _ (spelledItems_eq_map items)

mutual

/-- Whether the second tree is what becomes of the first one when it is read back: the same data,
with the names of types, if they are allowed for, as texts. -/
def isReadAs (words : Bool) : Tree → Tree → Bool
  | null, null => true
  | bool a, bool b => a == b
  | int m, int n => m == n
  | text s, text t => s == t
  | list items, list read | tuple items, tuple read => areReadAs words items read
  | dict entries, dict read => entriesAreReadAs words entries read
  | typeName (text n) null, text t => words && n == t
  | _, _ => false

def areReadAs (words : Bool) : List Tree → List Tree → Bool
  | [], [] => true
  | item :: rest, found :: others => item.isReadAs words found && areReadAs words rest others
  | _, _ => false

def entriesAreReadAs (words : Bool) : List (String × Tree) → List (String × Tree) → Bool
  | [], [] => true
  | (key, value) :: rest, (name, found) :: others =>
    key == name && value.isReadAs words found && entriesAreReadAs words rest others
  | _, _ => false

end

mutual

/-- What is read back has the names of types as texts. Without such names it is the data itself. -/
theorem eq_of_isReadAs {words : Bool} : ∀ {t u : Tree}, t.isReadAs words u = true →
    t.spelled = u ∧ (words = false → t = u) := by
  intro t u h
  unfold isReadAs at h
  split at h
  · exact ⟨rfl, fun _ => rfl⟩
  · rw [eq_of_beq h]
    exact ⟨rfl, fun _ => rfl⟩
  · rw [eq_of_beq h]
    exact ⟨rfl, fun _ => rfl⟩
  · rw [eq_of_beq h]
    exact ⟨rfl, fun _ => rfl⟩
  · have hitems := eq_of_areReadAs h
    exact ⟨congrArg list hitems.1, fun hwords => congrArg list (hitems.2 hwords)⟩
  · have hitems := eq_of_areReadAs h
    exact ⟨congrArg tuple hitems.1, fun hwords => congrArg tuple (hitems.2 hwords)⟩
  · have hentries := eq_of_entriesAreReadAs h
    exact ⟨congrArg dict hentries.1, fun hwords => congrArg dict (hentries.2 hwords)⟩
  · rw [Bool.and_eq_true] at h
    refine ⟨congrArg text (eq_of_beq h.2), fun hwords => ?_⟩
    exact absurd (hwords.symm.trans h.1) Bool.false_ne_true
  · exact absurd h Bool.false_ne_true

theorem eq_of_areReadAs {words : Bool} : ∀ {items read : List Tree},
    areReadAs words items read = true →
      spelledItems items = read ∧ (words = false → items = read)
  | [], [], _ => ⟨rfl, fun _ => rfl⟩
  | item :: rest, found :: others, h => by
    rw [areReadAs, Bool.and_eq_true] at h
    have hitem := eq_of_isReadAs h.1
    have hrest := eq_of_areReadAs h.2
    rw [spelledItems, hitem.1, hrest.1]
    exact ⟨rfl, fun hwords => by rw [hitem.2 hwords, hrest.2 hwords]⟩

theorem eq_of_entriesAreReadAs {words : Bool} : ∀ {entries read : List (String × Tree)},
    entriesAreReadAs words entries read = true →
      spelledEntries entries = read ∧ (words = false → entries = read)
  | [], [], _ => ⟨rfl, fun _ => rfl⟩
  | (key, value) :: rest, (name, found) :: others, h => by
    rw [entriesAreReadAs, Bool.and_eq_true, Bool.and_eq_true] at h
    have hvalue := eq_of_isReadAs h.1.2
    have hrest := eq_of_entriesAreReadAs h.2
    rw [spelledEntries, hvalue.1, hrest.1, eq_of_beq h.1.1]
    exact ⟨rfl, fun hwords => by rw [hvalue.2 hwords, hrest.2 hwords]⟩

end

/-! ### Entries -/

def isTypeWord (n : String) : Bool := !(["array", "record"].contains n)

/-- Entries that listings do not tell apart: the same ones, and the entry of a parameter with its
type once as a node and once by its name. -/
inductive Alike : Tree → Tree → Prop
  | refl (entry : Tree) : Alike entry entry
  | parameter {n : String} (h : isTypeWord n = true) :
    Alike (.dict [("kind", .text "parameter"), ("type", .typeName (.text n) .null)])
      (.dict [("kind", .text "parameter"), ("type", .text n)])

/-- Whether a variable with this entry is listed by its name alone, as an unknown one is. -/
def isSilent (entry : Tree) : Bool :=
  match entry.get "kind", (do (← valueInfo entry).get "type" : Except Fault Tree) with
  | .ok kind, .ok type =>
    !kind.isTextOf "parameter" && !isOneOf type ["integer", "boolean", "record", "array"]
  | _, _ => false

/-- What an entry says about a variable that is listed by its name alone. -/
theorem exists_of_isSilent {entry : Tree} (h : entry.isSilent = true) :
    ∃ kind info type, entry.get "kind" = .ok kind ∧ valueInfo entry = .ok info ∧
      info.get "type" = .ok type ∧ kind.isTextOf "parameter" = false ∧
      isOneOf type ["integer", "boolean"] = false ∧ type.isTextOf "record" = false ∧
      type.isTextOf "array" = false := by
  unfold isSilent at h
  split at h
  next kind type hkind htype =>
    obtain ⟨info, hinfo, htype⟩ := Except.bind_eq_ok.1 htype
    rw [Bool.and_eq_true] at h
    refine ⟨kind, info, type, hkind, hinfo, htype, by simpa using h.1, ?_⟩
    simpa [isOneOf, and_assoc] using h.2
  next => exact absurd h nofun

end Tree

/-! ### Names and code that stay within a scope -/

/-- A name that is not taken from around the scope `k`. -/
def Scopes.isOwn (s : Scopes) (k : Nat) (n : String) : Bool :=
  ((s.symbolsOf k).lookup n).isSome || (s.lookupIn k n).isNone

/-- A name that is not taken from around the scope `k`, or that is listed by itself. -/
def Scopes.isOwnOrSilent (s : Scopes) (k : Nat) (n : String) : Bool :=
  s.isOwn k n || (s.lookupIn k n).any Tree.isSilent

namespace Tree

def namePasses (test : String → Bool) : Tree → Bool
  | text n => test n
  | _ => true

/-- Whether the name that a record starts with is not taken from around the scope `k`. -/
def startIsOwn (s : Scopes) (k : Nat) : Tree → Bool
  | dict entries =>
    (((entries.lookup "name").orElse fun _ => entries.lookup "array").getD null).namePasses
      (s.isOwn k)
  | _ => true

def isBlockCode : Tree → Bool
  | dict entries => isBlockType ((entries.lookup "type").getD null)
  | _ => false

/-- Whether an index is listed without looking names up. -/
def isPlainIndex : Tree → Bool
  | dict entries => isOneOf ((entries.lookup "type").getD null) ["Integer", "Variable"]
  | _ => false

mutual

/-- Whether the listing of code makes no use of what lies around the scope `k`. Blocks that are
themselves statements are looked up in the outermost table in any case. Of the indices of an access
only the first is listed, and nothing of the record that a field is selected from but its name. -/
def isLocal (s : Scopes) (k : Nat) : Tree → Bool
  | dict entries => entriesAreLocal s k entries
  | list items | tuple items => itemsAreLocal s k items
  | _ => true

/-- Whether the entries of code make no use of what lies around the scope `k`. -/
def entriesAreLocal (s : Scopes) (k : Nat) : List (String × Tree) → Bool
  | [] => true
  | (key, value) :: rest =>
    (if key = "name" then value.namePasses (s.isOwnOrSilent k)
    else if key = "array" then value.namePasses (s.isOwn k)
    else if key = "record" then value.startIsOwn s k
    else if key = "indices" then firstIsLocal s k value
    else value.isLocal s k) && entriesAreLocal s k rest

/-- Whether the items of a list make no use of what lies around the scope `k`. -/
def itemsAreLocal (s : Scopes) (k : Nat) : List Tree → Bool
  | [] => true
  | item :: rest => (item.isBlockCode || item.isLocal s k) && itemsAreLocal s k rest

/-- Whether the first of several indices makes no use of what lies around the scope `k`. -/
def firstIsLocal (s : Scopes) (k : Nat) : Tree → Bool
  | list items | tuple items => headIsLocal s k items
  | _ => true

/-- Whether the first item of a list makes no use of what lies around the scope `k`. -/
def headIsLocal (s : Scopes) (k : Nat) : List Tree → Bool
  | [] => true
  | item :: _ => item.isPlainIndex || item.isLocal s k

end

variable {s : Scopes} {k : Nat} {entries : List (String × Tree)}

/-- What the test says about an entry of code. -/
theorem entry_of_entriesAreLocal (h : entriesAreLocal s k entries = true) {key : String}
    {value : Tree} (hvalue : entries.lookup key = some value) :
    (if key = "name" then value.namePasses (s.isOwnOrSilent k)
      else if key = "array" then value.namePasses (s.isOwn k)
      else if key = "record" then value.startIsOwn s k
      else if key = "indices" then firstIsLocal s k value
      else value.isLocal s k) = true := by
  induction entries with
  | nil => exact absurd hvalue nofun
  | cons e rest ih =>
    obtain ⟨other, first⟩ := e
    rw [entriesAreLocal, Bool.and_eq_true] at h
    rw [List.lookup_cons] at hvalue
    split at hvalue
    next heq =>
      obtain rfl := Option.some.inj hvalue
      obtain rfl := eq_of_beq heq
      exact h.1
    next => exact ih h.2 hvalue

def namingKeys : List String := ["name", "array", "record", "indices"]

/-- What the test stands for, entry by entry. -/
structure EntriesLocal (s : Scopes) (k : Nat) (entries : List (String × Tree)) : Prop where
  name : ((entries.lookup "name").getD null).namePasses (s.isOwnOrSilent k) = true
  array : ((entries.lookup "array").getD null).namePasses (s.isOwn k) = true
  record : ((entries.lookup "record").getD null).startIsOwn s k = true
  part : ∀ key ∉ namingKeys, ((entries.lookup key).getD null).isLocal s k = true

theorem entriesLocal_of_test (h : entriesAreLocal s k entries = true) :
    EntriesLocal s k entries := by
  refine ⟨?_, ?_, ?_, fun key hkey => ?_⟩
  · cases hvalue : entries.lookup "name" with
    | none => rfl
    | some value => exact entry_of_entriesAreLocal h hvalue
  · cases hvalue : entries.lookup "array" with
    | none => rfl
    | some value => exact entry_of_entriesAreLocal h hvalue
  · cases hvalue : entries.lookup "record" with
    | none => rfl
    | some value => exact entry_of_entriesAreLocal h hvalue
  · cases hvalue : entries.lookup key with
    | none => rfl
    | some value =>
      have hlocal := entry_of_entriesAreLocal h hvalue
      simp only [namingKeys, List.mem_cons, not_or] at hkey
      rwa [if_neg hkey.1, if_neg hkey.2.1, if_neg hkey.2.2.1, if_neg hkey.2.2.2.1] at hlocal

end Tree

namespace Listing

/-! ### What tables say about names -/

/-- Answers about a name that listings do not tell apart. -/
def AnswersAlike (x y : Except Fault Tree) : Prop :=
  x = y ∨ ∃ entry entry', x = .ok entry ∧ y = .ok entry' ∧ entry.Alike entry'

/-- Answers about a name that the listing of a variable does not tell apart: those that are alike,
and no answer besides that of a variable that is listed by its name alone. -/
def AnswersClose (x y : Except Fault Tree) : Prop :=
  AnswersAlike x y ∨ ∃ entry, x = .ok entry ∧ entry.isSilent = true ∧ y = .ok .null

/-- A table by itself that has the names of the scope `k`. -/
def Table.spelled (s : Scopes) (k : Nat) : Table := .loose (Tree.spelledEntries (s.symbolsOf k))

section Table

variable {context : Context} {k : Nat}

theorem lookup_spelledEntries (n : String) : ∀ entries : List (String × Tree),
    (Tree.spelledEntries entries).lookup n = (entries.lookup n).map Tree.spelled
  | [] => rfl
  | (key, value) :: rest => by
    rw [Tree.spelledEntries, List.lookup_cons, List.lookup_cons]
    split
    · rfl
    · exact lookup_spelledEntries n rest

/-- A name of a scope is found there. -/
theorem lookupIn_of_lookup {s : Scopes} {n : String} {entry : Tree}
    (h : (s.symbolsOf k).lookup n = some entry) : s.lookupIn k n = some entry := by
  have hsize : s.all.size ≠ 0 := by
    intro hsize
    rw [Scopes.symbolsOf, Array.getElem?_eq_none (by omega)] at h
    exact absurd h nofun
  obtain ⟨fuel, hfuel⟩ := Nat.exists_eq_succ_of_ne_zero hsize
  rw [Scopes.lookupIn, Scopes.resolve, hfuel, Scopes.find, h]
  rfl

/-- What is known about the names of the scope `k` is listed alike where types are spelled out. -/
def OwnAlike (context : Context) (k : Nat) : Prop :=
  ∀ e ∈ context.scopes.symbolsOf k, e.2.Alike e.2.spelled

variable (hown : OwnAlike context k)

include hown

/-- Both tables say the same about a name that is not taken from around the scope. -/
theorem Table.answersAlike_of_isOwn {n : String} (h : context.scopes.isOwn k n = true) :
    AnswersAlike ((Table.scope k).lookup context (.text n))
      ((Table.spelled context.scopes k).lookup context (.text n)) := by
  have hspelled := lookup_spelledEntries n (context.scopes.symbolsOf k)
  cases hlookup : (context.scopes.symbolsOf k).lookup n with
  | none =>
    rw [Scopes.isOwn, hlookup, Option.isSome_none, Bool.false_or, Option.isNone_iff_eq_none] at h
    refine .inl ?_
    rw [Table.lookup, Table.lookup, Table.spelled, Table.entryOf, Table.entryOf, Scopes.lookupTree,
      h, hspelled, hlookup]
    rfl
  | some entry =>
    obtain ⟨before, after, hsymbols, -⟩ := List.lookup_eq_some_iff.1 hlookup
    have halike : entry.Alike entry.spelled := hown (n, entry) (by simp [hsymbols])
    rw [Table.lookup, Table.lookup, Table.spelled, Table.entryOf, Table.entryOf, Scopes.lookupTree,
      lookupIn_of_lookup hlookup, hspelled, hlookup, Option.map_some, Option.getD_some,
      Option.getD_some]
    generalize entry.spelled = entry' at halike
    cases halike with
    | refl => exact .inl rfl
    | parameter hn => exact .inr ⟨_, _, rfl, rfl, .parameter hn⟩

/-- A name that is taken from around the scope is unknown to the table by itself. -/
theorem Table.answersClose_of_isOwnOrSilent {n : String}
    (h : context.scopes.isOwnOrSilent k n = true) :
    AnswersClose ((Table.scope k).lookup context (.text n))
      ((Table.spelled context.scopes k).lookup context (.text n)) := by
  cases hisOwn : context.scopes.isOwn k n with
  | true => exact .inl (Table.answersAlike_of_isOwn hown hisOwn)
  | false =>
    rw [Scopes.isOwnOrSilent, hisOwn, Bool.false_or, Option.any_eq_true] at h
    obtain ⟨entry, hentry, hsilent⟩ := h
    rw [Scopes.isOwn, Bool.or_eq_false_iff, Option.isSome_eq_false_iff, Option.isNone_iff_eq_none]
      at hisOwn
    refine .inr ⟨entry, ?_, hsilent, ?_⟩
    · rw [Table.lookup, Table.entryOf, Scopes.lookupTree, hentry]
      cases entry with
      | scope => cases hsilent
      | _ => rfl
    · rw [Table.lookup, Table.spelled, Table.entryOf, lookup_spelledEntries, hisOwn.1]
      rfl

end Table

end Listing

end MiniPascal
