/-!
# Characters and Lines

A character class is a list of closed ranges of code points in ascending order. Membership
stops at the first range that begins beyond the code point. The blanks are such a class.

A property of the characters of a text is decided one character of the text after the other, and a
text is cut into lines where characters end them.
-/

namespace MiniPascal.Text

-- Without these two, `decide` may go through all characters there are and ask of each whether it
-- stands in the list.

instance decidableForallMemList (l : List Char) (p : Char → Prop) [DecidablePred p] :
    Decidable (∀ c ∈ l, p c) :=
  List.decidableBAll p l

instance decidableForallMemOption (o : Option Char) (p : Char → Prop) [DecidablePred p] :
    Decidable (∀ c ∈ o, p c) :=
  decidable_of_iff (∀ c ∈ o.toList, p c) (by simp)

/-- A class of characters: closed ranges of code points, ascending and disjoint. -/
abbrev Ranges := List (Nat × Nat)

/-- The class that is given by the lengths of runs of code points from `start` on, which lie outside
and inside of it in turn. -/
def Ranges.ofRuns (start : Nat) : List Nat → Ranges
  | outside :: inside :: rest =>
    let first := start + outside
    (first, first + inside - 1) :: ofRuns (first + inside) rest
  | _ => []

/-- Whether `code` lies in one of the ascending ranges. -/
def Ranges.contains (code : Nat) : Ranges → Bool
  | [] => false
  | (low, high) :: rest =>
    if code < low then false else if code ≤ high then true else Ranges.contains code rest

@[simp]
theorem Ranges.contains_nil (code : Nat) : Ranges.contains code [] = false := rfl

theorem Ranges.contains_cons (code low high : Nat) (rest : Ranges) :
    Ranges.contains code ((low, high) :: rest) =
      (if code < low then false else if code ≤ high then true else Ranges.contains code rest) :=
  rfl

/-! ### Blanks -/

/-- The blank characters of Unicode 14, with the four information separators. -/
def blankRanges : Ranges :=
  [(0x9, 0xd), (0x1c, 0x20), (0x85, 0x85), (0xa0, 0xa0), (0x1680, 0x1680), (0x2000, 0x200a),
   (0x2028, 0x2029), (0x202f, 0x202f), (0x205f, 0x205f), (0x3000, 0x3000)]

/-- Whether `c` is blank. -/
def isBlank (c : Char) : Bool := blankRanges.contains c.toNat

/-- `s` without the blanks at its two ends. -/
def trimBlanks (s : String) : String :=
  String.ofList ((s.toList.dropWhile isBlank).reverse.dropWhile isBlank).reverse

/-! ### Lines -/

/-- Line ends in the one form that files are read with: `\r\n` and `\r` become `\n`. -/
def unifyLineEnds : List Char → List Char
  | '\r' :: '\n' :: rest | '\r' :: rest => '\n' :: unifyLineEnds rest
  | c :: rest => c :: unifyLineEnds rest
  | [] => []

/-- The lines of a text, each without the character that ends it. After the last end there is a line
only if something stands there. -/
def linesOf (isEnd : Char → Bool) : List Char → List (List Char)
  | [] => []
  | c :: rest =>
    if isEnd c then [] :: linesOf isEnd rest
    else
      match linesOf isEnd rest with
      | [] => [[c]]
      | line :: lines => (c :: line) :: lines

/-- Whether `c` ends a line of what is printed. -/
def isLineEnd (c : Char) : Bool :=
  c = '\n' || c = '\r' || c = '\x0b' || c = '\x0c' || c = '\x1c' || c = '\x1d' || c = '\x1e' ||
    c = '\u0085' || c = '\u2028' || c = '\u2029'

end MiniPascal.Text
