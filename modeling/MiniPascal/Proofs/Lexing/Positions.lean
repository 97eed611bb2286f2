import MiniPascal.Proofs.Lexing.Segments

/-!
# Positions Follow the Text

The calls that read something may come in any order, and they may fail. The cursor stands in the
text all the same, with the line and column of its place, and the tokens of a text are placed where
their lexemes stand.

* `ReadingCall.reaches`: each call only passes over characters;
* `Cursor.positions`: the positions after any calls, and those of the tokens.
-/

namespace MiniPascal

/-- The calls that read something. -/
inductive ReadingCall where
  | char | blanks | word | stringLiteral | charLiteral | number | sign | tokens

/-- The cursor that a call leaves, whether it fails or not. -/
def ReadingCall.after (cur : Cursor) : ReadingCall → Cursor
  | char => (Cursor.takeChar.run.run cur).2
  | blanks => (Cursor.skipBlanks.run.run cur).2
  | word => (Cursor.readWord.run.run cur).2
  | stringLiteral => (Cursor.readString.run.run cur).2
  | charLiteral => (Cursor.readChar.run.run cur).2
  | number => (Cursor.readNumber.run.run cur).2
  | sign => (Cursor.readSign.run.run cur).2
  | tokens => (Cursor.tokenize.run.run cur).2

theorem ReadingCall.reaches (cur : Cursor) (call : ReadingCall) : cur.Reaches (call.after cur) := by
  cases call with
  | char => exact (Cursor.Walks.takeChar .refl).reaches cur
  | blanks => exact (Cursor.Walks.skipBlanks .refl).reaches cur
  | word => exact (Cursor.Walks.readWord .refl).reaches cur
  | stringLiteral => exact (Cursor.Walks.readString .refl).reaches cur
  | charLiteral => exact (Cursor.Walks.readChar .refl).reaches cur
  | number => exact (Cursor.Walks.readNumber .refl).reaches cur
  | sign => exact (Cursor.Walks.readSign .refl).reaches cur
  | tokens => exact (Cursor.Walks.readTokens .refl [] (cur.rest.length + 1) .nil).reaches cur

theorem ReadingCall.reaches_foldl (calls : List ReadingCall) (cur : Cursor) :
    cur.Reaches (calls.foldl ReadingCall.after cur) := by
  induction calls generalizing cur with
  | nil => exact .refl
  | cons call calls ih => exact (call.reaches cur).trans (ih _)

/-- After any calls, failing ones included, the cursor stands in the text, with the line and column
of its place, and no further call takes it back. The tokens of a text have the lines where their
lexemes end. Words, literals and dots have the columns where they start, and other signs those where
they end. -/
theorem Cursor.positions (text : String) (calls : List ReadingCall) :
    (calls.foldl ReadingCall.after (start text)).StandsIn text.toList ∧
    (∀ call : ReadingCall, (calls.foldl ReadingCall.after (start text)).offset ≤
      ((calls ++ [call]).foldl ReadingCall.after (start text)).offset) ∧
    ∀ tokens, Token.lexAll text = .ok tokens →
      ∃ ts, tokens = ts ++ [⟨.eof, "EOF", lineBehind text.toList, columnBehind text.toList⟩] ∧
        LaidOut [] text.toList ts := by
  have hreaches : ∀ calls : List ReadingCall, (behind [] text.toList).Reaches
      (calls.foldl ReadingCall.after (start text)) :=
    fun calls => ReadingCall.reaches_foldl calls (start text)
  obtain ⟨read, rest, htext, hcur⟩ := (hreaches calls).behind
  rw [List.nil_append] at hcur
  refine ⟨?_, fun call => ?_, fun tokens => Token.laidOut_of_lexAll⟩
  · rw [hcur, htext]
    exact behind_standsIn read rest
  · rw [List.foldl_append, hcur]
    obtain ⟨passed, left, -, hafter⟩ := (call.reaches (behind read rest)).behind
    rw [List.foldl_cons, List.foldl_nil, hafter]
    change read.length ≤ (read ++ passed).length
    exact List.length_append ▸ Nat.le_add_right read.length passed.length

/-- The tokens of `openText` are placed so, and where a call fails, too: no character literal starts
with the text. -/
theorem Cursor.positions_openText :
    LaidOut [] openText.toList openTokens ∧
      (([.charLiteral, .sign].foldl ReadingCall.after (start openText)).StandsIn openText.toList ∧
        ([.charLiteral, .sign].foldl ReadingCall.after (start openText)).offset = 3) := by
  have hlex : Token.lexAll openText = .ok (openTokens ++ [⟨.eof, "EOF", 2, 5⟩]) := by
    decide +kernel
  obtain ⟨hstands, -, htokens⟩ := Cursor.positions openText [.charLiteral, .sign]
  obtain ⟨ts, heq, hts⟩ := htokens _ hlex
  obtain ⟨rfl, -⟩ := List.append_inj' heq rfl
  exact ⟨hts, hstands, by decide +kernel⟩

end MiniPascal
