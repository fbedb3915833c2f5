import Sentential.Text.Blank
import Sentential.Token.Symbol

/-!
# Lexing

A text is cut into blanks, marks and words, where a word runs on to the next
blank, mark or end of text. Dropping the blanks leaves the tokens. Lexing never
fails: a word that is no keyword is the name of a variable.
-/

namespace Sentential

open Text

/-- A piece of a text. -/
inductive Piece where
  | blank (c : Char)
  | symbol (mark : Symbol)
  | word (letters : List Char)
deriving DecidableEq, Repr

namespace Piece

/-- The characters that the piece covers. -/
def chars : Piece → List Char
  | .blank c => [c]
  | .symbol mark => mark.spelling
  | .word letters => letters

/-- Puts a character in front of the pieces of the text after it, as part of the
word that they start with or as a word of its own. -/
def consLetter (c : Char) : List Piece → List Piece
  | .word letters :: rest => .word (c :: letters) :: rest
  | rest => .word [c] :: rest

/-- The pieces of a text, from left to right. -/
def ofText : List Char → List Piece
  | [] => []
  | c :: rest =>
    if isBlank c then
      .blank c :: ofText rest
    else
      match _h : Symbol.read? (c :: rest) with
      | some (mark, tail) => .symbol mark :: ofText tail
      | none => consLetter c (ofText rest)
termination_by text => text.length
decreasing_by
  · simp
  · exact Symbol.length_lt_of_read? _h
  · simp

private theorem flatMap_chars_consLetter (c : Char) (pieces : List Piece) :
    (consLetter c pieces).flatMap chars = c :: pieces.flatMap chars := by
  unfold consLetter
  split <;> simp [chars]

/-- The pieces of a text cover it without gap or overlap. -/
theorem flatMap_chars_ofText (text : List Char) : (ofText text).flatMap chars = text := by
  fun_induction ofText text with
  | case1 => rfl
  | case2 c rest _ ih => simp [chars, ih]
  | case3 c rest _ mark tail h ih =>
    rw [List.flatMap_cons, ih]
    exact (Symbol.read?_eq_some_iff.1 h).symm
  | case4 c rest _ _ ih => rw [flatMap_chars_consLetter, ih]

end Piece

namespace Token

/-- The token of a whole word: a keyword, or else a variable. -/
def ofWord (word : String) : Token :=
  if word = "and" then .connective .and
  else if word = "or" then .connective .or
  else if word = "true" then .const true
  else if word = "false" then .const false
  else .var word

/-- The token of a piece; a blank has none. -/
def ofPiece? : Piece → Option Token
  | .blank _ => none
  | .symbol mark => some mark.token
  | .word letters => some (ofWord (String.ofList letters))

/-- A blank has no token. -/
@[simp] theorem ofPiece?_blank (c : Char) : ofPiece? (.blank c) = none := rfl

/-- A mark has the token that it stands for. -/
@[simp] theorem ofPiece?_symbol (mark : Symbol) : ofPiece? (.symbol mark) = some mark.token := rfl

/-- A word has the token of its text. -/
@[simp] theorem ofPiece?_word (letters : List Char) :
    ofPiece? (.word letters) = some (ofWord (String.ofList letters)) := rfl

end Token

/-- The tokens of a text, from left to right. -/
def lex (text : String) : List Token := (Piece.ofText text.toList).filterMap Token.ofPiece?

end Sentential
