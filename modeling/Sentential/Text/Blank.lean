import Sentential.Text.CodeRange

/-!
# Blank characters

The characters that separate words: those with the property `White_Space`.
-/

namespace Sentential.Text

/-- Code points with the property `White_Space`. -/
def blankTable : List CodeRange :=
  [⟨0x09, 0x0d⟩, ⟨0x20, 0x20⟩, ⟨0x85, 0x85⟩, ⟨0xa0, 0xa0⟩, ⟨0x1680, 0x1680⟩,
    ⟨0x2000, 0x200a⟩, ⟨0x2028, 0x2029⟩, ⟨0x202f, 0x202f⟩, ⟨0x205f, 0x205f⟩, ⟨0x3000, 0x3000⟩]

/-- Whether the character is blank and so ends a word. -/
def isBlank (c : Char) : Bool := inTable blankTable c

/-- The blanks of the basic range are among the blanks. -/
theorem isBlank_of_isWhitespace {c : Char} (h : c.isWhitespace = true) : isBlank c = true := by
  simp only [Char.isWhitespace, Bool.or_eq_true, decide_eq_true_eq] at h
  rcases h with ((rfl | rfl) | rfl) | rfl <;> decide

end Sentential.Text
