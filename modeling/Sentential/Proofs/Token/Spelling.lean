import Sentential.Token.Lex

/-!
# Ways to write a token

The keywords, the marks and the blanks of the notation are listed here. A piece spells a token
if it is one of the ways to write it, and pieces write a list of tokens if those that are not
blank spell the tokens one by one. Pieces write exactly the tokens that are read off them.
-/

namespace Sentential

open Text

/-- The words that do not name variables. -/
def keywords : List String := ["and", "or", "true", "false"]

/-- The marks, each with the token that it stands for. -/
def marks : List (List Char × Token) :=
  [("<=>".toList, .connective .iff), ("==>".toList, .connective .implies),
    ("/\\".toList, .connective .and), ("\\/".toList, .connective .or), ("~".toList, .neg),
    ("(".toList, .lparen), (")".toList, .rparen)]

/-- The code points of the blanks. -/
def blanks : List Nat :=
  [0x09, 0x0a, 0x0b, 0x0c, 0x0d, 0x20, 0x85, 0xa0, 0x1680, 0x2000, 0x2001, 0x2002, 0x2003, 0x2004,
    0x2005, 0x2006, 0x2007, 0x2008, 0x2009, 0x200a, 0x2028, 0x2029, 0x202f, 0x205f, 0x3000]

namespace Piece

/-- The piece is a way to write the token. A conjunction and a disjunction can each be written
as a word and as a mark, and every other token in one way. -/
inductive Spells : Piece → Token → Prop
  | symbol {mark : Symbol} {token : Token} :
      (mark.spelling, token) ∈ marks → Spells (.symbol mark) token
  | and : Spells (.word "and".toList) (.connective .and)
  | or : Spells (.word "or".toList) (.connective .or)
  | true : Spells (.word "true".toList) (.const Bool.true)
  | false : Spells (.word "false".toList) (.const Bool.false)
  | var {name : String} : name ∉ keywords → Spells (.word name.toList) (.var name)

/-- The pieces that are not blank spell the tokens one by one. -/
inductive Writes : List Piece → List Token → Prop
  | nil : Writes [] []
  | blank (c : Char) {pieces : List Piece} {tokens : List Token} :
      Writes pieces tokens → Writes (.blank c :: pieces) tokens
  | token {piece : Piece} {token : Token} {pieces : List Piece} {tokens : List Token} :
      Spells piece token → Writes pieces tokens → Writes (piece :: pieces) (token :: tokens)

end Piece

/-- The blanks are the listed characters. -/
theorem isBlank_iff {c : Char} : isBlank c = true ↔ c.toNat ∈ blanks := by
  simp only [isBlank, inTable, blankTable, CodeRange.contains, List.any_cons, List.any_nil,
    Bool.or_eq_true, Bool.and_eq_true, decide_eq_true_eq, Bool.false_eq_true, or_false, blanks,
    List.mem_cons, List.not_mem_nil]
  omega

/-- Any other character is not blank. -/
theorem isBlank_eq_false_iff {c : Char} : isBlank c = false ↔ c.toNat ∉ blanks := by
  rw [← isBlank_iff, Bool.not_eq_true]

/-- The marks are the symbols, with their characters and their tokens. -/
theorem mem_marks_iff {letters : List Char} {token : Token} :
    (letters, token) ∈ marks ↔ ∃ mark : Symbol, mark.spelling = letters ∧ mark.token = token := by
  have listed : marks = Symbol.all.map fun mark ↦ (mark.spelling, mark.token) := by decide
  rw [listed, List.mem_map]
  constructor
  · rintro ⟨mark, -, hmark⟩
    exact ⟨mark, Prod.mk.inj hmark⟩
  · rintro ⟨mark, rfl, rfl⟩
    exact ⟨mark, Symbol.mem_all mark, rfl⟩

namespace Token

private theorem ofWord_of_not_mem_keywords {word : String} (h : word ∉ keywords) :
    ofWord word = .var word := by
  simp only [keywords, List.mem_cons, List.not_mem_nil, or_false, not_or] at h
  simp [ofWord, h]

private theorem spells_ofWord (word : String) : Piece.Spells (.word word.toList) (ofWord word) := by
  by_cases h : word ∈ keywords
  · simp only [keywords, List.mem_cons, List.not_mem_nil, or_false] at h
    rcases h with rfl | rfl | rfl | rfl
    · exact .and
    · exact .or
    · exact .true
    · exact .false
  · rw [ofWord_of_not_mem_keywords h]
    exact .var h

/-- A piece is read as the token that it spells. -/
theorem ofPiece?_eq_some_iff {piece : Piece} {token : Token} :
    ofPiece? piece = some token ↔ piece.Spells token := by
  constructor
  · intro h
    cases piece with
    | blank c => cases h
    | symbol mark =>
      cases h
      exact .symbol (mem_marks_iff.2 ⟨mark, rfl, rfl⟩)
    | word letters =>
      cases h
      have spelled := spells_ofWord (String.ofList letters)
      rw [String.toList_ofList] at spelled
      exact spelled
  · intro h
    cases h with
    | symbol h =>
      obtain ⟨mark, hspelling, rfl⟩ := mem_marks_iff.1 h
      cases Symbol.eq_of_head?_spelling (congrArg List.head? hspelling)
      rfl
    | and => rfl
    | or => rfl
    | true => rfl
    | false => rfl
    | var h => rw [ofPiece?_word, String.ofList_toList, ofWord_of_not_mem_keywords h]

end Token

namespace Piece

/-- Pieces write the tokens that are read off them, and no others. -/
theorem writes_iff {pieces : List Piece} {tokens : List Token} :
    Writes pieces tokens ↔ pieces.filterMap Token.ofPiece? = tokens := by
  constructor
  · intro h
    induction h with
    | nil => rfl
    | blank c _ ih => exact ih
    | token spelled _ ih =>
      rw [List.filterMap_cons_some (Token.ofPiece?_eq_some_iff.2 spelled), ih]
  · rintro rfl
    induction pieces with
    | nil => exact .nil
    | cons piece pieces ih =>
      cases hread : Token.ofPiece? piece with
      | none =>
        rw [List.filterMap_cons_none hread]
        cases piece with
        | blank c => exact .blank c ih
        | symbol mark => cases hread
        | word letters => cases hread
      | some token =>
        rw [List.filterMap_cons_some hread]
        exact .token (Token.ofPiece?_eq_some_iff.1 hread) ih

end Piece

end Sentential
