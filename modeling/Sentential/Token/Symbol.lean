import Sentential.Token.Basic

/-!
# Symbols

The marks of the notation that need no blanks around them. No two of them start
with the same character, so at most one stands at the head of a text.
-/

namespace Sentential

/-- A mark that ends the word before it wherever it stands. -/
inductive Symbol where
  | lparen
  | rparen
  | neg
  | connective (op : Connective)
deriving DecidableEq, Repr

namespace Symbol

/-- The characters of the mark. -/
def spelling : Symbol → List Char
  | .lparen => ['(']
  | .rparen => [')']
  | .neg => ['~']
  | .connective .and => ['/', '\\']
  | .connective .or => ['\\', '/']
  | .connective .implies => ['=', '=', '>']
  | .connective .iff => ['<', '=', '>']

/-- The token that the mark stands for. -/
def token : Symbol → Token
  | .lparen => .lparen
  | .rparen => .rparen
  | .neg => .neg
  | .connective op => .connective op

/-- All marks. -/
def all : List Symbol :=
  [.connective .iff, .connective .implies, .connective .and, .connective .or, .neg, .lparen,
    .rparen]

/-- The mark at the head of a text, with the text after it. -/
def read? (text : List Char) : Option (Symbol × List Char) :=
  (all.find? (·.spelling.isPrefixOf text)).map fun symbol ↦
    (symbol, text.drop symbol.spelling.length)

/-- The list of marks is complete. -/
theorem mem_all : (symbol : Symbol) → symbol ∈ all
  | .lparen | .rparen | .neg => by decide
  | .connective .and | .connective .or | .connective .implies | .connective .iff => by decide

/-- No mark is empty. -/
theorem spelling_ne_nil (symbol : Symbol) : symbol.spelling ≠ [] := by
  have nonempty : ∀ symbol ∈ all, symbol.spelling ≠ [] := by decide
  exact nonempty symbol (mem_all symbol)

/-- Marks that start with the same character are equal. -/
theorem eq_of_head?_spelling {a b : Symbol}
    (h : a.spelling.head? = b.spelling.head?) : a = b := by
  have separate : ∀ a ∈ all, ∀ b ∈ all, a.spelling.head? = b.spelling.head? → a = b := by decide
  exact separate a (mem_all a) b (mem_all b) h

private theorem eq_of_append_eq {a b : Symbol} {rest rest' : List Char}
    (h : a.spelling ++ rest = b.spelling ++ rest') : a = b := by
  have first (symbol : Symbol) (rest : List Char) :
      (symbol.spelling ++ rest).head? = symbol.spelling.head? := by
    rw [List.head?_append, List.head?_eq_some_head (spelling_ne_nil symbol), Option.some_or]
  apply eq_of_head?_spelling
  rw [← first a rest, h, first]

/-- A mark is read exactly where its characters stand. -/
theorem read?_eq_some_iff {text rest : List Char} {symbol : Symbol} :
    read? text = some (symbol, rest) ↔ text = symbol.spelling ++ rest := by
  constructor
  · intro h
    obtain ⟨found, hfound, hread⟩ := Option.map_eq_some_iff.1 h
    cases hread
    have starts : symbol.spelling <+: text := by simpa using List.find?_some hfound
    exact (List.prefix_iff_eq_append.1 starts).symm
  · rintro rfl
    cases hfind : all.find? (·.spelling.isPrefixOf (symbol.spelling ++ rest)) with
    | none =>
      have absent := List.find?_eq_none.1 hfind symbol (mem_all symbol)
      exact absurd (List.isPrefixOf_iff_prefix.2 (List.prefix_append _ _)) absent
    | some found =>
      -- The mark that is found stands at the same place.
      have starts : found.spelling <+: symbol.spelling ++ rest := by
        simpa using List.find?_some hfind
      obtain ⟨tail, htail⟩ := starts
      cases eq_of_append_eq htail
      rw [read?, hfind, Option.map_some, List.drop_left]

/-- Reading a mark shortens the text. -/
theorem length_lt_of_read? {text rest : List Char} {symbol : Symbol}
    (h : read? text = some (symbol, rest)) : rest.length < text.length := by
  rw [read?_eq_some_iff.1 h, List.length_append]
  have := List.length_pos_iff.2 (spelling_ne_nil symbol)
  omega

end Symbol

end Sentential
