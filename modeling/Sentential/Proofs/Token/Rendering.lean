import Sentential.Proofs.Token.Name
import Sentential.Proofs.Token.Spelling

/-!
# Texts written for tokens

A text is written for a list of tokens by spelling each of them in one of its ways, with blanks
wherever one likes, and with a blank at least where two words would touch or where a word and a
mark would spell another mark. Lexing reads the tokens back. So the tokens of any text are read
back from their own texts, set apart by single spaces.
-/

namespace Sentential

open Text

/-- A name that is read back is no keyword. -/
theorem IsName.not_mem_keywords {name : String} (h : IsName name) : name ∉ keywords := by
  intro hkeyword
  have variable_token := h.notKeyword
  simp only [keywords, List.mem_cons, List.not_mem_nil, or_false] at hkeyword
  rcases hkeyword with rfl | rfl | rfl | rfl <;> cases variable_token

namespace Piece

/-- The second piece may stand directly behind the first one. -/
def MayTouch : Piece → Piece → Prop
  | .word letters, next => Follows letters next
  | .blank _, _ | .symbol _, _ => True

/-- Only a word in front of a mark takes a check. -/
instance MayTouch.decidable : (piece next : Piece) → Decidable (MayTouch piece next)
  | .word letters, .symbol mark => inferInstanceAs (Decidable (¬ Fuses letters mark))
  | .word _, .blank _ | .blank _, _ | .symbol _, _ => isTrue trivial
  | .word _, .word _ => isFalse id

/-- The pieces are a way to write the tokens, with blanks at will. -/
inductive Renders : List Piece → List Token → Prop
  | nil : Renders [] []
  | blank {c : Char} {pieces : List Piece} {tokens : List Token} :
      isBlank c = true → Renders pieces tokens → Renders (.blank c :: pieces) tokens
  | token {piece : Piece} {token : Token} {pieces : List Piece} {tokens : List Token} :
      Spells piece token → (∀ next ∈ pieces.head?, MayTouch piece next) →
        Renders pieces tokens → Renders (piece :: pieces) (token :: tokens)

private theorem Renders.writes {pieces : List Piece} {tokens : List Token}
    (h : Renders pieces tokens) : Writes pieces tokens := by
  induction h with
  | nil => exact .nil
  | blank _ _ ih => exact .blank _ ih
  | token spelled _ _ ih => exact .token spelled ih

private theorem unbroken_of_spells {letters : List Char} {token : Token}
    (h : Spells (.word letters) token) (hname : ∀ name, token = .var name → IsName name) :
    letters ≠ [] ∧ Unbroken letters [] := by
  cases h with
  | and => decide
  | or => decide
  | true => decide
  | false => decide
  | var _ => exact ⟨(hname _ rfl).nonempty, (hname _ rfl).unbroken⟩

/-- Pieces that render tokens are the cut of their text, if names are read back. -/
theorem Renders.cut {pieces : List Piece} {tokens : List Token} (h : Renders pieces tokens)
    (hnames : ∀ name, .var name ∈ tokens → IsName name) : Cut pieces := by
  induction h with
  | nil => exact .nil
  | blank hblank _ ih => exact .blank hblank (ih hnames)
  | @token piece token pieces tokens spelled htouch _ ih =>
    have rest : Cut pieces := ih fun name hname ↦ hnames name (List.mem_cons_of_mem _ hname)
    cases piece with
    | blank c => cases spelled
    | symbol mark => exact .symbol mark rest
    | word letters =>
      have word := unbroken_of_spells spelled fun name hname ↦
        hnames name (hname ▸ List.mem_cons_self)
      exact rest.cons_word word.1 word.2 htouch

private theorem exists_spells_text (token : Token)
    (h : ∀ name, token = .var name → name ∉ keywords) :
    ∃ piece, Spells piece token ∧ piece.chars = token.text.toList := by
  cases token with
  | lparen => exact ⟨.symbol .lparen, .symbol (by decide), by decide⟩
  | rparen => exact ⟨.symbol .rparen, .symbol (by decide), by decide⟩
  | neg => exact ⟨.symbol .neg, .symbol (by decide), by decide⟩
  | connective op =>
    cases op with
    | and => exact ⟨_, .and, rfl⟩
    | or => exact ⟨_, .or, rfl⟩
    | implies => exact ⟨.symbol (.connective .implies), .symbol (by decide), by decide⟩
    | iff => exact ⟨.symbol (.connective .iff), .symbol (by decide), by decide⟩
  | const value =>
    cases value with
    | false => exact ⟨_, .false, rfl⟩
    | true => exact ⟨_, .true, rfl⟩
  | var name => exact ⟨_, .var (h name rfl), rfl⟩

private theorem mayTouch_blank (piece : Piece) (c : Char) : MayTouch piece (.blank c) := by
  cases piece <;> trivial

/-- The texts of tokens, set apart by single spaces, are a way to write the tokens. -/
theorem exists_renders_intercalate {tokens : List Token}
    (h : ∀ name, .var name ∈ tokens → name ∉ keywords) :
    ∃ pieces, Renders pieces tokens ∧
      pieces.flatMap chars = (" ".intercalate (tokens.map Token.text)).toList := by
  induction tokens with
  | nil => exact ⟨[], .nil, rfl⟩
  | cons token tokens ih =>
    obtain ⟨pieces, hrenders, hchars⟩ := ih fun name hname ↦
      h name (List.mem_cons_of_mem _ hname)
    obtain ⟨piece, hspells, htext⟩ := exists_spells_text token fun name hname ↦
      h name (hname ▸ List.mem_cons_self)
    cases tokens with
    | nil =>
      refine ⟨[piece], .token hspells (by simp) .nil, ?_⟩
      simp [htext]
    | cons next tokens =>
      refine ⟨piece :: .blank ' ' :: pieces, ?_, ?_⟩
      · refine .token hspells ?_ (.blank (by decide) hrenders)
        rintro _ ⟨⟩
        exact mayTouch_blank piece ' '
      · rw [List.flatMap_cons, List.flatMap_cons, htext, hchars]
        simp [chars]

end Piece

/-- Tokens whose names are read back are read back from every text that is written for them,
however they are spelled and set apart. So the tokens of every text are read back from their
own texts with single spaces between them. -/
theorem lex_of_renders :
    (∀ {pieces : List Piece} {tokens : List Token} {text : String},
      (∀ name, .var name ∈ tokens → lex name = [.var name]) → Piece.Renders pieces tokens →
        text.toList = pieces.flatMap Piece.chars → lex text = tokens) ∧
    ∀ text : String, lex (" ".intercalate ((lex text).map Token.text)) = lex text := by
  have read {pieces : List Piece} {tokens : List Token} {text : String}
      (hnames : ∀ name, .var name ∈ tokens → IsName name) (h : Piece.Renders pieces tokens)
      (htext : pieces.flatMap Piece.chars = text.toList) : lex text = tokens := by
    rw [lex_of_cut (h.cut hnames) htext, Piece.writes_iff.1 h.writes]
  constructor
  · intro pieces tokens text hnames h htext
    exact read (fun name hname ↦ (lex_eq_var_iff name).1 (hnames name hname)) h htext.symm
  · intro text
    have names (name : String) (h : .var name ∈ lex text) : IsName name := isName_of_mem_lex h
    obtain ⟨pieces, h, htext⟩ := Piece.exists_renders_intercalate fun name hname ↦
      (names name hname).not_mem_keywords
    exact read names h htext

/-- In `~b\\ /\\<===>(true or\tc/ \\/x)` the blanks around the words are needed, and the names
`<=`, `b\\` and `c/` hold parts of marks. -/
theorem lex_of_renders_with_parts_of_marks :
    (∀ name ∈ ["b\\", "<=", "c/", "x"], lex name = [.var name]) ∧
      lex "~b\\ /\\<===>(true or\tc/ \\/x)" =
        [.neg, .var "b\\", .connective .and, .var "<=", .connective .implies, .lparen,
          .const true, .connective .or, .var "c/", .connective .or, .var "x", .rparen] := by
  have names : ∀ name ∈ ["b\\", "<=", "c/", "x"], lex name = [.var name] := by
    simp only [List.forall_mem_cons, lex_eq_var_iff]
    refine ⟨⟨?_, ?_, ?_⟩, ⟨?_, ?_, ?_⟩, ⟨?_, ?_, ?_⟩, ⟨?_, ?_, ?_⟩, List.forall_mem_nil _⟩ <;>
      decide
  have spellsName {name : String} (h : name ∈ ["b\\", "<=", "c/", "x"]) :
      Piece.Spells (.word name.toList) (.var name) :=
    .var ((lex_eq_var_iff name).1 (names name h)).not_mem_keywords
  have rendered : Piece.Renders
      [.symbol .neg, .word "b\\".toList, .blank ' ', .symbol (.connective .and),
        .word "<=".toList, .symbol (.connective .implies), .symbol .lparen, .word "true".toList,
        .blank ' ', .word "or".toList, .blank '\t', .word "c/".toList, .blank ' ',
        .symbol (.connective .or), .word "x".toList, .symbol .rparen]
      [.neg, .var "b\\", .connective .and, .var "<=", .connective .implies, .lparen,
        .const true, .connective .or, .var "c/", .connective .or, .var "x", .rparen] :=
    .token (.symbol (by decide)) (by decide) <| .token (spellsName (by decide)) (by decide) <|
    .blank (by decide) <| .token (.symbol (by decide)) (by decide) <|
    .token (spellsName (by decide)) (by decide) <| .token (.symbol (by decide)) (by decide) <|
    .token (.symbol (by decide)) (by decide) <| .token .true (by decide) <|
    .blank (by decide) <| .token .or (by decide) <| .blank (by decide) <|
    .token (spellsName (by decide)) (by decide) <| .blank (by decide) <|
    .token (.symbol (by decide)) (by decide) <| .token (spellsName (by decide)) (by decide) <|
    .token (.symbol (by decide)) (by decide) .nil
  refine ⟨names, lex_of_renders.1 ?_ rendered (by decide)⟩
  intro name hname
  apply names
  simpa using hname

end Sentential
