import Sentential.Proofs.Parse.Acceptance
import Sentential.Proofs.Sentence.Names
import Sentential.Proofs.Token.Name
import Sentential.Sentence.Render

/-!
# Rendering and reading

The infix text of a sentence is read back as that sentence, provided its names are read
back. The pieces of the text are written down beside it; they form a cut, so lexing finds
them, and their tokens are derived with the sentence as their tree. Sentences that were
read have only such names.
-/

namespace Sentential

/-- The piece that a connective is rendered as. -/
def Connective.piece : Connective → Piece
  | .and => .word ['a', 'n', 'd']
  | .or => .word ['o', 'r']
  | .implies => .symbol (.connective .implies)
  | .iff => .symbol (.connective .iff)

namespace Sentence

/-- The pieces of the infix text. -/
def pieces : Sentence → List Piece
  | .const value => [.word (truthWord value).toList]
  | .var name => [.word name.toList]
  | .neg body =>
    if body.isNegation then
      .symbol .neg :: .symbol .lparen :: (body.pieces ++ [.symbol .rparen])
    else
      .symbol .neg :: body.pieces
  | .binary op lhs rhs =>
    .symbol .lparen :: (lhs.pieces ++
      .blank ' ' :: op.piece :: .blank ' ' :: (rhs.pieces ++ [.symbol .rparen]))

/-- The tokens of the infix text. -/
def tokens (s : Sentence) : List Token := s.pieces.filterMap Token.ofPiece?

/-- The kind of phrase that the infix text is. -/
def phrase (s : Sentence) : Phrase := if s.isNegation then .operand else .primary

/-! ### The pieces are the cut of the text -/

private theorem flatMap_chars_pieces (s : Sentence) :
    s.pieces.flatMap Piece.chars = s.render.toList := by
  induction s with
  | const value => simp [pieces, render, Piece.chars]
  | var name => simp [pieces, render, Piece.chars]
  | neg body ih =>
    simp only [pieces, render]
    split <;> simp [ih, Piece.chars, Symbol.spelling]
  | binary op lhs rhs ihl ihr =>
    cases op <;> simp [pieces, render, ihl, ihr, Piece.chars, Symbol.spelling, Connective.piece,
      Connective.symbol]

/-- Behind an operand stand a blank, a closing parenthesis or nothing. -/
def EndsOperand (rest : List Piece) : Prop :=
  rest = [] ∨ (∃ c ps, rest = .blank c :: ps) ∨ ∃ ps, rest = .symbol .rparen :: ps

private theorem follows_of_endsOperand {rest : List Piece} (h : EndsOperand rest)
    (letters : List Char) : ∀ piece ∈ rest.head?, Piece.Follows letters piece := by
  intro piece hpiece
  rcases h with rfl | ⟨c, ps, rfl⟩ | ⟨ps, rfl⟩
  · cases hpiece
  · cases hpiece
    trivial
  · cases hpiece
    rintro (⟨-, h⟩ | ⟨-, h⟩) <;> cases h

private theorem cut_piece (op : Connective) {rest : List Piece}
    (h : Piece.Cut (.blank ' ' :: rest)) : Piece.Cut (op.piece :: .blank ' ' :: rest) := by
  have follows (letters : List Char) :
      ∀ piece ∈ (Piece.blank ' ' :: rest).head?, Piece.Follows letters piece := by
    rintro piece ⟨⟩
    trivial
  cases op with
  | and => exact h.cons_word (by decide) (by decide) (follows _)
  | or => exact h.cons_word (by decide) (by decide) (follows _)
  | implies => exact .symbol _ h
  | iff => exact .symbol _ h

private theorem cut_pieces {s : Sentence} (hs : ∀ name ∈ s.names, IsName name) {rest : List Piece}
    (h : Piece.Cut rest) (hrest : EndsOperand rest) : Piece.Cut (s.pieces ++ rest) := by
  induction s generalizing rest with
  | const value =>
    have follows := follows_of_endsOperand hrest (truthWord value).toList
    cases value with
    | true => exact h.cons_word (by decide) (by decide) follows
    | false => exact h.cons_word (by decide) (by decide) follows
  | var name =>
    have read := hs name (List.mem_singleton_self name)
    exact h.cons_word read.nonempty read.unbroken (follows_of_endsOperand hrest _)
  | neg body ih =>
    rw [pieces]
    split
    · have inner := ih hs (.symbol .rparen h) (.inr (.inr ⟨rest, rfl⟩))
      simpa using Piece.Cut.symbol .neg (.symbol .lparen inner)
    · exact .symbol .neg (ih hs h hrest)
  | binary op lhs rhs ihl ihr =>
    have hlhs : ∀ name ∈ lhs.names, IsName name := fun name hname ↦
      hs name (List.mem_append_left _ hname)
    have hrhs : ∀ name ∈ rhs.names, IsName name := fun name hname ↦
      hs name (List.mem_append_right _ hname)
    have right := ihr hrhs (.symbol .rparen h) (.inr (.inr ⟨rest, rfl⟩))
    have middle := Piece.Cut.blank (by decide : Text.isBlank ' ' = true)
      (cut_piece op (.blank (by decide) right))
    have left := ihl hlhs middle (.inr (.inl ⟨' ', _, rfl⟩))
    simpa [pieces] using Piece.Cut.symbol .lparen left

/-! ### The tokens derive the sentence -/

private theorem operand_of_phrase {s : Sentence} {ts : List Token} (h : Derives s.phrase ts s) :
    Derives .operand ts s := by
  unfold phrase at h
  split at h
  · exact h
  · exact .primary h

private theorem ofPiece?_piece (op : Connective) :
    Token.ofPiece? op.piece = some (.connective op) := by
  cases op <;> rfl

/-- The tokens of the infix text derive the sentence. -/
theorem derives_tokens {s : Sentence} (hs : ∀ name ∈ s.names, IsName name) :
    Derives s.phrase s.tokens s := by
  induction s with
  | const value => cases value <;> exact .const _
  | var name =>
    have read := hs name (List.mem_singleton_self name)
    have tokens_var : (var name).tokens = [.var name] := by
      simp [tokens, pieces, read.notKeyword]
    rw [tokens_var]
    exact .var name
  | neg body ih =>
    have inner := ih hs
    by_cases hbody : body.isNegation = true
    · have tokens_neg : (neg body).tokens = .neg :: .lparen :: (body.tokens ++ [.rparen]) := by
        simp [tokens, pieces, hbody, Symbol.token]
      rw [tokens_neg]
      exact .neg (.group (.operand (operand_of_phrase inner)))
    · have tokens_neg : (neg body).tokens = .neg :: body.tokens := by
        simp [tokens, pieces, hbody, Symbol.token]
      rw [tokens_neg]
      rw [phrase, if_neg hbody] at inner
      exact .neg inner
  | binary op lhs rhs ihl ihr =>
    have left := operand_of_phrase (ihl fun name hname ↦ hs name (List.mem_append_left _ hname))
    have right := operand_of_phrase (ihr fun name hname ↦ hs name (List.mem_append_right _ hname))
    have tokens_binary : (binary op lhs rhs).tokens =
        .lparen :: ((lhs.tokens ++ .connective op :: rhs.tokens) ++ [.rparen]) := by
      simp [tokens, pieces, List.filterMap_cons, ofPiece?_piece, Symbol.token]
    rw [tokens_binary]
    exact .group (.connective op (.operand left) right)

/-- A sentence whose names are read back is read back. -/
theorem parse_lex_render {s : Sentence} (hs : ∀ name ∈ s.names, IsName name) :
    parse (lex s.render) = .ok s := by
  have cut := cut_pieces hs .nil (.inl rfl)
  rw [List.append_nil] at cut
  rw [lex_of_cut cut s.flatMap_chars_pieces]
  exact Parse.parse_of_derives (.operand (operand_of_phrase (derives_tokens hs)))

end Sentence

private theorem Derives.var_mem {phrase : Phrase} {ts : List Token} {s : Sentence}
    (h : Derives phrase ts s) : ∀ name ∈ s.names, .var name ∈ ts := by
  induction h with
  | operand _ ih => exact ih
  | @connective ts us lhs rhs op _ _ ihl ihr =>
    intro name hname
    rcases List.mem_append.1 hname with hname | hname
    · exact List.mem_append_left _ (ihl name hname)
    · exact List.mem_append_right _ (List.mem_cons_of_mem _ (ihr name hname))
  | primary _ ih => exact ih
  | neg _ ih =>
    intro name hname
    exact List.mem_cons_of_mem _ (ih name hname)
  | var name =>
    intro name' hname
    rw [List.mem_singleton.1 hname]
    exact List.mem_singleton_self _
  | const value =>
    intro name hname
    cases hname
  | group _ ih =>
    intro name hname
    exact List.mem_cons_of_mem _ (List.mem_append_left _ (ih name hname))

/-- All names of a sentence that was read are read back. -/
theorem isName_of_parse_lex {text : String} {s : Sentence} (h : parse (lex text) = .ok s) :
    ∀ name ∈ s.names, IsName name := by
  intro name hname
  exact isName_of_mem_lex ((Parse.derives_of_parse h).var_mem name hname)

/-- A sentence is read back from its infix text exactly if each of its names is lexed as its
own variable. So every sentence that was read from some text is read back from its own. -/
theorem parse_lex_render_eq_iff (s : Sentence) :
    (parse (lex s.render) = .ok s ↔ ∀ name ∈ s.names, lex name = [.var name]) ∧
      ∀ text, parse (lex text) = .ok s → parse (lex s.render) = .ok s := by
  refine ⟨⟨?_, ?_⟩, ?_⟩
  · intro h name hname
    exact (lex_eq_var_iff name).2 (isName_of_parse_lex h name hname)
  · intro h
    exact Sentence.parse_lex_render fun name hname ↦ (lex_eq_var_iff name).1 (h name hname)
  · intro text h
    exact Sentence.parse_lex_render (isName_of_parse_lex h)

/-- The infix text of what `~(~a)<=>b/\\=` is read as is read as the same. -/
theorem parse_lex_render_eq_of_digraphs :
    parse (lex "~(~a)<=>b/\\=") = .ok (.binary .and
        (.binary .iff (.neg (.neg (.var "a"))) (.var "b")) (.var "=")) ∧
      parse (lex (Sentence.binary .and
        (.binary .iff (.neg (.neg (.var "a"))) (.var "b")) (.var "=")).render) =
          .ok (.binary .and (.binary .iff (.neg (.neg (.var "a"))) (.var "b")) (.var "=")) := by
  have cut : Piece.Cut [.symbol .neg, .symbol .lparen, .symbol .neg, .word ['a'],
      .symbol .rparen, .symbol (.connective .iff), .word ['b'], .symbol (.connective .and),
      .word ['=']] :=
    .symbol _ (.symbol _ (.symbol _ (.word (by decide) (by decide) rfl
      (.symbol _ (.symbol _ (.word (by decide) (by decide) rfl
        (.symbol _ (.word (by decide) (by decide) rfl .nil))))))))
  have derived := Derives.connective .and
    (.connective .iff (.operand (.neg (.group (.operand (.neg (.var "a"))))))
      (.primary (.var "b")))
    (.primary (.var "="))
  have accepted : parse (lex "~(~a)<=>b/\\=") = .ok (.binary .and
      (.binary .iff (.neg (.neg (.var "a"))) (.var "b")) (.var "=")) := by
    rw [lex_of_cut cut (by decide)]
    exact Parse.parse_of_derives derived
  exact ⟨accepted, (parse_lex_render_eq_iff _).2 _ accepted⟩

end Sentential
