import Mathlib.Logic.ExistsUnique
import Sentential.Proofs.Token.Cut
import Sentential.Proofs.Token.Spelling

/-!
# The division of a text

The cut of a text, described by positions: its pieces follow each other without gap, words do
not touch, and no blank stands and no mark starts at a position inside a word, also not a mark
that reaches beyond the word. Every text has exactly one such division, its tokens are what
the pieces spell, and every character that is not blank lies in the piece of one token.
-/

namespace Sentential

open Text

/-- No mark is read exactly where none starts. -/
theorem Symbol.read?_eq_none_iff {text : List Char} :
    read? text = none ↔ ∀ mark ∈ marks, ¬ mark.1 <+: text := by
  constructor
  · rintro h ⟨letters, token⟩ hmark ⟨tail, htail⟩
    obtain ⟨mark, rfl, -⟩ := mem_marks_iff.1 hmark
    rw [read?_eq_some_iff.2 htail.symm] at h
    cases h
  · intro h
    cases hread : read? text with
    | none => rfl
    | some found =>
      obtain ⟨mark, tail⟩ := found
      have listed : (mark.spelling, mark.token) ∈ marks := mem_marks_iff.2 ⟨mark, rfl, rfl⟩
      exact absurd ⟨tail, (read?_eq_some_iff.1 hread).symm⟩ (h _ listed)

namespace Piece

/-! ### Positions -/

/-- Piece number `i` covers position `p` of the text. -/
def Covers (pieces : List Piece) (i p : Nat) : Prop :=
  ((pieces.take i).flatMap chars).length ≤ p ∧ p < ((pieces.take (i + 1)).flatMap chars).length

private theorem covers_cons_zero {piece : Piece} {pieces : List Piece} {p : Nat} :
    Covers (piece :: pieces) 0 p ↔ p < piece.chars.length := by
  simp [Covers]

private theorem covers_cons_succ {piece : Piece} {pieces : List Piece} {i p : Nat} :
    Covers (piece :: pieces) (i + 1) (piece.chars.length + p) ↔ Covers pieces i p := by
  simp [Covers]

/-- Every position of the text is covered by some piece. -/
theorem exists_covers {pieces : List Piece} {p : Nat} (h : p < (pieces.flatMap chars).length) :
    ∃ i, Covers pieces i p := by
  induction pieces generalizing p with
  | nil => cases h
  | cons piece pieces ih =>
    by_cases hp : p < piece.chars.length
    · exact ⟨0, covers_cons_zero.2 hp⟩
    · -- Positions behind the first piece are counted from its end.
      obtain ⟨q, rfl⟩ := Nat.exists_eq_add_of_le (Nat.not_lt.1 hp)
      rw [List.flatMap_cons, List.length_append] at h
      obtain ⟨i, hi⟩ := ih (Nat.lt_of_add_lt_add_left h)
      exact ⟨i + 1, covers_cons_succ.2 hi⟩

private theorem length_flatMap_take_le (pieces : List Piece) {i j : Nat} (h : i ≤ j) :
    ((pieces.take i).flatMap chars).length ≤ ((pieces.take j).flatMap chars).length := by
  obtain ⟨tail, htail⟩ := List.take_prefix_take_left (l := pieces) h
  rw [← htail, List.flatMap_append, List.length_append]
  omega

private theorem Covers.le {pieces : List Piece} {i j p : Nat} (hi : Covers pieces i p)
    (hj : Covers pieces j p) : i ≤ j := by
  apply Nat.not_lt.1
  intro h
  have longer := length_flatMap_take_le pieces (show j + 1 ≤ i by omega)
  have starts := hi.1
  have ends := hj.2
  omega

/-- No position is covered by two pieces. -/
theorem Covers.unique {pieces : List Piece} {i j p : Nat} (hi : Covers pieces i p)
    (hj : Covers pieces j p) : i = j :=
  Nat.le_antisymm (hi.le hj) (hj.le hi)

private theorem Covers.lt_length {pieces : List Piece} {i p : Nat} (h : Covers pieces i p) :
    i < pieces.length := by
  apply Nat.not_le.1
  intro outside
  have starts := h.1
  have ends := h.2
  -- Behind the last piece both bounds are the end of the text.
  rw [List.take_of_length_le (by omega)] at starts ends
  omega

private theorem flatMap_chars_split {pieces : List Piece} {piece : Piece} {i : Nat}
    (h : pieces[i]? = some piece) :
    pieces.flatMap chars = (pieces.take i).flatMap chars ++
      (piece.chars ++ (pieces.drop (i + 1)).flatMap chars) := by
  induction pieces generalizing i with
  | nil => cases h
  | cons first pieces ih =>
    cases i with
    | zero =>
      cases h
      rfl
    | succ i =>
      rw [List.flatMap_cons, ih h]
      simp

private theorem drop_of_covers {pieces : List Piece} {piece : Piece} {i p : Nat}
    (h : Covers pieces i p) (hpiece : pieces[i]? = some piece) :
    ∃ q < piece.chars.length, (pieces.flatMap chars).drop p =
      (piece.chars ++ (pieces.drop (i + 1)).flatMap chars).drop q := by
  obtain ⟨q, rfl⟩ := Nat.exists_eq_add_of_le h.1
  refine ⟨q, ?_, ?_⟩
  · have ends := h.2
    rw [List.take_add_one, hpiece, List.flatMap_append, List.length_append] at ends
    simpa using ends
  · rw [flatMap_chars_split hpiece, List.drop_length_add_append]

private theorem mem_chars_of_covers {pieces : List Piece} {piece : Piece} {i p : Nat} {c : Char}
    (h : Covers pieces i p) (hpiece : pieces[i]? = some piece)
    (hc : (pieces.flatMap chars)[p]? = some c) : c ∈ piece.chars := by
  obtain ⟨q, hq, hdrop⟩ := drop_of_covers h hpiece
  rw [← List.head?_drop, hdrop, List.head?_drop, List.getElem?_append_left hq] at hc
  exact List.mem_of_getElem? hc

/-! ### Divisions -/

/-- The pieces follow each other in the text without gap. Blanks are blank, no word is empty,
no two words touch, and at no position inside a word stands a blank or starts a mark, wherever
that mark may end. -/
structure Divides (pieces : List Piece) (text : List Char) : Prop where
  covers : pieces.flatMap chars = text
  blank : ∀ c, .blank c ∈ pieces → c.toNat ∈ blanks
  nonempty : ∀ letters, .word letters ∈ pieces → letters ≠ []
  apart : ∀ before letters letters' after,
    pieces ≠ before ++ .word letters :: .word letters' :: after
  visible : ∀ letters, .word letters ∈ pieces → ∀ c ∈ letters, c.toNat ∉ blanks
  unmarked : ∀ i letters, pieces[i]? = some (.word letters) → ∀ p, Covers pieces i p →
    ∀ mark ∈ marks, ¬ mark.1 <+: text.drop p

/-- Letters are unbroken if none is blank and no mark starts at their positions. -/
theorem unbroken_iff {letters rest : List Char} :
    Unbroken letters rest ↔ (∀ c ∈ letters, c.toNat ∉ blanks) ∧
      ∀ p < letters.length, ∀ mark ∈ marks, ¬ mark.1 <+: (letters ++ rest).drop p := by
  induction letters with
  | nil => simp [Unbroken]
  | cons c letters ih =>
    rw [Unbroken, ih, isBlank_eq_false_iff, Symbol.read?_eq_none_iff]
    constructor
    · rintro ⟨⟨hblank, hmark⟩, hblanks, hmarks⟩
      refine ⟨List.forall_mem_cons.2 ⟨hblank, hblanks⟩, ?_⟩
      intro p hp
      cases p with
      | zero => exact hmark
      | succ p => exact hmarks p (Nat.lt_of_succ_lt_succ hp)
    · rintro ⟨hblanks, hmarks⟩
      obtain ⟨hblank, hblanks⟩ := List.forall_mem_cons.1 hblanks
      refine ⟨⟨hblank, hmarks 0 (Nat.succ_pos _)⟩, hblanks, ?_⟩
      intro p hp
      exact hmarks (p + 1) (Nat.succ_lt_succ hp)

private theorem Divides.tail {piece : Piece} {pieces : List Piece} {text : List Char}
    (h : Divides (piece :: pieces) text) : Divides pieces (pieces.flatMap chars) where
  covers := rfl
  blank c hc := h.blank c (List.mem_cons_of_mem _ hc)
  nonempty letters hletters := h.nonempty letters (List.mem_cons_of_mem _ hletters)
  apart before letters letters' after hsplit :=
    h.apart (piece :: before) letters letters' after (by rw [hsplit]; rfl)
  visible letters hletters := h.visible letters (List.mem_cons_of_mem _ hletters)
  unmarked i letters hletters p hp mark hmark := by
    have inside := h.unmarked (i + 1) letters hletters _ (covers_cons_succ.2 hp) mark hmark
    rw [← h.covers, List.flatMap_cons, List.drop_length_add_append] at inside
    exact inside

private theorem Divides.unbroken {letters : List Char} {pieces : List Piece} {text : List Char}
    (h : Divides (.word letters :: pieces) text) : Unbroken letters (pieces.flatMap chars) := by
  rw [unbroken_iff]
  refine ⟨h.visible letters List.mem_cons_self, ?_⟩
  intro p hp mark hmark
  have inside := h.unmarked 0 letters rfl p (covers_cons_zero.2 hp) mark hmark
  rw [← h.covers] at inside
  exact inside

/-- Pieces that divide a text form a cut. -/
theorem Divides.cut {pieces : List Piece} {text : List Char} (h : Divides pieces text) :
    Cut pieces := by
  induction pieces generalizing text with
  | nil => exact .nil
  | cons piece pieces ih =>
    have rest := ih h.tail
    cases piece with
    | blank c => exact .blank (isBlank_iff.2 (h.blank c List.mem_cons_self)) rest
    | symbol mark => exact .symbol mark rest
    | word letters =>
      refine .word (h.nonempty letters List.mem_cons_self) h.unbroken ?_ rest
      cases pieces with
      | nil => rfl
      | cons next pieces =>
        cases next with
        | blank c => rfl
        | symbol mark => rfl
        | word letters' => exact absurd rfl (h.apart [] letters letters' pieces)

private theorem Cut.of_append {before after : List Piece} (h : Cut (before ++ after)) :
    Cut after := by
  induction before with
  | nil => exact h
  | cons piece before ih =>
    apply ih
    cases h with
    | blank _ h => exact h
    | symbol _ h => exact h
    | word _ _ _ h => exact h

/-- A cut divides the text that it covers. -/
theorem Cut.divides {pieces : List Piece} (h : Cut pieces) :
    Divides pieces (pieces.flatMap chars) where
  covers := rfl
  blank c hc := by
    obtain ⟨before, after, rfl⟩ := List.append_of_mem hc
    cases h.of_append with
    | blank hblank _ => exact isBlank_iff.1 hblank
  nonempty letters hletters := (h.unbroken_of_mem hletters).1
  apart before letters letters' after hsplit := by
    rw [hsplit] at h
    cases h.of_append with
    | word _ _ hstart _ => cases hstart
  visible letters hletters := (unbroken_iff.1 (h.unbroken_of_mem hletters).2).1
  unmarked i letters hword p hp mark hmark := by
    obtain ⟨q, hq, hdrop⟩ := drop_of_covers hp hword
    obtain ⟨hi, hword⟩ := List.getElem?_eq_some_iff.1 hword
    -- The word is unbroken in the text behind it, since a cut starts with the word.
    have suffix : Cut (.word letters :: pieces.drop (i + 1)) := by
      rw [← hword, List.getElem_cons_drop]
      apply Cut.of_append
      rw [List.take_append_drop]
      exact h
    cases suffix with
    | word _ hletters _ _ =>
      rw [hdrop]
      exact (unbroken_iff.1 hletters).2 q hq mark hmark

/-- Every text is divided by the pieces that are read off it. -/
theorem divides_ofText (text : List Char) : Divides (ofText text) text := by
  have divided := (cut_ofText text).divides
  rw [flatMap_chars_ofText] at divided
  exact divided

/-- A text is divided in one way. -/
theorem Divides.eq_ofText {pieces : List Piece} {text : List Char} (h : Divides pieces text) :
    pieces = ofText text := by
  rw [← h.covers, ofText_flatMap_chars h.cut]

private theorem Divides.spells_of_covers {pieces : List Piece} {text : List Char} {i p : Nat}
    {c : Char} (h : Divides pieces text) (hcovers : Covers pieces i p) (hc : text[p]? = some c)
    (hvisible : c.toNat ∉ blanks) :
    ∃ piece token, pieces[i]? = some piece ∧ piece.Spells token := by
  have hi := hcovers.lt_length
  have hpiece := List.getElem?_eq_getElem hi
  rw [← h.covers] at hc
  have hmem := mem_chars_of_covers hcovers hpiece hc
  refine ⟨pieces[i], ?_⟩
  cases hcase : pieces[i] with
  | blank b =>
    rw [hcase, chars, List.mem_singleton] at hmem
    have hblank := h.blank b (hcase ▸ List.getElem_mem hi)
    exact absurd (hmem ▸ hblank) hvisible
  | symbol mark => exact ⟨mark.token, hcase ▸ hpiece, Token.ofPiece?_eq_some_iff.1 rfl⟩
  | word letters =>
    refine ⟨Token.ofWord (String.ofList letters), hcase ▸ hpiece, ?_⟩
    exact Token.ofPiece?_eq_some_iff.1 rfl

end Piece

/-- Every text is divided by exactly one list of pieces. They write the tokens of the text, and
each of its characters that is not blank is covered by exactly one piece that spells a token. -/
theorem lex_of_divides (text : String) :
    ∃ pieces, Piece.Divides pieces text.toList ∧
      (∀ others, Piece.Divides others text.toList → others = pieces) ∧
      Piece.Writes pieces (lex text) ∧
      ∀ p c, text.toList[p]? = some c → c.toNat ∉ blanks →
        ∃! i, Piece.Covers pieces i p ∧
          ∃ piece token, pieces[i]? = some piece ∧ piece.Spells token := by
  have divided := Piece.divides_ofText text.toList
  refine ⟨Piece.ofText text.toList, divided, ?_, Piece.writes_iff.2 rfl, ?_⟩
  · intro others hothers
    exact hothers.eq_ofText
  · intro p c hc hvisible
    obtain ⟨hp, -⟩ := List.getElem?_eq_some_iff.1 hc
    rw [← divided.covers] at hp
    obtain ⟨i, hi⟩ := Piece.exists_covers hp
    refine ⟨i, ⟨hi, divided.spells_of_covers hi hc hvisible⟩, ?_⟩
    rintro j ⟨hj, -⟩
    exact hj.unique hi

end Sentential
