import Sentential.Token.Lex

/-!
# The cut of a text

`Piece.Cut` says, without reading a text, when pieces are the cut of the text that they
cover: marks stand where they can, and words hold neither blanks nor the start of a mark,
also not of one that reaches into the text behind the word. Every text has exactly one
such cut, and lexing finds it. A word and a piece may stand side by side if no mark fuses
from the end of the one and the start of the other.
-/

namespace Sentential.Piece

open Text

/-- No letter is blank, and no mark starts at one of them in the text that goes on with
`rest`. -/
def Unbroken : List Char → List Char → Prop
  | [], _ => True
  | c :: letters, rest =>
    (isBlank c = false ∧ Symbol.read? (c :: (letters ++ rest)) = none) ∧ Unbroken letters rest

/-- Whether letters are unbroken is checked at one letter after another. -/
instance Unbroken.decidable : (letters rest : List Char) → Decidable (Unbroken letters rest)
  | [], _ => isTrue trivial
  | _ :: letters, rest =>
    have := Unbroken.decidable letters rest
    inferInstanceAs (Decidable ((_ ∧ _) ∧ _))

/-- Whether the first piece is a word. -/
def startsWord : List Piece → Bool
  | .word _ :: _ => true
  | _ => false

/-- The pieces are the cut of the text that they cover. -/
inductive Cut : List Piece → Prop
  | nil : Cut []
  | blank {c : Char} {pieces : List Piece} :
      isBlank c = true → Cut pieces → Cut (.blank c :: pieces)
  | symbol (mark : Symbol) {pieces : List Piece} :
      Cut pieces → Cut (.symbol mark :: pieces)
  | word {letters : List Char} {pieces : List Piece} :
      letters ≠ [] → Unbroken letters (pieces.flatMap chars) → startsWord pieces = false →
        Cut pieces → Cut (.word letters :: pieces)

/-! ### One step of the cut -/

private theorem isBlank_of_mem_spelling {mark : Symbol} {c : Char} (h : c ∈ mark.spelling) :
    isBlank c = false := by
  have visible : (Symbol.all.all fun mark ↦ mark.spelling.all (!isBlank ·)) = true := by decide
  have marked := List.all_eq_true.1 visible mark (Symbol.mem_all mark)
  simpa using List.all_eq_true.1 marked c h

private theorem ofText_blank {c : Char} (h : isBlank c = true) (rest : List Char) :
    ofText (c :: rest) = .blank c :: ofText rest := by
  rw [ofText, if_pos h]

private theorem ofText_spelling (mark : Symbol) (rest : List Char) :
    ofText (mark.spelling ++ rest) = .symbol mark :: ofText rest := by
  cases hspelling : mark.spelling with
  | nil => exact absurd hspelling mark.spelling_ne_nil
  | cons c cs =>
    have first : c ∈ mark.spelling := by
      rw [hspelling]
      exact List.mem_cons_self
    have visible := isBlank_of_mem_spelling first
    have hread : Symbol.read? (c :: (cs ++ rest)) = some (mark, rest) := by
      rw [Symbol.read?_eq_some_iff, hspelling]
      rfl
    rw [List.cons_append, ofText, if_neg (by simp [visible])]
    split
    · next mark' tail h =>
      rw [hread] at h
      cases h
      rfl
    · next h => rw [hread] at h; cases h

private theorem ofText_letter {c : Char} {rest : List Char} (hblank : isBlank c = false)
    (hread : Symbol.read? (c :: rest) = none) :
    ofText (c :: rest) = consLetter c (ofText rest) := by
  rw [ofText, if_neg (by simp [hblank])]
  split
  · next mark tail h => rw [hread] at h; cases h
  · rfl

private theorem consLetter_of_startsWord {c : Char} {pieces : List Piece}
    (h : startsWord pieces = false) : consLetter c pieces = .word [c] :: pieces := by
  cases pieces with
  | nil => rfl
  | cons piece rest =>
    cases piece with
    | blank c => rfl
    | symbol mark => rfl
    | word letters => cases h

private theorem ofText_unbroken {letters rest : List Char} (hne : letters ≠ [])
    (h : Unbroken letters rest) (hrest : startsWord (ofText rest) = false) :
    ofText (letters ++ rest) = .word letters :: ofText rest := by
  induction letters with
  | nil => exact absurd rfl hne
  | cons c letters ih =>
    obtain ⟨⟨hblank, hread⟩, htail⟩ := h
    rw [List.cons_append, ofText_letter hblank hread]
    cases letters with
    | nil => exact consLetter_of_startsWord hrest
    | cons d letters =>
      rw [ih (List.cons_ne_nil d letters) htail]
      rfl

/-! ### Every text has one cut -/

/-- Pieces that form a cut are found again in the text that they cover. -/
theorem ofText_flatMap_chars {pieces : List Piece} (h : Cut pieces) :
    ofText (pieces.flatMap chars) = pieces := by
  induction h with
  | nil => rw [List.flatMap_nil, ofText]
  | blank hblank _ ih =>
    rw [List.flatMap_cons, chars, List.singleton_append, ofText_blank hblank, ih]
  | symbol mark _ ih => rw [List.flatMap_cons, chars, ofText_spelling, ih]
  | word hne hletters hstart _ ih =>
    rw [List.flatMap_cons, chars, ofText_unbroken hne hletters (by rw [ih]; exact hstart), ih]

private theorem Cut.consLetter {c : Char} {pieces : List Piece} (h : Cut pieces)
    (hblank : isBlank c = false) (hread : Symbol.read? (c :: pieces.flatMap chars) = none) :
    Cut (Piece.consLetter c pieces) := by
  cases h with
  | nil => exact .word (List.cons_ne_nil c []) ⟨⟨hblank, hread⟩, trivial⟩ rfl .nil
  | blank hc hcut =>
    exact .word (List.cons_ne_nil c []) ⟨⟨hblank, hread⟩, trivial⟩ rfl (.blank hc hcut)
  | symbol mark hcut =>
    exact .word (List.cons_ne_nil c []) ⟨⟨hblank, hread⟩, trivial⟩ rfl (.symbol mark hcut)
  | word hne hletters hstart hcut =>
    exact .word (List.cons_ne_nil c _) ⟨⟨hblank, hread⟩, hletters⟩ hstart hcut

/-- The pieces of a text form a cut. -/
theorem cut_ofText (text : List Char) : Cut (ofText text) := by
  fun_induction ofText text with
  | case1 => exact .nil
  | case2 c rest hblank ih => exact .blank hblank ih
  | case3 c rest _ mark tail _ ih => exact .symbol mark ih
  | case4 c rest hblank hread ih =>
    have visible : isBlank c = false := by simpa using hblank
    exact ih.consLetter visible (by rw [flatMap_chars_ofText]; exact hread)

/-! ### Neighbours of a word -/

private theorem spelling_of_read?_append {letters rest tail : List Char} {mark : Symbol}
    (hread : Symbol.read? letters = none)
    (happend : Symbol.read? (letters ++ rest) = some (mark, tail)) :
    ∃ c excess, mark.spelling = letters ++ c :: excess ∧ rest = c :: excess ++ tail := by
  have split := Symbol.read?_eq_some_iff.1 happend
  have alone (excess : List Char) : letters ≠ mark.spelling ++ excess := by
    intro h
    rw [Symbol.read?_eq_some_iff.2 h] at hread
    cases hread
  rcases List.append_eq_append_iff.1 split with ⟨excess, hmark, hrest⟩ | ⟨excess, hletters, -⟩
  · cases excess with
    | nil => exact absurd (by rw [hmark, List.append_nil, List.append_nil]) (alone [])
    | cons c excess => exact ⟨c, excess, hmark, hrest⟩
  · exact absurd hletters (alone excess)

private theorem Unbroken.alone {letters rest : List Char} (h : Unbroken letters rest) :
    Unbroken letters [] := by
  induction letters with
  | nil => trivial
  | cons c letters ih =>
    obtain ⟨⟨hblank, hread⟩, htail⟩ := h
    refine ⟨⟨hblank, ?_⟩, ih htail⟩
    rw [List.append_nil]
    cases halone : Symbol.read? (c :: letters) with
    | none => rfl
    | some found =>
      obtain ⟨mark, excess⟩ := found
      have longer : c :: (letters ++ rest) = mark.spelling ++ (excess ++ rest) := by
        rw [← List.append_assoc, ← Symbol.read?_eq_some_iff.1 halone]
        rfl
      rw [Symbol.read?_eq_some_iff.2 longer] at hread
      cases hread

/-- The end of the letters and the start of the mark spell another mark. -/
def Fuses (letters : List Char) (mark : Symbol) : Prop :=
  (letters.getLast? = some '/' ∧ mark = .connective .or) ∨
    (letters.getLast? = some '\\' ∧ mark = .connective .and)

/-- Fusing depends on the last letter and the mark only. -/
instance (letters : List Char) (mark : Symbol) : Decidable (Fuses letters mark) :=
  inferInstanceAs (Decidable (_ ∨ _))

/-- The piece may follow a word of these letters. -/
def Follows (letters : List Char) : Piece → Prop
  | .blank _ => True
  | .symbol mark => ¬ Fuses letters mark
  | .word _ => False

private theorem fuses_of_spelling {mark next : Symbol} {letters excess tail rest : List Char}
    {c : Char} (hne : letters ≠ []) (hmark : mark.spelling = letters ++ c :: excess)
    (hnext : c :: excess ++ tail = next.spelling ++ rest) : Fuses letters next := by
  have short : ∀ mark ∈ Symbol.all, mark.spelling.length ≤ 3 := by decide
  have overlaps : ∀ mark ∈ Symbol.all, ∀ next ∈ Symbol.all, ∀ n ∈ [1, 2],
      mark.spelling.drop n ≠ [] →
        (mark.spelling.drop n <+: next.spelling ∨ next.spelling <+: mark.spelling.drop n) →
          Fuses (mark.spelling.take n) next := by
    decide
  have size : letters.length ∈ [1, 2] := by
    have total := short mark (Symbol.mem_all mark)
    have positive := List.length_pos_iff.2 hne
    rw [hmark, List.length_append, List.length_cons] at total
    simp only [List.mem_cons, List.not_mem_nil, or_false]
    omega
  have begun : mark.spelling.take letters.length = letters := by
    rw [hmark, List.take_left]
  have ended : mark.spelling.drop letters.length = c :: excess := by
    rw [hmark, List.drop_left]
  have comparable : c :: excess <+: next.spelling ∨ next.spelling <+: c :: excess :=
    List.prefix_or_prefix_of_prefix ⟨tail, hnext⟩ (List.prefix_append _ rest)
  have fused := overlaps mark (Symbol.mem_all mark) next (Symbol.mem_all next) _ size
  rw [begun, ended] at fused
  exact fused (List.cons_ne_nil c excess) comparable

private theorem read?_append_of_follows {letters : List Char} {pieces : List Piece}
    (hne : letters ≠ []) (hread : Symbol.read? letters = none) (h : Cut pieces)
    (hfollows : ∀ piece ∈ pieces.head?, Follows letters piece) :
    Symbol.read? (letters ++ pieces.flatMap chars) = none := by
  cases happend : Symbol.read? (letters ++ pieces.flatMap chars) with
  | none => rfl
  | some found =>
    obtain ⟨mark, tail⟩ := found
    obtain ⟨c, excess, hmark, hrest⟩ := spelling_of_read?_append hread happend
    cases h with
    | nil => cases hrest
    | @blank b pieces hblank _ =>
      obtain ⟨rfl, -⟩ := List.cons.inj hrest
      have inside : b ∈ mark.spelling := by
        rw [hmark]
        exact List.mem_append_right _ List.mem_cons_self
      rw [isBlank_of_mem_spelling inside] at hblank
      cases hblank
    | symbol next _ =>
      rw [List.flatMap_cons, chars] at hrest
      exact absurd (fuses_of_spelling hne hmark hrest.symm) (hfollows _ rfl)
    | word _ _ _ _ => exact absurd (hfollows _ rfl) id

private theorem follows_cons {c d : Char} {letters : List Char} {piece : Piece} :
    Follows (c :: d :: letters) piece ↔ Follows (d :: letters) piece := by
  cases piece <;> simp [Follows, Fuses]

/-- A word stays unbroken before a piece that may follow it. -/
theorem Unbroken.append {letters : List Char} {pieces : List Piece} (h : Unbroken letters [])
    (hpieces : Cut pieces) (hfollows : ∀ piece ∈ pieces.head?, Follows letters piece) :
    Unbroken letters (pieces.flatMap chars) := by
  induction letters with
  | nil => trivial
  | cons c letters ih =>
    obtain ⟨⟨hblank, hread⟩, htail⟩ := h
    rw [List.append_nil] at hread
    refine ⟨⟨hblank, ?_⟩, ?_⟩
    · exact read?_append_of_follows (List.cons_ne_nil c letters) hread hpieces hfollows
    · cases letters with
      | nil => trivial
      | cons d letters =>
        exact ih htail fun piece hpiece ↦ follows_cons.1 (hfollows piece hpiece)

/-- A word extends the cut of a text that starts with a piece which may follow the word. -/
theorem Cut.cons_word {letters : List Char} {pieces : List Piece} (h : Cut pieces)
    (hne : letters ≠ []) (hletters : Unbroken letters [])
    (hfollows : ∀ piece ∈ pieces.head?, Follows letters piece) :
    Cut (.word letters :: pieces) := by
  refine .word hne (hletters.append h hfollows) ?_ h
  cases pieces with
  | nil => rfl
  | cons piece rest =>
    cases piece with
    | blank c => rfl
    | symbol mark => rfl
    | word next => exact absurd (hfollows _ rfl) id

/-- The letters of a word in a cut are unbroken by themselves. -/
theorem Cut.unbroken_of_mem {letters : List Char} {pieces : List Piece} (h : Cut pieces)
    (hmem : .word letters ∈ pieces) : letters ≠ [] ∧ Unbroken letters [] := by
  induction h with
  | nil => cases hmem
  | blank _ _ ih =>
    rcases List.mem_cons.1 hmem with hhead | hmem
    · cases hhead
    · exact ih hmem
  | symbol mark _ ih =>
    rcases List.mem_cons.1 hmem with hhead | hmem
    · cases hhead
    · exact ih hmem
  | word hne hletters _ _ ih =>
    rcases List.mem_cons.1 hmem with hhead | hmem
    · cases hhead
      exact ⟨hne, hletters.alone⟩
    · exact ih hmem

end Sentential.Piece
