import Sentential.Proofs.Token.Cut

/-!
# Names that are read back

A name is read back if its text is lexed as the variable of that name. These are the
unbroken words other than the keywords, and lexing gives variables no other names.
-/

namespace Sentential

/-- The name is an unbroken word and no keyword. -/
structure IsName (name : String) : Prop where
  nonempty : name.toList ≠ []
  unbroken : Piece.Unbroken name.toList []
  notKeyword : Token.ofWord name = .var name

private theorem Token.eq_of_ofWord_eq_var {word name : String} (h : ofWord word = .var name) :
    word = name := by
  unfold ofWord at h
  split at h
  · cases h
  split at h
  · cases h
  split at h
  · cases h
  split at h
  · cases h
  · exact Token.var.inj h

/-- Pieces that form a cut are lexed one by one. -/
theorem lex_of_cut {text : String} {pieces : List Piece} (h : Piece.Cut pieces)
    (htext : pieces.flatMap Piece.chars = text.toList) :
    lex text = pieces.filterMap Token.ofPiece? := by
  rw [lex, ← htext, Piece.ofText_flatMap_chars h]

/-- The names of lexed variables are names that are read back. -/
theorem isName_of_mem_lex {text name : String} (h : .var name ∈ lex text) : IsName name := by
  rw [lex, List.mem_filterMap] at h
  obtain ⟨piece, hpiece, htoken⟩ := h
  cases piece with
  | blank c => cases htoken
  | symbol mark =>
    cases mark <;> cases htoken
  | word letters =>
    have hword : Token.ofWord (String.ofList letters) = .var name := Option.some.inj htoken
    have hname := Token.eq_of_ofWord_eq_var hword
    obtain ⟨hne, hunbroken⟩ := (Piece.cut_ofText text.toList).unbroken_of_mem hpiece
    have hletters : name.toList = letters := by rw [← hname, String.toList_ofList]
    exact ⟨hletters ▸ hne, hletters ▸ hunbroken, hname ▸ hword⟩

/-- A name is lexed as its variable exactly if it is an unbroken word and no keyword. -/
theorem lex_eq_var_iff (name : String) : lex name = [.var name] ↔ IsName name := by
  constructor
  · intro h
    have lexed : .var name ∈ lex name := by
      rw [h]
      exact List.mem_singleton_self _
    exact isName_of_mem_lex lexed
  · intro h
    have cut := Piece.Cut.nil.cons_word h.nonempty h.unbroken (by rintro piece ⟨⟩)
    have covered : [Piece.word name.toList].flatMap Piece.chars = name.toList := by
      simp [Piece.chars]
    rw [lex_of_cut cut covered]
    simp [String.ofList_toList, h.notKeyword]

end Sentential
