/-!
# Words and what ends them

A word without spaces is cut off from a longer text in one way only, if the text goes on with a
space behind it or is at its end there.
-/

namespace Sentential.Text

/-- The text is at its end or goes on with a space. -/
def EndsWord (text : List Char) : Prop := ∀ c ∈ text.head?, c = ' '

/-- The end of a text ends a word. -/
theorem endsWord_nil : EndsWord [] := by
  rintro c ⟨⟩

/-- A space ends a word. -/
theorem endsWord_space (text : List Char) : EndsWord (' ' :: text) := by
  rintro c ⟨⟩
  rfl

private theorem takeWhile_of_endsWord {word rest : List Char} (hword : ' ' ∉ word)
    (hrest : EndsWord rest) : (word ++ rest).takeWhile (· != ' ') = word := by
  have letters : ∀ c ∈ word, (c != ' ') = true := by
    intro c hc
    simp only [bne_iff_ne]
    rintro rfl
    exact hword hc
  rw [List.takeWhile_append_of_pos letters]
  cases rest with
  | nil => simp
  | cons c rest =>
    have space : c = ' ' := hrest c rfl
    simp [space]

/-- Words without spaces are told apart by what ends them. -/
theorem append_inj_of_endsWord {word word' rest rest' : List Char} (hword : ' ' ∉ word)
    (hword' : ' ' ∉ word') (hrest : EndsWord rest) (hrest' : EndsWord rest')
    (h : word ++ rest = word' ++ rest') : word = word' ∧ rest = rest' := by
  have first : word = word' := by
    rw [← takeWhile_of_endsWord hword hrest, h, takeWhile_of_endsWord hword' hrest']
  subst first
  exact ⟨rfl, List.append_cancel_left h⟩

end Sentential.Text
