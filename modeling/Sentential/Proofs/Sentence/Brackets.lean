import Sentential.Proofs.RoundTrip
import Sentential.Proofs.Text.Words
import Sentential.Proofs.Token.Division
import Sentential.Proofs.Token.Rendering

/-!
# Unique reading of the bracketed text

The bracketed text of a sentence starts with a word up to the first space: an atom, or an
operation with its opening bracket. If the names of the sentence are read back, this word tells
which it is, since such names are no keywords and have neither blanks nor brackets in them.
So a text is the bracketed text of one such sentence at most.
-/

namespace Sentential

open Text

private theorem truthWord_inj {a b : Bool} (h : truthWord a = truthWord b) : a = b := by
  revert h
  cases a <;> cases b <;> decide

private theorem Connective.symbol_inj {a b : Connective} (h : a.symbol = b.symbol) : a = b := by
  revert h
  cases a <;> cases b <;> decide

/-! ### Names without blanks and brackets -/

/-- A name that is read back has no blank in it. -/
theorem IsName.not_mem_of_isBlank {name : String} (h : IsName name) {c : Char}
    (hc : isBlank c = true) : c ∉ name.toList := by
  intro hmem
  exact (Piece.unbroken_iff.1 h.unbroken).1 c hmem (isBlank_iff.1 hc)

private theorem IsName.not_mem_of_mark {name : String} (h : IsName name) (token : Token) {c : Char}
    (hmark : ([c], token) ∈ marks) : c ∉ name.toList := by
  intro hmem
  obtain ⟨p, hp, rfl⟩ := List.mem_iff_getElem.1 hmem
  apply (Piece.unbroken_iff.1 h.unbroken).2 p hp _ hmark
  rw [List.append_nil, List.drop_eq_getElem_cons hp]
  exact ⟨_, rfl⟩

private theorem IsName.ne_truthWord {name : String} (h : IsName name) (value : Bool) :
    name ≠ truthWord value := by
  rintro rfl
  apply h.not_mem_keywords
  cases value <;> decide

namespace Sentence

/-! ### The first word -/

-- The bracketed text up to the first space: the whole text of an atom, or else the operation with
-- its opening bracket.
private def opening : Sentence → List Char
  | .const value => (truthWord value).toList
  | .var name => name.toList
  | .neg _ => ['~', '(']
  | .binary op _ _ => op.symbol.toList ++ ['(']

-- The bracketed text from the first space on: nothing of an atom, or else the operands, each behind
-- a space, and the closing bracket.
private def closing : Sentence → List Char
  | .const _ | .var _ => []
  | .neg body => ' ' :: (body.bracketed.toList ++ [' ', ')'])
  | .binary _ lhs rhs =>
    ' ' :: (lhs.bracketed.toList ++ ' ' :: (rhs.bracketed.toList ++ [' ', ')']))

private theorem toList_bracketed (s : Sentence) : s.bracketed.toList = s.opening ++ s.closing := by
  cases s <;> simp [bracketed, opening, closing]

private theorem endsWord_closing {rest : List Char} (s : Sentence) (hrest : EndsWord rest) :
    EndsWord (s.closing ++ rest) := by
  cases s with
  | const value => exact hrest
  | var name => exact hrest
  | neg body => exact endsWord_space _
  | binary op lhs rhs => exact endsWord_space _

private theorem space_not_mem_opening {s : Sentence} (hs : ∀ name ∈ s.names, IsName name) :
    ' ' ∉ s.opening := by
  cases s with
  | const value => cases value <;> decide
  | var name => exact (hs name (List.mem_singleton_self name)).not_mem_of_isBlank (by decide)
  | neg body => simp [opening]
  | binary op lhs rhs => cases op <;> simp [opening, Connective.symbol]

private theorem bracket_not_mem_of_isAtom {s : Sentence} (hs : ∀ name ∈ s.names, IsName name)
    (hatom : s.isAtom = true) : '(' ∉ s.opening := by
  cases s with
  | const value => cases value <;> decide
  | var name =>
    exact (hs name (List.mem_singleton_self name)).not_mem_of_mark .lparen (by decide)
  | neg body => cases hatom
  | binary op lhs rhs => cases hatom

private theorem opening_and_closing_eq {a b : Sentence} {rest rest' : List Char}
    (ha : ∀ name ∈ a.names, IsName name) (hb : ∀ name ∈ b.names, IsName name)
    (hrest : EndsWord rest) (hrest' : EndsWord rest')
    (h : a.bracketed.toList ++ rest = b.bracketed.toList ++ rest') :
    a.opening = b.opening ∧ a.closing ++ rest = b.closing ++ rest' := by
  rw [toList_bracketed, toList_bracketed, List.append_assoc, List.append_assoc] at h
  exact append_inj_of_endsWord (space_not_mem_opening ha) (space_not_mem_opening hb)
    (a.endsWord_closing hrest) (b.endsWord_closing hrest') h

/-! ### The first word tells the operation -/

private theorem eq_const_of_opening {s : Sentence} (hs : ∀ name ∈ s.names, IsName name)
    {value : Bool} (h : s.opening = (truthWord value).toList) : s = .const value := by
  have noBracket : '(' ∉ s.opening := by
    rw [h]
    cases value <;> decide
  cases s with
  | const other => rw [truthWord_inj (String.toList_inj.1 h)]
  | var name =>
    have same : name = truthWord value := String.toList_inj.1 h
    exact absurd same ((hs name (List.mem_singleton_self name)).ne_truthWord value)
  | neg body => simp [opening] at noBracket
  | binary op lhs rhs => simp [opening] at noBracket

private theorem eq_var_of_opening {s : Sentence} {name : String} (hname : IsName name)
    (h : s.opening = name.toList) : s = .var name := by
  have noBracket : '(' ∉ s.opening := by
    rw [h]
    exact hname.not_mem_of_mark .lparen (by decide)
  cases s with
  | const value => exact absurd (String.toList_inj.1 h.symm) (hname.ne_truthWord value)
  | var other => rw [String.toList_inj.1 h]
  | neg body => simp [opening] at noBracket
  | binary op lhs rhs => simp [opening] at noBracket

private theorem exists_eq_neg_of_opening {s : Sentence} (hs : ∀ name ∈ s.names, IsName name)
    (h : s.opening = ['~', '(']) : ∃ body, s = .neg body := by
  have bracket : '(' ∈ s.opening := by simp [h]
  cases s with
  | const value => exact absurd bracket (bracket_not_mem_of_isAtom hs rfl)
  | var name => exact absurd bracket (bracket_not_mem_of_isAtom hs rfl)
  | neg body => exact ⟨body, rfl⟩
  | binary op lhs rhs => cases op <;> cases h

private theorem exists_eq_binary_of_opening {s : Sentence} (hs : ∀ name ∈ s.names, IsName name)
    {op : Connective} (h : s.opening = op.symbol.toList ++ ['(']) :
    ∃ lhs rhs, s = .binary op lhs rhs := by
  have bracket : '(' ∈ s.opening := by simp [h]
  cases s with
  | const value => exact absurd bracket (bracket_not_mem_of_isAtom hs rfl)
  | var name => exact absurd bracket (bracket_not_mem_of_isAtom hs rfl)
  | neg body => cases op <;> cases h
  | binary other lhs rhs =>
    have same : other = op :=
      Connective.symbol_inj (String.toList_inj.1 (List.append_cancel_right h))
    exact ⟨lhs, rhs, by rw [same]⟩

/-! ### The whole text -/

/-- The bracketed text of a sentence can be cut off from a longer text in one way only, where it
ends a word. -/
theorem bracketed_append_inj {a b : Sentence} {rest rest' : List Char}
    (ha : ∀ name ∈ a.names, IsName name) (hb : ∀ name ∈ b.names, IsName name)
    (hrest : EndsWord rest) (hrest' : EndsWord rest')
    (h : a.bracketed.toList ++ rest = b.bracketed.toList ++ rest') : a = b ∧ rest = rest' := by
  induction a generalizing b rest rest' with
  | const value =>
    obtain ⟨hopening, hclosing⟩ := opening_and_closing_eq ha hb hrest hrest' h
    obtain rfl := eq_const_of_opening hb hopening.symm
    exact ⟨rfl, hclosing⟩
  | var name =>
    obtain ⟨hopening, hclosing⟩ := opening_and_closing_eq ha hb hrest hrest' h
    obtain rfl := eq_var_of_opening (ha name (List.mem_singleton_self name)) hopening.symm
    exact ⟨rfl, hclosing⟩
  | neg body ih =>
    obtain ⟨hopening, hclosing⟩ := opening_and_closing_eq ha hb hrest hrest' h
    obtain ⟨body', rfl⟩ := exists_eq_neg_of_opening hb hopening.symm
    simp only [closing, List.cons_append, List.append_assoc, List.cons.injEq, true_and] at hclosing
    have hbody' : ∀ name ∈ body'.names, IsName name := hb
    obtain ⟨rfl, hbehind⟩ := ih ha hbody' (endsWord_space _) (endsWord_space _) hclosing
    simp only [List.cons.injEq, true_and, List.nil_append] at hbehind
    exact ⟨rfl, hbehind⟩
  | binary op lhs rhs ihl ihr =>
    obtain ⟨hopening, hclosing⟩ := opening_and_closing_eq ha hb hrest hrest' h
    obtain ⟨lhs', rhs', rfl⟩ := exists_eq_binary_of_opening hb hopening.symm
    obtain ⟨hlhs, hrhs⟩ := List.forall_mem_append.1 ha
    obtain ⟨hlhs', hrhs'⟩ := List.forall_mem_append.1 hb
    simp only [closing, List.cons_append, List.append_assoc, List.cons.injEq, true_and] at hclosing
    obtain ⟨rfl, hright⟩ := ihl hlhs hlhs' (endsWord_space _) (endsWord_space _) hclosing
    simp only [List.cons.injEq, true_and] at hright
    obtain ⟨rfl, hbehind⟩ := ihr hrhs hrhs' (endsWord_space _) (endsWord_space _) hright
    simp only [List.cons.injEq, true_and, List.nil_append] at hbehind
    exact ⟨rfl, hbehind⟩

private theorem eq_of_bracketed_eq {a b : Sentence} (ha : ∀ name ∈ a.names, IsName name)
    (hb : ∀ name ∈ b.names, IsName name) (h : a.bracketed = b.bracketed) : a = b := by
  exact (bracketed_append_inj ha hb endsWord_nil endsWord_nil (by rw [h])).1

/-- If each name of two sentences is lexed as its own variable, the sentences have the same
bracketed text only if they are equal. So sentences that were read from texts have the same
bracketed text exactly if they are equal. -/
theorem bracketed_eq_iff (a b : Sentence) :
    ((∀ name ∈ a.names, lex name = [.var name]) → (∀ name ∈ b.names, lex name = [.var name]) →
      a.bracketed = b.bracketed → a = b) ∧
    ∀ text text', read text = .ok a → read text' = .ok b →
      (a.bracketed = b.bracketed ↔ a = b) := by
  constructor
  · intro ha hb
    exact eq_of_bracketed_eq (fun name hname ↦ (lex_eq_var_iff name).1 (ha name hname))
      fun name hname ↦ (lex_eq_var_iff name).1 (hb name hname)
  · intro text text' ha hb
    constructor
    · exact eq_of_bracketed_eq (isName_of_parse_lex ha) (isName_of_parse_lex hb)
    · intro h
      rw [h]

/-- The texts `an or d` and `a or nd` are read as sentences with different bracketed texts. -/
theorem bracketed_eq_iff_of_shifted_letters :
    let a := Sentence.binary .or (.var "an") (.var "d")
    let b := Sentence.binary .or (.var "a") (.var "nd")
    read "an or d" = .ok a ∧ read "a or nd" = .ok b ∧
      (∀ name ∈ a.names, lex name = [.var name]) ∧ (∀ name ∈ b.names, lex name = [.var name]) ∧
      (a.bracketed = b.bracketed ↔ a = b) ∧ a.bracketed ≠ b.bracketed := by
  intro a b
  have tokens : lex "an or d" = [.var "an", .connective .or, .var "d"] := by decide +kernel
  have tokens' : lex "a or nd" = [.var "a", .connective .or, .var "nd"] := by decide +kernel
  have ha : read "an or d" = .ok a := by
    rw [read, tokens]
    rfl
  have hb : read "a or nd" = .ok b := by
    rw [read, tokens']
    rfl
  have names : ∀ name ∈ a.names, lex name = [.var name] := by decide +kernel
  have names' : ∀ name ∈ b.names, lex name = [.var name] := by decide +kernel
  refine ⟨ha, hb, names, names', (bracketed_eq_iff a b).2 _ _ ha hb, ?_⟩
  intro h
  have same : a = b := (bracketed_eq_iff a b).1 names names' h
  exact absurd same (by decide)

end Sentence

end Sentential
