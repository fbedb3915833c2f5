import Sentential.Sentence.Basic

/-!
# Variables of a sentence

Occurrences of variables, and the distinct variables of a sentence in the order
in which a left-to-right walk meets them first.
-/

namespace Sentential.Sentence

/-- Number of variable occurrences, repeats counted. -/
def occurrences : Sentence → Nat
  | .const _ => 0
  | .var _ => 1
  | .neg body => body.occurrences
  | .binary _ lhs rhs => lhs.occurrences + rhs.occurrences

/-- The given names, extended at the end by each variable that is not yet among
them, as a left-to-right walk meets it. -/
def collectVars : Sentence → List String → List String
  | .const _, names => names
  | .var name, names => if name ∈ names then names else names ++ [name]
  | .neg body, names => body.collectVars names
  | .binary _ lhs rhs, names => rhs.collectVars (lhs.collectVars names)

/-- The distinct variables of the sentence in order of first occurrence. -/
def vars (s : Sentence) : List String := s.collectVars []

/-- Collecting only ever appends to the names at hand. -/
theorem prefix_collectVars (s : Sentence) (names : List String) :
    names <+: s.collectVars names := by
  induction s generalizing names with
  | const => exact List.prefix_rfl
  | var name =>
    simp only [collectVars]
    split
    · exact List.prefix_rfl
    · exact List.prefix_append names [name]
  | neg _ ih => exact ih names
  | binary _ _ _ ihl ihr => exact (ihl names).trans (ihr _)

/-- Collecting never repeats a name. -/
theorem nodup_collectVars (s : Sentence) {names : List String} (h : names.Nodup) :
    (s.collectVars names).Nodup := by
  induction s generalizing names with
  | const => exact h
  | var name =>
    simp only [collectVars]
    split
    · exact h
    · next absent => exact List.nodup_append.2 ⟨h, by simp, by rintro a ha b hb rfl; simp_all⟩
  | neg _ ih => exact ih h
  | binary _ _ _ ihl ihr => exact ihr (ihl h)

/-- The variables of a sentence are listed without repeats. -/
theorem nodup_vars (s : Sentence) : s.vars.Nodup :=
  s.nodup_collectVars .nil

end Sentential.Sentence
