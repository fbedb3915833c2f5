import Sentential.Journal.Basic
import Sentential.Model.Enumeration
import Sentential.Semantics.Eval
import Sentential.Sentence.Variables

/-!
# Scans over the models of a sentence

A scan evaluates a sentence under one enumerated model after the other and stops
as soon as its answer is settled. Models after that are neither built nor reported.
-/

namespace Sentential.Sentence

/-- The enumeration of all models over the variables of the sentence. -/
def models (s : Sentence) : Enumeration := .ofNames s.vars

/-- Evaluates the sentence under an enumerated model and reports the value. -/
def observe (s : Sentence) (m : Model) : JournalM Bool := do
  let value := s.holds m
  JournalM.record (.evaluated m value)
  return value

/-- Evaluates the sentence under each model to come. `visit` takes each model with
the value of the sentence, and ends the scan or lets it go on. -/
def scan {α : Type} (s : Sentence) (visit : α → Model → Bool → ForInStep α) (acc : α)
    (e : Enumeration) : JournalM α :=
  match _h : e.next? with
  | none => return acc
  | some (m, rest) => do
    let value ← s.observe m
    match visit acc m value with
    | .done acc => return acc
    | .yield acc => s.scan visit acc rest
termination_by e.remaining
decreasing_by
  have := Enumeration.remaining_of_next? _h
  omega

/-- Observing a model reports the value that it returns, and nothing else. -/
theorem yields_observe (s : Sentence) (m : Model) :
    (s.observe m).Yields (s.holds m) [.evaluated m (s.holds m)] := fun _ ↦ rfl

variable {α : Type} {s : Sentence} {visit : α → Model → Bool → ForInStep α} {acc : α}
  {e rest : Enumeration} {m : Model}

/-- A scan without models to come returns at once. -/
theorem yields_scan_of_none (h : e.next? = none) : (s.scan visit acc e).Yields acc [] := by
  rw [scan]
  split
  · exact .pure acc
  · simp_all

/-- A scan that `visit` ends reports the model at hand and no other. -/
theorem yields_scan_of_done {result : α} (h : e.next? = some (m, rest))
    (hvisit : visit acc m (s.holds m) = .done result) :
    (s.scan visit acc e).Yields result [.evaluated m (s.holds m)] := by
  rw [scan]
  split
  · simp_all
  · next m' rest' h' =>
    obtain ⟨rfl, rfl⟩ : m = m' ∧ rest = rest' := by simpa using h.symm.trans h'
    change JournalM.Yields _ result ([.evaluated m (s.holds m)] ++ [])
    refine (yields_observe s m).bind ?_
    rw [hvisit]
    exact .pure result

/-- A scan that goes on reports the model at hand and then those of the rest. -/
theorem yields_scan_of_yield {next result : α} {es : List Event} (h : e.next? = some (m, rest))
    (hvisit : visit acc m (s.holds m) = .yield next)
    (hrest : (s.scan visit next rest).Yields result es) :
    (s.scan visit acc e).Yields result (.evaluated m (s.holds m) :: es) := by
  rw [scan]
  split
  · simp_all
  · next m' rest' h' =>
    obtain ⟨rfl, rfl⟩ : m = m' ∧ rest = rest' := by simpa using h.symm.trans h'
    change JournalM.Yields _ result ([.evaluated m (s.holds m)] ++ es)
    refine (yields_observe s m).bind ?_
    rw [hvisit]
    exact hrest

end Sentential.Sentence
