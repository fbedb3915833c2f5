import Sentential.Sentence.Variables

/-!
# Names at the leaves

The names of the variable leaves of a sentence, from left to right with repeats. The
variables of a sentence are exactly these names. Other sentences can take the place of the
variable leaves.
-/

namespace Sentential.Sentence

/-- The names of the variable leaves from left to right, repeats included. -/
def names : Sentence → List String
  | .const _ => []
  | .var name => [name]
  | .neg body => body.names
  | .binary _ lhs rhs => lhs.names ++ rhs.names

/-- The sentence with each variable leaf replaced by the tree for its name. -/
def subst (tree : String → Sentence) : Sentence → Sentence
  | .const value => .const value
  | .var name => tree name
  | .neg body => .neg (body.subst tree)
  | .binary op lhs rhs => .binary op (lhs.subst tree) (rhs.subst tree)

/-- Collecting adds the names at the leaves and no others. -/
theorem mem_collectVars {s : Sentence} {names : List String} {name : String} :
    name ∈ s.collectVars names ↔ name ∈ names ∨ name ∈ s.names := by
  induction s generalizing names with
  | const value => simp [collectVars, Sentence.names]
  | var x =>
    simp only [collectVars, Sentence.names, List.mem_singleton]
    split
    · next present =>
      constructor
      · exact Or.inl
      · rintro (h | rfl)
        · exact h
        · exact present
    · rw [List.mem_append, List.mem_singleton]
  | neg body ih => exact ih
  | binary op lhs rhs ihl ihr =>
    rw [collectVars, ihr, ihl, Sentence.names, List.mem_append, or_assoc]

/-- The variables of a sentence are the names at its leaves. -/
theorem mem_vars {s : Sentence} {name : String} : name ∈ s.vars ↔ name ∈ s.names := by
  rw [vars, mem_collectVars]
  simp

private theorem collectVars_eq (s : Sentence) (names : List String) :
    s.collectVars names = names ++ s.vars.filter (· ∉ names) := by
  induction s generalizing names with
  | const value => exact (List.append_nil names).symm
  | var name =>
    by_cases h : name ∈ names
    · simp [collectVars, vars, h]
    · simp [collectVars, vars, h]
  | neg body ih => exact ih names
  | binary op lhs rhs ihl ihr =>
    have listed : (binary op lhs rhs).vars = lhs.vars ++ rhs.vars.filter (· ∉ lhs.vars) :=
      ihr lhs.vars
    rw [collectVars, ihr, ihl, listed, List.filter_append, List.append_assoc, List.filter_filter]
    -- A variable of `rhs` is new after `lhs` if it is new and not in `lhs`.
    congr 2
    apply List.filter_congr
    intro name _
    by_cases h : name ∈ names
    · simp [h]
    · simp [h]

/-- Collecting adds the names at the leaves that are not yet among the names, each where it occurs
first. -/
theorem collectVars_eq_append_eraseDups (s : Sentence) (names : List String) :
    s.collectVars names = names ++ (s.names.removeAll names).eraseDups := by
  induction s generalizing names with
  | const value => simp [collectVars, Sentence.names, List.removeAll]
  | var name =>
    by_cases h : name ∈ names
    · simp [collectVars, Sentence.names, List.removeAll, h]
    · simp [collectVars, Sentence.names, List.removeAll, h, List.eraseDups_cons]
  | neg body ih => exact ih names
  | binary op lhs rhs ihl ihr =>
    have later : rhs.names.removeAll (names ++ (lhs.names.removeAll names).eraseDups) =
        (rhs.names.removeAll names).removeAll (lhs.names.removeAll names) := by
      simp only [List.removeAll, List.filter_filter]
      apply List.filter_congr
      intro name _
      by_cases h : name ∈ names
      · simp [h]
      · simp [h]
    have both : (lhs.names ++ rhs.names).removeAll names =
        lhs.names.removeAll names ++ rhs.names.removeAll names := List.filter_append ..
    rw [collectVars, ihr, ihl, later, Sentence.names, both, List.eraseDups_append,
      List.append_assoc]

/-- The variables are the names at the leaves without those that occurred before. -/
theorem vars_eq_eraseDups (s : Sentence) : s.vars = s.names.eraseDups := by
  have all : s.names.removeAll [] = s.names := List.filter_eq_self.2 fun _ _ ↦ rfl
  rw [vars, collectVars_eq_append_eraseDups, all, List.nil_append]

/-- Every occurrence of a variable is a name at a leaf. -/
theorem length_names (s : Sentence) : s.names.length = s.occurrences := by
  induction s with
  | const value => rfl
  | var name => rfl
  | neg body ih => exact ih
  | binary op lhs rhs ihl ihr => rw [names, List.length_append, ihl, ihr, occurrences]

/-- The variables of a binary sentence are those of the left part and then those that the right
part adds. -/
theorem vars_binary (op : Connective) (lhs rhs : Sentence) :
    (binary op lhs rhs).vars = lhs.vars ++ rhs.vars.filter (· ∉ lhs.vars) :=
  rhs.collectVars_eq lhs.vars

section Binary

variable {op : Connective} {lhs rhs : Sentence} {name : String}

/-- The variables of a binary sentence are those of its two parts. -/
theorem mem_vars_binary : name ∈ (binary op lhs rhs).vars ↔ name ∈ lhs.vars ∨ name ∈ rhs.vars := by
  rw [mem_vars, mem_vars, mem_vars, names, List.mem_append]

/-- The variables of the left part are among those of both. -/
theorem vars_subset_left : lhs.vars ⊆ (binary op lhs rhs).vars :=
  fun _ h ↦ mem_vars_binary.2 (.inl h)

/-- The variables of the right part are among those of both. -/
theorem vars_subset_right : rhs.vars ⊆ (binary op lhs rhs).vars :=
  fun _ h ↦ mem_vars_binary.2 (.inr h)

end Binary

private theorem find?_collectVars (p : String → Bool) (s : Sentence) (names : List String) :
    (s.collectVars names).find? p = (names.find? p).or (s.names.find? p) := by
  induction s generalizing names with
  | const value => simp [collectVars, Sentence.names]
  | var name =>
    rw [collectVars, Sentence.names]
    by_cases h : name ∈ names
    · rw [if_pos h]
      cases hfind : names.find? p with
      | some found => rfl
      | none =>
        have absent : p name = false := by simpa using List.find?_eq_none.1 hfind name h
        simp [absent]
    · rw [if_neg h, List.find?_append]
  | neg body ih => exact ih names
  | binary op lhs rhs ihl ihr =>
    rw [collectVars, ihr, ihl, Sentence.names, List.find?_append, Option.or_assoc]

/-- The first variable with a property is the first such name at a leaf. -/
theorem find?_vars (p : String → Bool) (s : Sentence) : s.vars.find? p = s.names.find? p := by
  rw [vars, find?_collectVars]
  rfl

end Sentential.Sentence
