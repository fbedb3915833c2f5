import Mathlib.Data.List.Perm.Subperm
import Sentential.Proofs.Sentence.Names

/-!
# Order of discovery

Collecting the variables of a sentence appends to the names at hand those that a pre-order walk of
the tree meets for the first time, in the order in which it meets them (`listsNew_collectVars`).
`ListsNew` says so for any walk, and no two lists of names have it for one walk.
-/

namespace Sentential

/-! ### New names of a walk -/

/-- The names that are met on the walk and are not known, ordered by where the walk comes to them
first. -/
structure ListsNew (walk known new : List String) : Prop where
  mem : ∀ name, name ∈ new ↔ name ∈ walk ∧ name ∉ known
  ordered : new.Pairwise (walk.idxOf · < walk.idxOf ·)

namespace ListsNew

variable {walk known new : List String}

/-- A new name is listed once. -/
theorem nodup (h : ListsNew walk known new) : new.Nodup := by
  apply h.ordered.imp
  rintro a b hlt rfl
  exact Nat.lt_irrefl _ hlt

/-- The walk and the known names leave one list only. -/
theorem unique {other : List String} (h : ListsNew walk known new)
    (hother : ListsNew walk known other) : new = other := by
  apply List.Perm.eq_of_pairwise _ h.ordered hother.ordered
  · rw [List.perm_ext_iff_of_nodup h.nodup hother.nodup]
    intro name
    rw [h.mem, hother.mem]
  · intro a b _ _ hab hba
    exact absurd hba (Nat.lt_asymm hab)

private theorem nil (known : List String) : ListsNew [] known [] := ⟨by simp, .nil⟩

private theorem known_singleton {name : String} (h : name ∈ known) : ListsNew [name] known [] := by
  refine ⟨?_, .nil⟩
  intro other
  constructor
  · intro hmem
    cases hmem
  · rintro ⟨hmem, absent⟩
    cases List.mem_singleton.1 hmem
    exact absurd h absent

private theorem new_singleton {name : String} (h : name ∉ known) :
    ListsNew [name] known [name] := by
  refine ⟨?_, List.pairwise_singleton ..⟩
  intro other
  constructor
  · intro hmem
    cases List.mem_singleton.1 hmem
    exact ⟨hmem, h⟩
  · exact And.left

/-- On a second walk the new names of the first are known. -/
theorem append {walk' new' : List String} (h : ListsNew walk known new)
    (h' : ListsNew walk' (known ++ new) new') :
    ListsNew (walk ++ walk') known (new ++ new') := by
  have later {name : String} (hname : name ∈ new') : name ∉ walk := by
    intro hwalk
    obtain ⟨-, absent⟩ := (h'.mem name).1 hname
    rw [List.mem_append, not_or] at absent
    exact absent.2 ((h.mem name).2 ⟨hwalk, absent.1⟩)
  constructor
  · intro name
    rw [List.mem_append, List.mem_append, h.mem, h'.mem, List.mem_append, h.mem]
    by_cases hwalk : name ∈ walk
    · simp [hwalk]
    · simp [hwalk]
  · refine List.pairwise_append.2 ⟨?_, ?_, ?_⟩
    · refine h.ordered.imp_of_mem ?_
      intro a b ha hb hlt
      rw [List.idxOf_append_of_mem ((h.mem a).1 ha).1, List.idxOf_append_of_mem ((h.mem b).1 hb).1]
      exact hlt
    · refine h'.ordered.imp_of_mem ?_
      intro a b ha hb hlt
      rw [List.idxOf_append_of_notMem (later ha), List.idxOf_append_of_notMem (later hb)]
      exact Nat.add_lt_add_left hlt _
    · intro a ha b hb
      have hwalk := ((h.mem a).1 ha).1
      rw [List.idxOf_append_of_mem hwalk, List.idxOf_append_of_notMem (later hb)]
      exact Nat.lt_add_right _ (List.idxOf_lt_length_of_mem hwalk)

end ListsNew

namespace Sentence

/-! ### The walk -/

/-- The sentence and all its parts, each before its own parts and these from left to right. -/
def preorder : Sentence → List Sentence
  | .const value => [.const value]
  | .var name => [.var name]
  | .neg body => .neg body :: body.preorder
  | .binary op lhs rhs => .binary op lhs rhs :: (lhs.preorder ++ rhs.preorder)

/-- The walk comes to the sentence and then walks its immediate parts. -/
theorem preorder_eq (s : Sentence) : s.preorder = s :: s.children.flatMap preorder := by
  cases s <;> simp [preorder, children]

/-- The name of a variable. -/
def varName? : Sentence → Option String
  | .var name => some name
  | .const _ | .neg _ | .binary .. => none

private theorem filterMap_varName?_preorder (s : Sentence) :
    s.preorder.filterMap varName? = s.names := by
  induction s with
  | const value => rfl
  | var name => rfl
  | neg body ih => exact ih
  | binary op lhs rhs ihl ihr =>
    rw [preorder, List.filterMap_cons_none rfl, List.filterMap_append, ihl, ihr, names]

private theorem var_mem_preorder {s : Sentence} {name : String} :
    .var name ∈ s.preorder ↔ name ∈ s.names := by
  rw [← filterMap_varName?_preorder, List.mem_filterMap]
  constructor
  · intro h
    exact ⟨.var name, h, rfl⟩
  · rintro ⟨part, hpart, hname⟩
    cases part <;> cases hname
    exact hpart

/-! ### Collecting along the walk -/

/-- Collecting appends the names of the leaves that are new, where the walk comes to them first. -/
theorem listsNew_collectVars (s : Sentence) (known : List String) :
    ∃ new, s.collectVars known = known ++ new ∧ ListsNew s.names known new := by
  induction s generalizing known with
  | const value => exact ⟨[], (List.append_nil known).symm, .nil known⟩
  | var name =>
    rw [collectVars]
    by_cases h : name ∈ known
    · exact ⟨[], by rw [if_pos h, List.append_nil], .known_singleton h⟩
    · exact ⟨[name], if_neg h, .new_singleton h⟩
  | neg body ih => exact ih known
  | binary op lhs rhs ihl ihr =>
    -- The names at hand for the right part hold those that the left part added.
    obtain ⟨new, hleft, hnew⟩ := ihl known
    obtain ⟨new', hright, hnew'⟩ := ihr (known ++ new)
    refine ⟨new ++ new', ?_, hnew.append hnew'⟩
    rw [collectVars, hleft, hright, List.append_assoc]

private theorem nodup_collectVars_iff (s : Sentence) (known : List String) :
    (s.collectVars known).Nodup ↔ known.Nodup := by
  constructor
  · intro h
    exact h.sublist (s.prefix_collectVars known).sublist
  · exact s.nodup_collectVars

private theorem subperm_vars_names (s : Sentence) : s.vars.Subperm s.names :=
  s.nodup_vars.subperm fun _ h ↦ mem_vars.1 h

/-- Every occurrence is another variable exactly if no name is repeated. -/
theorem length_vars_eq_occurrences_iff (s : Sentence) :
    s.vars.length = s.occurrences ↔ s.names.Nodup := by
  rw [← s.length_names]
  constructor
  · intro h
    have perm := s.subperm_vars_names.perm_of_length_le (Nat.le_of_eq h.symm)
    exact perm.nodup_iff.1 s.nodup_vars
  · intro h
    have perm := (List.perm_ext_iff_of_nodup s.nodup_vars h).2 fun _ ↦ mem_vars
    exact perm.length_eq

/-- Collecting the variables of a sentence appends to any names at hand the names of the leaves
that are not among them, each once and in the order in which a pre-order walk comes to them, and
does nothing else. So the variables of a sentence are the names of its leaves without repeats, a
binary sentence lists those of its right part after those of its left one, and there are at most
as many variables as occurrences, with equality if no name is repeated. -/
theorem collectVars_eq_iff_listsNew (s : Sentence) :
    (∀ known names, s.collectVars known = names ↔
      ∃ new, names = known ++ new ∧ ListsNew (s.preorder.filterMap varName?) known new) ∧
    (∀ known, (s.collectVars known).Nodup ↔ known.Nodup) ∧
    s.vars.Nodup ∧
    (∀ name, name ∈ s.vars ↔ .var name ∈ s.preorder) ∧
    (∀ op other, (binary op s other).vars = s.vars ++ other.vars.filter (· ∉ s.vars)) ∧
    s.vars.length ≤ s.occurrences ∧
    (s.vars.length = s.occurrences ↔ (s.preorder.filterMap varName?).Nodup) := by
  rw [filterMap_varName?_preorder]
  refine ⟨?_, s.nodup_collectVars_iff, s.nodup_vars, ?_, ?_, ?_, s.length_vars_eq_occurrences_iff⟩
  · intro known names
    obtain ⟨new, hcollect, hnew⟩ := s.listsNew_collectVars known
    rw [hcollect]
    constructor
    · rintro rfl
      exact ⟨new, rfl, hnew⟩
    · rintro ⟨other, rfl, hother⟩
      rw [hnew.unique hother]
  · intro name
    rw [mem_vars, var_mem_preorder]
  · intro op other
    exact vars_binary op s other
  · rw [← s.length_names]
    exact s.subperm_vars_names.length_le

/-- `b` and `a` stand in the left part, `b` again and `c` in the right one. -/
example : (binary .or (.binary .and (.var "b") (.var "a"))
    (.binary .and (.var "b") (.neg (.var "c")))).vars = ["b", "a", "c"] := by decide

end Sentence

end Sentential
