import Mathlib.Data.List.Perm.Subperm
import Mathlib.Data.Multiset.Filter
import Mathlib.Tactic.Ring
import Sentential.Proofs.Semantics.SatisfyingModels
import Sentential.Proofs.Semantics.Entailment

/-!
# Counts over more names

The models over a list of names that has all variables of a sentence, in any order and with
other names among them, are counted as often for each satisfying model as there are ways to
fill the places of the other names. So counts of different sentences can be compared over
their variables together.
-/

namespace Sentential

namespace Enumeration

variable {names : List String} {p : Model → Bool}

private theorem countP_toList_cons (first : String)
    (hp : ∀ a b : Model, (∀ name ∈ names, a.get? name = b.get? name) → p a = p b) :
    (ofNames (first :: names)).toList.countP p = (ofNames names).toList.countP p * 2 := by
  have half (value : Bool) :
      ((rows names.length).map (value :: ·)).countP
          (fun row ↦ p (Model.ofList ((first :: names).zip row))) =
        (rows names.length).countP fun row ↦ p (Model.ofList (names.zip row)) := by
    rw [List.countP_map]
    apply List.countP_congr
    intro row hrow
    rw [Function.comp_apply, hp _ (Model.ofList (names.zip row))]
    intro name hname
    exact Model.get?_ofList_zip_cons first value (mem_rows.1 hrow) hname
  rw [toList_ofNames, toList_ofNames, List.countP_map, List.countP_map, List.length_cons, rows,
    List.countP_append]
  simp only [Function.comp_def]
  rw [half true, half false]
  omega

private theorem countP_toList_append (extra : List String)
    (hp : ∀ a b : Model, (∀ name ∈ names, a.get? name = b.get? name) → p a = p b) :
    (ofNames (extra ++ names)).toList.countP p =
      (ofNames names).toList.countP p * Nat.pow 2 extra.length := by
  induction extra with
  | nil => exact (Nat.mul_one _).symm
  | cons first extra ih =>
    have doubled : Nat.pow 2 (extra.length + 1) = Nat.pow 2 extra.length * 2 := rfl
    rw [List.cons_append, countP_toList_cons first, ih, List.length_cons, doubled, Nat.mul_assoc]
    intro a b h
    exact hp a b fun name hname ↦ h name (List.mem_append_right extra hname)

private theorem countP_toList_of_subset {wider : List String} (hnames : names.Nodup)
    (hwider : wider.Nodup) (hsubset : names ⊆ wider)
    (hp : ∀ a b : Model, (∀ name ∈ names, a.get? name = b.get? name) → p a = p b) :
    names.length ≤ wider.length ∧
      (ofNames wider).toList.countP p =
        (ofNames names).toList.countP p * Nat.pow 2 (wider.length - names.length) := by
  obtain ⟨reordered, hreordered, hsublist⟩ := hnames.subperm hsubset
  obtain ⟨extra, hextra⟩ := hsublist.exists_perm_append
  have h : wider.Perm (extra ++ names) :=
    hextra.trans ((hreordered.append_right extra).trans List.perm_append_comm)
  have hlength : wider.length = extra.length + names.length := by
    rw [h.length_eq, List.length_append]
  refine ⟨by omega, ?_⟩
  rw [(perm_toList_ofNames hwider h).countP_eq, countP_toList_append extra hp, hlength,
    Nat.add_sub_cancel]

end Enumeration

namespace Sentence

/-- Number of models over the names in which the sentence is true. -/
def satCountOver (s : Sentence) (names : List String) : Nat :=
  (Enumeration.ofNames names).toList.countP fun m ↦ s.eval m = .ok true

/-- The satisfying models are those over the variables of the sentence. -/
theorem satCount_eq_satCountOver (s : Sentence) : s.satCount = s.satCountOver s.vars := by
  rw [satCount_eq_length_allSat, allSat_eq, ← List.countP_eq_length_filter]
  apply List.countP_congr
  intro m hm
  rw [holds_iff_eval hm, decide_eq_true_iff]

private theorem satCountOver_eq {s : Sentence} {wider : List String} (hwider : wider.Nodup)
    (hsubset : s.vars ⊆ wider) :
    s.vars.length ≤ wider.length ∧
      s.satCountOver wider = s.satCount * Nat.pow 2 (wider.length - s.vars.length) := by
  rw [satCount_eq_satCountOver]
  apply Enumeration.countP_toList_of_subset s.nodup_vars hwider hsubset
  intro a b h
  rw [eval_congr fun name hname ↦ h name (mem_vars.2 hname)]

private theorem satCountOver_eq_countP {s : Sentence} {names : List String} (h : s.vars ⊆ names) :
    s.satCountOver names =
      (Enumeration.ofNames names).toList.countP fun m ↦ s.truth m.valuation := by
  apply List.countP_congr
  intro m hm
  have binds : m.Binds s := fun name hname ↦ Enumeration.isSome_get?_of_mem_toList hm name (h hname)
  rw [eval_of_binds binds, decide_eq_true_iff, Except.ok.injEq]

section Pair

variable {a b : Sentence} {names : List String}

/-- Sentences with the same truth values are true in as many models. -/
theorem satCountOver_congr (ha : a.vars ⊆ names) (hb : b.vars ⊆ names)
    (h : ∀ value, a.truth value = b.truth value) : a.satCountOver names = b.satCountOver names := by
  rw [satCountOver_eq_countP ha, satCountOver_eq_countP hb]
  simp only [h]

/-- A model of both parts counts for the conjunction and for the disjunction, a model of one part
for the disjunction alone. -/
theorem satCountOver_and_add_or (ha : a.vars ⊆ names) (hb : b.vars ⊆ names) :
    (binary .and a b).satCountOver names + (binary .or a b).satCountOver names =
      a.satCountOver names + b.satCountOver names := by
  have subset (op : Connective) : (binary op a b).vars ⊆ names := by
    intro name hname
    exact (mem_vars_binary.1 hname).elim (@ha name) (@hb name)
  have counted := congrArg Multiset.card
    (Multiset.filter_add_filter (fun m : Model ↦ a.truth m.valuation)
      (fun m ↦ b.truth m.valuation) (Enumeration.ofNames names).toList)
  simp only [Multiset.card_add, ← Multiset.countP_eq_card_filter, Multiset.coe_countP,
    Bool.decide_or, Bool.decide_and, Bool.decide_eq_true] at counted
  rw [satCountOver_eq_countP (subset .and), satCountOver_eq_countP (subset .or),
    satCountOver_eq_countP ha, satCountOver_eq_countP hb, counted, Nat.add_comm]
  rfl

/-- The counts of sentences with the same truth values agree once the places of the variables of
the other sentence are filled too. -/
theorem satCount_mul_pow_of_truth_eq (h : ∀ value, a.truth value = b.truth value) :
    a.satCount * Nat.pow 2 b.vars.length = b.satCount * Nat.pow 2 a.vars.length := by
  let union := (binary .and a b).vars
  have hunion : union.Nodup := nodup_vars _
  obtain ⟨lea, overa⟩ := satCountOver_eq hunion vars_subset_left
  obtain ⟨leb, overb⟩ := satCountOver_eq hunion vars_subset_right
  have same : a.satCountOver union = b.satCountOver union :=
    satCountOver_congr vars_subset_left vars_subset_right h
  have split {n : Nat} (hn : n ≤ union.length) :
      Nat.pow 2 (union.length - n) * Nat.pow 2 n = Nat.pow 2 union.length :=
    Nat.pow_sub_mul_pow 2 hn
  -- Over the variables of both, the two counts are equal, up to a factor that cancels.
  have positive : 0 < Nat.pow 2 union.length := Nat.pow_pos (by decide)
  apply Nat.eq_of_mul_eq_mul_right positive
  calc a.satCount * Nat.pow 2 b.vars.length * Nat.pow 2 union.length
      = a.satCount * Nat.pow 2 (union.length - a.vars.length) *
          (Nat.pow 2 a.vars.length * Nat.pow 2 b.vars.length) := by rw [← split lea]; ring
    _ = b.satCount * Nat.pow 2 (union.length - b.vars.length) *
          (Nat.pow 2 a.vars.length * Nat.pow 2 b.vars.length) := by rw [← overa, same, overb]
    _ = b.satCount * Nat.pow 2 a.vars.length * Nat.pow 2 union.length := by rw [← split leb]; ring

/-- The counts of a conjunction and of the disjunction of the same parts are those of the parts
over the variables of both. -/
theorem satCount_and_add_or (a b : Sentence) :
    (binary .and a b).satCount + (binary .or a b).satCount =
      a.satCountOver (binary .and a b).vars + b.satCountOver (binary .and a b).vars := by
  have disjunction := (binary .or a b).satCount_eq_satCountOver
  rw [satCount_eq_satCountOver (binary .and a b), disjunction]
  exact satCountOver_and_add_or vars_subset_left vars_subset_right

end Pair

/-- Let a sentence be evaluated in the models over any names without repeats that include its
variables. It is true in each satisfying model once for each way to fill the places of the other
names. So the counts of equivalent sentences agree when both are taken over the variables of
both, and the counts of a conjunction and a disjunction add up to those of the two parts, taken
over the same variables. -/
theorem satCount_over_names (a b : Sentence) :
    (∀ names : List String, names.Nodup → a.vars ⊆ names → a.vars.length ≤ names.length ∧
      (Enumeration.ofNames names).toList.countP (fun m ↦ a.eval m = .ok true) =
        a.satCount * Nat.pow 2 (names.length - a.vars.length)) ∧
    (a.equivalent b = true →
      a.satCount * Nat.pow 2 b.vars.length = b.satCount * Nat.pow 2 a.vars.length) ∧
    let together := (binary .and a b).vars.length
    (binary .and a b).satCount + (binary .or a b).satCount =
      a.satCount * Nat.pow 2 (together - a.vars.length) +
        b.satCount * Nat.pow 2 (together - b.vars.length) := by
  refine ⟨?_, ?_, ?_⟩
  · intro names hnames hsubset
    exact satCountOver_eq hnames hsubset
  · intro h
    exact satCount_mul_pow_of_truth_eq ((equivalent_iff_truth a b).1 h)
  · have hunion := (binary .and a b).nodup_vars
    obtain ⟨-, overa⟩ := satCountOver_eq hunion vars_subset_left
    obtain ⟨-, overb⟩ := satCountOver_eq hunion vars_subset_right
    intro together
    rw [satCount_and_add_or, overa, overb]

/-- A sentence in which one variable does not matter, over its variables in the other order and
one name more, and beside the variable that it is equivalent to. -/
theorem satCount_over_names_of_idle_variable :
    let a := binary .and (var "x") (binary .or (var "y") (neg (var "y")))
    let b := var "x"
    let names := ["z", "y", "x"]
    (names.Nodup ∧ a.vars ⊆ names ∧ a.vars.length ≤ names.length ∧
      (Enumeration.ofNames names).toList.countP (fun m ↦ a.eval m = .ok true) =
        a.satCount * Nat.pow 2 (names.length - a.vars.length)) ∧
    a.equivalent b = true ∧
      a.satCount * Nat.pow 2 b.vars.length = b.satCount * Nat.pow 2 a.vars.length := by
  intro a b names
  have nodup : names.Nodup := by decide
  have subset : a.vars ⊆ names := by decide
  have equivalent : a.equivalent b = true := by decide +kernel
  exact ⟨⟨nodup, subset, (satCount_over_names a b).1 names nodup subset⟩, equivalent,
    (satCount_over_names a b).2.1 equivalent⟩

end Sentence

end Sentential
