import Sentential.Proofs.Model.Lexicographic
import Sentential.Proofs.Sentence.Brackets
import Sentential.Semantics.Scan

/-!
# Models told apart by their texts

The text of a model is cut at its spaces into one word for each binding. The end of a word is a
truth value behind `=`, whatever characters stand in the name before it. So names without spaces can
be read back with their values, and models over such names have the same text only if they are
equal.
-/

namespace Sentential

open Text

private theorem append_truthWord_inj {before before' : List Char} {a b : Bool}
    (h : before ++ (truthWord a).toList = before' ++ (truthWord b).toList) :
    before = before' ∧ a = b := by
  -- The words have different lengths, and four letters of each are compared.
  have differ (x y : List Char) : x ++ "true".toList ≠ y ++ "false".toList := by
    intro same
    have four : y ++ "false".toList = (y ++ ['f']) ++ "alse".toList := by simp
    have ends := (List.append_inj' (same.trans four) rfl).2
    exact absurd ends (by decide)
  cases a with
  | true =>
    cases b with
    | true => exact ⟨List.append_cancel_right h, rfl⟩
    | false => exact absurd h (differ before before')
  | false =>
    cases b with
    | true => exact absurd h.symm (differ before' before)
    | false => exact ⟨List.append_cancel_right h, rfl⟩

namespace Model

/-! ### The words of the text -/

-- The characters of a binding.
private def entry (binding : String × Bool) : List Char :=
  binding.1.toList ++ '=' :: (truthWord binding.2).toList

-- What stands behind a binding before the others: a comma, or the closing brace if it is the last
-- one.
private def closer : List (String × Bool) → Char
  | [] => '\x7d'
  | _ :: _ => ','

-- The characters of bindings up to the end of the text, each behind a space.
private def entries : List (String × Bool) → List Char
  | [] => []
  | binding :: rest => ' ' :: (entry binding ++ closer rest :: entries rest)

private theorem cons_toList_intercalate (binding : String × Bool) (rest : List (String × Bool)) :
    ' ' :: (", ".intercalate ((binding :: rest).map fun binding ↦
        binding.1 ++ "=" ++ truthWord binding.2) ++ "\x7d").toList = entries (binding :: rest) := by
  induction rest generalizing binding with
  | nil => simp [entries, entry, closer]
  | cons next rest ih =>
    rw [entries, closer, ← ih next]
    simp [entry]

private theorem toList_render {m : Model} {binding : String × Bool} {rest : List (String × Bool)}
    (h : m.bindings = binding :: rest) :
    ' ' :: m.render.toList.tail = entries (binding :: rest) := by
  rw [← cons_toList_intercalate, render, h]
  simp

private theorem render_of_nil {m : Model} (h : m.bindings = []) : m.render = "\x7b\x7d" := by
  rw [render, h]
  rfl

/-! ### Reading the words -/

private theorem entry_inj {a b : String × Bool} (h : entry a = entry b) : a = b := by
  have split (binding : String × Bool) :
      entry binding = (binding.1.toList ++ ['=']) ++ (truthWord binding.2).toList := by
    simp [entry]
  rw [split, split] at h
  obtain ⟨hname, hvalue⟩ := append_truthWord_inj h
  exact Prod.ext (String.toList_inj.1 (List.append_cancel_right hname)) hvalue

private theorem space_not_mem_entry {binding : String × Bool} (h : ' ' ∉ binding.1.toList)
    (rest : List (String × Bool)) : ' ' ∉ entry binding ++ [closer rest] := by
  have value : ' ' ∉ (truthWord binding.2).toList := by cases binding.2 <;> decide
  have ended : ' ' ≠ closer rest := by cases rest <;> simp [closer]
  simp [entry, h, value, ended]

private theorem endsWord_entries (bindings : List (String × Bool)) :
    EndsWord (entries bindings) := by
  cases bindings with
  | nil => exact endsWord_nil
  | cons binding rest => exact endsWord_space _

private theorem entries_inj {a b : List (String × Bool)}
    (ha : ∀ binding ∈ a, ' ' ∉ binding.1.toList)
    (hb : ∀ binding ∈ b, ' ' ∉ binding.1.toList) (h : entries a = entries b) : a = b := by
  induction a generalizing b with
  | nil =>
    cases b with
    | nil => rfl
    | cons binding rest => cases h
  | cons binding rest ih =>
    cases b with
    | nil => cases h
    | cons binding' rest' =>
      obtain ⟨hbinding, hrest⟩ := List.forall_mem_cons.1 ha
      obtain ⟨hbinding', hrest'⟩ := List.forall_mem_cons.1 hb
      have words : (entry binding ++ [closer rest]) ++ entries rest =
          (entry binding' ++ [closer rest']) ++ entries rest' := by
        simpa [entries] using h
      obtain ⟨hword, hbehind⟩ := append_inj_of_endsWord (space_not_mem_entry hbinding rest)
        (space_not_mem_entry hbinding' rest') (endsWord_entries rest) (endsWord_entries rest') words
      rw [entry_inj (List.append_inj_left' hword rfl), ih hrest hrest' hbehind]

private theorem render_ne_of_nil {a b : Model} (ha : a.bindings = []) (hb : b.bindings ≠ []) :
    a.render ≠ b.render := by
  intro h
  obtain ⟨binding, rest, hbindings⟩ := List.exists_cons_of_ne_nil hb
  have text := toList_render hbindings
  rw [← h, render_of_nil ha] at text
  have sign : '=' ∈ entries (binding :: rest) := by simp [entries, entry]
  rw [← text] at sign
  exact absurd sign (by decide)

/-- Models whose names have no spaces are equal if their texts are. -/
theorem eq_of_render_eq {a b : Model} (ha : ∀ name, (a.get? name).isSome = true → ' ' ∉ name.toList)
    (hb : ∀ name, (b.get? name).isSome = true → ' ' ∉ name.toList) (h : a.render = b.render) :
    a = b := by
  have spaceless {m : Model} (hm : ∀ name, (m.get? name).isSome = true → ' ' ∉ name.toList) :
      ∀ binding ∈ m.bindings, ' ' ∉ binding.1.toList := fun binding hbinding ↦
    hm binding.1 (mem_map_fst_bindings_iff.1 (List.mem_map_of_mem hbinding))
  apply ext_bindings
  cases hbindings : a.bindings with
  | nil =>
    cases hbindings' : b.bindings with
    | nil => rfl
    | cons binding rest => exact absurd h (render_ne_of_nil hbindings (by simp [hbindings']))
  | cons binding rest =>
    cases hbindings' : b.bindings with
    | nil => exact absurd h.symm (render_ne_of_nil hbindings' (by simp [hbindings]))
    | cons binding' rest' =>
      rw [← hbindings, ← hbindings']
      apply entries_inj (spaceless ha) (spaceless hb)
      rw [hbindings, hbindings', ← toList_render hbindings, ← toList_render hbindings', h]

private theorem space_not_mem_of_mem_models {text name : String} {s : Sentence} {m : Model}
    (hs : read text = .ok s) (hm : m ∈ s.models.toList) (hname : (m.get? name).isSome = true) :
    ' ' ∉ name.toList := by
  have listed : name ∈ s.vars := (Enumeration.bindsExactly_of_mem_toList hm name).1 hname
  exact (isName_of_parse_lex hs name (Sentence.mem_vars.1 listed)).not_mem_of_isBlank (by decide)

/-- Models over names without spaces, with any other characters in them, have the same text exactly
if they are equal. So it is with the models of sentences that were read from texts. -/
theorem render_eq_iff (a b : Model) :
    ((∀ name, (a.get? name).isSome = true → ' ' ∉ name.toList) →
      (∀ name, (b.get? name).isSome = true → ' ' ∉ name.toList) →
      (a.render = b.render ↔ a = b)) ∧
    ∀ text text' s s', read text = .ok s → read text' = .ok s' →
      a ∈ s.models.toList → b ∈ s'.models.toList → (a.render = b.render ↔ a = b) := by
  constructor
  · intro ha hb
    refine ⟨eq_of_render_eq ha hb, ?_⟩
    rintro rfl
    rfl
  · intro text text' s s' hs hs' ha hb
    refine ⟨eq_of_render_eq (fun name ↦ space_not_mem_of_mem_models hs ha)
      (fun name ↦ space_not_mem_of_mem_models hs' hb), ?_⟩
    rintro rfl
    rfl

/-- The first models of `a=true,b` and of `a and b` have texts that differ in a space only. -/
theorem render_eq_iff_of_sign_in_name :
    let s : Sentence := .var "a=true,b"
    let s' : Sentence := .binary .and (.var "a") (.var "b")
    let a := ofList [("a=true,b", true)]
    let b := ofList [("a", true), ("b", true)]
    read "a=true,b" = .ok s ∧ read "a and b" = .ok s' ∧
      a ∈ s.models.toList ∧ b ∈ s'.models.toList ∧
      (∀ name, (a.get? name).isSome = true → ' ' ∉ name.toList) ∧
      (∀ name, (b.get? name).isSome = true → ' ' ∉ name.toList) ∧
      (a.render = b.render ↔ a = b) ∧ a.render ≠ b.render := by
  intro s s' a b
  have tokens : lex "a=true,b" = [.var "a=true,b"] := by decide +kernel
  have tokens' : lex "a and b" = [.var "a", .connective .and, .var "b"] := by decide +kernel
  have hs : read "a=true,b" = .ok s := by
    rw [read, tokens]
    rfl
  have hs' : read "a and b" = .ok s' := by
    rw [read, tokens']
    rfl
  have listed : a ∈ s.models.toList := by decide +kernel
  have listed' : b ∈ s'.models.toList := by decide +kernel
  have names : ∀ name, (a.get? name).isSome = true → ' ' ∉ name.toList :=
    fun _ ↦ space_not_mem_of_mem_models hs listed
  have names' : ∀ name, (b.get? name).isSome = true → ' ' ∉ name.toList :=
    fun _ ↦ space_not_mem_of_mem_models hs' listed'
  refine ⟨hs, hs', listed, listed', names, names',
    (render_eq_iff a b).2 _ _ _ _ hs hs' listed listed', ?_⟩
  intro h
  have same : a = b := ((render_eq_iff a b).1 names names').1 h
  exact absurd same (by decide +kernel)

end Model

end Sentential
