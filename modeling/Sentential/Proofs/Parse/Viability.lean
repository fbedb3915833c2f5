import Sentential.Proofs.Parse.Acceptance

/-!
# Beginnings that can be continued

A list of tokens can be continued to a sentence exactly if the reader gets through it
(`viable_iff_run`): from every position some tokens lead to the end of a sentence. The
position after a viable list shows how many groups the list leaves open and which kind of
token ends it.
-/

namespace Sentential.Parse

namespace Position

private theorem run_replicate_rparen (outer : List Slot) (slot : Slot) (completion : Completion)
    (s : Sentence) : ∃ slot' completion' s',
      (complete outer slot completion s).run (List.replicate outer.length .rparen) =
        .ok (complete [] slot' completion' s') := by
  induction outer generalizing slot completion s with
  | nil => exact ⟨slot, completion, s, rfl⟩
  | cons place outer ih =>
    obtain ⟨slot', completion', s', hrun⟩ := ih place .group (slot.fill s)
    exact ⟨slot', completion', s', hrun⟩

private theorem exists_finish (p : Position) :
    ∃ rest s, (p.run rest).bind finish = .ok s := by
  cases p with
  | awaiting outer slot =>
    obtain ⟨slot', completion', s', hrun⟩ :=
      run_replicate_rparen outer slot .const (.const true)
    refine ⟨.const true :: List.replicate outer.length .rparen, slot'.fill s', ?_⟩
    rw [run_cons]
    change (run _ _).bind finish = _
    rw [hrun]
    rfl
  | complete outer slot completion s =>
    obtain ⟨slot', completion', s', hrun⟩ := run_replicate_rparen outer slot completion s
    refine ⟨List.replicate outer.length .rparen, slot'.fill s', ?_⟩
    rw [hrun]
    rfl

/-- A step leaves its token before the position. -/
theorem previous?_of_step {p p' : Position} {token : Token} (h : p.step token = .ok p') :
    p'.previous? = some token.kind := by
  cases takes_of_step h <;> rfl

/-- The position after some tokens knows the kind of the last one. -/
theorem previous?_of_run {p : Position} {tokens : List Token}
    (h : start.run tokens = .ok p) : p.previous? = tokens.getLast?.map Token.kind := by
  rcases List.eq_nil_or_concat tokens with rfl | ⟨ts, token, rfl⟩
  · cases h
    rfl
  · rw [List.concat_eq_append] at h ⊢
    rw [run_concat, bind_eq_ok_iff] at h
    rw [List.getLast?_concat, Option.map_some]
    obtain ⟨before, -, hstep⟩ := h
    exact previous?_of_step hstep

end Position

/-! ### Open groups -/

private theorem Slot.Reads.count_parens {slot : Slot} {ts : List Token} (h : slot.Reads ts) :
    ts.count .lparen = ts.count .rparen := by
  induction h with
  | fresh => rfl
  | link op hlhs =>
    rw [List.count_append, List.count_append, hlhs.count_parens]
    rfl
  | neg _ ih =>
    rw [List.count_append, List.count_append, ih]
    rfl

private theorem OuterReads.count_parens {outer : List Slot} {us : List Token}
    (h : OuterReads outer us) : us.count .lparen = us.count .rparen + outer.length := by
  induction h with
  | nil => rfl
  | @cons outer slot us ts _ hslot ih =>
    have opened : [Token.lparen].count .lparen = 1 := rfl
    have closed : [Token.lparen].count .rparen = 0 := rfl
    simp only [List.count_append, List.length_cons, opened, closed]
    rw [ih, hslot.count_parens]
    omega

namespace Position

private theorem Reads.count_parens {p : Position} {ts : List Token} (h : p.Reads ts) :
    ts.count .lparen = ts.count .rparen + p.outer.length := by
  cases h with
  | awaiting houter hslot =>
    rw [List.count_append, List.count_append, houter.count_parens, hslot.count_parens]
    simp only [outer]
    omega
  | complete completion houter hslot hs =>
    simp only [List.count_append]
    rw [houter.count_parens, hslot.count_parens, hs.count_parens]
    simp only [outer]
    omega

/-- Each open parenthesis of the tokens is a group of the position. -/
theorem openGroups_of_run {p : Position} {tokens : List Token}
    (h : start.run tokens = .ok p) : openGroups tokens = p.outer.length := by
  have count := (reads_start.run h).count_parens
  rw [List.nil_append] at count
  rw [openGroups, count]
  omega

/-- No parenthesis is open exactly if the position is in no group. -/
theorem openGroups_eq_zero_iff {p : Position} {tokens : List Token}
    (h : start.run tokens = .ok p) : openGroups tokens = 0 ↔ p.outer = [] := by
  rw [openGroups_of_run h, List.length_eq_zero_iff]

/-- In a group a parenthesis is open. -/
theorem openGroups_ne_zero {p : Position} {tokens : List Token} {place : Slot}
    {outer : List Slot} (h : start.run tokens = .ok p) (hp : p.outer = place :: outer) :
    openGroups tokens ≠ 0 := by
  rw [Ne, openGroups_eq_zero_iff h, hp]
  exact List.cons_ne_nil place outer

end Position

/-! ### Viable beginnings -/

/-- A list of tokens can be continued to a sentence exactly if each of its tokens can be
taken. -/
theorem viable_iff_run (tokens : List Token) :
    Viable tokens ↔ ∃ p, Position.start.run tokens = .ok p := by
  constructor
  · rintro ⟨rest, s, hs⟩
    have accepted := parse_of_derives hs
    rw [parse_eq_run, Position.run_append, bind_eq_ok_iff] at accepted
    obtain ⟨p', hboth, -⟩ := accepted
    obtain ⟨p, hrun, -⟩ := bind_eq_ok_iff.1 hboth
    exact ⟨p, hrun⟩
  · rintro ⟨p, hrun⟩
    obtain ⟨rest, s, hfinish⟩ := p.exists_finish
    refine ⟨rest, s, derives_of_parse ?_⟩
    rw [parse_eq_run, Position.run_append, hrun]
    exact hfinish

/-- A token is misplaced exactly if it is the first one that cannot be taken. -/
theorem misplaced_iff_step (beginning : List Token) (token : Token) :
    Misplaced beginning token ↔
      ∃ p e, Position.start.run beginning = .ok p ∧ p.step token = .error e := by
  have after (p : Position) (hrun : Position.start.run beginning = .ok p) :
      Viable (beginning ++ [token]) ↔ ∃ p', p.step token = .ok p' := by
    rw [viable_iff_run, Position.run_concat, hrun]
    rfl
  constructor
  · rintro ⟨viable, notViable⟩
    obtain ⟨p, hrun⟩ := (viable_iff_run beginning).1 viable
    cases hstep : p.step token with
    | error e => exact ⟨p, e, hrun, hstep⟩
    | ok p' => exact absurd ((after p hrun).2 ⟨p', hstep⟩) notViable
  · rintro ⟨p, e, hrun, hstep⟩
    refine ⟨(viable_iff_run beginning).2 ⟨p, hrun⟩, ?_⟩
    rw [after p hrun, hstep]
    rintro ⟨p', hp'⟩
    cases hp'

end Sentential.Parse
