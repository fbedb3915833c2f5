import Sentential.Proofs.Parse.Viability

/-!
# Which fault is reported

A list of tokens that is no sentence has one fault. If no continuation makes its beginning
a sentence, the fault is that of the first misplaced token, and `faultAt` reads it off that
token, the one before it and the groups open between them. Otherwise the list ends too
early, and `faultAtEnd` names what it lacks.
-/

namespace Sentential.Parse

/-- The fault of a token that is misplaced after the beginning. -/
def faultAt (beginning : List Token) : Token → Option ParseError
  | .lparen => some (.unexpectedToken .lparen)
  | .const value => some (.unexpectedToken (.const value))
  | .var name => some (.unexpectedToken (.var name))
  | .neg =>
    if beginning.getLast? = some .neg then some .doubleNegation
    else some (.unexpectedToken .neg)
  | .connective op => some (.missingOperand (.connective op))
  | .rparen =>
    if openGroups beginning = 0 then
      some .unmatchedParen
    else
      match beginning.getLast? with
      | some .lparen => some .emptyGroup
      | some (.connective op) => some (.missingOperand (.connective op))
      | some .neg => some .danglingNegation
      | _ => none

/-- What tokens lack that end before the sentence does. -/
def faultAtEnd (tokens : List Token) : Option ParseError :=
  if openGroups tokens = 0 then
    match tokens.getLast? with
    | some .neg => some .danglingNegation
    | some (.connective op) => some (.missingOperand (.connective op))
    | none => some .emptySentence
    | _ => none
  else
    some .unclosedParen

private theorem getLast?_of_previous? {p : Position} {tokens : List Token} (token : Token)
    (hrun : Position.start.run tokens = .ok p) (hp : p.previous? = some token.kind)
    (mark : token.kind ≠ .const ∧ token.kind ≠ .var) : tokens.getLast? = some token := by
  rw [Position.previous?_of_run hrun, Option.map_eq_some_iff] at hp
  obtain ⟨last, hlast, hkind⟩ := hp
  rw [hlast]
  cases token <;> cases last <;> simp_all [Token.kind]

private theorem getLast?_of_complete {outer : List Slot} {slot : Slot} {completion : Completion}
    {s : Sentence} {tokens : List Token}
    (hrun : Position.start.run tokens = .ok (.complete outer slot completion s)) :
    ∃ last, tokens.getLast? = some last ∧ last.kind = completion.kind := by
  have previous := Position.previous?_of_run hrun
  exact Option.map_eq_some_iff.1 previous.symm

private theorem faultAt_of_step {p : Position} {tokens : List Token} {token : Token}
    {e : ParseError} (hrun : Position.start.run tokens = .ok p) (hstep : p.step token = .error e) :
    faultAt tokens token = some e := by
  have atTop := (Position.openGroups_eq_zero_iff hrun).2
  cases p with
  | awaiting outer slot =>
    cases token with
    | lparen => cases hstep
    | const value => cases hstep
    | var name => cases hstep
    | connective op => cases hstep; rfl
    | neg =>
      rcases slot with ⟨before?, _ | _⟩
      · cases hstep
      · cases hstep
        have last := getLast?_of_previous? .neg hrun rfl (by decide)
        rw [faultAt, if_pos last]
    | rparen =>
      cases outer with
      | nil =>
        cases hstep
        rw [faultAt, if_pos (atTop rfl)]
      | cons place outer =>
        have inGroup := Position.openGroups_ne_zero hrun rfl
        rw [faultAt, if_neg inGroup]
        rcases slot with ⟨_ | ⟨lhs, op⟩, _ | _⟩ <;> cases hstep
        · rw [getLast?_of_previous? .lparen hrun rfl (by decide)]
        · rw [getLast?_of_previous? .neg hrun rfl (by decide)]
        · rw [getLast?_of_previous? (.connective op) hrun rfl (by simp [Token.kind])]
        · rw [getLast?_of_previous? .neg hrun rfl (by decide)]
  | complete outer slot completion s =>
    cases token with
    | connective op => cases outer <;> cases hstep
    | lparen => cases outer <;> cases hstep <;> rfl
    | const value => cases outer <;> cases hstep <;> rfl
    | var name => cases outer <;> cases hstep <;> rfl
    | neg =>
      obtain ⟨last, hlast, hkind⟩ := getLast?_of_complete hrun
      have notNeg : tokens.getLast? ≠ some .neg := by
        rw [hlast]
        rintro ⟨⟩
        cases completion <;> cases hkind
      rw [faultAt, if_neg notNeg]
      cases outer <;> cases hstep <;> rfl
    | rparen =>
      cases outer with
      | nil =>
        cases hstep
        rw [faultAt, if_pos (atTop rfl)]
      | cons place outer => cases hstep

/-- What the tokens lack is what the sentence lacks that ends after them. -/
theorem finish_eq_error_iff {p : Position} {tokens : List Token} {e : ParseError}
    (hrun : Position.start.run tokens = .ok p) :
    p.finish = .error e ↔ faultAtEnd tokens = some e := by
  have atTop := (Position.openGroups_eq_zero_iff hrun).2
  cases p with
  | awaiting outer slot =>
    cases outer with
    | nil =>
      rw [faultAtEnd, if_pos (atTop rfl)]
      rcases slot with ⟨_ | ⟨lhs, op⟩, _ | _⟩
      · have previous := Position.previous?_of_run hrun
        have last : tokens.getLast? = none := Option.map_eq_none_iff.1 previous.symm
        simp [last, Position.finish]
      · have last := getLast?_of_previous? .neg hrun rfl (by decide)
        simp [last, Position.finish]
      · have last := getLast?_of_previous? (.connective op) hrun rfl
          (by simp [Token.kind])
        simp [last, Position.finish]
      · have last := getLast?_of_previous? .neg hrun rfl (by decide)
        simp [last, Position.finish]
    | cons place outer =>
      have inGroup := Position.openGroups_ne_zero hrun rfl
      simp [faultAtEnd, inGroup, Position.finish]
  | complete outer slot completion s =>
    cases outer with
    | nil =>
      obtain ⟨last, hlast, hkind⟩ := getLast?_of_complete hrun
      rw [faultAtEnd, if_pos (atTop rfl), hlast]
      cases completion <;> cases last <;> simp_all [Position.finish, Token.kind, Completion.kind]
    | cons place outer =>
      have inGroup := Position.openGroups_ne_zero hrun rfl
      simp [faultAtEnd, inGroup, Position.finish]

/-- A run that fails stops at its first token that cannot be taken. -/
theorem exists_step_of_run_eq_error {p : Position} {tokens : List Token} {e : ParseError}
    (h : p.run tokens = .error e) : ∃ beginning token rest p',
      tokens = beginning ++ token :: rest ∧ p.run beginning = .ok p' ∧
        p'.step token = .error e := by
  induction tokens generalizing p with
  | nil => cases h
  | cons token rest ih =>
    rw [Position.run_cons] at h
    cases hstep : p.step token with
    | error e' =>
      rw [hstep] at h
      cases h
      exact ⟨[], token, rest, p, rfl, rfl, hstep⟩
    | ok next =>
      rw [hstep] at h
      obtain ⟨beginning, fault, rest', p', hsplit, hrun, hfault⟩ := ih h
      refine ⟨token :: beginning, fault, rest', p', by rw [hsplit]; rfl, ?_, hfault⟩
      rw [Position.run_cons, hstep]
      exact hrun

/-- The parser stops at a misplaced token, whatever follows it. -/
theorem parse_of_misplaced {beginning : List Token} {token : Token}
    (h : Misplaced beginning token) (rest : List Token) :
    ∃ e, parse (beginning ++ token :: rest) = .error e ∧ faultAt beginning token = some e := by
  obtain ⟨p, e, hrun, hstep⟩ := (misplaced_iff_step beginning token).1 h
  refine ⟨e, ?_, faultAt_of_step hrun hstep⟩
  rw [parse_eq_run, Position.run_append, hrun]
  change ((p.run (token :: rest)).bind Position.finish) = _
  rw [Position.run_cons, hstep]
  rfl

/-- The parser rejects a list with an error exactly if that is the fault of the list's first
misplaced token, or the list can be continued and that is what it lacks at its end. What
follows the misplaced token makes no difference. -/
theorem parse_eq_error_iff_fault (tokens : List Token) (e : ParseError) :
    (parse tokens = .error e ↔
      (∃ beginning token rest, tokens = beginning ++ token :: rest ∧
        Misplaced beginning token ∧ faultAt beginning token = some e) ∨
      (Viable tokens ∧ faultAtEnd tokens = some e)) ∧
    ∀ beginning token rest rest', Misplaced beginning token →
      parse (beginning ++ token :: rest) = parse (beginning ++ token :: rest') := by
  refine ⟨⟨?_, ?_⟩, ?_⟩
  · intro h
    cases hrun : Position.start.run tokens with
    | error e' =>
      left
      obtain ⟨beginning, token, rest, p, hsplit, hp, hstep⟩ := exists_step_of_run_eq_error hrun
      have misplaced := (misplaced_iff_step beginning token).2 ⟨p, e', hp, hstep⟩
      have same : e' = e := by
        rw [parse_eq_run, hrun] at h
        exact Except.error.inj h
      exact ⟨beginning, token, rest, hsplit, misplaced, same ▸ faultAt_of_step hp hstep⟩
    | ok p =>
      right
      rw [parse_eq_run, hrun] at h
      exact ⟨(viable_iff_run tokens).2 ⟨p, hrun⟩, (finish_eq_error_iff hrun).1 h⟩
  · rintro (⟨beginning, token, rest, rfl, misplaced, hfault⟩ | ⟨viable, hfault⟩)
    · obtain ⟨e', hparse, hfault'⟩ := parse_of_misplaced misplaced rest
      have same : e = e' := Option.some.inj (hfault.symm.trans hfault')
      rw [same, hparse]
    · obtain ⟨p, hrun⟩ := (viable_iff_run tokens).1 viable
      rw [parse_eq_run, hrun]
      exact (finish_eq_error_iff hrun).2 hfault
  · intro beginning token rest rest' misplaced
    obtain ⟨e₁, hparse₁, hfault₁⟩ := parse_of_misplaced misplaced rest
    obtain ⟨e₂, hparse₂, hfault₂⟩ := parse_of_misplaced misplaced rest'
    have same : e₁ = e₂ := Option.some.inj (hfault₁.symm.trans hfault₂)
    rw [hparse₁, hparse₂, same]

/-- After `(a or`, where a closing parenthesis is misplaced, two different rests are alike. -/
theorem parse_eq_error_iff_fault_in_group :
    Misplaced [.lparen, .var "a", .connective .or] .rparen ∧
      parse ([.lparen, .var "a", .connective .or] ++ .rparen :: [.rparen]) =
        parse ([.lparen, .var "a", .connective .or] ++ .rparen :: [.neg, .neg]) := by
  have misplaced : Misplaced [.lparen, .var "a", .connective .or] .rparen :=
    (misplaced_iff_step _ _).2 ⟨_, _, rfl, rfl⟩
  exact ⟨misplaced, (parse_eq_error_iff_fault [] .emptySentence).2 _ _ _ _ misplaced⟩

end Sentential.Parse
