import Sentential.Proofs.Grammar
import Sentential.Proofs.Parse.Position

/-!
# What the parser accepts

The parser accepts exactly the chains of the grammar, and gives each of them the tree of
its derivation. One direction carries along which tokens a position has behind it
(`Position.Reads`), the other follows a derivation from any position at which its phrase
may start (`Passes`).
-/

namespace Sentential.Parse

/-! ### Positions and the tokens behind them -/

/-- The tokens lead from the start of a chain to the place of an operand. -/
inductive Slot.Reads : Slot → List Token → Prop
  | fresh : Slot.Reads ⟨none, false⟩ []
  | link {ts : List Token} {s : Sentence} (op : Connective) :
      Derives .chain ts s → Slot.Reads ⟨some (s, op), false⟩ (ts ++ [.connective op])
  | neg {before? : Option (Sentence × Connective)} {ts : List Token} :
      Slot.Reads ⟨before?, false⟩ ts → Slot.Reads ⟨before?, true⟩ (ts ++ [.neg])

/-- The tokens lead from the start of a sentence into the open groups at these places. -/
inductive OuterReads : List Slot → List Token → Prop
  | nil : OuterReads [] []
  | cons {outer : List Slot} {slot : Slot} {us ts : List Token} :
      OuterReads outer us → slot.Reads ts → OuterReads (slot :: outer) (us ++ ts ++ [.lparen])

/-- The tokens lead from the start of a sentence to the position. -/
inductive Position.Reads : Position → List Token → Prop
  | awaiting {outer : List Slot} {slot : Slot} {us ts : List Token} :
      OuterReads outer us → slot.Reads ts → Position.Reads (.awaiting outer slot) (us ++ ts)
  | complete {outer : List Slot} {slot : Slot} {us ts vs : List Token} {s : Sentence}
      (completion : Completion) :
      OuterReads outer us → slot.Reads ts → Derives .primary vs s →
        Position.Reads (.complete outer slot completion s) (us ++ ts ++ vs)

private theorem Slot.Reads.fill {slot : Slot} {ts us : List Token} {s : Sentence}
    (h : slot.Reads ts) (hs : Derives .primary us s) : Derives .chain (ts ++ us) (slot.fill s) := by
  cases h with
  | fresh => exact .operand (.primary hs)
  | link op hlhs =>
    rw [List.append_assoc]
    exact .connective op hlhs (.primary hs)
  | neg h =>
    cases h with
    | fresh => exact .operand (.neg hs)
    | link op hlhs =>
      rw [List.append_assoc, List.append_assoc]
      exact .connective op hlhs (.neg hs)

namespace Position

/-- Nothing leads to the start. -/
theorem reads_start : start.Reads [] := .awaiting .nil .fresh

/-- A step adds its token to those behind the position. -/
theorem Reads.step {p p' : Position} {ts : List Token} {token : Token} (h : p.Reads ts)
    (hstep : p.step token = .ok p') : p'.Reads (ts ++ [token]) := by
  cases takes_of_step hstep with
  | lparen outer slot =>
    cases h with
    | awaiting houter hslot =>
      have inner := Reads.awaiting (OuterReads.cons houter hslot) Slot.Reads.fresh
      rwa [List.append_nil] at inner
  | const outer slot value =>
    cases h with
    | awaiting houter hslot => exact .complete .const houter hslot (.const value)
  | var outer slot name =>
    cases h with
    | awaiting houter hslot => exact .complete .var houter hslot (.var name)
  | neg outer before? =>
    cases h with
    | awaiting houter hslot =>
      rw [List.append_assoc]
      exact .awaiting houter (.neg hslot)
  | connective outer slot completion s op =>
    cases h with
    | @complete _ _ us _ _ _ _ houter hslot hs =>
      rw [List.append_assoc us, List.append_assoc]
      exact .awaiting houter (.link op (hslot.fill hs))
  | rparen place outer slot completion s =>
    cases h with
    | complete _ houter hslot hs =>
      cases houter with
      | cons houter hplace =>
        have closed := Reads.complete .group houter hplace (.group (hslot.fill hs))
        simpa only [List.append_assoc, List.cons_append, List.nil_append] using closed

/-- Following tokens adds them to those behind the position. -/
theorem Reads.run {p p' : Position} {ts us : List Token} (h : p.Reads ts)
    (hrun : p.run us = .ok p') : p'.Reads (ts ++ us) := by
  induction us generalizing p ts with
  | nil =>
    cases hrun
    rwa [List.append_nil]
  | cons token rest ih =>
    rw [run_cons, bind_eq_ok_iff] at hrun
    obtain ⟨next, hstep, hrest⟩ := hrun
    have reads := ih (h.step hstep) hrest
    rwa [List.append_assoc] at reads

/-- A sentence ends where its tokens are a chain. -/
theorem Reads.finish {p : Position} {ts : List Token} {s : Sentence} (h : p.Reads ts)
    (hfinish : p.finish = .ok s) : Derives .chain ts s := by
  cases h with
  | @awaiting outer slot us ts houter hslot =>
    rcases slot with ⟨_ | ⟨lhs, op⟩, _ | _⟩ <;> cases outer <;> cases hfinish
  | complete completion houter hslot hs =>
    cases houter with
    | nil => cases hfinish; exact hslot.fill hs
    | cons houter hplace => cases hfinish

end Position

/-! ### Following a derivation -/

/-- The tokens of a phrase lead from every place at which it may start, in any open groups,
past the operand that it completes. -/
def Passes (ts : List Token) (s : Sentence) : Phrase → Prop
  | .chain => ∀ outer, ∃ slot completion operand, slot.fill operand = s ∧
      (Position.awaiting outer .fresh).run ts = .ok (.complete outer slot completion operand)
  | .operand => ∀ outer before?, ∃ negated completion operand,
      State.negateIf negated operand = s ∧
        (Position.awaiting outer ⟨before?, false⟩).run ts =
          .ok (.complete outer ⟨before?, negated⟩ completion operand)
  | .primary => ∀ outer slot, ∃ completion,
      (Position.awaiting outer slot).run ts = .ok (.complete outer slot completion s)

/-- Every derived phrase is passed. -/
theorem passes_of_derives {phrase : Phrase} {ts : List Token} {s : Sentence}
    (h : Derives phrase ts s) : Passes ts s phrase := by
  induction h with
  | operand _ ih =>
    intro outer
    obtain ⟨negated, completion, operand, hs, hrun⟩ := ih outer none
    exact ⟨⟨none, negated⟩, completion, operand, hs, hrun⟩
  | @connective ts us lhs rhs op _ _ ihl ihr =>
    intro outer
    obtain ⟨slot, completion, operand, hlhs, hleft⟩ := ihl outer
    obtain ⟨negated, completion', operand', hrhs, hright⟩ := ihr outer (some (lhs, op))
    refine ⟨⟨some (lhs, op), negated⟩, completion', operand', ?_, ?_⟩
    · rw [← hrhs]
      rfl
    · rw [Position.run_append, hleft]
      subst hlhs
      exact hright
  | primary _ ih =>
    intro outer before?
    obtain ⟨completion, hrun⟩ := ih outer ⟨before?, false⟩
    exact ⟨false, completion, _, rfl, hrun⟩
  | neg _ ih =>
    intro outer before?
    obtain ⟨completion, hrun⟩ := ih outer ⟨before?, true⟩
    exact ⟨true, completion, _, rfl, hrun⟩
  | var name => exact fun outer slot ↦ ⟨.var, rfl⟩
  | const value => exact fun outer slot ↦ ⟨.const, rfl⟩
  | @group ts s _ ih =>
    intro outer place
    obtain ⟨slot, completion, operand, hs, hrun⟩ := ih (place :: outer)
    refine ⟨.group, ?_⟩
    change (Position.awaiting (place :: outer) .fresh).run (ts ++ [.rparen]) = _
    rw [Position.run_append, hrun, ← hs]
    rfl

/-- The tree of an accepted list is derived. -/
theorem derives_of_parse {tokens : List Token} {s : Sentence} (h : parse tokens = .ok s) :
    Derives .chain tokens s := by
  rw [parse_eq_run, bind_eq_ok_iff] at h
  obtain ⟨p, hrun, hfinish⟩ := h
  exact (Position.reads_start.run hrun).finish hfinish

/-- A derived list is accepted with its tree. -/
theorem parse_of_derives {tokens : List Token} {s : Sentence} (h : Derives .chain tokens s) :
    parse tokens = .ok s := by
  obtain ⟨slot, completion, operand, hs, hrun⟩ := passes_of_derives h []
  have run : Position.start.run tokens = .ok (.complete [] slot completion operand) := hrun
  rw [parse_eq_run, run, ← hs]
  rfl

/-- No list of tokens has two trees. -/
theorem derives_unique {tokens : List Token} {s other : Sentence}
    (h : Derives .chain tokens s) (hother : Derives .chain tokens other) : other = s :=
  Except.ok.inj ((parse_of_derives hother).symm.trans (parse_of_derives h))

/-- The parser reads a list of tokens as a sentence exactly if the grammar derives the list
with that sentence as its tree, which is then its only tree. -/
theorem parse_eq_ok_iff_derives (tokens : List Token) (s : Sentence) :
    (parse tokens = .ok s ↔ Derives .chain tokens s) ∧
      (parse tokens = .ok s ↔ ∀ other, Derives .chain tokens other ↔ other = s) := by
  refine ⟨⟨derives_of_parse, parse_of_derives⟩, ⟨?_, ?_⟩⟩
  · intro h other
    have hs := derives_of_parse h
    constructor
    · exact derives_unique hs
    · rintro rfl
      exact hs
  · intro h
    exact parse_of_derives ((h s).2 rfl)

/-- A chain leans to the left, and its negation covers the group after it. -/
example : parse [.var "a", .connective .and, .neg, .lparen, .var "b", .connective .or,
      .const true, .rparen, .connective .implies, .var "and"] =
    .ok (.binary .implies
      (.binary .and (.var "a") (.neg (.binary .or (.var "b") (.const true)))) (.var "and")) := by
  cbv

end Sentential.Parse
