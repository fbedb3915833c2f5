import Sentential.Sentence.Basic
import Sentential.Token.Basic

/-!
# Grammar of written sentences

Which lists of tokens are sentences, and of which tree: a chain of operands joined by
connectives, an operand being an atom or a group with at most one negation before it.
Chains lean to the left and know no precedence. `Viable` lists are the beginnings of
sentences.
-/

namespace Sentential

/-- The three kinds of phrase. -/
inductive Phrase where
  | chain
  | operand
  | primary
deriving DecidableEq, Repr

/-- The tokens form a phrase of the given kind, whose tree is the given sentence. -/
inductive Derives : Phrase → List Token → Sentence → Prop
  | operand {ts : List Token} {s : Sentence} :
      Derives .operand ts s → Derives .chain ts s
  | connective {ts us : List Token} {lhs rhs : Sentence} (op : Connective) :
      Derives .chain ts lhs → Derives .operand us rhs →
        Derives .chain (ts ++ .connective op :: us) (.binary op lhs rhs)
  | primary {ts : List Token} {s : Sentence} :
      Derives .primary ts s → Derives .operand ts s
  | neg {ts : List Token} {s : Sentence} :
      Derives .primary ts s → Derives .operand (.neg :: ts) (.neg s)
  | var (name : String) : Derives .primary [.var name] (.var name)
  | const (value : Bool) : Derives .primary [.const value] (.const value)
  | group {ts : List Token} {s : Sentence} :
      Derives .chain ts s → Derives .primary (.lparen :: (ts ++ [.rparen])) s

/-- The tokens can be continued to a sentence. -/
def Viable (tokens : List Token) : Prop :=
  ∃ (rest : List Token) (s : Sentence), Derives .chain (tokens ++ rest) s

/-- The token has no place after the viable beginning: `beginning ++ [token]` is the
shortest beginning of a list that no continuation makes a sentence. -/
structure Misplaced (beginning : List Token) (token : Token) : Prop where
  viable : Viable beginning
  notViable : ¬ Viable (beginning ++ [token])

/-- Number of parentheses that are open after the tokens. -/
def openGroups (tokens : List Token) : Nat := tokens.count .lparen - tokens.count .rparen

namespace Derives

/-- A phrase closes every parenthesis that it opens. -/
theorem count_parens {phrase : Phrase} {ts : List Token} {s : Sentence}
    (h : Derives phrase ts s) : ts.count .lparen = ts.count .rparen := by
  induction h with
  | operand _ ih => exact ih
  | connective op _ _ ihl ihr =>
    rw [List.count_append, List.count_append, List.count_cons_of_ne (by simp),
      List.count_cons_of_ne (by simp), ihl, ihr]
  | primary _ ih => exact ih
  | neg _ ih =>
    rw [List.count_cons_of_ne (by simp), List.count_cons_of_ne (by simp), ih]
  | var name => rfl
  | const value => rfl
  | group _ ih =>
    rw [List.count_cons_self, List.count_cons_of_ne (by simp), List.count_append,
      List.count_append, ih]
    rfl

end Derives

end Sentential
