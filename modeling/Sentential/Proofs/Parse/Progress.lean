import Sentential.Proofs.Parse.Faults

/-!
# Reports of the parser

The parser reports each token before it handles it, with the kind of the token before. So its
reports show how far it came: to the first misplaced token, or through all tokens. A last report
follows if the tokens are a sentence.
-/

namespace Sentential

/-! ### Lines -/

namespace Parse

/-! ### The tokens that are handled -/

/-- The parser does not come to the last of these four tokens, because no sentence has two
connectives in a row. -/
example : (parseM [.var "a", .connective .and, .connective .or, .var "b"]).events.map Event.line =
    ["TRACE proplogic::parser token Var(\"a\") after None",
      "TRACE proplogic::parser token Binary(And) after Var",
      "TRACE proplogic::parser token Binary(Or) after Binary(And)"] := by
  decide +kernel

end Parse

end Sentential
