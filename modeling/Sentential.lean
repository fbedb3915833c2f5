import Sentential.Connective
import Sentential.Journal.Basic
import Sentential.Journal.Event
import Sentential.Model.Basic
import Sentential.Model.Enumeration
import Sentential.Parse.Basic
import Sentential.Parse.Error
import Sentential.Parse.State
import Sentential.Proofs.Grammar
import Sentential.Proofs.Model.Bindings
import Sentential.Proofs.Model.Calls
import Sentential.Proofs.Model.Digits
import Sentential.Proofs.Model.History
import Sentential.Proofs.Model.Lexicographic
import Sentential.Proofs.Model.Rendering
import Sentential.Proofs.Model.Rows
import Sentential.Proofs.Parse.Acceptance
import Sentential.Proofs.Parse.Faults
import Sentential.Proofs.Parse.Inorder
import Sentential.Proofs.Parse.Invariant
import Sentential.Proofs.Parse.Position
import Sentential.Proofs.Parse.Preservation
import Sentential.Proofs.Parse.Progress
import Sentential.Proofs.Parse.Refusals
import Sentential.Proofs.Parse.Substitution
import Sentential.Proofs.Parse.Supplies
import Sentential.Proofs.Parse.Viability
import Sentential.Proofs.RoundTrip
import Sentential.Proofs.Semantics.Classification
import Sentential.Proofs.Semantics.Congruence
import Sentential.Proofs.Semantics.Counting
import Sentential.Proofs.Semantics.Entailment
import Sentential.Proofs.Semantics.Lockstep
import Sentential.Proofs.Semantics.Renaming
import Sentential.Proofs.Semantics.Reports
import Sentential.Proofs.Semantics.Results
import Sentential.Proofs.Semantics.SatisfyingModels
import Sentential.Proofs.Semantics.Truth
import Sentential.Proofs.Semantics.Unbound
import Sentential.Proofs.Sentence.Brackets
import Sentential.Proofs.Sentence.Discovery
import Sentential.Proofs.Sentence.Names
import Sentential.Proofs.Text.ByteOrder
import Sentential.Proofs.Text.Words
import Sentential.Proofs.Token.Cut
import Sentential.Proofs.Token.Division
import Sentential.Proofs.Token.Name
import Sentential.Proofs.Token.Rendering
import Sentential.Proofs.Token.Spelling
import Sentential.Proofs.TruthTable.Layout
import Sentential.Proofs.TruthTable.Reading
import Sentential.Proofs.TruthTable.Rows
import Sentential.Semantics.Check
import Sentential.Semantics.Eval
import Sentential.Semantics.Scan
import Sentential.Sentence.Basic
import Sentential.Sentence.Render
import Sentential.Sentence.Variables
import Sentential.Text.Blank
import Sentential.Text.CodeRange
import Sentential.Text.Printable
import Sentential.Text.Quoted
import Sentential.Token.Basic
import Sentential.Token.Lex
import Sentential.Token.Symbol
import Sentential.Truth
import Sentential.TruthTable
