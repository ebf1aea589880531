import Emend.Literal
import Emend.Main
import Emend.Proofs.Name
import Emend.Proofs.Table
import Emend.Proofs.Edit.Mutation
import Emend.Proofs.Resolution
import Emend.Proofs.Edit.Idempotence
import Emend.Proofs.Edit.Element
import Emend.Proofs.Edit.Footprint
import Emend.Proofs.Edit.Commutation
import Emend.Proofs.Edit.Capture
import Emend.Proofs.Edit.Invariant
import Emend.Proofs.Edit.MethodNames
import Emend.Proofs.Source.TraitUse
import Emend.Proofs.Files.Tree
import Emend.Proofs.Manifest.Project
import Emend.Proofs.Session.Gate
import Emend.Proofs.Session.Atomicity
import Emend.Proofs.Source.Assembly
import Emend.Proofs.Source.BlockScope
import Emend.Proofs.Source.Reading
import Emend.Proofs.Source.Indentation
import Emend.Proofs.Grammar.Derivation
import Emend.Proofs.Grammar.Recognition
import Emend.Proofs.Grammar.Lexing
import Emend.Proofs.Grammar.Occurrence
import Emend.Proofs.Text.Parts
import Emend.Proofs.Source.Clauses
import Emend.Proofs.Source.Heads
import Emend.Proofs.Grammar.Phrases
import Emend.Proofs.Source.Uses
import Emend.Proofs.Source.Members
import Emend.Proofs.Source.Types
import Emend.Proofs.Source.Declared
import Emend.Proofs.Source.Statements
import Emend.Proofs.Source.Lossless
import Emend.Proofs.Layout.Ink
import Emend.Proofs.Layout.Moves
import Emend.Proofs.Layout.Laid
import Emend.Proofs.Layout.Literals
import Emend.Proofs.Layout.Reindent
import Emend.Proofs.Layout.Carried
import Emend.Proofs.Edit.Replacement
import Emend.Proofs.Source.RuntimeText
import Emend.Proofs.Source.Survival
import Emend.Proofs.Edit.Reference
import Emend.Proofs.Literal.Nesting
import Emend.Proofs.Source.Parameters
import Emend.Proofs.Text.Lines
import Emend.Proofs.Validator.ReportedLine
import Emend.Proofs.Source.Sections
import Emend.Proofs.Validator.Bootstrap
import Emend.Proofs.Sort
import Emend.Proofs.Files.Rerun
import Emend.Proofs.Text.Words
import Emend.Proofs.Validator.Ready
import Emend.Proofs.Session.Outcome
import Emend.Proofs.Source.ImportBlock
import Emend.Proofs.Resolution.Case
import Emend.Proofs.Source.ImportOrder
import Emend.Proofs.Source.Header
import Emend.Proofs.Source.DocComment
import Emend.Proofs.Manifest.Listing
import Emend.Proofs.Resolution.TypeExpression
import Emend.Proofs.Edit.Imported
import Emend.Proofs.Manifest.ClassMap
