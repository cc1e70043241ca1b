import ContextDL.Text.Blank
import ContextDL.Text.Alphanumeric
import ContextDL.Text.Decimal
import ContextDL.Text.Slice
import ContextDL.Iri.Basic
import ContextDL.Iri.Grammar
import ContextDL.Statement
import ContextDL.Concept.Basic
import ContextDL.Concept.Height
import ContextDL.Concept.Printer
import ContextDL.Concept.Negation
import ContextDL.Axiom
import ContextDL.Dual
import ContextDL.Signature
import ContextDL.Ontology
import ContextDL.Surface.Token
import ContextDL.Surface.Expression
import ContextDL.Surface.Document
import ContextDL.Surface.Positional
import ContextDL.Context.Basic
import ContextDL.Context.BranchOntology
import ContextDL.Renaming
import ContextDL.Semantics
import ContextDL.Surface.Grammar
import ContextDL.Surface.Derivation
import ContextDL.Surface.Unclosed
import ContextDL.Proofs.Meaning.Agreement
import ContextDL.Proofs.Meaning.Negation
import ContextDL.Proofs.Context.Splitting
import ContextDL.Proofs.Context.BranchMeaning
import ContextDL.Proofs.Meaning.Renaming
import ContextDL.Proofs.Renaming.Merging
import ContextDL.Proofs.Renaming.Copies
import ContextDL.Proofs.Renaming.Satisfiability
import ContextDL.Proofs.Renaming.Effect
import ContextDL.Proofs.Renaming.Disjointness
import ContextDL.Proofs.Surface.Lexing
import ContextDL.Proofs.Surface.Reading
import ContextDL.Proofs.Surface.Brackets
import ContextDL.Proofs.Surface.Cutting
import ContextDL.Proofs.Surface.Statement
import ContextDL.Proofs.Iri.Checking
import ContextDL.Proofs.Surface.Spelling
import ContextDL.Proofs.Surface.Nesting
import ContextDL.Proofs.Surface.Printing
import ContextDL.Proofs.Surface.Faithfulness
import ContextDL.Proofs.Surface.Derivation
import ContextDL.Proofs.Surface.Leading
import ContextDL.Proofs.Surface.Tidiness
import ContextDL.Proofs.Surface.DocumentRoundTrip
import ContextDL.Proofs.Context.Partition
import ContextDL.Proofs.Context.Selection
import ContextDL.Proofs.Context.Faults
import ContextDL.Proofs.Context.Registration
import ContextDL.Proofs.Meaning.Dualizing
import ContextDL.Proofs.Renaming.Reloading
import ContextDL.Proofs.Renaming.Names
import ContextDL.Proofs.Renaming.Survivors
import ContextDL.Proofs.Renaming.Branches
import ContextDL.Proofs.Ontology.Merging
import ContextDL.Proofs.Surface.Concatenation
import ContextDL.Proofs.Context.Polarity
import ContextDL.Proofs.Context.Reordering
import ContextDL.Proofs.Renaming.Places
import ContextDL.Proofs.Renaming.Recovery
import ContextDL.Proofs.Iri.Address
import ContextDL.Proofs.Iri.Marking
import ContextDL.Proofs.Dual.Names
import ContextDL.Proofs.Dual.Passes
import ContextDL.Proofs.Dual.Stripping
import ContextDL.Proofs.Dual.Injectivity
import ContextDL.Proofs.Context.ObjectNames
import ContextDL.Proofs.Surface.DepthLimit
import ContextDL.Proofs.Surface.Height
import ContextDL.Proofs.Surface.Spacing
import ContextDL.Proofs.Surface.Unclosed
import ContextDL.Proofs.Surface.Placement
import ContextDL.Proofs.Surface.Positions
import ContextDL.Proofs.Surface.Slicing
import ContextDL.Proofs.Conjunction.Flattening
import ContextDL.Proofs.Conjunction.Grouping
import ContextDL.Proofs.Negation.Repetition
import ContextDL.Proofs.Ontology.Monoid
