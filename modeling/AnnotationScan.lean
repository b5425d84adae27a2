import AnnotationScan.Main
import AnnotationScan.Peg.Session
import AnnotationScan.Peg.Words
import AnnotationScan.Proofs.Peg.Derivation
import AnnotationScan.Proofs.Peg.Expansion
import AnnotationScan.Proofs.Peg.Lockstep
import AnnotationScan.Proofs.Peg.Memoization
import AnnotationScan.Proofs.Peg.Adequacy
import AnnotationScan.Proofs.Peg.Reachable
import AnnotationScan.Proofs.Peg.Diagnostics
import AnnotationScan.Proofs.Peg.Calls
import AnnotationScan.Proofs.Peg.Closed
import AnnotationScan.Proofs.Peg.Counting
import AnnotationScan.Proofs.Peg.Limits
import AnnotationScan.Proofs.Grammar.Brackets
import AnnotationScan.Proofs.Grammar.Shape
import AnnotationScan.Proofs.Recognition
import AnnotationScan.Proofs.Grammar.Nesting
import AnnotationScan.Proofs.Grammar.Continuation
import AnnotationScan.Proofs.Consumption
import AnnotationScan.Proofs.Agreement
import AnnotationScan.Proofs.DepthLimit
import AnnotationScan.Proofs.Grammar.Lines
import AnnotationScan.Proofs.Significance
import AnnotationScan.Proofs.Peg.Translation
import AnnotationScan.Proofs.Token.Suffixes
import AnnotationScan.Proofs.Token.Search
import AnnotationScan.Proofs.Independence
import AnnotationScan.Proofs.Preambles
import AnnotationScan.Proofs.Descent
import AnnotationScan.Proofs.Tracing
import AnnotationScan.Proofs.Contents
import AnnotationScan.Proofs.Balance
import AnnotationScan.Proofs.Peg.Placement
import AnnotationScan.Proofs.Peg.Machine
import AnnotationScan.Proofs.Peg.Simulation
import AnnotationScan.Proofs.Peg.Termination
import AnnotationScan.Proofs.Peg.Backtracking
import AnnotationScan.Proofs.Peg.Erasure
import AnnotationScan.Proofs.Untraced
import AnnotationScan.Proofs.Token.Comments
import AnnotationScan.Proofs.Token.Shapes
import AnnotationScan.Proofs.Token.Gaps
import AnnotationScan.Proofs.Token.Standing
import AnnotationScan.Proofs.Token.Spellings
import AnnotationScan.Proofs.Tiling
import AnnotationScan.Proofs.Exactness
import AnnotationScan.Proofs.Token.Locality
import AnnotationScan.Proofs.Token.Alone
import AnnotationScan.Proofs.Rereading
import AnnotationScan.Proofs.Faults
import AnnotationScan.Proofs.Peg.Matching
import AnnotationScan.Proofs.Grammar.Decisions
import AnnotationScan.Proofs.Acceptance
import AnnotationScan.Proofs.Operators
import AnnotationScan.Proofs.Grammar.Layers
import AnnotationScan.Proofs.Arguments
import AnnotationScan.Proofs.Token.Adjacent
import AnnotationScan.Proofs.Token.Rows
import AnnotationScan.Proofs.Types
import AnnotationScan.Proofs.Grammar.Phrases
import AnnotationScan.Proofs.TypeArguments
import AnnotationScan.Proofs.Peg.Transfer
import AnnotationScan.Proofs.Grammar.Enclosures
import AnnotationScan.Proofs.Grammar.Segments
import AnnotationScan.Proofs.Concatenation
import AnnotationScan.Proofs.Token.StringGrammar
import AnnotationScan.Proofs.Token.StringBodies
import AnnotationScan.Proofs.StringLiterals
import AnnotationScan.Proofs.StringTemplates
import AnnotationScan.Proofs.KindsAndTexts
import AnnotationScan.Proofs.Grammar.FirstTokens
import AnnotationScan.Proofs.Grammar.Separation
import AnnotationScan.Proofs.Separators
import AnnotationScan.Proofs.Peg.Traits
import AnnotationScan.Proofs.Peg.Hulls
import AnnotationScan.Proofs.Maximality
import AnnotationScan.Proofs.Grammar.Messages
import AnnotationScan.Proofs.CommandLine.Configuration
import AnnotationScan.Proofs.CommandLine.Overriding
import AnnotationScan.Proofs.CommandLine.Reports
import AnnotationScan.Proofs.BlockComments
import AnnotationScan.Proofs.Text.Values
import AnnotationScan.Proofs.Variables
