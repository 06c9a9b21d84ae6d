import Selectors.AnPlusB
import Selectors.AnPlusB.Parser
import Selectors.CommandLine
import Selectors.CommandLine.Arguments
import Selectors.CommandLine.ReadError
import Selectors.CommandLine.Style
import Selectors.CompileError
import Selectors.Compiled
import Selectors.Decimal
import Selectors.Decimal.Binary
import Selectors.Decimal.Shortest
import Selectors.Description
import Selectors.Document
import Selectors.Document.Element
import Selectors.Document.Language
import Selectors.Document.Load
import Selectors.Document.Navigation
import Selectors.Index
import Selectors.Integer
import Selectors.Json
import Selectors.Json.Reader
import Selectors.Main
import Selectors.Matcher
import Selectors.Namespaces
import Selectors.Predicate
import Selectors.PseudoClass
import Selectors.Query
import Selectors.Selector
import Selectors.Selector.Parser
import Selectors.Specificity
import Selectors.SyntaxError
import Selectors.Text
import Selectors.Token
import Selectors.Token.Lexer
import Selectors.Warnings
import Selectors.Proofs.Matching
import Selectors.Proofs.Hints
import Selectors.Proofs.Lookup
import Selectors.Proofs.Edits
import Selectors.Proofs.Grammar
import Selectors.Proofs.GrammarComplete
import Selectors.Proofs.Parsing
import Selectors.Proofs.Relatives
import Selectors.Proofs.TreeOrder
import Selectors.Proofs.Languages
import Selectors.Proofs.Queries
import Selectors.Proofs.Remembering
import Selectors.Proofs.Names
import Selectors.Proofs.Loading
import Selectors.Proofs.AnPlusB
import Selectors.Proofs.Positions
import Selectors.Proofs.Resemblance
import Selectors.Proofs.Elision
import Selectors.Proofs.Places
import Selectors.Proofs.Borders
import Selectors.Proofs.Composition
import Selectors.Proofs.Arithmetic
import Selectors.Proofs.Folding
import Selectors.Proofs.Offences
import Selectors.Proofs.Attributes
import Selectors.Proofs.AttributeMap
import Selectors.Proofs.Digits
import Selectors.Proofs.Spellings
import Selectors.Proofs.Escapes
import Selectors.Proofs.Faults
import Selectors.Proofs.Reattachment
import Selectors.Proofs.Stability
import Selectors.Proofs.BrokenNames
import Selectors.Proofs.Counting
import Selectors.Proofs.Recording
import Selectors.Proofs.SoundTokens
import Selectors.Proofs.Overflow
import Selectors.Proofs.Paths
import Selectors.Proofs.NodeCount
import Selectors.Proofs.Locating
