import CompactSearch.CommandLine.Arguments
import CompactSearch.CommandLine.Run
import CompactSearch.Config.Basic
import CompactSearch.Config.Error
import CompactSearch.Config.File
import CompactSearch.Config.Yaml
import CompactSearch.Decimal.Binary64
import CompactSearch.Decimal.Shortest
import CompactSearch.Document.Compile
import CompactSearch.Document.Filter
import CompactSearch.Formula
import CompactSearch.Json.Basic
import CompactSearch.Json.Literal
import CompactSearch.Json.Token
import CompactSearch.Main
import CompactSearch.Policy.Basic
import CompactSearch.Policy.Json
import CompactSearch.Query.Dialect
import CompactSearch.Query.Error
import CompactSearch.Query.Grammar
import CompactSearch.Query.Json
import CompactSearch.Query.Leaf
import CompactSearch.Query.Lexer
import CompactSearch.Query.Numeral
import CompactSearch.Query.Operator
import CompactSearch.Query.Token
import CompactSearch.Query.Value
import CompactSearch.Search.Error
import CompactSearch.Sql.Assembly
import CompactSearch.Sql.Bound
import CompactSearch.Sql.Compile
import CompactSearch.Sql.Condition
import CompactSearch.Sql.Like
import CompactSearch.Text.Quoted
import CompactSearch.Text.Visible
import CompactSearch.Time.Calendar
import CompactSearch.Time.Instant
import CompactSearch.Time.Relative
import CompactSearch.Yaml.Character
import CompactSearch.Yaml.Document
import CompactSearch.Yaml.Node
import CompactSearch.Yaml.Property
import CompactSearch.Yaml.Reader
import CompactSearch.Yaml.Scalar
import CompactSearch.Yaml.Writer
import CompactSearch.Proofs.Text.Run
import CompactSearch.Proofs.Text.Escape
import CompactSearch.Proofs.Text.Trim
import CompactSearch.Proofs.Query.Lexeme
import CompactSearch.Proofs.Query.Cut
import CompactSearch.Proofs.Query.Lexing
import CompactSearch.Proofs.Decimal.Nearest
import CompactSearch.Proofs.Decimal.Rounding
import CompactSearch.Proofs.Query.Numeral
import CompactSearch.Proofs.Query.Derivation
import CompactSearch.Proofs.Query.Recognition
import CompactSearch.Proofs.Query.Reading
import CompactSearch.Proofs.Query.Parenthesis
import CompactSearch.Proofs.Query.Composition
import CompactSearch.Proofs.Query.Viability
import CompactSearch.Proofs.Query.Dialects
import CompactSearch.Proofs.Formula
import CompactSearch.Proofs.Formula.Address
import CompactSearch.Proofs.Query.Spelling
import CompactSearch.Proofs.Query.Image
import CompactSearch.Proofs.Query.Lossless
import CompactSearch.Proofs.Query.Separation
import CompactSearch.Proofs.Query.Nesting
import CompactSearch.Proofs.Document.Meaning
import CompactSearch.Proofs.Document.Operators
import CompactSearch.Proofs.Document.Pattern
import CompactSearch.Proofs.Document.Recovery
import CompactSearch.Proofs.Sql.Like
import CompactSearch.Proofs.Sql.Expression
import CompactSearch.Proofs.Sql.Bindings
import CompactSearch.Proofs.Sql.Writing
import CompactSearch.Proofs.Sql.Meaning
import CompactSearch.Proofs.Sql.Noninterference
import CompactSearch.Proofs.Sql.Correspondence
import CompactSearch.Proofs.Sql.Search
import CompactSearch.Proofs.Sql.Masking
import CompactSearch.Proofs.Search.Agreement
import CompactSearch.Proofs.Search.Clock
import CompactSearch.Proofs.Policy.FieldList
import CompactSearch.Proofs.Policy.Repetition
import CompactSearch.Proofs.Policy.Stored
import CompactSearch.Proofs.Policy.Reading
import CompactSearch.Proofs.Policy.History
import CompactSearch.Proofs.Config.Policies
import CompactSearch.Proofs.Config.File
import CompactSearch.Proofs.Time.Instant
import CompactSearch.Proofs.Time.Relative
import CompactSearch.Proofs.Time.Iso
import CompactSearch.Proofs.Time.Months
import CompactSearch.Proofs.Sql.Dates
import CompactSearch.Proofs.Sql.Assembly
import CompactSearch.Proofs.Json.Written
import CompactSearch.Proofs.Policy.RoundTrip
import CompactSearch.Proofs.Yaml.Line
import CompactSearch.Proofs.Yaml.Plain
import CompactSearch.Proofs.Yaml.Literal
import CompactSearch.Proofs.Yaml.Quoted
import CompactSearch.Proofs.Yaml.Scalar
import CompactSearch.Proofs.Yaml.Collection
import CompactSearch.Proofs.Yaml.Document
import CompactSearch.Proofs.Config.RoundTrip
