import ColumnDecl.CommandLine
import ColumnDecl.Main
import ColumnDecl.Session
import ColumnDecl.Proofs.Token.Extent
import ColumnDecl.Proofs.Token.Lexing
import ColumnDecl.Proofs.Token.Nesting
import ColumnDecl.Proofs.Declaration.Passage
import ColumnDecl.Proofs.Declaration.Keyword
import ColumnDecl.Proofs.Declaration.Suffix
import ColumnDecl.Proofs.Declaration.Literal
import ColumnDecl.Proofs.Column.Draft
import ColumnDecl.Proofs.Declaration.Name
import ColumnDecl.Proofs.Declaration.Parts
import ColumnDecl.Proofs.Declaration.Call
import ColumnDecl.Proofs.Declaration.Type
import ColumnDecl.Proofs.Declaration.Local
import ColumnDecl.Proofs.Declaration.Excerpt
import ColumnDecl.Proofs.Declaration.Within
import ColumnDecl.Proofs.Reparse
import ColumnDecl.Proofs.Token.Window
import ColumnDecl.Proofs.Joining
import ColumnDecl.Proofs.Keywords
import ColumnDecl.Proofs.EntryPoints
import ColumnDecl.Proofs.Declaration.Fields
import ColumnDecl.Proofs.Containers
import ColumnDecl.Proofs.Token.Balance
import ColumnDecl.Proofs.Declaration.Course
import ColumnDecl.Proofs.DeclarationEnd
import ColumnDecl.Proofs.Parentheses
import ColumnDecl.Proofs.Column.WellFormed
import ColumnDecl.Proofs.WellFormed
import ColumnDecl.Proofs.Declaration.Refusal
import ColumnDecl.Proofs.Declaration.TypeRefusal
import ColumnDecl.Proofs.Outcomes
import ColumnDecl.Proofs.Token.Words
import ColumnDecl.Proofs.Column.View
import ColumnDecl.Proofs.Declaration.Agreement
import ColumnDecl.Proofs.Declaration.Likeness
import ColumnDecl.Proofs.Declaration.Likeness.Name
import ColumnDecl.Proofs.Declaration.Likeness.Literal
import ColumnDecl.Proofs.Declaration.Likeness.Type
import ColumnDecl.Proofs.Declaration.Likeness.Declaration
import ColumnDecl.Proofs.Windows
import ColumnDecl.Proofs.Token.Cursor
import ColumnDecl.Proofs.Layout
import ColumnDecl.Proofs.Token.Case
import ColumnDecl.Proofs.LetterCase
import ColumnDecl.Proofs.Token.Pattern
import ColumnDecl.Proofs.Token.SinglePass
import ColumnDecl.Proofs.Token.Spans
import ColumnDecl.Proofs.CommandLine
import ColumnDecl.Proofs.Declaration.Trim
import ColumnDecl.Proofs.Declaration.Span
import ColumnDecl.Proofs.TypeTexts
import ColumnDecl.Proofs.Declaration.Trailing
import ColumnDecl.Proofs.Wrappers
import ColumnDecl.Proofs.NestingLimit
import ColumnDecl.Proofs.Clauses
import ColumnDecl.Proofs.Integer
import ColumnDecl.Proofs.Declaration.Separated
import ColumnDecl.Proofs.Declaration.Parameterised
import ColumnDecl.Proofs.Declaration.Written
import ColumnDecl.Proofs.Applied
import ColumnDecl.Proofs.Enumerations
import ColumnDecl.Proofs.LiteralParameters
import ColumnDecl.Proofs.Combinators
import ColumnDecl.Proofs.Token.Quoted
import ColumnDecl.Proofs.Progress
import ColumnDecl.Proofs.Token.Glued
import ColumnDecl.Proofs.Declaration.Signature
import ColumnDecl.Proofs.Signatures
import ColumnDecl.Proofs.EnumDirections
import ColumnDecl.Proofs.Column.Arrays
import ColumnDecl.Proofs.Arrays
import ColumnDecl.Proofs.Value
import ColumnDecl.Proofs.Column.Rearranged
import ColumnDecl.Proofs.Column.Export
import ColumnDecl.Proofs.KeywordHistory
import ColumnDecl.Proofs.Token.Unterminated
import ColumnDecl.Proofs.Response
import ColumnDecl.Proofs.Session
import ColumnDecl.Proofs.Payload
import ColumnDecl.Proofs.LifeCycle
import ColumnDecl.Proofs.Record
import ColumnDecl.Proofs.AliasParameters
import ColumnDecl.Proofs.Export
