import EmailTemplates.Block.Basic
import EmailTemplates.Block.Codec
import EmailTemplates.Codec
import EmailTemplates.ColorScheme
import EmailTemplates.CommandLine.Arguments
import EmailTemplates.CommandLine.Directory
import EmailTemplates.CommandLine.Run
import EmailTemplates.CommandLine.Toml
import EmailTemplates.Diagnostic.Basic
import EmailTemplates.Diagnostic.CodeInfo
import EmailTemplates.Diagnostic.Codec
import EmailTemplates.Diagnostic.Excerpt
import EmailTemplates.Draft.Basic
import EmailTemplates.Draft.Codec
import EmailTemplates.Draft.Session
import EmailTemplates.Email
import EmailTemplates.Error
import EmailTemplates.Json.Basic
import EmailTemplates.Json.Parser
import EmailTemplates.Json.Printer
import EmailTemplates.Json.Record
import EmailTemplates.Main
import EmailTemplates.Markup.Basic
import EmailTemplates.Markup.Element
import EmailTemplates.Markup.Envelope
import EmailTemplates.Markup.Fragment
import EmailTemplates.Proofs.Draft.Session
import EmailTemplates.Proofs.Draft.Valid
import EmailTemplates.Proofs.Json.Record
import EmailTemplates.Proofs.Json.Text
import EmailTemplates.Proofs.Markup.Document
import EmailTemplates.Proofs.Markup.Drawn
import EmailTemplates.Proofs.Markup.Draws
import EmailTemplates.Proofs.Markup.Duality
import EmailTemplates.Proofs.Markup.Leftover
import EmailTemplates.Proofs.Markup.Nesting
import EmailTemplates.Proofs.Markup.Reported
import EmailTemplates.Proofs.Markup.Settled
import EmailTemplates.Proofs.Markup.Skeleton
import EmailTemplates.Proofs.Markup.Unresolved
import EmailTemplates.Proofs.Outcome
import EmailTemplates.Proofs.Source.Account
import EmailTemplates.Proofs.Source.Anchor
import EmailTemplates.Proofs.Source.Attribute
import EmailTemplates.Proofs.Source.Body
import EmailTemplates.Proofs.Source.Button
import EmailTemplates.Proofs.Source.Calm
import EmailTemplates.Proofs.Source.Contained
import EmailTemplates.Proofs.Source.Content
import EmailTemplates.Proofs.Source.Dropped
import EmailTemplates.Proofs.Source.Element
import EmailTemplates.Proofs.Source.Encoded
import EmailTemplates.Proofs.Source.Envelope
import EmailTemplates.Proofs.Source.Fields
import EmailTemplates.Proofs.Source.FixedPoint
import EmailTemplates.Proofs.Source.Importable
import EmailTemplates.Proofs.Source.Inline
import EmailTemplates.Proofs.Source.InterfaceName
import EmailTemplates.Proofs.Source.Keyword
import EmailTemplates.Proofs.Source.Line
import EmailTemplates.Proofs.Source.Literal
import EmailTemplates.Proofs.Source.Marked
import EmailTemplates.Proofs.Source.Marker
import EmailTemplates.Proofs.Source.Members
import EmailTemplates.Proofs.Source.Module
import EmailTemplates.Proofs.Source.Named
import EmailTemplates.Proofs.Source.Nested
import EmailTemplates.Proofs.Source.Phrase
import EmailTemplates.Proofs.Source.Preserved
import EmailTemplates.Proofs.Source.Quiet
import EmailTemplates.Proofs.Source.Quoted
import EmailTemplates.Proofs.Source.Reads
import EmailTemplates.Proofs.Source.Recognize
import EmailTemplates.Proofs.Source.Required
import EmailTemplates.Proofs.Source.RoundTrip
import EmailTemplates.Proofs.Source.Scalars
import EmailTemplates.Proofs.Source.Search
import EmailTemplates.Proofs.Source.Segments
import EmailTemplates.Proofs.Source.Shape
import EmailTemplates.Proofs.Source.Silent
import EmailTemplates.Proofs.Source.Stretch
import EmailTemplates.Proofs.Source.Table
import EmailTemplates.Proofs.Source.Tag
import EmailTemplates.Proofs.Source.Taken
import EmailTemplates.Proofs.Source.Usable
import EmailTemplates.Proofs.Source.Within
import EmailTemplates.Proofs.Source.Written
import EmailTemplates.Proofs.SystemTemplate
import EmailTemplates.Proofs.Text.Blank
import EmailTemplates.Proofs.Text.Ends
import EmailTemplates.Proofs.Text.Entity
import EmailTemplates.Proofs.Text.Plain
import EmailTemplates.Proofs.Text.Replaced
import EmailTemplates.Proofs.Text.Slice
import EmailTemplates.Proofs.Text.Span
import EmailTemplates.Proofs.Variable.Names
import EmailTemplates.Proofs.Variable.Pieces
import EmailTemplates.Proofs.Verdict
import EmailTemplates.Source.Declaration
import EmailTemplates.Source.Generate
import EmailTemplates.Source.Import
import EmailTemplates.Source.Literal
import EmailTemplates.Source.Marker
import EmailTemplates.Source.Quoted
import EmailTemplates.Source.Segment
import EmailTemplates.Source.Shape
import EmailTemplates.Source.Tag
import EmailTemplates.Source.Words
import EmailTemplates.Style
import EmailTemplates.SystemTemplate
import EmailTemplates.Template.Basic
import EmailTemplates.Template.Codec
import EmailTemplates.Template.Edit
import EmailTemplates.Text.Blank
import EmailTemplates.Text.Entity
import EmailTemplates.Text.Slice
import EmailTemplates.Text.Span
import EmailTemplates.Text.Word
import EmailTemplates.Variable.Reference
import EmailTemplates.Variable.Registry
import EmailTemplates.Variable.Token
import EmailTemplates.Variable.Values
import EmailTemplates.Proofs.Json.Codec
import EmailTemplates.Proofs.Source.Cut
import EmailTemplates.Proofs.Source.Referenced
import EmailTemplates.Proofs.Source.Declared
import EmailTemplates.Proofs.Variable.Advice
import EmailTemplates.Proofs.Draft.Preview
import EmailTemplates.Proofs.CommandLine.Imported
import EmailTemplates.Proofs.Source.Interpolated
import EmailTemplates.Proofs.Source.Bytewise
import EmailTemplates.Proofs.Source.Sliced
import EmailTemplates.Proofs.Source.Located
import EmailTemplates.Proofs.Markup.Local
import EmailTemplates.Proofs.Source.Forest
import EmailTemplates.Proofs.Source.Noticed
import EmailTemplates.Proofs.Source.LiteralText
import EmailTemplates.Proofs.Source.Height
import EmailTemplates.Proofs.Source.LoneAnchor
import EmailTemplates.Proofs.Source.StringLiteral
import EmailTemplates.Proofs.Variable.Occurrences
import EmailTemplates.Proofs.Markup.Attribute
import EmailTemplates.Proofs.Source.QuotedPattern
import EmailTemplates.Proofs.Source.FreshId
