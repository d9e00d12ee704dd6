import CellAlign.Align.Pass
import CellAlign.Command.Directory
import CellAlign.Main
import CellAlign.Session
import CellAlign.Proofs.Align.Walk
import CellAlign.Proofs.Align.Realigning
import CellAlign.Proofs.Align.Settling
import CellAlign.Proofs.Align.Schedule
import CellAlign.Proofs.Align.Cleared
import CellAlign.Proofs.Align.Methods
import CellAlign.Proofs.Align.Reporting
import CellAlign.Proofs.Align.History
import CellAlign.Proofs.Decimal.Canonical
import CellAlign.Proofs.Json.Numeral
import CellAlign.Proofs.Json.Reading
import CellAlign.Proofs.Json.Parts
import CellAlign.Proofs.Json.Numbers
import CellAlign.Proofs.Json.Walks
import CellAlign.Proofs.Json.Syntax
import CellAlign.Proofs.Json.Settled
import CellAlign.Proofs.Json.Joined
import CellAlign.Proofs.Markup.Serializing
import CellAlign.Proofs.Markup.Outline
import CellAlign.Proofs.Markup.Playback
import CellAlign.Proofs.Markup.Traversal
import CellAlign.Proofs.Markup.AttributeNames
import CellAlign.Proofs.Markup.TokenNames
import CellAlign.Proofs.Markup.Building
import CellAlign.Proofs.Markup.RuleNames
import CellAlign.Proofs.Markup.Escaping
import CellAlign.Proofs.Markup.LocalNames
import CellAlign.Proofs.Markup.StartTags
import CellAlign.Proofs.Markup.Unambiguous
import CellAlign.Proofs.Tree.Changing
import CellAlign.Proofs.Tree.Decoding
import CellAlign.Proofs.Tree.RoundTrip
import CellAlign.Proofs.Tree.Canonical
import CellAlign.Proofs.Tree.Converting
import CellAlign.Proofs.Tree.DistinctKeys
import CellAlign.Proofs.Tree.Fields
import CellAlign.Proofs.Tree.Forms
import CellAlign.Proofs.Tree.AttributeOrder
import CellAlign.Proofs.Tree.ClassTokens
import CellAlign.Proofs.Tree.Outermost
import CellAlign.Proofs.Tree.Grammar
import CellAlign.Proofs.Tree.Collecting
import CellAlign.Proofs.Tree.Nested
import CellAlign.Proofs.Tree.Decoded
import CellAlign.Proofs.Tree.Nesting
import CellAlign.Proofs.Session.Reached
import CellAlign.Proofs.Command.Rereading
import CellAlign.Proofs.Command.Spelling
import CellAlign.Proofs.Command.Given
import CellAlign.Proofs.Command.Outcomes
import CellAlign.Proofs.Json.Skipping
import CellAlign.Proofs.Json.Skipped
import CellAlign.Proofs.Json.Rows
import CellAlign.Proofs.Options.Records
import CellAlign.Proofs.Options.Stated
import CellAlign.Proofs.Command.Merging
import CellAlign.Proofs.Tree.MemberOrder
import CellAlign.Proofs.Tree.Leaves
import CellAlign.Proofs.Align.EqualTrees
import CellAlign.Proofs.Json.Agreement
import CellAlign.Proofs.Json.Denoting
import CellAlign.Proofs.Options.Members
