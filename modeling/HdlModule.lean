import HdlModule.Workspace
import HdlModule.Proofs.Lexing.Leading
import HdlModule.Proofs.Lexing.Lexed
import HdlModule.Proofs.LegalName
import HdlModule.Proofs.Content.Examine
import HdlModule.Proofs.Content.History
import HdlModule.Proofs.Grammar.Header
import HdlModule.Proofs.Grammar.Module
import HdlModule.Proofs.Content.Rename
import HdlModule.Proofs.Content.Refused
import HdlModule.Proofs.Attribute.Reconcile
import HdlModule.Proofs.Attribute.Registry
import HdlModule.Proofs.Attribute.Ledger
import HdlModule.Proofs.Content.Revision
import HdlModule.Proofs.Workspace.Step
import HdlModule.Proofs.Workspace.Journal
import HdlModule.Proofs.Workspace.Custody
import HdlModule.Proofs.Workspace.Persistence
import HdlModule.Proofs.Content.Subscription
import HdlModule.Proofs.Content.Announcement
import HdlModule.Proofs.Content.Status
import HdlModule.Proofs.Workspace.Idempotence
import HdlModule.Proofs.Lexing.Layout
import HdlModule.Proofs.Grammar.Places
import HdlModule.Proofs.Grammar.LineEnds
import HdlModule.Proofs.Grammar.Lookahead
import HdlModule.Proofs.Grammar.Decided
import HdlModule.Proofs.Lexing.Rules
import HdlModule.Proofs.Lexing.LongestMatch
import HdlModule.Proofs.Grammar.Kinds
import HdlModule.Proofs.Grammar.BlockComment
import HdlModule.Proofs.Attribute.Donors
import HdlModule.Proofs.Attribute.Occurrences
import HdlModule.Proofs.Lexing.Names
import HdlModule.Proofs.Lexing.Written
import HdlModule.Proofs.Grammar.RoundTrip
import HdlModule.Proofs.Lexing.Restore
import HdlModule.Proofs.Literal
import HdlModule.Proofs.Grammar.Default
import HdlModule.Proofs.Design.Template
import HdlModule.Proofs.Content.Create
import HdlModule.Proofs.Text.Bytes
import HdlModule.Proofs.Text.Lines
import HdlModule.Proofs.Lexing.Border
import HdlModule.Proofs.Lexing.Tiling
import HdlModule.Proofs.Content.Requested
import HdlModule.Proofs.Lexing.LetterCase
import HdlModule.Proofs.Grammar.KeywordCase
import HdlModule.Proofs.Grammar.Cited
import HdlModule.Proofs.Grammar.Spans
import HdlModule.Proofs.Identifier.Grammar
import HdlModule.Proofs.Attribute.Values
import HdlModule.Proofs.Text.JoinedLines
import HdlModule.Proofs.Content.Bookkeeping
import HdlModule.Proofs.Content.Identified
