import QueryLine.Calendar.Date
import QueryLine.Calendar.Format
import QueryLine.Color.Palette
import QueryLine.Color.Theme
import QueryLine.Color.Tint
import QueryLine.Completion.Edit
import QueryLine.Completion.Picker
import QueryLine.Completion.Popup
import QueryLine.Document.Basic
import QueryLine.Document.Grouping
import QueryLine.Document.Node
import QueryLine.Document.Place
import QueryLine.Editor.Analyzer
import QueryLine.Editor.Basic
import QueryLine.Editor.Key
import QueryLine.Editor.Keystroke
import QueryLine.Main
import QueryLine.Proofs.Caret
import QueryLine.Proofs.Clauses
import QueryLine.Proofs.Leaves
import QueryLine.Proofs.Partition
import QueryLine.Proofs.Phrase
import QueryLine.Proofs.Places
import QueryLine.Proofs.PlainLine
import QueryLine.Proofs.Reachable
import QueryLine.Proofs.RoundTrip
import QueryLine.Proofs.Session
import QueryLine.Proofs.Spelling
import QueryLine.Proofs.Words
import QueryLine.Query.Bracket
import QueryLine.Query.Highlight
import QueryLine.Query.Proposal
import QueryLine.Query.Reading
import QueryLine.Query.Restriction
import QueryLine.Query.Rule
import QueryLine.Query.Term
import QueryLine.Query.Token
import QueryLine.Screen.Canvas
import QueryLine.Screen.Draw
import QueryLine.Screen.Style
import QueryLine.Screen.Terminal
import QueryLine.Screen.Tint
import QueryLine.Settings
import QueryLine.Text.Alphanumeric
import QueryLine.Text.Basic
import QueryLine.Text.Cluster
import QueryLine.Text.Lowercase
import QueryLine.Text.Order
import QueryLine.Text.Width
import QueryLine.Toml.Document
import QueryLine.Toml.Number
import QueryLine.Toml.Reader
import QueryLine.Proofs.Rereading
import QueryLine.Proofs.Spans
import QueryLine.Proofs.Faithful
import QueryLine.Proofs.Candidates
import QueryLine.Proofs.Boxes
import QueryLine.Proofs.QueryBlocks
import QueryLine.Proofs.Changes
import QueryLine.Proofs.Walk
import QueryLine.Proofs.NormalForm
import QueryLine.Proofs.Arrangement
import QueryLine.Proofs.UpToDate
import QueryLine.Proofs.Acceptance
import QueryLine.Proofs.Parentheses
import QueryLine.Proofs.Offering
import QueryLine.Proofs.Observers
import QueryLine.Proofs.Preorder
import QueryLine.Proofs.Painting
import QueryLine.Proofs.Operands
import QueryLine.Proofs.Typing
import QueryLine.Proofs.Boxing
import QueryLine.Proofs.Dissolving
import QueryLine.Proofs.Locating
import QueryLine.Proofs.Subtrees
import QueryLine.Proofs.Editing
import QueryLine.Proofs.Ranges
import QueryLine.Proofs.Choosing
import QueryLine.Proofs.Announcing
import QueryLine.Proofs.Moving
import QueryLine.Proofs.Enclosing
import QueryLine.Proofs.Blanking
import QueryLine.Proofs.Conjoining
import QueryLine.Proofs.Operators
import QueryLine.Proofs.Lossless
import QueryLine.Proofs.TypedWords
import QueryLine.Proofs.LooseCase
import QueryLine.Proofs.Matching
import QueryLine.Proofs.Proposing
import QueryLine.Proofs.Renewing
import QueryLine.Proofs.TypedValue
import QueryLine.Proofs.Preselecting
import QueryLine.Proofs.Selecting
import QueryLine.Proofs.DateFormats
import QueryLine.Proofs.Opening
import QueryLine.Proofs.Pending
import QueryLine.Proofs.Tinting
import QueryLine.Proofs.Scrolling
import QueryLine.Proofs.Placing
import QueryLine.Proofs.Anchoring
import QueryLine.Proofs.Agreement
import QueryLine.Proofs.Coloring
