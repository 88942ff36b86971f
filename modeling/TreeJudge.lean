import TreeJudge.Main
import TreeJudge.Proofs.Session.Step
import TreeJudge.Proofs.Session.History
import TreeJudge.Proofs.Session.Coherence
import TreeJudge.Proofs.Session.Ledger
import TreeJudge.Proofs.Session.Lanes
import TreeJudge.Proofs.Session.Closed
import TreeJudge.Proofs.Session.Ignored
import TreeJudge.Proofs.Connection.Delivery
import TreeJudge.Proofs.Shape.Kept
import TreeJudge.Proofs.Shape.Written
import TreeJudge.Proofs.Json.Strings
import TreeJudge.Proofs.Json.Integers
import TreeJudge.Proofs.Json.ReadBack
import TreeJudge.Proofs.Json.Numbers
import TreeJudge.Proofs.Json.Reading
import TreeJudge.Proofs.Json.Grammar
import TreeJudge.Proofs.Json.Document
import TreeJudge.Proofs.Json.Keys
import TreeJudge.Proofs.Json.Equality
import TreeJudge.Proofs.Shape.Accepted
import TreeJudge.Proofs.Shape.Lookups
import TreeJudge.Proofs.Shape.Documents
import TreeJudge.Proofs.Shape.Gaps
import TreeJudge.Proofs.Wire.Uncolored
import TreeJudge.Proofs.Wire.Messages
import TreeJudge.Proofs.Wire.Values
import TreeJudge.Proofs.Wire.RoundTrip
import TreeJudge.Proofs.Wire.Envelopes
import TreeJudge.Proofs.Wire.Edits
import TreeJudge.Proofs.Wire.Identifiers
import TreeJudge.Proofs.Tree.Visits
import TreeJudge.Proofs.Tree.Listing
import TreeJudge.Proofs.Tree.Indentation
import TreeJudge.Proofs.Tree.Reach
import TreeJudge.Proofs.Tree.Forest
import TreeJudge.Proofs.Render.Verdicts
import TreeJudge.Proofs.Tree.Margin
import TreeJudge.Proofs.Tree.Plainly
import TreeJudge.Proofs.Tree.Titles
import TreeJudge.Proofs.Session.Questions
import TreeJudge.Proofs.Console.Pictures
import TreeJudge.Proofs.Console.Outputs
import TreeJudge.Proofs.Render.Stripped
import TreeJudge.Proofs.Session.Lifecycle
import TreeJudge.Proofs.Config.Layers
import TreeJudge.Proofs.Config.RoundTrip
import TreeJudge.Proofs.Render.Recolored
import TreeJudge.Proofs.Console.Lines
import TreeJudge.Proofs.Text.Encoded
import TreeJudge.Proofs.Options.Levels
import TreeJudge.Proofs.Session.Confirmations
import TreeJudge.Proofs.Options.Words
import TreeJudge.Proofs.Options.Phrases
import TreeJudge.Proofs.Options.Sides
import TreeJudge.Proofs.Options.Precedence
import TreeJudge.Proofs.Tree.Segments
import TreeJudge.Proofs.Render.Details
