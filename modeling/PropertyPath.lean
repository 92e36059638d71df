import PropertyPath.Bookstore
import PropertyPath.Demo
import PropertyPath.Fault
import PropertyPath.Json.Basic
import PropertyPath.Json.Number
import PropertyPath.Listing
import PropertyPath.Main
import PropertyPath.Path.Basic
import PropertyPath.Path.OfSegments
import PropertyPath.Path.OfTokens
import PropertyPath.Path.Parse
import PropertyPath.Proofs.Grammar.Basic
import PropertyPath.Proofs.Grammar.Beginning
import PropertyPath.Proofs.Grammar.Completion
import PropertyPath.Proofs.Grammar.Context
import PropertyPath.Proofs.Grammar.Edges
import PropertyPath.Proofs.Grammar.Join
import PropertyPath.Proofs.Grammar.Misfit
import PropertyPath.Proofs.Grammar.OutOfRange
import PropertyPath.Proofs.Grammar.Reading
import PropertyPath.Proofs.Grammar.Tokens
import PropertyPath.Proofs.Grammar.Unique
import PropertyPath.Proofs.Path.Agreement
import PropertyPath.Proofs.Path.Append
import PropertyPath.Proofs.Path.Canonical
import PropertyPath.Proofs.Path.Content
import PropertyPath.Proofs.Path.FirstFault
import PropertyPath.Proofs.Path.FlatView
import PropertyPath.Proofs.Path.Message
import PropertyPath.Proofs.Path.Parse
import PropertyPath.Proofs.Path.Position
import PropertyPath.Proofs.Path.RoundTrip
import PropertyPath.Proofs.Path.Shift
import PropertyPath.Proofs.Path.WellFormed
import PropertyPath.Proofs.Query.Account
import PropertyPath.Proofs.Query.Append
import PropertyPath.Proofs.Query.FlatWalk
import PropertyPath.Proofs.Query.Index
import PropertyPath.Proofs.Query.Keys
import PropertyPath.Proofs.Query.Nil
import PropertyPath.Proofs.Query.Policy
import PropertyPath.Proofs.Query.Representation
import PropertyPath.Proofs.Query.Shadow
import PropertyPath.Proofs.Query.Simulation
import PropertyPath.Proofs.Query.Source
import PropertyPath.Proofs.Query.Walk
import PropertyPath.Proofs.Query.Wording
import PropertyPath.Proofs.Query.Wrapping
import PropertyPath.Proofs.Text.Integer
import PropertyPath.Proofs.Text.Run
import PropertyPath.Proofs.Token.Lexer
import PropertyPath.Proofs.Token.Lookahead
import PropertyPath.Proofs.Token.Name
import PropertyPath.Proofs.Token.Order
import PropertyPath.Proofs.Token.Shift
import PropertyPath.Proofs.Token.Tiling
import PropertyPath.Proofs.Value.Position
import PropertyPath.Proofs.Value.Related
import PropertyPath.Query.Basic
import PropertyPath.Query.Log
import PropertyPath.Query.Options
import PropertyPath.Query.Outcome
import PropertyPath.Text.Integer
import PropertyPath.Text.WhiteSpace
import PropertyPath.Token.Basic
import PropertyPath.Token.Lexer
import PropertyPath.Token.Reading
import PropertyPath.Token.Scan
import PropertyPath.Value.Host
import PropertyPath.Value.Probe
import PropertyPath.Value.Scalar
import PropertyPath.Value.View
