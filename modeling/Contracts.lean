import Contracts.CommandLine.Output
import Contracts.Main
import Contracts.Proofs.Clause.Registration
import Contracts.Proofs.CommandLine.Limit
import Contracts.Proofs.Grammar.Expression
import Contracts.Proofs.Grammar.Fresh
import Contracts.Proofs.Grammar.Layers
import Contracts.Proofs.Grammar.Nesting
import Contracts.Proofs.Grammar.Own
import Contracts.Proofs.Grammar.Piece
import Contracts.Proofs.Grammar.Recast
import Contracts.Proofs.Grammar.Recovered
import Contracts.Proofs.Grammar.Registered
import Contracts.Proofs.Grammar.Renamed
import Contracts.Proofs.Grammar.Whole
import Contracts.Proofs.Layout.Checked
import Contracts.Proofs.Layout.Extension
import Contracts.Proofs.Layout.Independence
import Contracts.Proofs.Layout.Locations
import Contracts.Proofs.Layout.Mirrored
import Contracts.Proofs.Layout.Moves
import Contracts.Proofs.Layout.Nested
import Contracts.Proofs.Layout.Outline
import Contracts.Proofs.Layout.Placed
import Contracts.Proofs.Layout.Placing
import Contracts.Proofs.Layout.Reported
import Contracts.Proofs.Layout.Spans
import Contracts.Proofs.Lexing.Division
import Contracts.Proofs.Lexing.FirstPiece
import Contracts.Proofs.Lexing.Lines
import Contracts.Proofs.Lexing.Marks
import Contracts.Proofs.Lexing.Recogniser
import Contracts.Proofs.Lexing.Separated
import Contracts.Proofs.Lexing.Spelling
import Contracts.Proofs.Parsing.Charged
import Contracts.Proofs.Parsing.ClauseRecovery
import Contracts.Proofs.Parsing.Complete
import Contracts.Proofs.Parsing.Consumption
import Contracts.Proofs.Parsing.Containment
import Contracts.Proofs.Parsing.Content
import Contracts.Proofs.Parsing.ExpressionComplete
import Contracts.Proofs.Parsing.ExpressionSound
import Contracts.Proofs.Parsing.Ledger
import Contracts.Proofs.Parsing.Mended
import Contracts.Proofs.Parsing.Mode
import Contracts.Proofs.Parsing.Nesting
import Contracts.Proofs.Parsing.OpenEnd
import Contracts.Proofs.Parsing.Progress
import Contracts.Proofs.Parsing.Recast
import Contracts.Proofs.Parsing.Registered
import Contracts.Proofs.Parsing.RoundTrip
import Contracts.Proofs.Parsing.StatementComplete
import Contracts.Proofs.Parsing.Steady
import Contracts.Proofs.Parsing.Terminator
import Contracts.Proofs.Parsing.Turn
import Contracts.Proofs.Parsing.UnitComplete
import Contracts.Proofs.Parsing.UnitSound
import Contracts.Proofs.Parsing.WithoutEnd
import Contracts.Proofs.Printing.Content
import Contracts.Proofs.Printing.Expression
import Contracts.Proofs.Printing.Unit
import Contracts.Proofs.Typing.Agreement
import Contracts.Proofs.Typing.Alike
import Contracts.Proofs.Typing.Balance
import Contracts.Proofs.Typing.Blurred
import Contracts.Proofs.Typing.Capabilities
import Contracts.Proofs.Typing.Collected
import Contracts.Proofs.Typing.Declarations
import Contracts.Proofs.Typing.Effect
import Contracts.Proofs.Typing.Exchange
import Contracts.Proofs.Typing.ExpressionTyped
import Contracts.Proofs.Typing.Faultless
import Contracts.Proofs.Typing.Filled
import Contracts.Proofs.Typing.Foreign
import Contracts.Proofs.Typing.Found
import Contracts.Proofs.Typing.Gives
import Contracts.Proofs.Typing.Growth
import Contracts.Proofs.Typing.Inference
import Contracts.Proofs.Typing.Judgement
import Contracts.Proofs.Typing.Labels
import Contracts.Proofs.Typing.Locality
import Contracts.Proofs.Typing.Meets
import Contracts.Proofs.Typing.MemberTyped
import Contracts.Proofs.Typing.Met
import Contracts.Proofs.Typing.Order
import Contracts.Proofs.Typing.Outcomes
import Contracts.Proofs.Typing.Placeholders
import Contracts.Proofs.Typing.Points
import Contracts.Proofs.Typing.Recast
import Contracts.Proofs.Typing.Recheck
import Contracts.Proofs.Typing.Recorded
import Contracts.Proofs.Typing.Relaxed
import Contracts.Proofs.Typing.Resolution
import Contracts.Proofs.Typing.ResultPlaces
import Contracts.Proofs.Typing.Sessions
import Contracts.Proofs.Typing.Sites
import Contracts.Proofs.Typing.Snapshots
import Contracts.Proofs.Typing.Spotless
import Contracts.Proofs.Typing.Stable
import Contracts.Proofs.Typing.StatementTyped
import Contracts.Proofs.Typing.Surroundings
import Contracts.Proofs.Typing.Through
import Contracts.Proofs.Typing.Transparent
import Contracts.Proofs.Typing.UnitTyped
import Contracts.Proofs.Typing.Variables
import Contracts.Proofs.Typing.Workspace
import Contracts.Typing.Workspace
