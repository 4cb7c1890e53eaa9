import Walkthrough.Main
import Walkthrough.Service.Address
import Walkthrough.Service.Session
import Walkthrough.Proofs.Outline
import Walkthrough.Proofs.Records
import Walkthrough.Proofs.Frames
import Walkthrough.Proofs.StraightLine.Simulation
import Walkthrough.Proofs.Edges
import Walkthrough.Proofs.Growth
import Walkthrough.Proofs.Causality
import Walkthrough.Proofs.SkippedLines
import Walkthrough.Proofs.Addresses
import Walkthrough.Proofs.Sessions
import Walkthrough.Proofs.Json.Lexing
import Walkthrough.Proofs.Calls
import Walkthrough.Proofs.Json.Paths
import Walkthrough.Proofs.ParameterOrder
import Walkthrough.Proofs.Decoding
import Walkthrough.Proofs.Envelope
import Walkthrough.Proofs.Responses
import Walkthrough.Proofs.Json.Context
import Walkthrough.Proofs.Decoders
import Walkthrough.Proofs.Double.Rounding
import Walkthrough.Proofs.Double.Shortest
import Walkthrough.Proofs.Json.Literals
import Walkthrough.Proofs.Values
import Walkthrough.Proofs.CleanValues
import Walkthrough.Proofs.Replies
import Walkthrough.Proofs.Json.Spacing
import Walkthrough.Proofs.Json.Reordering
import Walkthrough.Proofs.Encodings
import Walkthrough.Proofs.Json.Injective
import Walkthrough.Proofs.Losslessness
import Walkthrough.Proofs.Double.Overflow
import Walkthrough.Proofs.ValueEncoding
import Walkthrough.Proofs.Flowchart
import Walkthrough.Proofs.Listing
import Walkthrough.Proofs.CommandLine
import Walkthrough.Proofs.Text.Case
import Walkthrough.Proofs.Validation
import Walkthrough.Proofs.FieldErrors
import Walkthrough.Proofs.DisplayedValues
import Walkthrough.Proofs.Targets
import Walkthrough.Proofs.AssigningLines
import Walkthrough.Proofs.Numerals
import Walkthrough.Proofs.Inference
import Walkthrough.Proofs.Headers
import Walkthrough.Proofs.Shapes
