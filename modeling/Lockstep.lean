import Lockstep.Alignment
import Lockstep.Alignment.Json
import Lockstep.CommandLine.Arguments
import Lockstep.CommandLine.Commands
import Lockstep.CommandLine.Host
import Lockstep.CommandLine.Path
import Lockstep.CommandLine.Workspace
import Lockstep.Comparison
import Lockstep.CompileError
import Lockstep.Compiler
import Lockstep.Compiler.Json
import Lockstep.Datum
import Lockstep.Datum.Fields
import Lockstep.Decimal
import Lockstep.Diagnostic
import Lockstep.Diagnostic.Json
import Lockstep.Duration
import Lockstep.Expression
import Lockstep.Expression.Json
import Lockstep.Identifier
import Lockstep.Instruction
import Lockstep.Instruction.Json
import Lockstep.Json
import Lockstep.Json.Printer
import Lockstep.Json.Reader
import Lockstep.Json.Token
import Lockstep.Label
import Lockstep.Lowering
import Lockstep.Main
import Lockstep.Numeral
import Lockstep.Options
import Lockstep.Pipeline
import Lockstep.Proofs.Execution
import Lockstep.Proofs.Layout
import Lockstep.Proofs.Lowered
import Lockstep.Rendezvous
import Lockstep.Schedule
import Lockstep.Schedule.Json
import Lockstep.Segment
import Lockstep.Statement
import Lockstep.Statement.Json
import Lockstep.Timing
import Lockstep.Yaml
import Lockstep.Yaml.Glyph
import Lockstep.Yaml.Plain
import Lockstep.Yaml.Reader
import Lockstep.Yaml.Scalar
import Lockstep.Yaml.Shape
import Lockstep.Yaml.Token
import Lockstep.Proofs.Machine
import Lockstep.Proofs.Simulation
import Lockstep.Proofs.Compiled
import Lockstep.Proofs.LoweredTiming
import Lockstep.Proofs.AlignedTiming
import Lockstep.Proofs.Arrangement
import Lockstep.Proofs.Points
import Lockstep.Proofs.Verification
import Lockstep.Proofs.Passage
import Lockstep.Proofs.Accepted
import Lockstep.Proofs.Ranks
import Lockstep.Proofs.Released
import Lockstep.Proofs.Relabelled
import Lockstep.Proofs.Siblings
import Lockstep.Proofs.JsonTokens
import Lockstep.Proofs.JsonValues
import Lockstep.Proofs.Records
import Lockstep.Proofs.ScheduleDocument
import Lockstep.Proofs.WalkSteps
import Lockstep.Proofs.Rounds
import Lockstep.Proofs.ProgramDocument
import Lockstep.Proofs.LanesApart
import Lockstep.Proofs.Refused
import Lockstep.Proofs.Confined
import Lockstep.Proofs.Joined
import Lockstep.Proofs.ExactTime
import Lockstep.Proofs.Spliced
import Lockstep.Proofs.Admitted
import Lockstep.Proofs.Reordered
import Lockstep.Proofs.ExpressionText
import Lockstep.Proofs.LabelRequests
import Lockstep.Proofs.Emitted
