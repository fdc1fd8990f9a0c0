import MethodRoles.Host.Machine
import MethodRoles.Main
import MethodRoles.Sketch.Lower
import MethodRoles.Syntax.Build
import MethodRoles.Proofs.Model.Faults
import MethodRoles.Proofs.Model.Loading
import MethodRoles.Proofs.Tree.Descendants
import MethodRoles.Proofs.Tree.Search
import MethodRoles.Proofs.Tree.Reach
import MethodRoles.Proofs.Role.Evidence
import MethodRoles.Proofs.Role.Judgement
import MethodRoles.Proofs.Role.Cancellation
import MethodRoles.Proofs.Role.Verdict
import MethodRoles.Proofs.Json.Lexing
import MethodRoles.Proofs.Json.RoundTrip
import MethodRoles.Proofs.Data.Record
import MethodRoles.Proofs.Model.RoundTrip
import MethodRoles.Proofs.Sketch.Forest
import MethodRoles.Proofs.Sketch.Reading
import MethodRoles.Proofs.Role.Classification
import MethodRoles.Proofs.Role.Locality
import MethodRoles.Proofs.Sketch.Lowering
import MethodRoles.Proofs.Sketch.Encoding
import MethodRoles.Proofs.Role.LoopHeader
import MethodRoles.Proofs.Role.Exclusion
import MethodRoles.Proofs.Report.Parts
import MethodRoles.Proofs.Role.Repetition
import MethodRoles.Proofs.Sketch.Statements
import MethodRoles.Proofs.Host.Machine
import MethodRoles.Proofs.Command.Reading
import MethodRoles.Proofs.Command.Splitting
import MethodRoles.Proofs.Command.Check
import MethodRoles.Proofs.Text.Cutting
import MethodRoles.Proofs.Call.Matching
import MethodRoles.Proofs.Call.TypeArguments
import MethodRoles.Proofs.Call.Delegates
import MethodRoles.Proofs.Config.Discovery
import MethodRoles.Proofs.Role.Threshold
import MethodRoles.Proofs.Role.Rendering
import MethodRoles.Proofs.Report.Colour
import MethodRoles.Proofs.Sketch.CallChain
import MethodRoles.Proofs.Data.Omission
import MethodRoles.Proofs.Config.Defaults
