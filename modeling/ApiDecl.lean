import ApiDecl.Command.Directory
import ApiDecl.Main
import ApiDecl.Payload.Conversion
import ApiDecl.Transform.Interpreter
import ApiDecl.Proofs.Json.Member
import ApiDecl.Proofs.Payload.Route
import ApiDecl.Proofs.Transform.Visits
import ApiDecl.Proofs.Transform.Denotation
import ApiDecl.Proofs.Transform.Liveness
import ApiDecl.Proofs.Transform.Pruning
import ApiDecl.Proofs.Transform.References
import ApiDecl.Proofs.Types.Walk
import ApiDecl.Proofs.Draft
import ApiDecl.Proofs.Text.Identifier
import ApiDecl.Proofs.Types.Closure
import ApiDecl.Proofs.Declarations
import ApiDecl.Proofs.Payload.Conversion
import ApiDecl.Proofs.Description.Validity
import ApiDecl.Proofs.Types.Admission
import ApiDecl.Proofs.Types.Inclusion
import ApiDecl.Proofs.Types.Sites
import ApiDecl.Proofs.Description.Parts
import ApiDecl.Proofs.Types.Contents
import ApiDecl.Proofs.Operation.Contents
import ApiDecl.Proofs.Closed
import ApiDecl.Proofs.Types.Agreement
import ApiDecl.Proofs.Operation.Agreement
import ApiDecl.Operation.Session
import ApiDecl.Proofs.Session
import ApiDecl.Proofs.Calendar.DateTime
import ApiDecl.Proofs.Payload.RoundTrip
import ApiDecl.Proofs.Description.Component
import ApiDecl.Proofs.Description.Positions
import ApiDecl.Proofs.Resolved
import ApiDecl.Proofs.Types.Names
import ApiDecl.Proofs.Names
import ApiDecl.Proofs.Inlining
import ApiDecl.Proofs.Json.Keyed
import ApiDecl.Proofs.Json.RoundTrip
import ApiDecl.Proofs.Yaml.Keyed
import ApiDecl.Proofs.Description.Reading
import ApiDecl.Proofs.Types.Reach
import ApiDecl.Proofs.Compilation
import ApiDecl.Proofs.Transform.Reordering
import ApiDecl.Proofs.Reordering
import ApiDecl.Proofs.Transform.Execution
import ApiDecl.Proofs.Transform.Position
import ApiDecl.Proofs.Transform.Termination
import ApiDecl.Proofs.Transform.Calls
import ApiDecl.Proofs.Types.Ways
import ApiDecl.Proofs.Payload.Calls
import ApiDecl.Proofs.Payload.Members
import ApiDecl.Proofs.Types.Bare
import ApiDecl.Proofs.Types.Labels
import ApiDecl.Proofs.Operation.Labels
import ApiDecl.Proofs.Options
import ApiDecl.Proofs.Transform.NormalForm
import ApiDecl.Proofs.Transform.Encoding
import ApiDecl.Proofs.Payload.Wire
import ApiDecl.Proofs.Types.Entering
import ApiDecl.Proofs.Coverage
import ApiDecl.Proofs.Transform.Effective
import ApiDecl.Proofs.Types.Merging
import ApiDecl.Proofs.Types.Requirements
import ApiDecl.Proofs.Transform.Walks
import ApiDecl.Proofs.Transform.Strict
import ApiDecl.Proofs.Types.Discriminators
import ApiDecl.Proofs.Types.OwnMembers
import ApiDecl.Proofs.Types.Enumerations
import ApiDecl.Proofs.Operation.Parameters
import ApiDecl.Proofs.Operation.Path
import ApiDecl.Proofs.Auth.Request
import ApiDecl.Proofs.Auth.Method
import ApiDecl.Proofs.Auth.Configuration
import ApiDecl.Proofs.Types.Size
import ApiDecl.Proofs.Types.Proportion
import ApiDecl.Proofs.Transform.Registration
import ApiDecl.Proofs.Types.Form
import ApiDecl.Proofs.Transform.Grouping
import ApiDecl.Proofs.Transform.Resumption
import ApiDecl.Proofs.Text.FreeName
import ApiDecl.Proofs.Text.Address
