import Dataflow.Main
import Dataflow.Run.Probe
import Dataflow.Source.Outline
import Dataflow.Proofs.Run.Nesting
import Dataflow.Proofs.Run.Lookup
import Dataflow.Proofs.Run.Alike
import Dataflow.Proofs.Run.Choice
import Dataflow.Proofs.Run.Confluence
import Dataflow.Proofs.Cache.Files
import Dataflow.Proofs.Cache.Sharing
import Dataflow.Proofs.Run.Schedules
import Dataflow.Proofs.Compile.Emission
import Dataflow.Proofs.Compile.Statements
import Dataflow.Proofs.Compile.Agreement
import Dataflow.Proofs.Run.Internal
import Dataflow.Proofs.Run.Limit
import Dataflow.Proofs.Run.Ending
import Dataflow.Proofs.Graph.Edges
import Dataflow.Proofs.Run.Registered
import Dataflow.Proofs.Run.Congruence
import Dataflow.Proofs.Grammar.Depth
import Dataflow.Proofs.Graph.Topological
import Dataflow.Proofs.Graph.Tasks
import Dataflow.Proofs.Graph.Streams
import Dataflow.Proofs.Graph.ProgramOrder
import Dataflow.Proofs.Graph.WellFormed
import Dataflow.Proofs.Source.Programs
import Dataflow.Proofs.Source.Heights
import Dataflow.Proofs.Run.Identity
import Dataflow.Proofs.Compile.Constants
import Dataflow.Proofs.Compile.ExactPool
import Dataflow.Proofs.Compile.Scoping
import Dataflow.Proofs.Grammar.Boundaries
import Dataflow.Proofs.Run.Integers
import Dataflow.Proofs.Source.Located
import Dataflow.Proofs.Source.Locations
import Dataflow.Proofs.Direct.Evaluate
import Dataflow.Proofs.Direct.Render
import Dataflow.Proofs.Direct.Order
import Dataflow.Proofs.Direct.Tandem
import Dataflow.Proofs.Direct.Outcome
import Dataflow.Proofs.Direct.Stage
import Dataflow.Proofs.Direct.Expressions
import Dataflow.Proofs.Direct.Bodies
import Dataflow.Proofs.Direct.Calls
import Dataflow.Proofs.Direct.Requests
import Dataflow.Proofs.Direct.Mentions
import Dataflow.Proofs.Direct.Preservation
import Dataflow.Proofs.Graph.Arithmetic
import Dataflow.Proofs.Cache.Map
import Dataflow.Proofs.Value.Equality
import Dataflow.Proofs.Run.Signatures
