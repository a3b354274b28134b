import Hosting.AutoImport
import Hosting.Backoff
import Hosting.Cluster
import Hosting.Dialogue
import Hosting.Failure
import Hosting.Finalizer
import Hosting.HostedWork
import Hosting.Hub.Client
import Hosting.Hub.Memory
import Hosting.Json.Merge
import Hosting.Json.Reader
import Hosting.Json.Writer
import Hosting.Outcome
import Hosting.Payload.Slices
import Hosting.Probe
import Hosting.Proofs.Access
import Hosting.Proofs.Announcement
import Hosting.Proofs.Attempts
import Hosting.Proofs.Backoff
import Hosting.Proofs.Bringing
import Hosting.Proofs.ClusterWorks
import Hosting.Proofs.Conditions
import Hosting.Proofs.Conditions.Sequence
import Hosting.Proofs.Convergence
import Hosting.Proofs.Credentials
import Hosting.Proofs.Deadlines
import Hosting.Proofs.Detachment
import Hosting.Proofs.Dialogue
import Hosting.Proofs.Document
import Hosting.Proofs.Finalizer
import Hosting.Proofs.Finalizer.Sequence
import Hosting.Proofs.FinalizerSync
import Hosting.Proofs.ForcedDeletion
import Hosting.Proofs.Gates
import Hosting.Proofs.HostedWork
import Hosting.Proofs.Hub.Answer
import Hosting.Proofs.Hub.Footprint
import Hosting.Proofs.Hub.Frame
import Hosting.Proofs.Hub.Query
import Hosting.Proofs.Hub.Twins
import Hosting.Proofs.Hub.Update
import Hosting.Proofs.ImportState
import Hosting.Proofs.Independence
import Hosting.Proofs.Instant.Calendar
import Hosting.Proofs.Instant.Text
import Hosting.Proofs.Interleaving
import Hosting.Proofs.Interrupted
import Hosting.Proofs.Json
import Hosting.Proofs.Json.Decode
import Hosting.Proofs.Json.Merge
import Hosting.Proofs.Json.Written
import Hosting.Proofs.Kubeconfig
import Hosting.Proofs.Ledger
import Hosting.Proofs.Leftovers
import Hosting.Proofs.Mutation
import Hosting.Proofs.Overwriting
import Hosting.Proofs.Pass.Abreast
import Hosting.Proofs.Pass.Conduct
import Hosting.Proofs.Pass.Deletion
import Hosting.Proofs.Pass.Force
import Hosting.Proofs.Pass.Goal
import Hosting.Proofs.Pass.Import
import Hosting.Proofs.Pass.Plan
import Hosting.Proofs.Pass.Settled
import Hosting.Proofs.Pass.Steps
import Hosting.Proofs.Patching
import Hosting.Proofs.Payload
import Hosting.Proofs.Payload.Documents
import Hosting.Proofs.Payload.Joining
import Hosting.Proofs.Payload.Slices
import Hosting.Proofs.Probe
import Hosting.Proofs.Reach
import Hosting.Proofs.Reconcile
import Hosting.Proofs.Recovery
import Hosting.Proofs.Release
import Hosting.Proofs.Resource
import Hosting.Proofs.Retrying
import Hosting.Proofs.RoundTrip
import Hosting.Proofs.Run
import Hosting.Proofs.Serial
import Hosting.Proofs.Settings
import Hosting.Proofs.SocketAddress
import Hosting.Proofs.Table
import Hosting.Proofs.Teardown
import Hosting.Proofs.Text.Numeral
import Hosting.Proofs.Version
import Hosting.Proofs.Watch.Source
import Hosting.Proofs.Watch.Stream
import Hosting.Proofs.Yaml.Glyph
import Hosting.Proofs.Yaml.Node
import Hosting.Proofs.Yaml.Token.Entry
import Hosting.Proofs.Yaml.Token.Literal
import Hosting.Proofs.Yaml.Token.Plain
import Hosting.Proofs.Yaml.Token.Quoted
import Hosting.Proofs.Yaml.Token.Scalar
import Hosting.Proofs.Yaml.Token.Stream
import Hosting.Proofs.Yaml.Value
import Hosting.Proofs.Yaml.Written
import Hosting.Reconcile
import Hosting.Resource.AddOn
import Hosting.Resource.ManagedCluster
import Hosting.Resource.ManifestWork
import Hosting.Resource.Secret
import Hosting.Settings
import Hosting.Text.Quoted
import Hosting.Watch.Loop
import Hosting.Watch.Source
import Hosting.Watch.Stream
import Hosting.Work
