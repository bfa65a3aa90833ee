import RemoteNodes.Fetch.Prepared
import RemoteNodes.Main
import RemoteNodes.Network.Prepared
import RemoteNodes.Network.Throttle
import RemoteNodes.Network.Variable
import RemoteNodes.Proofs.Fetch.Session
import RemoteNodes.Proofs.Json.Paths
import RemoteNodes.Proofs.Fetch.Walk
import RemoteNodes.Proofs.Fetch.Strategy
import RemoteNodes.Proofs.Fetch.Combine
import RemoteNodes.Proofs.Fetch.Loss
import RemoteNodes.Proofs.Fetch.LimitOffset
import RemoteNodes.Proofs.Fetch.RelayForward
import RemoteNodes.Proofs.Fetch.Merging
import RemoteNodes.Proofs.Document.Reachable
import RemoteNodes.Proofs.Document.Stages
import RemoteNodes.Proofs.Fetch.Requests
import RemoteNodes.Proofs.Node.Usages
import RemoteNodes.Proofs.Document.Compilation
import RemoteNodes.Proofs.Document.Closed
import RemoteNodes.Proofs.Document.Names
import RemoteNodes.Proofs.Document.Filled
import RemoteNodes.Proofs.Document.Duplicates
import RemoteNodes.Proofs.Document.Unused
import RemoteNodes.Proofs.Document.Identity
import RemoteNodes.Proofs.Response.Lossless
import RemoteNodes.Proofs.Document.Scoped
import RemoteNodes.Proofs.Fragment.Complete
import RemoteNodes.Proofs.Document.Discriminated
import RemoteNodes.Proofs.Document.Defaults
import RemoteNodes.Proofs.Fragment.Usable
import RemoteNodes.Proofs.Node.Identity
import RemoteNodes.Proofs.Node.Shallow
import RemoteNodes.Proofs.Response.Narrowing
import RemoteNodes.Proofs.Node.Interfaces
import RemoteNodes.Proofs.Node.Nested
import RemoteNodes.Proofs.Node.Merging
import RemoteNodes.Proofs.Document.Finished
import RemoteNodes.Proofs.Document.Identified
import RemoteNodes.Proofs.Document.Isolated
import RemoteNodes.Proofs.Document.Permuted
import RemoteNodes.Proofs.Document.Preserved
import RemoteNodes.Proofs.Fetch.Delivered
import RemoteNodes.Proofs.Response.Included
import RemoteNodes.Proofs.Document.Failure
import RemoteNodes.Proofs.Document.Preorder
import RemoteNodes.Proofs.Document.Variables
import RemoteNodes.Proofs.Fetch.Planned
import RemoteNodes.Proofs.Fetch.Faults
import RemoteNodes.Proofs.Selection.Mutual
import RemoteNodes.Proofs.Document.Pruned
import RemoteNodes.Proofs.Document.Declared
import RemoteNodes.Proofs.Document.Inserted
import RemoteNodes.Proofs.Json.Frames
import RemoteNodes.Proofs.Node.Extraction
import RemoteNodes.Proofs.Node.NodeInterfaces
import RemoteNodes.Proofs.Document.Search
import RemoteNodes.Proofs.Selection.Removed
import RemoteNodes.Proofs.Fragment.Arguments
import RemoteNodes.Proofs.Node.ReferenceScope
import RemoteNodes.Proofs.Fragment.Keys
import RemoteNodes.Proofs.Selection.Sets
import RemoteNodes.Proofs.Response.Unwrapped
import RemoteNodes.Proofs.Node.Applicable
import RemoteNodes.Proofs.Storage.Tree
import RemoteNodes.Proofs.Storage.FragmentFiles
