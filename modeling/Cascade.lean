import Cascade.Files.Memory
import Cascade.Main
import Cascade.Pool.Queue
import Cascade.Proofs.Run.Forward
import Cascade.Proofs.Run.Order
import Cascade.Proofs.Dependency.Again
import Cascade.Proofs.Digest.Directory
import Cascade.Proofs.Digest.Hex
import Cascade.Proofs.Digest.Identity
import Cascade.Proofs.Digest.Renames
import Cascade.Proofs.Digest.Selection
import Cascade.Proofs.Run.Hashes
import Cascade.Proofs.Run.History
import Cascade.Proofs.Run.Repeat
import Cascade.Proofs.Dependency.Declared
import Cascade.Proofs.Dependency.Descent
import Cascade.Proofs.Dependency.Exact
import Cascade.Proofs.Store.Requests
import Cascade.Proofs.Graph.Cycles
import Cascade.Proofs.Graph.Operations
import Cascade.Proofs.Pool.Queue
import Cascade.Proofs.Run.Lifecycle
import Cascade.Proofs.Run.HookFailure
import Cascade.Proofs.Graph.Insertion
import Cascade.Proofs.Run.InTurn
import Cascade.Proofs.Run.Command
import Cascade.Proofs.Graph.Reparenting
import Cascade.Proofs.Graph.Pruning
import Cascade.Proofs.Graph.Unfolding
import Cascade.Proofs.Dependency.Shared
import Cascade.Proofs.Dependency.Termination
import Cascade.Proofs.Dependency.Refresh
import Cascade.Proofs.Shell.Words
import Cascade.Proofs.Hook.Event
import Cascade.Proofs.Hook.Firing
import Cascade.Proofs.ExitStatus
import Cascade.Proofs.Files.Contents
import Cascade.Proofs.Files.Tree
