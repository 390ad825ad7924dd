import DialogueSync.Cache.Memory
import DialogueSync.Cache.Scripted
import DialogueSync.Client.Operation
import DialogueSync.Config
import DialogueSync.Proofs.Cache.Quota
import DialogueSync.Proofs.Client.Acceptance
import DialogueSync.Proofs.Client.Accuracy
import DialogueSync.Proofs.Client.CarryOver
import DialogueSync.Proofs.Client.ChildOrder
import DialogueSync.Proofs.Client.Coherence
import DialogueSync.Proofs.Client.Consolidation
import DialogueSync.Proofs.Client.Convergence
import DialogueSync.Proofs.Client.Degradation
import DialogueSync.Proofs.Client.Durability
import DialogueSync.Proofs.Client.Failure
import DialogueSync.Proofs.Client.Inheritance
import DialogueSync.Proofs.Client.Invariants
import DialogueSync.Proofs.Client.Isolation
import DialogueSync.Proofs.Client.Merging
import DialogueSync.Proofs.Client.Overtaking
import DialogueSync.Proofs.Client.Provenance
import DialogueSync.Proofs.Client.Refusal
import DialogueSync.Proofs.Client.Relinking
import DialogueSync.Proofs.Client.Reopening
import DialogueSync.Proofs.Client.Repetition
import DialogueSync.Proofs.Client.Restoring
import DialogueSync.Proofs.Client.Revision
import DialogueSync.Proofs.Client.Selection
import DialogueSync.Proofs.Client.Staleness
import DialogueSync.Proofs.Client.Storing
import DialogueSync.Proofs.Client.Streaming
import DialogueSync.Proofs.Client.Supply
import DialogueSync.Proofs.Client.Survival
import DialogueSync.Proofs.Client.Tagging
import DialogueSync.Proofs.Client.Traffic
import DialogueSync.Proofs.Client.Transitions
import DialogueSync.Proofs.Client.Wholeness
import DialogueSync.Proofs.Codec.Recoding
import DialogueSync.Proofs.Fingerprint
import DialogueSync.Proofs.Http.Url
import DialogueSync.Proofs.Remote.Addressing
import DialogueSync.Proofs.Remote.Snapshots
import DialogueSync.Proofs.Remote.Truthful
import DialogueSync.Proofs.Server.Admission
import DialogueSync.Proofs.Server.Answers
import DialogueSync.Proofs.Server.Atomicity
import DialogueSync.Proofs.Server.Rows
import DialogueSync.Proofs.Server.Store
import DialogueSync.Proofs.Stream.Reporting
import DialogueSync.Proofs.Tree.Attaching
import DialogueSync.Proofs.Tree.Branches
import DialogueSync.Proofs.Tree.Choosing
import DialogueSync.Proofs.Tree.Families
import DialogueSync.Proofs.Tree.Growing
import DialogueSync.Proofs.Tree.Loading
import DialogueSync.Proofs.Tree.Removal
import DialogueSync.Remote.Archive
import DialogueSync.Remote.Http
import DialogueSync.Remote.Scripted
import DialogueSync.Server.Api
import DialogueSync.Time.Clock
