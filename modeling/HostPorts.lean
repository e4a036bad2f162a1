import HostPorts.Api.Client
import HostPorts.Deletion
import HostPorts.Main
import HostPorts.Store.Change
import HostPorts.Store.Listing
import HostPorts.Watch
import HostPorts.Proofs.Store.Effect
import HostPorts.Proofs.Store.History
import HostPorts.Proofs.Pass.Deeds
import HostPorts.Proofs.Pass.Runs
import HostPorts.Proofs.Port.Dangling
import HostPorts.Proofs.Port.Serial
import HostPorts.Proofs.Admission.Injection
import HostPorts.Proofs.Pod.Exclusive
import HostPorts.Proofs.Pass.Courses
import HostPorts.Proofs.Object.Lifecycle
import HostPorts.Proofs.Pool.Disjoint
import HostPorts.Proofs.Pass.Faults
import HostPorts.Proofs.Claim.Backing
import HostPorts.Proofs.Port.Orphan
import HostPorts.Proofs.Object.Goal
import HostPorts.Proofs.Store.Calls
import HostPorts.Proofs.Store.Protection
import HostPorts.Proofs.Pass.Requests
import HostPorts.Proofs.Admission.Agreement
import HostPorts.Proofs.Object.Teardown
import HostPorts.Proofs.Object.Watched
import HostPorts.Proofs.Api.Patches
import HostPorts.Proofs.Admission.Mutation
import HostPorts.Proofs.Pod.Foreign
import HostPorts.Proofs.Pool.Registry
import HostPorts.Proofs.Object.Stable
import HostPorts.Proofs.Retry.Delays
import HostPorts.Proofs.Object.Release
import HostPorts.Proofs.Claim.Healing
import HostPorts.Proofs.Pass.Atomic
import HostPorts.Proofs.Pod.Injected
import HostPorts.Proofs.Allocation.Drain
import HostPorts.Proofs.Allocation.Listing
import HostPorts.Proofs.Admission.Chains
import HostPorts.Proofs.Condition.Ledger
import HostPorts.Proofs.Pod.Claims
import HostPorts.Proofs.Protection.Tokens
