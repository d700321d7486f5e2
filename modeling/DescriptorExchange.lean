import DescriptorExchange.Main
import DescriptorExchange.Proofs.Configuration.Duplication
import DescriptorExchange.Proofs.Connection.Displacement
import DescriptorExchange.Proofs.Containment.Subtree
import DescriptorExchange.Proofs.Coordinator.Attendance
import DescriptorExchange.Proofs.Exchange.Announcing
import DescriptorExchange.Proofs.Exchange.Backing
import DescriptorExchange.Proofs.Exchange.Chain
import DescriptorExchange.Proofs.Exchange.EventData
import DescriptorExchange.Proofs.Exchange.FailedMerges
import DescriptorExchange.Proofs.Exchange.Failures
import DescriptorExchange.Proofs.Exchange.KnownTermini
import DescriptorExchange.Proofs.Exchange.Landing
import DescriptorExchange.Proofs.Exchange.Lifecycle
import DescriptorExchange.Proofs.Exchange.Notices
import DescriptorExchange.Proofs.Exchange.Overtaking
import DescriptorExchange.Proofs.Exchange.Provenance
import DescriptorExchange.Proofs.Exchange.Refetching
import DescriptorExchange.Proofs.Exchange.Reverting
import DescriptorExchange.Proofs.Exchange.Serving
import DescriptorExchange.Proofs.Exchange.Stability
import DescriptorExchange.Proofs.Exchange.Staleness
import DescriptorExchange.Proofs.Exchange.Telling
import DescriptorExchange.Proofs.Exchange.Termination
import DescriptorExchange.Proofs.Message.FrameStream
import DescriptorExchange.Proofs.Message.RoundTrip
import DescriptorExchange.Proofs.Message.StreamEnd
import DescriptorExchange.Proofs.Record.Patches
import DescriptorExchange.Proofs.Record.RoundTrip
import DescriptorExchange.Proofs.Repository.Filing
import DescriptorExchange.Proofs.Repository.Relation
import DescriptorExchange.Proofs.Requester.Collision
import DescriptorExchange.Proofs.Requester.Dispatch
import DescriptorExchange.Proofs.Requester.Reuse
import DescriptorExchange.Proofs.Sensors
import DescriptorExchange.Proofs.Supervisor
import DescriptorExchange.Simulation.Rehearsal
import DescriptorExchange.Simulation.Service
import DescriptorExchange.Simulation.Socket
