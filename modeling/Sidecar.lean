import Sidecar.Main
import Sidecar.Proofs.Course
import Sidecar.Proofs.Observation
import Sidecar.Proofs.Session
import Sidecar.Proofs.Finding
import Sidecar.Proofs.Precedence
import Sidecar.Proofs.Timeline
import Sidecar.Proofs.Settlement
import Sidecar.Proofs.Retries
import Sidecar.Proofs.Conversation
import Sidecar.Proofs.Planning
import Sidecar.Proofs.Lifecycle
import Sidecar.Proofs.Agreement
import Sidecar.Proofs.Telling
import Sidecar.Proofs.Scan
import Sidecar.Proofs.Expansion
import Sidecar.Proofs.Pumping
import Sidecar.Proofs.Measuring
import Sidecar.Proofs.Rooting
import Sidecar.Proofs.Ordering
import Sidecar.Proofs.Stages
import Sidecar.Proofs.Variables
import Sidecar.Proofs.Totals
import Sidecar.Proofs.Serialization
import Sidecar.Proofs.Inspection
import Sidecar.Proofs.Formats
import Sidecar.Proofs.Status
import Sidecar.Proofs.Sharing
