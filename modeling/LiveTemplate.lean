import LiveTemplate.Main
import LiveTemplate.Simulation.Report
import LiveTemplate.Expr.Inspection
import LiveTemplate.Session.Bindings
import LiveTemplate.Session.Globals
import LiveTemplate.Session.Listening
import LiveTemplate.Session.Run
import LiveTemplate.Proofs.Propagation
import LiveTemplate.Proofs.Debounce
import LiveTemplate.Proofs.Overtaking
import LiveTemplate.Proofs.Resolution
import LiveTemplate.Proofs.Declarations
import LiveTemplate.Proofs.Answering
import LiveTemplate.Proofs.Vocabulary
import LiveTemplate.Proofs.Registrations
import LiveTemplate.Proofs.Notification
import LiveTemplate.Proofs.Commuting
import LiveTemplate.Proofs.Schema
import LiveTemplate.Proofs.Tagging
import LiveTemplate.Proofs.Ringing
import LiveTemplate.Proofs.Omission
import LiveTemplate.Proofs.Forward
import LiveTemplate.Proofs.Placement
import LiveTemplate.Proofs.Publication
import LiveTemplate.Proofs.Folding
import LiveTemplate.Proofs.Toggling
import LiveTemplate.Proofs.Evaluation
import LiveTemplate.Proofs.Interchange
import LiveTemplate.Proofs.Ordering
import LiveTemplate.Proofs.Instants
import LiveTemplate.Proofs.Merging
import LiveTemplate.Proofs.Formats
import LiveTemplate.Proofs.Containment
import LiveTemplate.Proofs.Nesting
import LiveTemplate.Proofs.Watching
import LiveTemplate.Proofs.Enrolling
import LiveTemplate.Proofs.Rounding
import LiveTemplate.Proofs.Mantissas
import LiveTemplate.Proofs.Doubles
import LiveTemplate.Proofs.Figures
import LiveTemplate.Proofs.Integers
import LiveTemplate.Proofs.Decoding
import LiveTemplate.Proofs.Documentation
import LiveTemplate.Proofs.Misuses
import LiveTemplate.Proofs.Ending
import LiveTemplate.Proofs.Dispatch
import LiveTemplate.Proofs.Support
import LiveTemplate.Proofs.Places
import LiveTemplate.Proofs.Spans
import LiveTemplate.Proofs.TagShape
