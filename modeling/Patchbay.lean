import Patchbay.Json.Printer
import Patchbay.Json.Reader
import Patchbay.Lattice.Registry
import Patchbay.Board.Form
import Patchbay.Graph.Form
import Patchbay.Graph.Chain
import Patchbay.Elapsed
import Patchbay.Plan.Form
import Patchbay.Aspect.Composition
import Patchbay.Aspect.Form
import Patchbay.Gadget.Bench
import Patchbay.Gadget.Library
import Patchbay.Binder.Basic
import Patchbay.Host.Basic
import Patchbay.Proofs.Gadget.Confluence
import Patchbay.Proofs.Host.Run
import Patchbay.Proofs.Gadget.Answer
import Patchbay.Proofs.Host.Refusal
import Patchbay.Proofs.Host.Proposers
import Patchbay.Proofs.Binder.Audit
import Patchbay.Proofs.Host.Lasting
import Patchbay.Proofs.Host.Report
import Patchbay.Proofs.Board.Thinning
import Patchbay.Proofs.Graph.Thinning
import Patchbay.Proofs.Host.Removal
import Patchbay.Proofs.Contact.Fed
import Patchbay.Proofs.Propagation.Passing
import Patchbay.Proofs.Host.Feeding
import Patchbay.Proofs.Lattice.Simple
import Patchbay.Proofs.Contact.Typed
import Patchbay.Proofs.Binder.Mounting
import Patchbay.Proofs.Host.Persistence
import Patchbay.Proofs.Propagation.Bounds
import Patchbay.Proofs.Graph.Separation
import Patchbay.Proofs.Graph.Reordering
import Patchbay.Proofs.Contact.Making
import Patchbay.Proofs.Propagation.Depth
import Patchbay.Proofs.Contact.Integers
import Patchbay.Proofs.Graph.Composition
import Patchbay.Proofs.Graph.Form
import Patchbay.Proofs.Propagation.Routes
import Patchbay.Proofs.Propagation.Onward
import Patchbay.Proofs.Graph.Passage
import Patchbay.Proofs.Graph.Flow
import Patchbay.Proofs.Binder.Unseen
import Patchbay.Proofs.Binder.Undoing
import Patchbay.Proofs.Board.WellFormed
import Patchbay.Proofs.Board.Naming
import Patchbay.Proofs.Plan.Form
import Patchbay.Proofs.Graph.Provenance
import Patchbay.Proofs.Aspect.Rates
import Patchbay.Proofs.Propagation.Failure
import Patchbay.Proofs.Gadget.Counting
import Patchbay.Proofs.Graph.Grouping
import Patchbay.Proofs.Gadget.Lookout
import Patchbay.Proofs.Graph.Circle
import Patchbay.Proofs.Graph.Limits
import Patchbay.Proofs.Gadget.Exchange
