import Datamodel.Main
import Datamodel.Schema.Builder
import Datamodel.Proofs.CommandLine.Mix
import Datamodel.Proofs.Merge
import Datamodel.Proofs.Merge.Regrouping
import Datamodel.Proofs.Merge.Names
import Datamodel.Proofs.Merge.Defaults
import Datamodel.Proofs.Merge.Indexes
import Datamodel.Proofs.Merge.Repeated
import Datamodel.Proofs.Schema.Refused
import Datamodel.Proofs.Schema.RoundTrip
import Datamodel.Proofs.Stability.Config
import Datamodel.Proofs.Stability.Rerender
import Datamodel.Proofs.Stability.Restated
import Datamodel.Proofs.Inputs.Named
import Datamodel.Proofs.Inputs.Scanned
import Datamodel.Proofs.Loading.Columns
import Datamodel.Proofs.Loading.Displayed
import Datamodel.Proofs.Loading.Documentation
import Datamodel.Proofs.Loading.Indexes
import Datamodel.Proofs.Loading.Joined
import Datamodel.Proofs.Loading.Overlay
import Datamodel.Proofs.Mixing.DryRun
import Datamodel.Proofs.Mixing.Output
import Datamodel.Proofs.Resolution.Acceptance
import Datamodel.Proofs.Resolution.Order
import Datamodel.Proofs.Spacing.Insertion
import Datamodel.Proofs.Spacing.Trailing
import Datamodel.Proofs.Token.Positions
