import Backstep.Main
import Backstep.Proofs.Listing.Grammar
import Backstep.Proofs.Machine.Mirror
import Backstep.Proofs.Machine.Table
import Backstep.Proofs.Narrowing
import Backstep.Proofs.Placement
import Backstep.Proofs.Rendezvous
import Backstep.Proofs.Workbench.Loading
import Backstep.Proofs.Workbench.Notable
import Backstep.Proofs.Workbench.Numbers
import Backstep.Proofs.Workbench.Stars
