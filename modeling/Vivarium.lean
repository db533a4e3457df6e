import Vivarium.Json.Source
import Vivarium.Main
import Vivarium.Scalar.Exact
import Vivarium.Scalar.Extended
import Vivarium.Proofs.Affinity.History
import Vivarium.Proofs.Affinity.Ranking
import Vivarium.Proofs.Affinity.Selection
import Vivarium.Proofs.Affinity.Renaming
import Vivarium.Proofs.Affinity.Expiry
import Vivarium.Proofs.Affinity.Imprint
import Vivarium.Proofs.Machine.Flow
import Vivarium.Proofs.Machine.Run
import Vivarium.Proofs.Machine.Blocks
import Vivarium.Proofs.Machine.Capacity
import Vivarium.Proofs.Machine.Schedule
import Vivarium.Proofs.Machine.Log
import Vivarium.Proofs.Machine.Renaming
import Vivarium.Proofs.Lineage.Inheritance
import Vivarium.Proofs.Scalar.Rounding
import Vivarium.Proofs.Scalar.Ordered
import Vivarium.Proofs.Stockpile
import Vivarium.Proofs.Stockpile.Ledger
import Vivarium.Proofs.Reserve
import Vivarium.Proofs.World.Effects
import Vivarium.Proofs.World.History
import Vivarium.Proofs.World.Intake
import Vivarium.Proofs.World.Sound
import Vivarium.Proofs.World.Kinship
import Vivarium.Proofs.World.Offers
import Vivarium.Proofs.World.Bystanders
import Vivarium.Proofs.World.Authority
import Vivarium.Proofs.World.Occupancy
import Vivarium.Proofs.World.Ledger
import Vivarium.Proofs.World.Bonds
import Vivarium.Proofs.World.Shape
import Vivarium.Proofs.World.Extension
import Vivarium.Proofs.World.Range
import Vivarium.Proofs.Frame.Triggers
import Vivarium.Proofs.Frame.Headroom
import Vivarium.Proofs.Frame.Commuting
import Vivarium.Proofs.World.Inboxes
import Vivarium.Proofs.World.Mail
import Vivarium.Proofs.Frame.Gate
import Vivarium.Proofs.Frame.Twins
import Vivarium.Proofs.Dish.History
import Vivarium.Proofs.Dish.Ledger
import Vivarium.Proofs.Dish.Intake
import Vivarium.Proofs.Dish.Rounds
import Vivarium.Proofs.Dish.LifeCycle
import Vivarium.Proofs.Dish.Range
import Vivarium.Proofs.Cell.Requests
import Vivarium.Proofs.Cell.Succession
import Vivarium.Proofs.Machine.Independence
import Vivarium.Proofs.Machine.Extinction
import Vivarium.Proofs.Membrane.History
import Vivarium.Proofs.Membrane.Parity
import Vivarium.Proofs.Scalar.Graded
import Vivarium.Proofs.Membrane.Index
import Vivarium.Proofs.Scalar.Numeric
import Vivarium.Proofs.World.Tenure
import Vivarium.Proofs.World.Threshold
import Vivarium.Proofs.World.Birth
import Vivarium.Proofs.World.Visits
import Vivarium.Proofs.Scalar.Linear
import Vivarium.Proofs.World.Attempt
import Vivarium.Proofs.Machine.Calls
import Vivarium.Proofs.World.Edges
import Vivarium.Proofs.Json.Lossless
import Vivarium.Proofs.World.Identity
import Vivarium.Proofs.Membrane.Duration
import Vivarium.Proofs.Affinity.Bias
import Vivarium.Proofs.Program.Mnemonics
import Vivarium.Proofs.Program.Matching
import Vivarium.Proofs.Json.Unchecked
import Vivarium.Proofs.World.Torus
import Vivarium.Proofs.Frame.Turns
import Vivarium.Proofs.Machine.Loops
import Vivarium.Proofs.World.Order
