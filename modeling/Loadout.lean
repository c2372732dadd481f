import Loadout.Build.Score
import Loadout.Code
import Loadout.Json.Writer
import Loadout.Number.Binary
import Loadout.Proofs.Build.WellFormed
import Loadout.Proofs.DependencyGraph.Order
import Loadout.Proofs.Formula.Completeness
import Loadout.Proofs.Settlement.Coherence
import Loadout.Proofs.Settlement.FirstPass
import Loadout.Random.Congruential
import Loadout.Search.Run
import Loadout.Proofs.Formula.Queries
import Loadout.Proofs.Settlement.Detours
import Loadout.Proofs.Number.Arithmetic
import Loadout.Proofs.Number.Order
import Loadout.Proofs.Build.Gain
import Loadout.Proofs.Search.Move
import Loadout.Proofs.Build.Outfit
import Loadout.Proofs.Search.Formable
import Loadout.Proofs.Search.Progress
import Loadout.Proofs.Build.Sourced
import Loadout.Proofs.Search.Preserved
import Loadout.Proofs.Build.Inverse
import Loadout.Proofs.Build.Ranges
import Loadout.Proofs.Search.Provenance
import Loadout.Proofs.Number.Extremes
import Loadout.Proofs.Search.Ties
import Loadout.Proofs.Search.Optimum
import Loadout.Proofs.Search.Lockstep
import Loadout.Proofs.Number.Exact
import Loadout.Proofs.Settlement.Reordering
import Loadout.Proofs.Build.Relevel
import Loadout.Proofs.Build.Reordering
import Loadout.Proofs.Settlement.Scoping
import Loadout.Proofs.DependencyGraph.Insertion
import Loadout.Proofs.DependencyGraph.Loops
import Loadout.Proofs.Formula.Expansion
import Loadout.Proofs.Formula.Validation
import Loadout.Proofs.Code.Codec
import Loadout.Proofs.Formula.Retargeting
import Loadout.Proofs.Code.Rebuild
import Loadout.Proofs.Build.Retold
import Loadout.Proofs.Build.Equippable
import Loadout.Proofs.Equipment.Current
import Loadout.Proofs.Replay.SingleAction
import Loadout.Proofs.Formula.Unfolding
import Loadout.Proofs.Attribute.FlatForm
import Loadout.Proofs.Formula.Listing
import Loadout.Proofs.Formula.Joining
import Loadout.Proofs.Formula.Refusals
import Loadout.Proofs.Replay.Windows
import Loadout.Proofs.Replay.Attacks
import Loadout.Proofs.Damage.Expectation
import Loadout.Proofs.Damage.Defense
import Loadout.Proofs.Formula.Scripts
import Loadout.Proofs.Equipment.Conditions
import Loadout.Proofs.Replay.Replayable
import Loadout.Proofs.Number.DecimalPlaces
import Loadout.Proofs.Settlement.Caps
import Loadout.Proofs.Attribute.Totals
import Loadout.Proofs.Formula.Blanks
