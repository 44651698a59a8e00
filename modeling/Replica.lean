import Replica.CommandLine
import Replica.Engine.Scenario
import Replica.Inspect
import Replica.Main
import Replica.Proofs.Engine.Truth
import Replica.Proofs.Engine.Listener
import Replica.Proofs.Engine.Residue
import Replica.Proofs.Client.Calls
import Replica.Proofs.Engine.Refusal
import Replica.Proofs.View.Difference
import Replica.Proofs.View.Partial
import Replica.Proofs.View.Merge
import Replica.Proofs.View.Delivery
import Replica.Proofs.View.Batch
import Replica.Proofs.Engine.Partial
import Replica.Proofs.Overlay.Replay
import Replica.Proofs.Engine.Acceptance
import Replica.Proofs.Pending.Replay
import Replica.Proofs.Pending.Survival
import Replica.Proofs.Pending.Below
import Replica.Proofs.Engine.Registration
import Replica.Proofs.Engine.Answer
import Replica.Proofs.Engine.Repetition
import Replica.Proofs.Engine.Completion
import Replica.Proofs.Engine.Signals
import Replica.Proofs.Engine.Confinement
import Replica.Proofs.Engine.Hidden
import Replica.Proofs.Client.Listeners
import Replica.Proofs.Node.Document
import Replica.Proofs.Query
import Replica.Proofs.Overlay.ReadBack
import Replica.Proofs.Vantage.Children
import Replica.Proofs.Operation.Effect
import Replica.Proofs.Engine.Sequence
import Replica.Proofs.Ledger.Netting
import Replica.Proofs.Filter.Selected
import Replica.Proofs.Filter.Range
import Replica.Proofs.Client.Numbers
import Replica.Proofs.Index.Position
import Replica.Proofs.Node.Built
import Replica.Proofs.Engine.Conservation
import Replica.Proofs.Key.Rank
import Replica.Proofs.Overlay.Commutation
