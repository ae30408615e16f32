import WorkLease.Bytes.Lemmas
import WorkLease.Config.Json
import WorkLease.Json.Text
import WorkLease.Node.Run
import WorkLease.Proofs.Acceptance
import WorkLease.Proofs.Agreement
import WorkLease.Proofs.Amount
import WorkLease.Proofs.Announcements
import WorkLease.Proofs.Binding
import WorkLease.Proofs.Coinbase
import WorkLease.Proofs.Commits
import WorkLease.Proofs.Depth
import WorkLease.Proofs.Exits
import WorkLease.Proofs.HexText
import WorkLease.Proofs.IssueTimes
import WorkLease.Proofs.Leases
import WorkLease.Proofs.Merkle
import WorkLease.Proofs.Operations
import WorkLease.Proofs.Pretest
import WorkLease.Proofs.Reading
import WorkLease.Proofs.Renaming
import WorkLease.Proofs.Retention
import WorkLease.Proofs.Rules
import WorkLease.Proofs.Runs
import WorkLease.Proofs.Selection
import WorkLease.Proofs.Settlement
import WorkLease.Proofs.Size
import WorkLease.Proofs.Staleness
import WorkLease.Proofs.Verdicts
import WorkLease.Proofs.WireForm
import WorkLease.Transaction.Json
import WorkLease.Proofs.Greedy
import WorkLease.Proofs.Delimiting
import WorkLease.Proofs.Views
import WorkLease.Proofs.Accounting
import WorkLease.Proofs.CompactTargets
import WorkLease.Proofs.Heights
import WorkLease.Proofs.MedianTime
import WorkLease.Proofs.Refusals
import WorkLease.Proofs.Damage
import WorkLease.Proofs.Supply
import WorkLease.Proofs.Parameters
import WorkLease.Proofs.TipHeights
