import PositionalSearch.Proofs.Along
import PositionalSearch.Proofs.BoundedWalks
import PositionalSearch.Proofs.Calls
import PositionalSearch.Proofs.Carrying
import PositionalSearch.Proofs.Closing
import PositionalSearch.Proofs.CommonDocuments
import PositionalSearch.Proofs.Costs
import PositionalSearch.Proofs.Estimates
import PositionalSearch.Proofs.Exclusions
import PositionalSearch.Proofs.Failures.Audit
import PositionalSearch.Proofs.Failures.Lineup
import PositionalSearch.Proofs.Failures.Proximity
import PositionalSearch.Proofs.Follow.Documents
import PositionalSearch.Proofs.Follow.Entering
import PositionalSearch.Proofs.Follow.Exclusions
import PositionalSearch.Proofs.Follow.Filters
import PositionalSearch.Proofs.Follow.Listings
import PositionalSearch.Proofs.Follow.Proximity
import PositionalSearch.Proofs.Follow.Query
import PositionalSearch.Proofs.Follow.Terms
import PositionalSearch.Proofs.HeadQueue
import PositionalSearch.Proofs.InStep.Candor
import PositionalSearch.Proofs.InStep.Filters
import PositionalSearch.Proofs.InStep.Leaves
import PositionalSearch.Proofs.InStep.Proximity
import PositionalSearch.Proofs.InStep.Query
import PositionalSearch.Proofs.InStep.Union
import PositionalSearch.Proofs.Lasting.Basic
import PositionalSearch.Proofs.Lasting.LeadsTo
import PositionalSearch.Proofs.Lasting.Nodes
import PositionalSearch.Proofs.Lasting.Proximity
import PositionalSearch.Proofs.Levels
import PositionalSearch.Proofs.Logging
import PositionalSearch.Proofs.Near.AnyOrder
import PositionalSearch.Proofs.Near.InOrder
import PositionalSearch.Proofs.Near.Leftmost
import PositionalSearch.Proofs.Near.Reordering
import PositionalSearch.Proofs.Order.Leaves
import PositionalSearch.Proofs.Order.Lineup
import PositionalSearch.Proofs.Order.Proximity
import PositionalSearch.Proofs.Order.Query
import PositionalSearch.Proofs.Payloads
import PositionalSearch.Proofs.QueueAccounts
import PositionalSearch.Proofs.Recording
import PositionalSearch.Proofs.Retries.Exclusions
import PositionalSearch.Proofs.Retries.Passing
import PositionalSearch.Proofs.Retries.Reads
import PositionalSearch.Proofs.Retries.Unions
import PositionalSearch.Proofs.SameLeaf
import PositionalSearch.Proofs.Scanning
import PositionalSearch.Proofs.Search
import PositionalSearch.Proofs.SetOperations
import PositionalSearch.Proofs.Sources
import PositionalSearch.Proofs.Stock.Sessions
import PositionalSearch.Proofs.TermDifference
import PositionalSearch.Proofs.TimedWalks
import PositionalSearch.Proofs.UnionCalls
import PositionalSearch.Proofs.Window
import PositionalSearch.Session
