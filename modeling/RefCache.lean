import RefCache.KeyTest
import RefCache.Measure
import RefCache.Session.Step
import RefCache.Storage.Session
import RefCache.Proofs.OwnershipInvariant
import RefCache.Proofs.Release
import RefCache.Proofs.LimitsHold
import RefCache.Proofs.Removal
import RefCache.Proofs.Storage.Writers
import RefCache.Proofs.Storage.Publication
import RefCache.Proofs.NoticeBalance
import RefCache.Proofs.HeldEntry
import RefCache.Proofs.Serialisation
import RefCache.Proofs.PoolShares
import RefCache.Proofs.AccessCounts
import RefCache.Proofs.FractionFollows
import RefCache.Proofs.GhostLists
import RefCache.Proofs.Chronicle.Ghosts
import RefCache.Proofs.CounterBalance
import RefCache.Proofs.Differences
import RefCache.Proofs.MachineWords
import RefCache.Proofs.Stack.SingleQueue
import RefCache.Proofs.Stack.Stacked
import RefCache.Proofs.Session.Subsiding
import RefCache.Proofs.Stack.Beside
import RefCache.Proofs.Stack.Requests
import RefCache.Proofs.StackInclusion
import RefCache.Proofs.Chronicle.Admissions
import RefCache.Proofs.Chronicle.Evictions
import RefCache.Proofs.Session.LettingGo
import RefCache.Proofs.OldestFirst
import RefCache.Proofs.Containers.AssociationList
import RefCache.Proofs.Containers.RecencyList
import RefCache.Proofs.Rejection
import RefCache.Proofs.Admission
import RefCache.Proofs.ShortestEviction
import RefCache.Proofs.Trimming
import RefCache.Proofs.Refreshing
import RefCache.Proofs.PuttingBack
import RefCache.Proofs.RemovalByKey
import RefCache.Proofs.Reloading
import RefCache.Proofs.Storage.Accesses
import RefCache.Proofs.Storage.Reports
