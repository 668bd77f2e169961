import PageRegions.Admission
import PageRegions.Fault
import PageRegions.FreeList
import PageRegions.Host.FileTree
import PageRegions.Host.Host
import PageRegions.Journal
import PageRegions.Log
import PageRegions.Memory.Metered
import PageRegions.Memory.PageMemory
import PageRegions.Memory.Provider
import PageRegions.Memory.Segments
import PageRegions.Metrics.RateWindow
import PageRegions.Metrics.RegionMetrics
import PageRegions.Number.Binary64
import PageRegions.Number.Quantity
import PageRegions.Number.Reading
import PageRegions.Options.Machine
import PageRegions.Options.Reader
import PageRegions.Options.Rules
import PageRegions.Options.Settings
import PageRegions.Options.Token
import PageRegions.Options.Values
import PageRegions.Page.Id
import PageRegions.Proofs.FreeList.Choosing
import PageRegions.Proofs.FreeList.Reachable
import PageRegions.Proofs.Host.Directories
import PageRegions.Proofs.Memory.InStep
import PageRegions.Proofs.Memory.Lifetime
import PageRegions.Proofs.Memory.PageTotal
import PageRegions.Proofs.Metrics.SlidingCount
import PageRegions.Proofs.Metrics.WindowLength
import PageRegions.Proofs.Number.Sizes
import PageRegions.Proofs.Options.Joined
import PageRegions.Proofs.Options.Listed
import PageRegions.Proofs.Options.Rounds
import PageRegions.Proofs.Options.Slips
import PageRegions.Proofs.Options.Spelled
import PageRegions.Proofs.Options.Visited
import PageRegions.Proofs.Options.Written
import PageRegions.Proofs.Random.Cycle
import PageRegions.Proofs.Region.Consistent
import PageRegions.Proofs.Region.FairQueue
import PageRegions.Proofs.Region.Hysteresis
import PageRegions.Proofs.Region.LeastRecent
import PageRegions.Proofs.Region.Rejected
import PageRegions.Proofs.Region.Sampling
import PageRegions.Proofs.Region.Uninterrupted
import PageRegions.Proofs.Registry.Failing
import PageRegions.Proofs.Registry.Returning
import PageRegions.Proofs.Registry.Roster
import PageRegions.Proofs.Registry.Thresholds
import PageRegions.Random.Lehmer
import PageRegions.Random.Twister
import PageRegions.Region
import PageRegions.Registry
import PageRegions.Repeat
import PageRegions.Text.Basic
import PageRegions.Tracker.Kind
import PageRegions.Tracker.Queued
import PageRegions.Tracker.Replay
import PageRegions.Tracker.RowStore
import PageRegions.Tracker.Sampled
import PageRegions.Tracker.Tracker
import PageRegions.Workload
