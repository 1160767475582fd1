import RobinHood.Decimal.Binary
import RobinHood.Decimal.Fixed
import RobinHood.Decimal.Shortest
import RobinHood.Hash.Feed
import RobinHood.Hash.Mixer
import RobinHood.Hash.Weak
import RobinHood.HashMap.Basic
import RobinHood.HashMap.Entry
import RobinHood.HashSet.Algebra
import RobinHood.HashSet.Basic
import RobinHood.Json.Number
import RobinHood.Json.Reader
import RobinHood.Json.Value
import RobinHood.Json.Writer
import RobinHood.Key
import RobinHood.Load.Collect
import RobinHood.Load.Element
import RobinHood.Load.Fault
import RobinHood.Load.Source
import RobinHood.Search
import RobinHood.Table.Basic
import RobinHood.Table.Check
import RobinHood.Table.Drain
import RobinHood.Table.Entry
import RobinHood.Table.Growth
import RobinHood.Table.Probe
import RobinHood.Table.Report
import RobinHood.Table.Retain
import RobinHood.Table.Shift
import RobinHood.Table.Statistics
import RobinHood.Table.Walk
import RobinHood.TableError
import RobinHood.Text.Outline
import RobinHood.Text.Quoted
import RobinHood.Text.Unprinted
import RobinHood.Proofs.Cells
import RobinHood.Proofs.Gaps
import RobinHood.Proofs.Order
import RobinHood.Proofs.Probing
import RobinHood.Proofs.Shifting
import RobinHood.Proofs.Growing
import RobinHood.Proofs.Checking
import RobinHood.Proofs.Retaining
import RobinHood.Proofs.Lookups
import RobinHood.Proofs.Emptying
import RobinHood.Proofs.Runs
import RobinHood.Proofs.Bag
import RobinHood.Proofs.Layout
import RobinHood.Proofs.Outcomes
import RobinHood.Proofs.Kinds
import RobinHood.Proofs.Filing
import RobinHood.Proofs.FiniteMap
import RobinHood.Proofs.Representation
import RobinHood.Proofs.Commands
import RobinHood.Proofs.Refinement
import RobinHood.Proofs.Determinacy
import RobinHood.Proofs.Walking
import RobinHood.Proofs.FiniteSet
import RobinHood.Proofs.Members
import RobinHood.Proofs.SetRuns
import RobinHood.Proofs.InPlace
import RobinHood.Proofs.Atomicity
import RobinHood.Proofs.Histories
import RobinHood.Proofs.Keyed
import RobinHood.Proofs.SetAlgebra
import RobinHood.Proofs.Equality
import RobinHood.Proofs.LookupCost
import RobinHood.Proofs.ProbeEnds
import RobinHood.Proofs.SlotCounts
import RobinHood.Proofs.PeakPopulation
import RobinHood.Proofs.RoundTrip
import RobinHood.Proofs.BulkLoading
import RobinHood.Proofs.Guarded.Machine
import RobinHood.Proofs.Guarded.Lookup
import RobinHood.Proofs.Guarded.Shifting
import RobinHood.Proofs.Guarded.Growth
import RobinHood.Proofs.Guarded.Entries
import RobinHood.Proofs.Guarded.Sweeps
import RobinHood.Proofs.Guarded.Maps
import RobinHood.Proofs.Guarded.Commands
import RobinHood.Proofs.Guarded.Sets
import RobinHood.Proofs.Guarded.Reachable
import RobinHood.Proofs.Guarded.Safety
import RobinHood.Proofs.WellFormed
import RobinHood.Proofs.Enlarging
import RobinHood.Proofs.Offers
import RobinHood.Proofs.BothEnds
import RobinHood.Proofs.AlgebraWalks
import RobinHood.Proofs.RunMoves
import RobinHood.Proofs.Undoing
import RobinHood.Proofs.Reservation
import RobinHood.Proofs.Origins
import RobinHood.Proofs.Draining
import RobinHood.Proofs.Mixing
import RobinHood.Proofs.Chunking
import RobinHood.Proofs.Absorbing
import RobinHood.Proofs.Preallocation
import RobinHood.Proofs.Histogram
