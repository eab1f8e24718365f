import UacpiNt.Arbiter.Basic
import UacpiNt.Arbiter.Booking
import UacpiNt.Arbiter.Conflict
import UacpiNt.Arbiter.Next
import UacpiNt.Arbiter.Ordering.Basic
import UacpiNt.Arbiter.Ordering.Coverage
import UacpiNt.Arbiter.Ordering.Exclusion
import UacpiNt.Arbiter.Ordering.LastResort
import UacpiNt.Arbiter.Ordering.Preference
import UacpiNt.Arbiter.Ordering.Prune
import UacpiNt.Arbiter.Ordering.Walk
import UacpiNt.Arbiter.Search.Basic
import UacpiNt.Arbiter.Search.Complete
import UacpiNt.Arbiter.Search.Invariant
import UacpiNt.Arbiter.Search.Ladder
import UacpiNt.Arbiter.Search.Move
import UacpiNt.Arbiter.Search.Outline
import UacpiNt.Arbiter.Suitable
import UacpiNt.Arbiter.Transaction.Actions
import UacpiNt.Arbiter.Transaction.Conflicts
import UacpiNt.Arbiter.Transaction.Constrained
import UacpiNt.Arbiter.Transaction.Effect
import UacpiNt.Arbiter.Transaction.Integrity
import UacpiNt.Arbiter.Transaction.NullRequests
import UacpiNt.Arbiter.Transaction.Seed
import UacpiNt.Arbiter.Transaction.Solution
import UacpiNt.Arbiter.Transaction.Test
import UacpiNt.Arbiter.Window
import UacpiNt.Button.Events
import UacpiNt.Bytes.Memory
import UacpiNt.Cancelable.Pool
import UacpiNt.Ec.Events
import UacpiNt.Ec.Region
import UacpiNt.Ec.Transactions
import UacpiNt.Enum.ChildList
import UacpiNt.Enum.Filters
import UacpiNt.Enum.Instance
import UacpiNt.Enum.Relations
import UacpiNt.Eval.Grammar
import UacpiNt.Eval.Input
import UacpiNt.Eval.Output
import UacpiNt.Eval.Padding
import UacpiNt.Eval.RoundTrip
import UacpiNt.Eval.Wire
import UacpiNt.Gpe.Connection
import UacpiNt.Hal.Registers
import UacpiNt.Holding.Basic
import UacpiNt.Host.Semaphore
import UacpiNt.Host.Work
import UacpiNt.IrqArb.Assignments
import UacpiNt.IrqArb.Basic
import UacpiNt.IrqArb.ClaimOrder
import UacpiNt.IrqArb.CommittedCounts
import UacpiNt.IrqArb.Counts
import UacpiNt.IrqArb.ForcedEdge
import UacpiNt.IrqArb.Frames
import UacpiNt.IrqArb.LineSharing
import UacpiNt.IrqArb.Link
import UacpiNt.IrqArb.Publication
import UacpiNt.IrqArb.Retest
import UacpiNt.IrqArb.Routing
import UacpiNt.IrqArb.Slots
import UacpiNt.IrqArb.Trace
import UacpiNt.IrqArb.Triggering
import UacpiNt.IrqLib.FirstFit
import UacpiNt.IrqLib.Ledger
import UacpiNt.IrqLib.Madt
import UacpiNt.IrqLib.Message
import UacpiNt.IrqLib.Ownership
import UacpiNt.IrqLib.Placement
import UacpiNt.IrqLib.Reachable
import UacpiNt.IrqLib.Repeat
import UacpiNt.IrqLib.Run
import UacpiNt.IrqLib.Seed
import UacpiNt.IrqLib.Vector
import UacpiNt.Machine.Basic
import UacpiNt.Machine.Operations
import UacpiNt.Nt.Basic
import UacpiNt.Pci.Osc
import UacpiNt.Power.Accounting
import UacpiNt.Power.Order
import UacpiNt.Power.Overlap
import UacpiNt.Power.Resources
import UacpiNt.Power.Retry
import UacpiNt.RangeList.Basic
import UacpiNt.RangeList.Find
import UacpiNt.RangeList.Reference
import UacpiNt.RangeList.Unchecked
import UacpiNt.ResArb.Basic
import UacpiNt.ResArb.Frames
import UacpiNt.ResArb.Mirrors
import UacpiNt.ResArb.Permissions
import UacpiNt.ResArb.Placement
import UacpiNt.ResArb.PortSearch
import UacpiNt.ResArb.Retest
import UacpiNt.Resource.Emit
import UacpiNt.Resource.Lists
import UacpiNt.Resource.Requirements
import UacpiNt.Selection.Basic
import UacpiNt.Sorting.Insertion
import UacpiNt.Thermal.Basic
import UacpiNt.Thermal.Cooling
import UacpiNt.Thermal.News
import UacpiNt.Thermal.Protocol
import UacpiNt.Wake.Arming
import UacpiNt.Wake.Basic
import UacpiNt.Wake.Depth
import UacpiNt.Wake.Protocol
import UacpiNt.Wake.Refusal
import UacpiNt.Wake.Table
