import UacpiNt.Nt.Basic
import UacpiNt.RangeList.Find
import UacpiNt.RangeList.Unchecked

/-!
# The arbiter's data

The structures of the arbitration library: alternatives, list entries, allocation
states, ordering lists and the arbiter instance, and the environment the library
calls out to. A pointer into an array of alternatives is an index, and a bit of a
flags word that the library tests is a `Bool`.
-/

namespace UacpiNt

abbrev RtlRange := RangeList.Range UInt64 DeviceObject

abbrev RtlRangeList := List RtlRange

abbrev RtlTerms := RangeList.Terms UInt64 DeviceObject

abbrev RtlApi := RangeList.FindApi DeviceObject NtError

/-! ### Range attributes -/

def arbiterRangeBootAllocated : UInt8 := 0x01

def arbiterRangeSharedDriver : UInt8 := 0x02

def arbiterRangePortAlias : UInt8 := 0x10

def arbiterRangeInaccessible : UInt8 := 0x40

/-! ### Priorities -/

def arbiterPriorityNull : Int := 0

def arbiterPriorityPreferredReserved : Int := 0x7FFFFFFD

def arbiterPriorityReserved : Int := 0x7FFFFFFE

def arbiterPriorityExhausted : Int := 0x7FFFFFFF

structure ArbiterAlternative where
  minimum : UInt64
  maximum : UInt64
  length : UInt64
  alignment : UInt64
  priority : Int
  shared : Bool
  fixed : Bool
  badRange : Bool
  inaccessibleOk : Bool
  descriptor : IoResourceDescriptor
deriving DecidableEq, Repr

inductive ArbiterRequestSource where
  | undefined
  | legacyReported
  | halReported
  | legacyAssigned
  | pnpDetected
  | pnpEnumerated
deriving DecidableEq, Repr

inductive ArbiterResult where
  | undefined
  | success
  | externalConflict
  | nullRequest
deriving DecidableEq, Repr

/-- One requirement of a device, with its alternatives. `bootConfig` is the
`ARBITER_FLAG_BOOT_CONFIG` bit of the flags, and `assignment` is `none` where the caller supplied no
buffer. -/
structure ArbiterListEntry where
  alternatives : List IoResourceDescriptor
  physicalDeviceObject : Option DeviceObject
  requestSource : ArbiterRequestSource
  bootConfig : Bool
  workSpace : Int
  selectedAlternative : Option IoResourceDescriptor
  assignment : Option CmPartialResourceDescriptor
  result : ArbiterResult
deriving DecidableEq, Repr

/-- `ARBITER_ALLOCATION_STATE`: the placement of one entry, while it is sought. -/
structure AllocationState where
  start : UInt64
  last : UInt64
  currentMinimum : UInt64
  currentMaximum : UInt64
  entry : ArbiterListEntry
  /-- Index of the alternative in use; `none` until one is chosen. -/
  currentAlternative : Option Nat
  alternatives : List ArbiterAlternative
  boot : Bool
  nullConflictOk : Bool
  mcfgConflict : Bool
  noRetry : Bool
  rangeAttributes : UInt8
  rangeAvailableAttributes : UInt8
  workSpace : Nat
deriving DecidableEq, Repr

namespace AllocationState

def current (st : AllocationState) : Option ArbiterAlternative :=
  st.currentAlternative.bind fun i => st.alternatives[i]?

def owner (st : AllocationState) : Option DeviceObject :=
  st.entry.physicalDeviceObject

def zero (entry : ArbiterListEntry) : AllocationState where
  start := 0
  last := 0
  currentMinimum := 0
  currentMaximum := 0
  entry := entry
  currentAlternative := none
  alternatives := []
  boot := false
  nullConflictOk := false
  mcfgConflict := false
  noRetry := false
  rangeAttributes := 0
  rangeAvailableAttributes := 0
  workSpace := 0

end AllocationState

/-- A window of an ordering list, both bounds inclusive. -/
structure ArbiterOrdering where
  start : UInt64
  last : UInt64
  start_le_last : start ≤ last
deriving DecidableEq, Repr

/-- The capacity an ordering list starts with, and the capacity it may reach. -/
def arbiterOrderingGranularity : Nat := 16

def arbiterOrderingLimit : Nat := 1024

/-- The windows in order of preference, and the capacity of the array that holds them. -/
structure ArbiterOrderingList where
  orderings : List ArbiterOrdering
  maximum : Nat
  count_le_maximum : orderings.length ≤ maximum
  maximum_le_limit : maximum ≤ arbiterOrderingLimit
deriving DecidableEq, Repr

namespace ArbiterOrderingList

def count (l : ArbiterOrderingList) : Nat :=
  l.orderings.length

theorem count_le_limit (l : ArbiterOrderingList) : l.orderings.length ≤ arbiterOrderingLimit :=
  l.count_le_maximum.trans l.maximum_le_limit

def free : ArbiterOrderingList :=
  ⟨[], 0, le_rfl, Nat.zero_le _⟩

end ArbiterOrderingList

inductive CallbackContext where
  | null
  | conflictingRange
  | other (pointer : Nat)
deriving DecidableEq, Repr

/-- `ARBITER_INSTANCE`, without its routines, its lock and its names. -/
structure ArbiterInstance where
  resourceType : CmResourceType
  allocation : RtlRangeList
  possibleAllocation : RtlRangeList
  orderingList : ArbiterOrderingList
  reservedList : ArbiterOrderingList
  allocationStackMaxSize : Nat
  transactionInProgress : Bool
  conflictCallback : Option (RtlRange → Bool)
  conflictCallbackContext : CallbackContext

namespace ArbiterInstance

def withPossible (arb : ArbiterInstance) (possible : RtlRangeList) : ArbiterInstance :=
  { arb with possibleAllocation := possible }

end ArbiterInstance

/-- What the library calls out to. Successive reads of the interrupt time and
successive pool allocations are numbered. -/
structure Environment where
  rtl : RtlApi
  keQueryInterruptTime : Nat → UInt64
  exAllocatePool : Nat → Bool
  enumeratorName : DeviceObject → Option (List Char)
  attachedDrivers : DeviceObject → List Nat
  mmConfigRanges : List (UInt64 × UInt64)
  pointerBits : Nat
  sizeofAllocationState : Nat
  sizeofAlternative : Nat

structure Requirement where
  minimum : UInt64
  maximum : UInt64
  length : UInt64
  alignment : UInt64
deriving DecidableEq, Repr

/-- The outcome of a search for a suitable range. `conflictingRange` is the last
range the conflict callback was asked about. -/
structure Suitable (σ : Type) where
  granted : Bool
  state : AllocationState
  world : σ
  conflictingRange : Option RtlRange

/-- The routines of an arbiter that the library calls through the instance.
`σ` is the state outside the instance that they keep. -/
structure ArbiterOps (σ : Type) where
  unpackRequirement : IoResourceDescriptor → Except NtError Requirement
  packResource : IoResourceDescriptor → UInt64 → CmPartialResourceDescriptor → σ →
    NtStatus × CmPartialResourceDescriptor × σ
  unpackResource : CmPartialResourceDescriptor → Except NtError (UInt64 × UInt64)
  scoreRequirement : Option (IoResourceDescriptor → Int)
  preprocessEntry : AllocationState → σ → NtStatus × AllocationState × σ
  getNextAllocationRange : ArbiterInstance → AllocationState → σ → Bool × AllocationState × σ
  findSuitableRange : Environment → ArbiterInstance → AllocationState → σ → Suitable σ
  addAllocation : RtlApi → RtlRangeList → AllocationState → RtlRangeList
  backtrackAllocation : RtlApi → RtlRangeList → AllocationState → RtlRangeList

end UacpiNt
