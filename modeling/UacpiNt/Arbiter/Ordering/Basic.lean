import UacpiNt.Arbiter.Basic

/-!
# Ordering lists and the registry policy

An ordering list is an array of windows that doubles its capacity up to a limit. The
registry policy names windows to prefer and windows to reserve: a preferred window is
appended to the ordering list, a reserved one is appended to the reserved list and cut out
of every window of the ordering list. Pool allocations are numbered, and every routine
passes on the number of the next one.
-/

namespace UacpiNt

theorem le_sub_one_of_lt {a b : UInt64} (h : a < b) : a ≤ b - 1 := by
  rw [UInt64.le_iff_toNat_le, RangeList.toNat_sub_one_of_lt h]
  rw [UInt64.lt_iff_toNat_lt] at h
  omega

theorem add_one_le_of_lt {a b : UInt64} (h : a < b) : a + 1 ≤ b := by
  rw [UInt64.lt_iff_toNat_lt] at h
  rw [UInt64.le_iff_toNat_le, UInt64.toNat_add, UInt64.toNat_one]
  omega

namespace ArbiterOrderingList

section

variable (l : ArbiterOrderingList)

def append (o : ArbiterOrdering) (h : l.count < l.maximum) : ArbiterOrderingList where
  orderings := l.orderings ++ [o]
  maximum := l.maximum
  count_le_maximum := by
    rw [List.length_append]
    exact h
  maximum_le_limit := l.maximum_le_limit

def newMaximum : Nat :=
  if l.maximum ≠ 0 then l.maximum * 2 else arbiterOrderingGranularity

theorem maximum_lt_newMaximum : l.maximum < l.newMaximum := by
  rw [newMaximum, arbiterOrderingGranularity]
  split <;> omega

def grow (h : l.newMaximum ≤ arbiterOrderingLimit) : ArbiterOrderingList where
  orderings := l.orderings
  maximum := l.newMaximum
  count_le_maximum := l.count_le_maximum.trans l.maximum_lt_newMaximum.le
  maximum_le_limit := h

theorem count_lt_grow (h : l.newMaximum ≤ arbiterOrderingLimit) :
    (l.grow h).count < (l.grow h).maximum :=
  lt_of_le_of_lt l.count_le_maximum l.maximum_lt_newMaximum

end

def empty : ArbiterOrderingList :=
  ⟨[], arbiterOrderingGranularity, Nat.zero_le _, by decide⟩

end ArbiterOrderingList

section

variable (env : Environment)

section

variable (l : ArbiterOrderingList) (start last : UInt64) (allocations : Nat)

def arbpCreateOrderingList : Except NtError ArbiterOrderingList × Nat :=
  (if env.exAllocatePool allocations then .ok .empty else .error .insufficientResources,
    allocations + 1)

/-- `ArbiterLibAddOrdering`; a failure leaves the list as it was. -/
def arbiterLibAddOrdering : Except NtError ArbiterOrderingList × Nat :=
  if horder : start ≤ last then
    if hroom : l.count < l.maximum then (.ok (l.append ⟨start, last, horder⟩ hroom), allocations)
    else if hlimit : l.newMaximum ≤ arbiterOrderingLimit then
      (if env.exAllocatePool allocations then
        .ok ((l.grow hlimit).append ⟨start, last, horder⟩ (l.count_lt_grow hlimit))
      else .error .insufficientResources, allocations + 1)
    else (.error .insufficientResources, allocations)
  else (.error .invalidParameter, allocations)

/-- One window of `ArbpExcludeOrderingRange`: the fragments outside `start..last` survive. -/
def excludeFrom (o : ArbiterOrdering) (start last : UInt64) (pruned : ArbiterOrderingList)
    (allocations : Nat) : Except NtError ArbiterOrderingList × Nat :=
  if o.last < start ∨ o.start > last then
    arbiterLibAddOrdering env pruned o.start o.last allocations
  else
    let left := if o.start < start then
        arbiterLibAddOrdering env pruned o.start (start - 1) allocations
      else (.ok pruned, allocations)
    match left with
    | (.error e, allocations) => (.error e, allocations)
    | (.ok pruned, allocations) =>
      if o.last > last then arbiterLibAddOrdering env pruned (last + 1) o.last allocations
      else (.ok pruned, allocations)

def excludeFromAll (start last : UInt64) : List ArbiterOrdering → ArbiterOrderingList → Nat →
    Except NtError ArbiterOrderingList × Nat
  | [], pruned, allocations => (.ok pruned, allocations)
  | o :: rest, pruned, allocations =>
    match excludeFrom env o start last pruned allocations with
    | (.error e, allocations) => (.error e, allocations)
    | (.ok pruned, allocations) => excludeFromAll start last rest pruned allocations

/-- `ArbpExcludeOrderingRange`; a failure leaves the list as it was. -/
def arbpExcludeOrderingRange : Except NtError ArbiterOrderingList × Nat :=
  if last < start then (.error .invalidParameter, allocations)
  else match arbpCreateOrderingList env allocations with
    | (.error e, allocations) => (.error e, allocations)
    | (.ok pruned, allocations) => excludeFromAll env start last l.orderings pruned allocations

end

end

/-! ### The registry policy -/

inductive PolicySubkey where
  | allocationOrder
  | reservedResources
  | inaccessibleRange
deriving DecidableEq, Repr

/-- A policy value. A requirements list is given by the descriptors that lie inside the
stored data. -/
inductive PolicyValue where
  /-- The name of another value of the key; `none` for a string that is not terminated. -/
  | string (target : Option String)
  | requirementsList (descriptors : List IoResourceDescriptor)
  | other

/-- The values of the registry, `none` where one cannot be read. -/
abbrev Registry := PolicySubkey → String → Option PolicyValue

/-- The descriptors of a policy value; a string is followed once. -/
def Registry.descriptors (registry : Registry) (subkey : PolicySubkey) (valueName : String) :
    List IoResourceDescriptor :=
  match registry subkey valueName with
  | some (.requirementsList descriptors) => descriptors
  | some (.string (some target)) =>
    match registry subkey target with
    | some (.requirementsList descriptors) => descriptors
    | _ => []
  | _ => []

def arbpDescriptorMatchesArbiter (resourceType descriptorType : CmResourceType) : Bool :=
  descriptorType = resourceType || descriptorType = .memoryLarge && resourceType = .memory

abbrev TranslateOrdering := Option (IoResourceDescriptor → Except NtError IoResourceDescriptor)

section

variable {σ : Type} (ops : ArbiterOps σ) (translate : TranslateOrdering)

/-- The ranges that `ArbpForEachRegistryRange` calls back with. A descriptor that cannot be
translated or decoded ends the walk. -/
def registryRanges (resourceType : CmResourceType) :
    List IoResourceDescriptor → List (UInt64 × UInt64)
  | [] => []
  | d :: rest =>
    match translate.elim (.ok d) (· d) with
    | .error _ => []
    | .ok window =>
      if arbpDescriptorMatchesArbiter resourceType window.u.type then
        match ops.unpackRequirement window with
        | .error _ => []
        | .ok req => (req.minimum, req.maximum) :: registryRanges resourceType rest
      else registryRanges resourceType rest

variable (env : Environment)

def arbpAddOrderingCallback (arb : ArbiterInstance) (range : UInt64 × UInt64) (allocations : Nat) :
    ArbiterInstance × Nat :=
  match arbiterLibAddOrdering env arb.orderingList range.1 range.2 allocations with
  | (.error _, allocations) => (arb, allocations)
  | (.ok l, allocations) => ({ arb with orderingList := l }, allocations)

/-- The outcome of the pruning is not looked at. -/
def arbpAddReservedCallback (arb : ArbiterInstance) (range : UInt64 × UInt64) (allocations : Nat) :
    ArbiterInstance × Nat :=
  match arbiterLibAddOrdering env arb.reservedList range.1 range.2 allocations with
  | (.error _, allocations) => (arb, allocations)
  | (.ok reserved, allocations) =>
    let arb := { arb with reservedList := reserved }
    match arbpExcludeOrderingRange env arb.orderingList range.1 range.2 allocations with
    | (.error _, allocations) => (arb, allocations)
    | (.ok l, allocations) => ({ arb with orderingList := l }, allocations)

def arbpForEachRegistryRange
    (callback : ArbiterInstance → UInt64 × UInt64 → Nat → ArbiterInstance × Nat) :
    List (UInt64 × UInt64) → ArbiterInstance → Nat → ArbiterInstance × Nat
  | [], arb, allocations => (arb, allocations)
  | range :: rest, arb, allocations =>
    let (arb, allocations) := callback arb range allocations
    arbpForEachRegistryRange callback rest arb allocations

def arbiterLibDefaultAssignmentOrdering (registry : Registry) (arb : ArbiterInstance)
    (allocationOrderName reservedResourcesName : String) (allocations : Nat) :
    NtStatus × ArbiterInstance × Nat :=
  let ranges := fun subkey name =>
    registryRanges ops translate arb.resourceType (registry.descriptors subkey name)
  let arb := { arb with orderingList := .free, reservedList := .free }
  match arbpCreateOrderingList env allocations with
  | (.error e, allocations) => (.error e, arb, allocations)
  | (.ok orderingList, allocations) =>
    match arbpCreateOrderingList env allocations with
    | (.error e, allocations) => (.error e, arb, allocations)
    | (.ok reservedList, allocations) =>
      let arb := { arb with orderingList := orderingList, reservedList := reservedList }
      let (arb, allocations) := arbpForEachRegistryRange (arbpAddOrderingCallback env)
        (ranges .allocationOrder allocationOrderName) arb allocations
      let (arb, allocations) := arbpForEachRegistryRange (arbpAddReservedCallback env)
        (ranges .reservedResources reservedResourcesName) arb allocations
      (.ok (), arb, allocations)

end

end UacpiNt
