import UacpiNt.Arbiter.Search.Basic
import UacpiNt.RangeList.Reference

/-!
# Test and retest

A test places the entries of an arbitration list in a copy of the committed
allocation from which everything the listed devices own was withdrawn. A retest lays
the placements of an earlier test down again, from what that test packed into the
entries.
-/

namespace UacpiNt

variable {σ : Type}

section

variable (env : Environment) (ops : ArbiterOps σ) (entries : List ArbiterListEntry)

/-- What an action leaves behind. `stack` is the allocation stack that a successful test
leaves, with the placement of each entry. -/
structure TransactionResult (σ : Type) where
  status : NtStatus
  arbiter : ArbiterInstance
  entries : List ArbiterListEntry
  world : σ
  stack : List AllocationState := []

def arbpBuildAlternative (descriptor : IoResourceDescriptor) : Except NtError ArbiterAlternative :=
  (ops.unpackRequirement descriptor).map fun (req : Requirement) =>
    { minimum := req.minimum
      maximum := req.maximum
      length := req.length
      alignment := req.alignment
      priority := arbiterPriorityNull
      shared := descriptor.shareDisposition == .shared
      fixed := req.maximum - req.minimum + 1 == req.length
      badRange := decide (req.maximum < req.minimum)
      inaccessibleOk := descriptor.isMemory && descriptor.compatForInaccessibleRange
      descriptor := descriptor }

/-- The states of the allocation stack. An entry without alternatives contributes
none; a fresh state starts at 1 and ends at 0, so that nothing is chosen yet. -/
def buildStates (ops : ArbiterOps σ) : List ArbiterListEntry →
    Except NtError (List AllocationState)
  | [] => .ok []
  | entry :: rest =>
    if entry.alternatives = [] then buildStates ops rest
    else do
      let alternatives ← entry.alternatives.mapM (arbpBuildAlternative ops)
      let states ← buildStates ops rest
      return { AllocationState.zero entry with
        start := 1, alternatives := alternatives } :: states

/-- The bytes the allocation stack of a list takes, computed in 32 bits. -/
def allocationStackSize : Nat :=
  let stateCount := (entries.filter fun e => e.alternatives ≠ []).length + 1
  let alternativeCount := (entries.map fun e => e.alternatives.length).sum
  (stateCount * env.sizeofAllocationState + alternativeCount * env.sizeofAlternative) % 2 ^ 32

/-- `ArbpBuildAllocationStack`, with the size of the stack afterwards. The stack is a list: what the
source writes past an allocation whose size wrapped around, for which it takes 2^26 alternatives, is
outside of the model. -/
def arbpBuildAllocationStack (stackMaxSize : Nat) (entries : List ArbiterListEntry) :
    Except NtError (List AllocationState) × Nat :=
  let size := allocationStackSize env entries
  if stackMaxSize < size then
    if env.exAllocatePool 1 then (buildStates ops entries, size)
    else (.error .insufficientResources, stackMaxSize)
  else (buildStates ops entries, stackMaxSize)

/-- Add up the scores of an entry's alternatives; the flag is cleared by a negative one. -/
def scoreAlternatives (env : Environment) (score : IoResourceDescriptor → Int) :
    List IoResourceDescriptor → Int → Bool × Int
  | [], workSpace => (true, workSpace)
  | d :: rest, workSpace =>
    if score d < 0 then (false, workSpace)
    else scoreAlternatives env score rest ((workSpace + score d).bmod (2 ^ env.pointerBits))

def scoreEntry (entry : ArbiterListEntry) : Bool × ArbiterListEntry :=
  match ops.scoreRequirement with
  | none => (true, { entry with workSpace := 0 })
  | some score =>
    let (ok, workSpace) := scoreAlternatives env score entry.alternatives 0
    (ok, { entry with workSpace := workSpace })

/-- The first pass of a test over its list: withdraw what the listed devices own,
unless the space was named by the caller, and score the entries. -/
def prepareEntries (env : Environment) (ops : ArbiterOps σ) (withdraw : Bool) :
    List ArbiterListEntry → Option DeviceObject → RtlRangeList →
    NtStatus × List ArbiterListEntry × RtlRangeList
  | [], _, possible => (.ok (), [], possible)
  | entry :: rest, previousOwner, possible =>
    let owner := entry.physicalDeviceObject
    let possible' :=
      if withdraw && owner != previousOwner then env.rtl.deleteOwnersRanges' possible owner
      else possible
    let previousOwner' := if withdraw then owner else previousOwner
    let (ok, entry') := scoreEntry env ops entry
    if ok then
      let (status, rest', possible'') :=
        prepareEntries env ops withdraw rest previousOwner' possible'
      (status, entry' :: rest', possible'')
    else (.error .deviceConfigurationError, entry' :: rest, possible')

def sortInsert (entry : ArbiterListEntry) : List ArbiterListEntry → List ArbiterListEntry
  | [] => [entry]
  | e :: rest => if e.workSpace > entry.workSpace then entry :: e :: rest
      else e :: sortInsert entry rest

def arbiterLibSortArbitrationList : List ArbiterListEntry :=
  entries.foldl (fun sorted entry => sortInsert entry sorted) []

end

def writeBack : List ArbiterListEntry → List AllocationState → List ArbiterListEntry
  | [], _ => []
  | entry :: rest, [] => entry :: rest
  | entry :: rest, st :: states =>
    if entry.alternatives = [] then entry :: writeBack rest (st :: states)
    else st.entry :: writeBack rest states

structure ArbiterSeedWindow where
  start : UInt64
  last : UInt64
deriving DecidableEq, Repr

section

variable (env : Environment) (ops : ArbiterOps σ) (fuel : Nat) (arb : ArbiterInstance)
  (resources : List CmPartialResourceDescriptor) (entries : List ArbiterListEntry)
  (allocateFrom : Option (List CmPartialResourceDescriptor)) (world : σ)
  (cond : ArbiterInstance → Search σ → Prop)

def insertWindow (w : ArbiterSeedWindow) : List ArbiterSeedWindow → List ArbiterSeedWindow
  | [] => [w]
  | v :: rest => if v.start ≤ w.start then v :: insertWindow w rest else w :: v :: rest

/-- A descriptor of the arbiter's resource type; a large memory descriptor also
belongs to a memory arbiter. -/
def matchesArbiter (type : CmResourceType) : Bool :=
  type = arb.resourceType || type = .memoryLarge && arb.resourceType = .memory

def seedWindows : List ArbiterSeedWindow :=
  resources.foldl (fun windows d =>
    if matchesArbiter arb d.u.type then
      match ops.unpackResource d with
      | .ok (start, length) =>
        if length = 0 then windows else insertWindow ⟨start, start + length - 1⟩ windows
      | .error _ => windows
    else windows) []

def blockedRange (start last : UInt64) : RtlRange :=
  ⟨start, last, 0, false, none⟩

/-- Block the space between the windows, from `next` up. -/
def blockGaps (rtl : RtlApi) : List ArbiterSeedWindow → UInt64 → RtlRangeList → RtlRangeList
  | [], next, l => rtl.addRange' l (blockedRange next 0xFFFFFFFFFFFFFFFF) true
  | w :: rest, next, l =>
    let l := if w.start > next then rtl.addRange' l (blockedRange next (w.start - 1)) true else l
    let next := if w.last ≥ next then w.last + 1 else next
    -- A window that runs to the top of the space leaves no tail to block.
    if w.last = 0xFFFFFFFFFFFFFFFF then l else blockGaps rtl rest next l

def arbpSeedRangeList : Except NtError RtlRangeList :=
  if resources = [] then .ok []
  else if !env.exAllocatePool 0 then .error .insufficientResources
  else match seedWindows ops arb resources with
    | [] => .ok []
    | windows => .ok (blockGaps env.rtl windows 0 [])

def initialPossible :
    Option (List CmPartialResourceDescriptor) → Except NtError RtlRangeList
  | some resources => arbpSeedRangeList env ops arb resources
  | none => env.rtl.copyRangeList arb.allocation

def discard (e : NtError) (entries : List ArbiterListEntry) (world : σ) : TransactionResult σ :=
  { status := .error e, arbiter := arb.withPossible [], entries := entries, world := world }

structure TestSetup where
  arbiter : ArbiterInstance
  entries : List ArbiterListEntry
  states : List AllocationState

def stackSetup : Except (TransactionResult σ) TestSetup :=
  let stack := arbpBuildAllocationStack env ops arb.allocationStackMaxSize entries
  let arb := { arb with allocationStackMaxSize := stack.2 }
  match stack.1 with
  | .error e => .error (discard arb e entries world)
  | .ok states => .ok ⟨arb, entries, states⟩

/-- The part of `ArbpTestAllocation` before the search, with the result of a test that
fails in it. -/
def testSetup : Except (TransactionResult σ) TestSetup :=
  match initialPossible env ops arb allocateFrom with
  | .error e => .error (discard arb e entries world)
  | .ok possible =>
    let prepared := prepareEntries env ops allocateFrom.isNone entries none possible
    match prepared.1 with
    | .error e => .error (discard arb e prepared.2.1 world)
    | .ok _ => stackSetup env ops (arb.withPossible prepared.2.2)
        (arbiterLibSortArbitrationList prepared.2.1) world

def testFinish (setup : TestSetup) (result : SearchResult σ) : TransactionResult σ :=
  match result.status with
  | .error e => discard setup.arbiter e (writeBack setup.entries result.states) result.world
  | .ok _ => ⟨.ok (), setup.arbiter.withPossible result.possible,
      writeBack setup.entries result.states, result.world, result.states⟩

def arbpTestAllocation : Option (TransactionResult σ) :=
  match testSetup env ops arb entries allocateFrom world with
  | .error r => some r
  | .ok setup => (arbiterLibAllocateEntry env ops setup.arbiter fuel setup.states world).map
      (testFinish setup)

/-- The condition holds in every state that the search of a test passes through, with the
arbiter as the test has set it up. -/
def TestAlong : Prop :=
  match testSetup env ops arb entries allocateFrom world with
  | .error _ => True
  | .ok setup => Machine.Along (Search.step env ops setup.arbiter) (cond setup.arbiter) fuel
      (Search.start env setup.arbiter setup.states world)

instance [∀ arb, DecidablePred (cond arb)] :
    Decidable (TestAlong env ops fuel arb entries allocateFrom world cond) :=
  match h : testSetup env ops arb entries allocateFrom world with
  | .error _ => .isTrue (by rw [TestAlong, h]; trivial)
  | .ok setup => decidable_of_iff (Machine.Along (Search.step env ops setup.arbiter)
      (cond setup.arbiter) fuel (Search.start env setup.arbiter setup.states world))
      (by rw [TestAlong, h])

end

/-! ### Arbiter instances -/

def arbiterLibPreprocessEntry (st : AllocationState) (world : σ) : NtStatus × AllocationState × σ :=
  (.ok (), st, world)

def libraryGetNext (arb : ArbiterInstance) (st : AllocationState) (world : σ) :
    Bool × AllocationState × σ :=
  ((arbiterLibGetNextAllocationRange arb st).1, (arbiterLibGetNextAllocationRange arb st).2, world)

def libraryFindSuitable (env : Environment) (arb : ArbiterInstance) (st : AllocationState)
    (world : σ) : Suitable σ :=
  let found := arbiterLibFindSuitableRange env arb st
  ⟨found.1.1, found.1.2, world, found.2⟩

def libraryOps (unpackRequirement : IoResourceDescriptor → Except NtError Requirement)
    (packResource : IoResourceDescriptor → UInt64 → CmPartialResourceDescriptor → σ →
      NtStatus × CmPartialResourceDescriptor × σ)
    (unpackResource : CmPartialResourceDescriptor → Except NtError (UInt64 × UInt64))
    (scoreRequirement : Option (IoResourceDescriptor → Int)) : ArbiterOps σ where
  unpackRequirement := unpackRequirement
  packResource := packResource
  unpackResource := unpackResource
  scoreRequirement := scoreRequirement
  preprocessEntry := arbiterLibPreprocessEntry
  getNextAllocationRange := libraryGetNext
  findSuitableRange := libraryFindSuitable
  addAllocation := arbiterLibAddAllocation
  backtrackAllocation := arbiterLibBacktrackAllocation

def pageSize : Nat := 4096

def ArbiterInstance.initial (resourceType : CmResourceType)
    (orderingList reservedList : ArbiterOrderingList)
    (conflictCallback : Option (RtlRange → Bool)) : ArbiterInstance where
  resourceType := resourceType
  allocation := []
  possibleAllocation := []
  orderingList := orderingList
  reservedList := reservedList
  allocationStackMaxSize := pageSize
  transactionInProgress := false
  conflictCallback := conflictCallback
  conflictCallbackContext := .null

/-- An environment over the reference range list in which nothing fails, no time passes
and no device has a name or a driver. -/
def Environment.reference : Environment where
  rtl := RangeList.Reference.findApi .unsuccessful
  keQueryInterruptTime _ := 0
  exAllocatePool _ := true
  enumeratorName _ := none
  attachedDrivers _ := []
  mmConfigRanges := []
  pointerBits := 64
  sizeofAllocationState := 80
  sizeofAlternative := 64

theorem Environment.reference_lawful : Environment.reference.rtl.Lawful :=
  RangeList.Reference.findApi_lawful NtError.unsuccessful

theorem Environment.reference_highest : Environment.reference.rtl.Highest :=
  RangeList.Reference.findApi_highest _

theorem Environment.reference_asksWithin : Environment.reference.rtl.AsksWithin :=
  RangeList.Reference.findApi_asksWithin _

def Environment.withDrivers (drivers : DeviceObject → List Nat) : Environment :=
  { Environment.reference with attachedDrivers := drivers }

end UacpiNt
