import UacpiNt.Arbiter.Transaction.Actions

/-!
# What an action does to the range lists

An arbiter holds two range lists, the committed allocation and the tentative one, and
every action either stages work in the tentative list or swaps the two. `ListEffect`
says once what each action can do to them; the theorems on transactions are read off
from it. No environment is assumed to behave: copies, pool allocations, decoding and
preprocessing may fail at any point.
-/

namespace UacpiNt

variable {σ : Type}

/-- The actions of the arbiter interface, with their parameters. The fuel of an action
bounds the steps of its search. -/
inductive ArbiterAction where
  | testAllocation (fuel : Nat) (entries : List ArbiterListEntry)
      (allocateFrom : Option (List CmPartialResourceDescriptor))
  | retestAllocation (entries : List ArbiterListEntry)
  | commitAllocation
  | rollbackAllocation
  | queryAllocatedResources
  | writeReservedResources
  | queryConflict (fuel : Nat) (device : Option DeviceObject) (resource : IoResourceDescriptor)
  | queryArbitrate
  | addReserved
  | bootAllocation (entries : List ArbiterListEntry)
  | unrecognized

namespace ArbiterAction

def proposes : ArbiterAction → Bool
  | testAllocation .. | retestAllocation .. => true
  | _ => false

def resolves : ArbiterAction → Bool
  | commitAllocation | rollbackAllocation => true
  | _ => false

end ArbiterAction

structure HandlerResult (σ : Type) where
  status : NtStatus
  arbiter : ArbiterInstance
  entries : List ArbiterListEntry
  conflicts : List ArbiterConflictInfo
  world : σ

namespace TransactionResult

def toHandler (r : TransactionResult σ) : HandlerResult σ :=
  ⟨r.status, r.arbiter, r.entries, [], r.world⟩

end TransactionResult

namespace QueryResult

def toHandler (r : QueryResult σ) : HandlerResult σ :=
  match r.answer with
  | .ok conflicts => ⟨.ok (), r.arbiter, [], conflicts, r.world⟩
  | .error e => ⟨.error e, r.arbiter, [], [], r.world⟩

end QueryResult

def dispatch (env : Environment) (ops : ArbiterOps σ) (arb : ArbiterInstance) (world : σ) :
    ArbiterAction → Option (HandlerResult σ)
  | .testAllocation fuel entries allocateFrom =>
    (arbpTestAllocation env ops fuel arb entries allocateFrom world).map (·.toHandler)
  | .retestAllocation entries => some (arbpRetestAllocation env ops arb entries world).toHandler
  | .commitAllocation => some ⟨.ok (), arbiterLibCommitAllocation arb, [], [], world⟩
  | .rollbackAllocation => some ⟨.ok (), arbiterLibRollbackAllocation arb, [], [], world⟩
  | .bootAllocation entries => some (arbpBootAllocation env ops arb entries world).toHandler
  | .queryConflict fuel device resource =>
    (arbpQueryConflict env ops fuel arb device resource world).map (·.toHandler)
  | .queryArbitrate => some ⟨.ok (), arb, [], [], world⟩
  | .queryAllocatedResources | .writeReservedResources | .addReserved =>
    some ⟨.error .notImplemented, arb, [], [], world⟩
  | .unrecognized => some ⟨.error .invalidParameter, arb, [], [], world⟩

/-- Track the window between a test and its commit or rollback. -/
def trackTransaction (action : ArbiterAction) (result : HandlerResult σ) : HandlerResult σ :=
  if result.status.success then
    if action.proposes then
      { result with arbiter := { result.arbiter with transactionInProgress := true } }
    else if action.resolves then
      { result with arbiter := { result.arbiter with transactionInProgress := false } }
    else result
  else result

section

variable (action : ArbiterAction) (r : HandlerResult σ)

theorem trackTransaction_eq : ∃ inProgress, trackTransaction action r =
    { r with arbiter := { r.arbiter with transactionInProgress := inProgress } } := by
  rw [trackTransaction]
  repeat' split
  all_goals exact ⟨_, rfl⟩

@[simp]
theorem trackTransaction_status : (trackTransaction action r).status = r.status := by
  obtain ⟨_, heq⟩ := trackTransaction_eq action r
  rw [heq]

@[simp]
theorem trackTransaction_entries : (trackTransaction action r).entries = r.entries := by
  obtain ⟨_, heq⟩ := trackTransaction_eq action r
  rw [heq]

@[simp]
theorem trackTransaction_world : (trackTransaction action r).world = r.world := by
  obtain ⟨_, heq⟩ := trackTransaction_eq action r
  rw [heq]

@[simp]
theorem trackTransaction_allocation :
    (trackTransaction action r).arbiter.allocation = r.arbiter.allocation := by
  obtain ⟨_, heq⟩ := trackTransaction_eq action r
  rw [heq]

@[simp]
theorem trackTransaction_possible :
    (trackTransaction action r).arbiter.possibleAllocation = r.arbiter.possibleAllocation := by
  obtain ⟨_, heq⟩ := trackTransaction_eq action r
  rw [heq]

end

def arbiterLibHandler (env : Environment) (ops : ArbiterOps σ) (arb : ArbiterInstance)
    (world : σ) (action : ArbiterAction) : Option (HandlerResult σ) :=
  (dispatch env ops arb world action).map (trackTransaction action)

open Option

namespace ArbiterAction

def isIdle : ArbiterAction → Bool
  | queryAllocatedResources | writeReservedResources | queryArbitrate | addReserved
  | unrecognized => true
  | _ => false

end ArbiterAction

/-- What an action with a given status makes of the committed and the tentative list. -/
inductive ListEffect (committed tentative : RtlRangeList) :
    ArbiterAction → NtStatus → RtlRangeList → RtlRangeList → Prop where
  /-- A test or retest that succeeds leaves its solution in the tentative list. -/
  | proposed (action : ArbiterAction) (solution : RtlRangeList) (h : action.proposes = true) :
      ListEffect committed tentative action (.ok ()) committed solution
  /-- One that fails empties it. -/
  | refused (action : ArbiterAction) (e : NtError) (h : action.proposes = true) :
      ListEffect committed tentative action (.error e) committed []
  | committed :
      ListEffect committed tentative .commitAllocation (.ok ()) tentative []
  | rolledBack :
      ListEffect committed tentative .rollbackAllocation (.ok ()) committed []
  | booted (entries : List ArbiterListEntry) (staged : RtlRangeList) :
      ListEffect committed tentative (.bootAllocation entries) (.ok ()) staged []
  | bootRefused (entries : List ArbiterListEntry) (e : NtError) :
      ListEffect committed tentative (.bootAllocation entries) (.error e) committed []
  | queried (fuel : Nat) (device : Option DeviceObject) (resource : IoResourceDescriptor)
      (status : NtStatus) :
      ListEffect committed tentative (.queryConflict fuel device resource) status committed []
  | idle (action : ArbiterAction) (status : NtStatus) (h : action.isIdle = true) :
      ListEffect committed tentative action status committed tentative

def SameCallback (arb arb' : ArbiterInstance) : Prop :=
  arb'.conflictCallback = arb.conflictCallback ∧
    arb'.conflictCallbackContext = arb.conflictCallbackContext

/-- A transaction leaves the committed list alone, and empties the tentative one when it
fails. -/
structure Staged (arb : ArbiterInstance) (r : TransactionResult σ) : Prop where
  allocation : r.arbiter.allocation = arb.allocation
  possible : ∀ e, r.status = .error e → r.arbiter.possibleAllocation = []
  callback : SameCallback arb r.arbiter

variable (env : Environment) (ops : ArbiterOps σ) (fuel : Nat) (arb : ArbiterInstance)
  (entries : List ArbiterListEntry) (world : σ)

section

variable (device : Option DeviceObject) (allocateFrom : Option (List CmPartialResourceDescriptor))
  (resource : IoResourceDescriptor) (action : ArbiterAction)

theorem staged_discard (arb' : ArbiterInstance) (e : NtError) (entries : List ArbiterListEntry)
    (world : σ) (halloc : arb'.allocation = arb.allocation) (hcb : SameCallback arb arb') :
    Staged arb (discard arb' e entries world) :=
  ⟨halloc, fun _ _ => rfl, hcb⟩

theorem stackSetup_cases :
    match stackSetup env ops arb entries world with
    | .error r => Staged arb r
    | .ok setup => setup.arbiter.allocation = arb.allocation ∧ SameCallback arb setup.arbiter := by
  simp only [stackSetup]
  cases (arbpBuildAllocationStack env ops arb.allocationStackMaxSize entries).1 with
  | error e => exact staged_discard arb _ _ _ _ rfl ⟨rfl, rfl⟩
  | ok states => exact ⟨rfl, rfl, rfl⟩

theorem testSetup_cases (world : σ) :
    match testSetup env ops arb entries allocateFrom world with
    | .error r => Staged arb r
    | .ok setup => setup.arbiter.allocation = arb.allocation ∧ SameCallback arb setup.arbiter := by
  rw [testSetup]
  cases initialPossible env ops arb allocateFrom with
  | error e => exact staged_discard arb _ _ _ _ rfl ⟨rfl, rfl⟩
  | ok possible =>
    simp only
    cases (prepareEntries env ops allocateFrom.isNone entries none possible).1 with
    | error e => exact staged_discard arb _ _ _ _ rfl ⟨rfl, rfl⟩
    | ok u =>
      have hstk := stackSetup_cases env ops (arb.withPossible
          (prepareEntries env ops allocateFrom.isNone entries none possible).2.2)
        (arbiterLibSortArbitrationList
          (prepareEntries env ops allocateFrom.isNone entries none possible).2.1) world
      revert hstk
      cases stackSetup env ops _ _ world with
      | error r => exact fun ⟨halloc, hpos, hcb⟩ => ⟨halloc, hpos, hcb⟩
      | ok setup => exact id

theorem staged_testAllocation (world : σ) (r : TransactionResult σ)
    (h : arbpTestAllocation env ops fuel arb entries allocateFrom world = some r) :
    Staged arb r := by
  have hset := testSetup_cases env ops arb entries allocateFrom world
  rw [arbpTestAllocation] at h
  cases hcase : testSetup env ops arb entries allocateFrom world with
  | error r' =>
    rw [hcase] at h hset
    cases h
    exact hset
  | ok setup =>
    rw [hcase] at h hset
    obtain ⟨result, -, rfl⟩ := map_eq_some_iff.mp h
    rw [testFinish]
    split
    · exact staged_discard arb _ _ _ _ hset.1 hset.2
    · exact ⟨hset.1, fun _ he => (by cases he), hset.2⟩

theorem staged_retestAllocation : Staged arb (arbpRetestAllocation env ops arb entries world) := by
  rw [arbpRetestAllocation]
  split
  · exact staged_discard arb _ _ _ _ rfl ⟨rfl, rfl⟩
  · split
    · exact staged_discard arb _ _ _ _ rfl ⟨rfl, rfl⟩
    · exact ⟨rfl, fun _ he => (by cases he), ⟨rfl, rfl⟩⟩

/-- A boot allocation empties the tentative list, and touches the committed one only if it
succeeds. -/
theorem bootAllocation_lists :
    (arbpBootAllocation env ops arb entries world).arbiter.possibleAllocation = [] ∧
      SameCallback arb (arbpBootAllocation env ops arb entries world).arbiter ∧
      ∀ e, (arbpBootAllocation env ops arb entries world).status = .error e →
        (arbpBootAllocation env ops arb entries world).arbiter.allocation = arb.allocation := by
  simp only [arbpBootAllocation]
  split
  · exact ⟨rfl, ⟨rfl, rfl⟩, fun _ _ => rfl⟩
  · split
    · exact ⟨rfl, ⟨rfl, rfl⟩, fun _ _ => rfl⟩
    · exact ⟨rfl, ⟨rfl, rfl⟩, fun _ he => by cases he⟩

theorem queryRounds_allocation (q q' : ConflictQuery σ)
    (answer : Except NtError (List ArbiterConflictInfo))
    (h : queryRounds env ops fuel q = some (answer, q')) :
    q'.arbiter.allocation = q.arbiter.allocation := by
  have hround : ∀ p p' : ConflictQuery σ, p.arbiter.allocation = q.arbiter.allocation →
      (queryRound env ops p = .inl p' ∨ ∃ answer, queryRound env ops p = .inr (answer, p')) →
      p'.arbiter.allocation = q.arbiter.allocation := by
    intro p p' hp hround
    exact (queryRound_frame hround).trans hp
  exact queryRounds_invariant hround rfl h

theorem queryConflictBody_allocation (world : σ) (r : QueryResult σ)
    (h : queryConflictBody env ops fuel arb device resource world = some r) :
    r.arbiter.allocation = arb.allocation := by
  simp only [queryConflictBody] at h
  split at h
  · cases h
    rfl
  split at h
  · cases h
    rfl
  split at h
  · cases h
    rfl
  split at h
  · cases h
    rfl
  · obtain ⟨⟨answer, q⟩, hrounds, rfl⟩ := map_eq_some_iff.mp h
    exact queryRounds_allocation env ops fuel _ q answer hrounds

/-- A conflict query leaves the committed list and the callback alone, and the tentative
list empty, whatever its answer. -/
theorem queryConflict_lists (world : σ) (r : QueryResult σ)
    (h : arbpQueryConflict env ops fuel arb device resource world = some r) :
    r.arbiter.allocation = arb.allocation ∧ r.arbiter.possibleAllocation = [] ∧
      SameCallback arb r.arbiter := by
  obtain ⟨body, hbody, rfl⟩ := map_eq_some_iff.mp h
  have halloc := queryConflictBody_allocation env ops fuel arb.forConflictQuery device resource
    world body hbody
  exact ⟨halloc, rfl, ⟨rfl, rfl⟩⟩

theorem dispatch_effect (r : HandlerResult σ) (h : dispatch env ops arb world action = some r) :
    ListEffect arb.allocation arb.possibleAllocation action r.status r.arbiter.allocation
        r.arbiter.possibleAllocation ∧ SameCallback arb r.arbiter := by
  have hprop : ∀ t : TransactionResult σ, Staged arb t → action.proposes = true →
      ListEffect arb.allocation arb.possibleAllocation action t.status t.arbiter.allocation
        t.arbiter.possibleAllocation ∧ SameCallback arb t.arbiter := by
    intro t ht hp
    refine ⟨?_, ht.callback⟩
    rw [ht.allocation]
    cases hstat : t.status with
    | error e => exact ht.possible e hstat ▸ .refused action e hp
    | ok u => exact .proposed action _ hp
  cases action with
  | testAllocation fuel entries allocateFrom =>
    obtain ⟨t, ht, rfl⟩ := map_eq_some_iff.mp h
    exact hprop t (staged_testAllocation env ops fuel arb entries allocateFrom world t ht) rfl
  | retestAllocation entries =>
    cases h
    exact hprop _ (staged_retestAllocation env ops arb entries world) rfl
  | commitAllocation =>
    cases h
    exact ⟨.committed, ⟨rfl, rfl⟩⟩
  | rollbackAllocation =>
    cases h
    exact ⟨.rolledBack, ⟨rfl, rfl⟩⟩
  | queryConflict fuel device resource =>
    obtain ⟨q, hq, rfl⟩ := map_eq_some_iff.mp h
    obtain ⟨halloc, hpos, hcb⟩ := queryConflict_lists env ops fuel arb device resource world q hq
    have harb : q.toHandler.arbiter = q.arbiter := by
      rw [QueryResult.toHandler]
      split <;> rfl
    rw [harb, halloc, hpos]
    exact ⟨.queried fuel device resource _, hcb⟩
  | bootAllocation entries =>
    cases h
    obtain ⟨hpos, hcb, halloc⟩ := bootAllocation_lists env ops arb entries world
    refine ⟨?_, hcb⟩
    simp only [TransactionResult.toHandler]
    rw [hpos]
    cases hstat : (arbpBootAllocation env ops arb entries world).status with
    | error e => exact halloc e hstat ▸ .bootRefused entries e
    | ok u => exact .booted entries _
  | queryAllocatedResources | writeReservedResources | queryArbitrate | addReserved
  | unrecognized =>
    cases h
    exact ⟨.idle _ _ rfl, ⟨rfl, rfl⟩⟩

theorem handler_effect (r : HandlerResult σ)
    (h : arbiterLibHandler env ops arb world action = some r) :
    ListEffect arb.allocation arb.possibleAllocation action r.status r.arbiter.allocation
        r.arbiter.possibleAllocation ∧ SameCallback arb r.arbiter := by
  obtain ⟨r', hr', rfl⟩ := map_eq_some_iff.mp h
  obtain ⟨inProgress, htrack⟩ := trackTransaction_eq action r'
  rw [htrack]
  exact dispatch_effect env ops arb world action r' hr'

end

end UacpiNt
