import UacpiNt.Arbiter.Transaction.Test

/-!
# The actions of an arbiter

Retest, commit, rollback, boot allocation and conflict query, and the handler every
arbiter interface points at. All of them work in the one tentative allocation of the
instance.
-/

namespace UacpiNt

open Machine

variable {σ : Type}

section

variable (env : Environment) (ops : ArbiterOps σ) (arb : ArbiterInstance) (entry : ArbiterListEntry)
  (alt : ArbiterAlternative) (entries : List ArbiterListEntry) (world : σ)

def deleteOwners (rtl : RtlApi) : List ArbiterListEntry → RtlRangeList →
    Except NtError RtlRangeList
  | [], possible => .ok possible
  | entry :: rest, possible => do
    let possible ← rtl.deleteOwnersRanges possible entry.physicalDeviceObject
    deleteOwners rtl rest possible

structure Replay (σ : Type) where
  state : AllocationState
  possible : RtlRangeList
  world : σ

def replayEntry (replay : Replay σ) : Except NtError (Replay σ) × σ :=
  match entry.selectedAlternative, entry.assignment with
  | some selected, some assignment =>
    match arbpBuildAlternative ops selected, ops.unpackResource assignment with
    | .error e, _ => (.error e, replay.world)
    | _, .error e => (.error e, replay.world)
    | .ok alt, .ok (start, length) =>
      let st := { replay.state with
        entry := entry
        alternatives := [alt]
        currentAlternative := some 0
        workSpace := 0
        start := start
        last := start + length - 1 }
      let (status, st, world) := ops.preprocessEntry st replay.world
      match status with
      | .error e => (.error e, world)
      | .ok _ =>
        let possible :=
          if length = 0 then replay.possible
          else ops.addAllocation env.rtl replay.possible st
        (.ok ⟨st, possible, world⟩, world)
  -- A retest without a successful test before it.
  | _, _ => (.error .invalidParameter, replay.world)

def replayEntries (env : Environment) (ops : ArbiterOps σ) : List ArbiterListEntry → Replay σ →
    Except NtError (Replay σ) × σ
  | [], replay => (.ok replay, replay.world)
  | entry :: rest, replay =>
    if entry.result = .nullRequest then replayEntries env ops rest replay
    else match replayEntry env ops entry replay with
      | (.error e, world) => (.error e, world)
      | (.ok replay', _) => replayEntries env ops rest replay'

/-- The state a retest starts with; it names no entry, so a blank one stands in. -/
def replayState : AllocationState :=
  .zero ⟨[], none, .undefined, false, 0, none, none, .undefined⟩

def arbpRetestAllocation : TransactionResult σ :=
  match env.rtl.copyRangeList arb.allocation >>= deleteOwners env.rtl entries with
  | .error e => discard arb e entries world
  | .ok possible =>
    match replayEntries env ops entries ⟨replayState, possible, world⟩ with
    | (.error e, world) => discard arb e entries world
    | (.ok replay, _) => ⟨.ok (), arb.withPossible replay.possible, entries, replay.world, []⟩

/-- The tentative allocation becomes the committed one, and the list that was committed is recycled
empty. -/
def arbiterLibCommitAllocation : ArbiterInstance :=
  { arb with allocation := arb.possibleAllocation, possibleAllocation := [] }

def arbiterLibRollbackAllocation : ArbiterInstance :=
  arb.withPossible []

/-! ### Boot allocation -/

/-- Only one sane, fixed, aligned placement is reserved. -/
def ArbiterAlternative.isBootPlacement : Bool :=
  alt.length != 0 && alt.alignment != 0 && !alt.badRange && alt.fixed &&
    alt.minimum % alt.alignment == 0

def bootState : AllocationState :=
  { AllocationState.zero entry with
    alternatives := [alt]
    currentAlternative := some 0
    boot := true
    rangeAttributes := arbiterRangeBootAllocated
    start := alt.minimum
    currentMinimum := alt.minimum
    last := alt.maximum
    currentMaximum := alt.maximum }

def bootAlternative : Option ArbiterAlternative :=
  match entry.alternatives with
  | [] => none
  | d :: _ =>
    match arbpBuildAlternative ops d with
    | .error _ => none
    | .ok alt => if alt.isBootPlacement then some alt else none

def reserveBoot (env : Environment) (ops : ArbiterOps σ) : List ArbiterListEntry → RtlRangeList →
    σ → NtStatus × List ArbiterListEntry × RtlRangeList × σ
  | [], possible, world => (.ok (), [], possible, world)
  | entry :: rest, possible, world =>
    match bootAlternative ops entry with
    | none =>
      let (status, rest', result) := reserveBoot env ops rest possible world
      (status, entry :: rest', result)
    | some alt =>
      let (status, st, world) := ops.preprocessEntry (bootState entry alt) world
      match status with
      | .error e => (.error e, entry :: rest, possible, world)
      | .ok _ =>
        let possible := ops.addAllocation env.rtl possible st
        let (assignment, world) : Option CmPartialResourceDescriptor × σ :=
          match entry.assignment with
          | none => (none, world)
          | some a =>
            let (_, a', world) := ops.packResource alt.descriptor st.start a world
            (some a', world)
        let (status, rest', result) := reserveBoot env ops rest possible world
        (status, { entry with assignment := assignment } :: rest', result)

def arbpBootAllocation : TransactionResult σ :=
  match env.rtl.copyRangeList arb.allocation with
  | .error e => discard arb e entries world
  | .ok possible =>
    let (status, entries, possible, world) := reserveBoot env ops entries possible world
    match status with
    | .error e => discard arb e entries world
    | .ok _ =>
      ⟨.ok (), arbiterLibCommitAllocation (arb.withPossible possible), entries, world, []⟩

end

/-! ### Conflict queries -/

structure ArbiterConflictInfo where
  owningObject : Option DeviceObject
  start : UInt64
  last : UInt64
deriving DecidableEq, Repr

/-- The conflict stands. That it also records the range is in the answer of the search. -/
def arbpQueryConflictCallback : RtlRange → Bool :=
  fun _ => false

def ArbiterInstance.forConflictQuery (arb : ArbiterInstance) : ArbiterInstance :=
  { arb with
    conflictCallback := some arbpQueryConflictCallback
    conflictCallbackContext := .conflictingRange
    possibleAllocation := [] }

/-- The cleanup of a conflict query: the tentative allocation is emptied and the saved
callback and context are put back. -/
def ArbiterInstance.endConflictQuery (arb saved : ArbiterInstance) : ArbiterInstance :=
  { arb with
    possibleAllocation := []
    conflictCallback := saved.conflictCallback
    conflictCallbackContext := saved.conflictCallbackContext }

structure ConflictQuery (σ : Type) where
  state : AllocationState
  arbiter : ArbiterInstance
  world : σ
  conflicts : List ArbiterConflictInfo
  capacity : Nat
  allocations : Nat

def wholeRangeConflict : ArbiterConflictInfo :=
  ⟨none, 0, 0xFFFFFFFFFFFFFFFF⟩

def ConflictQuery.grow (env : Environment) (q : ConflictQuery σ) : Option (ConflictQuery σ) :=
  if q.conflicts.length = q.capacity then
    if env.exAllocatePool q.allocations then
      some { q with capacity := q.capacity + 5, allocations := q.allocations + 1 }
    else none
  else some q

/-- A round of a conflict query: it names a conflicting range and removes its owner, until the
resource can be placed. -/
def queryRound (env : Environment) (ops : ArbiterOps σ) (q : ConflictQuery σ) :
    ConflictQuery σ ⊕ (Except NtError (List ArbiterConflictInfo) × ConflictQuery σ) :=
  let found := ops.findSuitableRange env q.arbiter
    (q.state.withWindow (q.state.start, q.state.last)) q.world
  let q := { q with state := found.state, world := found.world }
  if found.granted then .inr (.ok q.conflicts, q)
  else match q.grow env with
    | none => .inr (.error .insufficientResources, q)
    | some q =>
      match found.conflictingRange with
      | none => .inr (.ok (q.conflicts ++ [wholeRangeConflict]), q)
      | some r =>
        let q := { q with conflicts := q.conflicts ++ [⟨r.owner, r.start, r.last⟩] }
        match env.rtl.deleteOwnersRanges q.arbiter.possibleAllocation r.owner with
        | .error e => .inr (.error e, q)
        | .ok possible => .inl { q with arbiter := q.arbiter.withPossible possible }

def queryRounds (env : Environment) (ops : ArbiterOps σ) (fuel : Nat) (q : ConflictQuery σ) :
    Option (Except NtError (List ArbiterConflictInfo) × ConflictQuery σ) :=
  run (queryRound env ops) fuel q

variable {env : Environment} {q q' : ConflictQuery σ}

theorem grow_some (h : q.grow env = some q') :
    q'.arbiter = q.arbiter ∧ q'.world = q.world ∧ q'.conflicts = q.conflicts := by
  rw [ConflictQuery.grow] at h
  split at h
  · split at h
    · cases h
      exact ⟨rfl, rfl, rfl⟩
    · cases h
  · cases h
    exact ⟨rfl, rfl, rfl⟩

theorem queryRound_frame {ops : ArbiterOps σ}
    (h : queryRound env ops q = .inl q' ∨ ∃ answer, queryRound env ops q = .inr (answer, q')) :
    q'.arbiter.allocation = q.arbiter.allocation := by
  rw [queryRound] at h
  simp only at h
  split at h
  · rcases h with h | ⟨answer, h⟩ <;> cases h
    rfl
  split at h
  · rcases h with h | ⟨answer, h⟩ <;> cases h
    rfl
  rename_i grown hgrow
  obtain ⟨harb, -, -⟩ := grow_some hgrow
  rw [← harb]
  repeat' split at h
  all_goals
    rcases h with h | ⟨answer, h⟩ <;> cases h
    rfl

theorem queryRounds_invariant {ops : ArbiterOps σ} {Inv : ConflictQuery σ → Prop}
    (hround : ∀ q q', Inv q → (queryRound env ops q = .inl q' ∨
      ∃ answer, queryRound env ops q = .inr (answer, q')) → Inv q') {fuel : Nat}
    {answer : Except NtError (List ArbiterConflictInfo)} (hq : Inv q)
    (h : queryRounds env ops fuel q = some (answer, q')) : Inv q' := by
  have halong : Along (queryRound env ops) (fun _ => True) fuel q :=
    along_of_forall (fun _ => trivial) fuel q
  obtain ⟨last, hlast, -, hret⟩ := run_invariant
    (fun p p' hp _ hstep => hround p p' hp (.inl hstep)) h hq halong
  exact hround last q' hlast (.inr ⟨answer, hret⟩)

section

variable (env) (ops : ArbiterOps σ) (fuel : Nat) (arb : ArbiterInstance)
  (device : Option DeviceObject) (resource : IoResourceDescriptor) (world : σ)

def queryEntry : ArbiterListEntry :=
  ⟨[], device, .pnpEnumerated, false, 0, none, none, .undefined⟩

def queryState (alt : ArbiterAlternative) : AllocationState :=
  { AllocationState.zero (queryEntry device) with
    alternatives := [alt]
    currentAlternative := some 0
    start := alt.minimum
    currentMinimum := alt.minimum
    last := alt.maximum
    currentMaximum := alt.maximum }

structure QueryResult (σ : Type) where
  answer : Except NtError (List ArbiterConflictInfo)
  arbiter : ArbiterInstance
  world : σ

def queryConflictBody : Option (QueryResult σ) :=
  match env.rtl.copyRangeList arb.allocation with
  | .error e => some ⟨.error e, arb, world⟩
  | .ok possible =>
    let arb := arb.withPossible possible
    match arbpBuildAlternative ops resource with
    | .error e => some ⟨.error e, arb, world⟩
    | .ok alt =>
      if !env.exAllocatePool 0 then some ⟨.error .insufficientResources, arb, world⟩
      else
        let (status, st, world) := ops.preprocessEntry (queryState device alt) world
        match status with
        | .error e => some ⟨.error e, arb, world⟩
        | .ok _ =>
          let arb := arb.withPossible
            (env.rtl.deleteOwnersRanges' arb.possibleAllocation device)
          (queryRounds env ops fuel ⟨st, arb, world, [], 10, 1⟩).map fun (answer, q) =>
            ⟨answer, q.arbiter, q.world⟩

def arbpQueryConflict : Option (QueryResult σ) :=
  (queryConflictBody env ops fuel arb.forConflictQuery device resource world).map fun result =>
    { result with arbiter := result.arbiter.endConflictQuery arb }

end

end UacpiNt
