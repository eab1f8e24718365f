import UacpiNt.Arbiter.Suitable
import UacpiNt.Machine.Basic

/-!
# The placement search

`ArbiterLibAllocateEntry` places a stack of entries one after the other. When an
entry cannot be placed, the entry below it gives its placement up and is varied:
first lower in the same window, then in its next window. The search is a machine
whose step is one pass through the head of the source's outer loop or one round of
its inner loop; the stack is a zipper around the current entry.
-/

namespace UacpiNt

def arbiterAllocateDeadline : UInt64 := 10000000

def arbiterAllocateHardDeadline : UInt64 := 100000000

namespace AllocationState

def requestsRoom (st : AllocationState) : Bool :=
  st.current.any fun alt => alt.length != 0

def withResult (st : AllocationState) (result : ArbiterResult) : AllocationState :=
  { st with entry := { st.entry with result := result } }

def restart (st : AllocationState) : AllocationState :=
  { st with currentAlternative := none }

def lowerWindow (st : AllocationState) : AllocationState :=
  { st with currentMaximum := st.start - 1 }

end AllocationState

inductive Phase where
  | enter
  /-- At the head of the inner loop, with or without a request for the next window. -/
  | attempt (retrySameRange : Bool)
deriving DecidableEq, Repr

/-- A state of the search. `placed` are the states below the current one, nearest
first; `pending` is the current state and those above it. -/
structure Search (σ : Type) where
  phase : Phase
  placed : List AllocationState
  pending : List AllocationState
  backtracking : Bool
  mcfgConflict : Bool
  possible : RtlRangeList
  world : σ
  deadline : UInt64
  hardDeadline : UInt64
  reads : Nat

structure SearchResult (σ : Type) where
  status : NtStatus
  states : List AllocationState
  possible : RtlRangeList
  world : σ

variable {σ : Type}

namespace Search

section

variable (s : Search σ) (e : NtError) (current : AllocationState) (above : List AllocationState)

def states : List AllocationState :=
  s.placed.reverse ++ s.pending

def fail : SearchResult σ :=
  ⟨.error e, s.states, s.possible, s.world⟩

def failConflict : SearchResult σ :=
  ⟨.error e, s.states.modifyHead (·.withResult .externalConflict), s.possible, s.world⟩

def backtrack : Search σ ⊕ SearchResult σ :=
  let mcfgConflict := s.mcfgConflict || current.mcfgConflict
  match s.placed with
  | [] => .inr (failConflict { s with pending := current :: above }
      (if mcfgConflict then .badMcfgTable else .unsuccessful))
  | below :: rest => .inl { s with
      phase := .enter
      placed := rest
      pending := below :: current :: above
      backtracking := true
      mcfgConflict := mcfgConflict }

def toAttempt (retrySameRange : Bool) : Search σ :=
  { s with phase := .attempt retrySameRange, pending := current :: above, backtracking := false }

end

end Search

def packSolution (ops : ArbiterOps σ) : List AllocationState → σ →
    NtStatus × List AllocationState × σ
  | [], world => (.ok (), [], world)
  | st :: rest, world =>
    let selected := st.current.map (·.descriptor)
    let packed : NtStatus × Option CmPartialResourceDescriptor × σ :=
      match selected, st.entry.assignment with
      | some descriptor, some assignment =>
        let (status, assignment', world') :=
          ops.packResource descriptor st.start assignment world
        (status, some assignment', world')
      | _, assignment => (.ok (), assignment, world)
    let entry := { st.entry with selectedAlternative := selected, assignment := packed.2.1 }
    match packed.1 with
    | .error e => (.error e, { st with entry := entry } :: rest, packed.2.2)
    | .ok _ =>
      let result := if entry.result = .nullRequest then .nullRequest else .success
      let (status, rest', world') := packSolution ops rest packed.2.2
      (status, { st with entry := { entry with result := result } } :: rest', world')

section

variable (env : Environment) (ops : ArbiterOps σ) (arb : ArbiterInstance)

namespace Search

section

variable (s : Search σ) (current : AllocationState) (above : List AllocationState)

def vary : Search σ ⊕ SearchResult σ :=
  let s := { s with backtracking := false }
  let above := above.modifyHead (·.restart)
  if !current.requestsRoom then s.backtrack current above
  else
    let s := { s with possible := ops.backtrackAllocation env.rtl s.possible current }
    if current.noRetry then s.backtrack { current with noRetry := false } above
    else if current.start > current.currentMinimum ∧ ¬ current.current.any (·.fixed) then
      let s' := { s with reads := s.reads + 1 }
      if env.keQueryInterruptTime s.reads ≤ s.deadline then
        .inl (s'.toAttempt current.lowerWindow above true)
      else .inl (s'.toAttempt current above false)
    else .inl (s.toAttempt current above false)

def enter : Search σ ⊕ SearchResult σ :=
  let s' := { s with reads := s.reads + 1 }
  if env.keQueryInterruptTime s.reads > s.hardDeadline then .inr (s'.failConflict .unsuccessful)
  else
    let (status, current', world') := ops.preprocessEntry current s.world
    let s' := { s' with pending := current' :: above, world := world' }
    match status with
    | .error e => .inr (s'.fail e)
    | .ok _ =>
      if s'.backtracking then s'.vary env ops current' above
      else .inl (s'.toAttempt current' above false)

def advance : Search σ :=
  if current.requestsRoom then
    { s with
      phase := .enter
      placed := current :: s.placed
      pending := above
      possible := ops.addAllocation env.rtl s.possible current }
  else
    { s with
      phase := .enter
      placed := current.withResult .nullRequest :: s.placed
      pending := above }

def seek : Search σ :=
  let found := ops.findSuitableRange env (arb.withPossible s.possible) current s.world
  let s := { s with world := found.world }
  if found.granted then s.advance env ops found.state above
  else s.toAttempt found.state above false

def attempt (retrySameRange : Bool) : Search σ ⊕ SearchResult σ :=
  if retrySameRange then .inl (s.seek env ops arb current above)
  else
    let (offered, current', world') :=
      ops.getNextAllocationRange (arb.withPossible s.possible) current s.world
    let s := { s with world := world' }
    if offered then .inl (s.seek env ops arb current' above)
    else s.backtrack current' above

def finish : SearchResult σ :=
  let (status, states, world) := packSolution ops s.states s.world
  ⟨status, states, s.possible, world⟩

def step : Search σ ⊕ SearchResult σ :=
  match s.pending, s.phase with
  | [], _ => .inr (s.finish ops)
  | current :: above, .enter => s.enter env ops current above
  | current :: above, .attempt retrySameRange => s.attempt env ops arb current above retrySameRange

end

def start (states : List AllocationState) (world : σ) : Search σ where
  phase := .enter
  placed := []
  pending := states
  backtracking := false
  mcfgConflict := false
  possible := arb.possibleAllocation
  world := world
  deadline := env.keQueryInterruptTime 0 + arbiterAllocateDeadline
  hardDeadline := env.keQueryInterruptTime 1 + arbiterAllocateHardDeadline
  reads := 2

end Search

def arbiterLibAllocateEntry (fuel : Nat) (states : List AllocationState) (world : σ) :
    Option (SearchResult σ) :=
  Machine.run (Search.step env ops arb) fuel (Search.start env arb states world)

end

end UacpiNt
