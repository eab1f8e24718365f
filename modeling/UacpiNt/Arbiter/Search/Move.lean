import UacpiNt.Arbiter.Search.Basic

/-!
# What a step of the search can do

`Search.Move` lists the moves of the placement search, with what each one does to the
stack and to the tentative allocation. Every invariant of the search is proved over
this list; the step function itself is taken apart only here.
-/

namespace UacpiNt

variable {σ : Type}

namespace Search

structure At (s : Search σ) (phase : Phase) (placed pending : List AllocationState)
    (backtracking : Bool) (possible : RtlRangeList) : Prop where
  phase_eq : s.phase = phase
  placed_eq : s.placed = placed
  pending_eq : s.pending = pending
  backtracking_eq : s.backtracking = backtracking
  possible_eq : s.possible = possible

variable (env : Environment) (ops : ArbiterOps σ) (arb : ArbiterInstance)

/-- The state that is looked for a placement, if the search is about to do so: the one a
retry left, or the one at the next window. -/
def sought (s : Search σ) : Option (AllocationState × σ) :=
  match s.pending, s.phase with
  | current :: _, .attempt true => some (current, s.world)
  | current :: _, .attempt false =>
    let next := ops.getNextAllocationRange (arb.withPossible s.possible) current s.world
    if next.1 then some next.2 else none
  | _, _ => none

def grantsNull (s : Search σ) : Bool :=
  (s.sought ops arb).any fun sought =>
    let found := ops.findSuitableRange env (arb.withPossible s.possible) sought.1 sought.2
    found.granted && !found.state.requestsRoom

inductive Move (s s' : Search σ) : Prop where
  | takenUp (placed above : List AllocationState) (current current' : AllocationState)
      (possible : RtlRangeList) (world' : σ)
      (h : s.At .enter placed (current :: above) false possible)
      (hpre : ops.preprocessEntry current s.world = (.ok (), current', world'))
      (h' : s'.At (.attempt false) placed (current' :: above) false possible)
  | skipped (placed above : List AllocationState) (below current current' : AllocationState)
      (possible : RtlRangeList) (world' : σ)
      (h : s.At .enter (below :: placed) (current :: above) true possible)
      (hpre : ops.preprocessEntry current s.world = (.ok (), current', world'))
      (hroom : current'.requestsRoom = false)
      (h' : s'.At .enter placed (below :: current' :: above.modifyHead (·.restart)) true possible)
  | givenUp (placed above : List AllocationState) (below current current' : AllocationState)
      (possible : RtlRangeList) (world' : σ)
      (h : s.At .enter (below :: placed) (current :: above) true possible)
      (hpre : ops.preprocessEntry current s.world = (.ok (), current', world'))
      (hroom : current'.requestsRoom = true) (hretry : current'.noRetry = true)
      (h' : s'.At .enter placed
        (below :: { current' with noRetry := false } :: above.modifyHead (·.restart)) true
        (ops.backtrackAllocation env.rtl possible current'))
  | lowered (placed above : List AllocationState) (current current' : AllocationState)
      (possible : RtlRangeList) (world' : σ)
      (h : s.At .enter placed (current :: above) true possible)
      (hpre : ops.preprocessEntry current s.world = (.ok (), current', world'))
      (hroom : current'.requestsRoom = true) (hstart : current'.start > current'.currentMinimum)
      (hfixed : current'.current.any (·.fixed) = false)
      (h' : s'.At (.attempt true) placed (current'.lowerWindow :: above.modifyHead (·.restart))
        false (ops.backtrackAllocation env.rtl possible current'))
  | moved (placed above : List AllocationState) (current current' : AllocationState)
      (possible : RtlRangeList) (world' : σ)
      (h : s.At .enter placed (current :: above) true possible)
      (hpre : ops.preprocessEntry current s.world = (.ok (), current', world'))
      (hroom : current'.requestsRoom = true)
      (h' : s'.At (.attempt false) placed (current' :: above.modifyHead (·.restart)) false
        (ops.backtrackAllocation env.rtl possible current'))
  | entered (placed above : List AllocationState) (current st : AllocationState)
      (retry backtracking : Bool) (possible : RtlRangeList) (world' : σ)
      (h : s.At (.attempt retry) placed (current :: above) backtracking possible)
      (hsought : s.sought ops arb = some (st, world'))
      (hfound : (ops.findSuitableRange env (arb.withPossible possible) st world').granted)
      (hroom : (ops.findSuitableRange env (arb.withPossible possible) st
        world').state.requestsRoom = true)
      (h' : s'.At .enter
        ((ops.findSuitableRange env (arb.withPossible possible) st world').state :: placed)
        above backtracking (ops.addAllocation env.rtl possible
          (ops.findSuitableRange env (arb.withPossible possible) st world').state))
  | marked (placed above : List AllocationState) (current st : AllocationState)
      (retry backtracking : Bool) (possible : RtlRangeList) (world' : σ)
      (h : s.At (.attempt retry) placed (current :: above) backtracking possible)
      (hsought : s.sought ops arb = some (st, world'))
      (hfound : (ops.findSuitableRange env (arb.withPossible possible) st world').granted)
      (hroom : (ops.findSuitableRange env (arb.withPossible possible) st
        world').state.requestsRoom = false)
      (h' : s'.At .enter
        ((ops.findSuitableRange env (arb.withPossible possible) st
          world').state.withResult .nullRequest :: placed) above backtracking possible)
  | refused (placed above : List AllocationState) (current st : AllocationState)
      (retry backtracking : Bool) (possible : RtlRangeList) (world' : σ)
      (h : s.At (.attempt retry) placed (current :: above) backtracking possible)
      (hsought : s.sought ops arb = some (st, world'))
      (h' : s'.At (.attempt false) placed
        ((ops.findSuitableRange env (arb.withPossible possible) st world').state :: above)
        false possible)
  | exhausted (placed above : List AllocationState) (below current current' : AllocationState)
      (backtracking : Bool) (possible : RtlRangeList) (world' : σ)
      (h : s.At (.attempt false) (below :: placed) (current :: above) backtracking possible)
      (hnext : ops.getNextAllocationRange (arb.withPossible possible) current s.world =
        (false, current', world'))
      (h' : s'.At .enter placed (below :: current' :: above) true possible)

variable {env ops arb} {s s' : Search σ}

theorem grantsNull_iff : s.grantsNull env ops arb = true ↔
    ∃ st world', s.sought ops arb = some (st, world') ∧
      (ops.findSuitableRange env (arb.withPossible s.possible) st world').granted = true ∧
      (ops.findSuitableRange env (arb.withPossible s.possible) st
        world').state.requestsRoom = false := by
  rw [grantsNull, Option.any_eq_true]
  constructor
  · rintro ⟨⟨st, world'⟩, hso, hnull⟩
    rw [Bool.and_eq_true, Bool.not_eq_true'] at hnull
    exact ⟨st, world', hso, hnull⟩
  rintro ⟨st, world', hso, hgr, hroom⟩
  refine ⟨(st, world'), hso, ?_⟩
  rw [Bool.and_eq_true, Bool.not_eq_true']
  exact ⟨hgr, hroom⟩

variable {current st : AllocationState} {above : List AllocationState} {world' : σ}

theorem backtrack_inl (h : s.backtrack current above = .inl s') :
    ∃ below placed, s.placed = below :: placed ∧
      s'.At .enter placed (below :: current :: above) true s.possible := by
  rw [backtrack] at h
  cases hpl : s.placed with
  | nil =>
    rw [hpl] at h
    cases h
  | cons below placed =>
    rw [hpl] at h
    cases h
    exact ⟨below, placed, rfl, ⟨rfl, rfl, rfl, rfl, rfl⟩⟩

theorem vary_inl {current' : AllocationState} {t : Search σ}
    (hs : s.At .enter t.placed (current :: above) true t.possible)
    (hpre : ops.preprocessEntry current s.world = (.ok (), current', world'))
    (h : t.vary env ops current' above = .inl s') : Move env ops arb s s' := by
  simp only [vary] at h
  by_cases hroom : current'.requestsRoom = true
  · rw [if_neg (by simp [hroom])] at h
    split at h
    · rename_i hretr
      obtain ⟨below, placed, hpl, hat⟩ := backtrack_inl h
      have hpl' : t.placed = below :: placed := hpl
      exact .givenUp placed above below current current' t.possible world' (hpl' ▸ hs) hpre
        hroom hretr hat
    · split at h
      · rename_i hlower
        split at h <;> cases h
        · exact .lowered t.placed above current current' t.possible world' hs hpre hroom hlower.1
            (by simpa using hlower.2) ⟨rfl, rfl, rfl, rfl, rfl⟩
        · exact .moved t.placed above current current' t.possible world' hs hpre hroom
            ⟨rfl, rfl, rfl, rfl, rfl⟩
      · cases h
        exact .moved t.placed above current current' t.possible world' hs hpre hroom
          ⟨rfl, rfl, rfl, rfl, rfl⟩
  · rw [if_pos (by simpa using hroom)] at h
    obtain ⟨below, placed, hpl, hat⟩ := backtrack_inl h
    have hpl' : t.placed = below :: placed := hpl
    exact .skipped placed above below current current' t.possible world' (hpl' ▸ hs) hpre
      (by simpa using hroom) hat

theorem enter_inl (hph : s.phase = .enter) (hpend : s.pending = current :: above)
    (h : s.enter env ops current above = .inl s') : Move env ops arb s s' := by
  simp only [enter] at h
  split at h
  · cases h
  rcases hpre : ops.preprocessEntry current s.world with ⟨status, current', world'⟩
  simp only [hpre] at h
  cases status with
  | error e => cases h
  | ok u =>
    cases hb : s.backtracking with
    | false =>
      simp only [hb] at h
      cases h
      exact .takenUp s.placed above current current' s.possible world'
        ⟨hph, rfl, hpend, hb, rfl⟩ hpre ⟨rfl, rfl, rfl, rfl, rfl⟩
    | true =>
      simp only [hb] at h
      refine vary_inl ?_ hpre h
      exact ⟨hph, rfl, hpend, hb, rfl⟩

theorem seek_move {retry : Bool} (hph : s.phase = .attempt retry)
    (hpend : s.pending = current :: above) (hso : s.sought ops arb = some (st, world')) :
    Move env ops arb s (seek env ops arb { s with world := world' } st above) := by
  have hs : s.At (.attempt retry) s.placed (current :: above) s.backtracking s.possible :=
    ⟨hph, rfl, hpend, rfl, rfl⟩
  simp only [seek]
  split
  · rename_i hgr
    rw [advance]
    split <;> rename_i hroom
    · exact .entered s.placed above current st retry s.backtracking s.possible world' hs
        hso hgr hroom ⟨rfl, rfl, rfl, rfl, rfl⟩
    · exact .marked s.placed above current st retry s.backtracking s.possible world' hs
        hso hgr (by simpa using hroom) ⟨rfl, rfl, rfl, rfl, rfl⟩
  · exact .refused s.placed above current st retry s.backtracking s.possible world' hs hso
      ⟨rfl, rfl, rfl, rfl, rfl⟩

theorem attempt_inl {retry : Bool} (hph : s.phase = .attempt retry)
    (hpend : s.pending = current :: above)
    (h : s.attempt env ops arb current above retry = .inl s') : Move env ops arb s s' := by
  cases retry with
  | true =>
    cases h
    exact seek_move hph hpend (by simp [sought, hph, hpend])
  | false =>
    rcases hnext : ops.getNextAllocationRange (arb.withPossible s.possible) current s.world with
      ⟨offered, current', world'⟩
    simp only [attempt, hnext] at h
    cases offered with
    | true =>
      cases h
      exact seek_move hph hpend (by simp [sought, hph, hpend, hnext])
    | false =>
      obtain ⟨below, placed, hpl, hat⟩ := backtrack_inl h
      have hpl' : s.placed = below :: placed := hpl
      exact .exhausted placed above below current current' s.backtracking s.possible world'
        ⟨hph, hpl', hpend, rfl, rfl⟩ hnext hat

theorem step_move (h : s.step env ops arb = .inl s') : Move env ops arb s s' := by
  cases hpend : s.pending with
  | nil => simp [step, hpend] at h
  | cons current above =>
    cases hph : s.phase with
    | enter =>
      simp only [step, hpend, hph] at h
      exact enter_inl hph hpend h
    | attempt retry =>
      simp only [step, hpend, hph] at h
      exact attempt_inl hph hpend h

theorem step_ok {r : SearchResult σ} (h : s.step env ops arb = .inr r) (hok : r.status = .ok ()) :
    s.pending = [] ∧ r = s.finish ops := by
  have hback : ∀ (t : Search σ) (current : AllocationState) (above : List AllocationState),
      t.backtrack current above = .inr r → False := by
    intro t current above ht
    rw [backtrack] at ht
    split at ht
    · cases ht
      cases hok
    · cases ht
  cases hpend : s.pending with
  | nil => exact ⟨rfl, by simpa [step, hpend] using h.symm⟩
  | cons current above =>
    exfalso
    cases hph : s.phase with
    | attempt retry =>
      simp only [step, hpend, hph, attempt] at h
      split at h
      · cases h
      · split at h
        · cases h
        · exact hback _ _ _ h
    | enter =>
      simp only [step, hpend, hph, enter] at h
      split at h
      · cases h
        cases hok
      split at h
      · cases h
        cases hok
      split at h
      · simp only [vary] at h
        repeat' split at h
        all_goals first | exact hback _ _ _ h | cases h
      · cases h

theorem sought_cases (h : s.sought ops arb = some (st, world')) :
    ∃ current above, s.pending = current :: above ∧ (s.phase = .attempt true ∧ st = current ∨
        ops.getNextAllocationRange (arb.withPossible s.possible) current s.world =
          (true, st, world')) := by
  rw [sought] at h
  split at h
  · rename_i current above hpend hph
    cases h
    exact ⟨_, above, hpend, .inl ⟨hph, rfl⟩⟩
  · rename_i current above hpend hph
    simp only at h
    split at h
    · rename_i hoff
      refine ⟨current, above, hpend, .inr ?_⟩
      rw [← Option.some.inj h, ← hoff]
    · cases h
  · cases h

variable (env) in
theorem step_of_sought (h : s.sought ops arb = some (st, world')) :
    ∃ current above, s.pending = current :: above ∧
      s.step env ops arb = .inl (seek env ops arb { s with world := world' } st above) := by
  rw [sought] at h
  split at h
  · rename_i current above hpend hph
    cases h
    refine ⟨_, above, hpend, ?_⟩
    rw [step, hpend, hph]
    rfl
  · rename_i current above hpend hph
    simp only at h
    split at h
    · rename_i hoff
      have hnext := Option.some.inj h
      refine ⟨current, above, hpend, ?_⟩
      simp only [step, hpend, hph, attempt, Bool.false_eq_true, if_false, hoff, if_true, hnext]
    · cases h
  · cases h

end Search

/-! ### The world after a step -/

namespace Search

variable {σ : Type} (env : Environment) (ops : ArbiterOps σ) (arb : ArbiterInstance) (s : Search σ)
  (current : AllocationState) (above : List AllocationState)

def worldAfter : Search σ ⊕ SearchResult σ → σ :=
  Sum.elim (·.world) (·.world)

@[simp]
theorem worldAfter_backtrack : worldAfter (s.backtrack current above) = s.world := by
  rw [backtrack]
  cases s.placed <;> rfl

@[simp]
theorem worldAfter_vary : worldAfter (s.vary env ops current above) = s.world := by
  simp only [vary]
  repeat' split
  all_goals first
    | rfl
    | exact worldAfter_backtrack _ _ _

theorem worldAfter_enter : worldAfter (s.enter env ops current above) =
    if env.keQueryInterruptTime s.reads > s.hardDeadline then s.world
    else (ops.preprocessEntry current s.world).2.2 := by
  simp only [enter]
  split
  · rfl
  split
  · rfl
  · split
    · exact worldAfter_vary _ _ _ _ _
    · rfl

theorem seek_world : (s.seek env ops arb current above).world =
    (ops.findSuitableRange env (arb.withPossible s.possible) current s.world).world := by
  rw [seek]
  split
  · rw [advance]
    split <;> rfl
  · rfl

theorem worldAfter_attempt_false : worldAfter (s.attempt env ops arb current above false) =
    let next := ops.getNextAllocationRange (arb.withPossible s.possible) current s.world
    if next.1 then
      (ops.findSuitableRange env (arb.withPossible s.possible) next.2.1 next.2.2).world
    else next.2.2 := by
  simp only [attempt, Bool.false_eq_true, if_false]
  split
  · exact seek_world env ops arb _ _ above
  · exact worldAfter_backtrack _ _ _

end Search

end UacpiNt
