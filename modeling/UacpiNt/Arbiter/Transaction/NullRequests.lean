import UacpiNt.Arbiter.Ordering.LastResort
import UacpiNt.IrqArb.Frames
import UacpiNt.ResArb.Frames

/-!
# Requests without length

A granted alternative without length enters no range; the search notes the null request in the
entry. The note is never taken back, so it tells what was tried and not what was selected: an
entry is reported as a null request if its result said so before, or if any alternative without
length was granted to it on the way.
-/

namespace UacpiNt

open List

variable {σ : Type}

open AllocationState

/-! ### What a step notes -/

theorem getElem?_append_cons_of_ne {α : Type} {l₁ : List α} (a b : α) (l₂ : List α) {i : Nat}
    (hi : i ≠ l₁.length) : (l₁ ++ a :: l₂)[i]? = (l₁ ++ b :: l₂)[i]? := by
  rcases Nat.lt_or_gt_of_ne hi with hlt | hgt
  · rw [getElem?_append_left hlt, getElem?_append_left hlt]
  · rw [getElem?_append_right hgt.le, getElem?_append_right hgt.le]
    obtain ⟨k, hk⟩ := Nat.exists_eq_succ_of_ne_zero (Nat.sub_ne_zero_of_lt hgt)
    rw [hk, getElem?_cons_succ, getElem?_cons_succ]

namespace Search

variable (env : Environment) (ops : ArbiterOps σ) (arb : ArbiterInstance)

/-- The step grants the entry at that place of the stack an alternative without length. -/
def GrantsNullAt (i : Nat) (s : Search σ) : Prop :=
  s.grantsNull env ops arb = true ∧ s.placed.length = i
deriving Decidable

/-- The entry at that place of the stack is noted as a null request. -/
def NotedAt (i : Nat) (s : Search σ) : Prop :=
  (s.states.map (·.entry.result))[i]? = some .nullRequest

def NullsNoted (s : Search σ) : Prop :=
  ∀ st ∈ s.placed, st.requestsRoom = false → st.entry.result = .nullRequest

variable {env ops arb} {s s' : Search σ}

theorem sought_of_nil (h : s.pending = []) : s.sought ops arb = none := by
  rw [sought, h]

theorem step_of_grantsNull (h : s.grantsNull env ops arb = true)
    (hstep : s.step env ops arb = .inl s') :
    ∃ current above st world', s.pending = current :: above ∧ s.sought ops arb = some (st, world') ∧
      s'.placed = (ops.findSuitableRange env (arb.withPossible s.possible) st
        world').state.withResult .nullRequest :: s.placed ∧ s'.pending = above := by
  obtain ⟨st, world', hso, hgr, hroom⟩ := grantsNull_iff.mp h
  obtain ⟨current, above, hpend, heq⟩ := step_of_sought env hso
  cases heq.symm.trans hstep
  refine ⟨current, above, st, world', hpend, hso, ?_⟩
  simp only [seek, hgr, if_true, advance, hroom, Bool.false_eq_true, if_false, and_self]

/-- An entry is noted by a step exactly if the step grants it an alternative without length. -/
theorem notedAt_step (hent : KeepsEntry env ops) (hstep : s.step env ops arb = .inl s')
    (i : Nat) : s'.NotedAt i ↔ s.NotedAt i ∨ s.GrantsNullAt env ops arb i := by
  by_cases hnull : s.grantsNull env ops arb = true
  · obtain ⟨current, above, st, world', hpend, -, hpl', hpend'⟩ := step_of_grantsNull hnull hstep
    have hs : s.states.map (·.entry.result) = (s.placed.map (·.entry.result)).reverse ++
          current.entry.result :: above.map (·.entry.result) := by
      simp [states, hpend]
    have hs' : s'.states.map (·.entry.result) = (s.placed.map (·.entry.result)).reverse ++
          ArbiterResult.nullRequest :: above.map (·.entry.result) := by
      simp [states, hpl', hpend', withResult]
    rw [NotedAt, NotedAt, GrantsNullAt, hs, hs', hnull]
    by_cases hi : i = (s.placed.map (·.entry.result)).reverse.length
    · subst hi
      simp
    rw [getElem?_append_cons_of_ne _ current.entry.result _ hi]
    have hne : s.placed.length ≠ i := by
      rintro rfl
      simp at hi
    simp [hne]
  · have hmap := (step_move hstep).map_states
      (fun x => hent.stable arb fun entry => entry.result = x) fun h => absurd h hnull
    rw [NotedAt, NotedAt, hmap, GrantsNullAt]
    simp [hnull]

theorem NullsNoted.step (hs : s.NullsNoted) (hstep : s.step env ops arb = .inl s') :
    s'.NullsNoted := by
  have hmem : ∀ st ∈ s'.placed, st ∈ s.placed ∨ st.requestsRoom = true ∨
      st.entry.result = .nullRequest := by
    cases step_move hstep with
    | takenUp placed above current current' possible world' h hpre h'
    | lowered placed above current current' possible world' h hpre hroom hstar hfix h'
    | moved placed above current current' possible world' h hpre hroom h'
    | refused placed above current st retry backtracking possible world' h hso h' =>
      rw [h.placed_eq, h'.placed_eq]
      exact fun st hst => .inl hst
    | skipped placed above below current current' possible world' h hpre hroom h'
    | givenUp placed above below current current' possible world' h hpre hroom hretr h'
    | exhausted placed above below current current' backtracking possible world' h hnext h' =>
      rw [h.placed_eq, h'.placed_eq]
      exact fun st hst => .inl (mem_cons_of_mem below hst)
    | entered placed above current st retry backtracking possible world' h hso hfd hroom
        h' =>
      rw [h.placed_eq, h'.placed_eq]
      exact forall_mem_cons.mpr ⟨.inr (.inl hroom), fun st hst => .inl hst⟩
    | marked placed above current st retry backtracking possible world' h hso hfd hroom
        h' =>
      rw [h.placed_eq, h'.placed_eq]
      exact forall_mem_cons.mpr ⟨.inr (.inr rfl), fun st hst => .inl hst⟩
  intro st hst hroom
  rcases hmem st hst with hpl | htrue | hnull
  · exact hs st hpl hroom
  · rw [hroom] at htrue
    cases htrue
  · exact hnull

end Search

/-! ### What a run reports -/

/-- An entry is reported as a null request exactly if the alternative it was left with has no
length. -/
def AllocationState.NullReported (st : AllocationState) : Prop :=
  st.entry.result = .nullRequest ↔ st.requestsRoom = false
deriving Decidable

section

variable {env : Environment} {ops : ArbiterOps σ} {arb : ArbiterInstance} {fuel : Nat}
  {states : List AllocationState} {world : σ} {r : SearchResult σ}

/-- The run grants the entry at that place of the stack no alternative without length. -/
def NeverNull (env : Environment) (ops : ArbiterOps σ) (arb : ArbiterInstance) (fuel : Nat)
    (states : List AllocationState) (world : σ) (i : Nat) : Prop :=
  Machine.Along (Search.step env ops arb) (fun s => ¬ s.GrantsNullAt env ops arb i) fuel
    (Search.start env arb states world)
deriving Decidable

theorem noted_solution (hent : KeepsEntry env ops)
    (hrun : arbiterLibAllocateEntry env ops arb fuel states world = some r)
    (hok : r.status = .ok ()) : ∃ solution, Forall₂ (Packed ops) solution r.states ∧
      (∀ st ∈ solution, st.requestsRoom = false → st.entry.result = .nullRequest) ∧
      ∀ i, (solution.map (·.entry.result))[i]? = some .nullRequest ↔
        (states.map (·.entry.result))[i]? = some .nullRequest ∨
          ¬ NeverNull env ops arb fuel states world i := by
  have hstep : ∀ s s' : Search σ, s.NullsNoted → s.step env ops arb = .inl s' →
      s'.NullsNoted ∧ ∀ i, s'.NotedAt i ↔ s.NotedAt i ∨ ¬ ¬ s.GrantsNullAt env ops arb i := by
    intro s s' hs hstep
    refine ⟨hs.step hstep, fun i => ?_⟩
    rw [not_not]
    exact Search.notedAt_step hent hstep i
  have hlast : ∀ s : Search σ, s.NullsNoted → s.step env ops arb = .inr r →
      ∀ i, ¬ s.GrantsNullAt env ops arb i := by
    intro s _ hret i hnull
    have hpend := (Search.step_ok hret hok).1
    obtain ⟨st, world', hso, -⟩ := Search.grantsNull_iff.mp hnull.1
    rw [Search.sought_of_nil hpend] at hso
    cases hso
  obtain ⟨s, hnoted, hret, hflag⟩ := Machine.run_flag hstep hlast hrun (fun st hst => by cases hst)
  obtain ⟨hpend, rfl⟩ := Search.step_ok hret hok
  have hstates : s.states = s.placed.reverse := by
    simp [Search.states, hpend]
  refine ⟨s.states, packSolution_ok ops (Prod.ext hok rfl), ?_, hflag⟩
  rw [hstates]
  exact fun st hst => hnoted st (mem_reverse.mp hst)

theorem exists_left_at_of_forall₂ {α β : Type} {R : α → β → Prop} {l : List α} {m : List β}
    (h : Forall₂ R l m) {i : Nat} {y : β} (hy : m[i]? = some y) :
    ∃ x, l[i]? = some x ∧ R x y := by
  induction h generalizing i with
  | nil => cases hy
  | cons hxy _ ih =>
    cases i with
    | zero =>
      cases hy
      exact ⟨_, rfl, hxy⟩
    | succ i => exact ih hy

theorem Packed.result_eq_null_iff {st st' : AllocationState} (h : Packed ops st st') :
    st'.entry.result = .nullRequest ↔ st.entry.result = .nullRequest := by
  rw [h.state]
  by_cases hnull : st.entry.result = .nullRequest <;> simp [hnull]

theorem replayEntries_filter (env : Environment) (ops : ArbiterOps σ)
    (entries : List ArbiterListEntry) (replay : Replay σ) : replayEntries env ops entries replay =
      replayEntries env ops (entries.filter (fun e => e.result ≠ .nullRequest)) replay := by
  induction entries generalizing replay with
  | nil => rfl
  | cons entry rest ih =>
    by_cases hnull : entry.result = .nullRequest
    · rw [filter_cons_of_neg (by simpa using hnull), replayEntries, if_pos hnull]
      exact ih replay
    rw [filter_cons_of_pos (by simpa using hnull), replayEntries, replayEntries,
      if_neg hnull, if_neg hnull]
    split
    · rfl
    · exact ih _

/-- After a search that succeeds, an entry that holds no range is always reported as a null
request. One that holds a range is not, exactly if its result did not say so before and no
alternative without length was granted to it on the way. Where all entries are reported
exactly, a retest lays down those that hold a range and no others. -/
theorem null_requests_reported_iff (hentry : KeepsEntry env ops)
    (hrun : arbiterLibAllocateEntry env ops arb fuel states world = some r)
    (hok : r.status = .ok ()) :
    (∀ i st, r.states[i]? = some st → (st.NullReported ↔ (st.requestsRoom = true →
      (states.map (·.entry.result))[i]? ≠ some .nullRequest ∧
        NeverNull env ops arb fuel states world i))) ∧
    ((∀ st ∈ r.states, st.NullReported) → ∀ replay,
      replayEntries env ops (r.states.map (·.entry)) replay =
        replayEntries env ops ((r.states.filter (·.requestsRoom)).map (·.entry)) replay) := by
  obtain ⟨solution, hpacked, hnulls, hnoted⟩ := noted_solution hentry hrun hok
  constructor
  · intro i st hst
    obtain ⟨st₀, hst₀, hp⟩ := exists_left_at_of_forall₂ hpacked hst
    have hresult : st.entry.result = .nullRequest ↔
        (states.map (·.entry.result))[i]? = some .nullRequest ∨
          ¬ NeverNull env ops arb fuel states world i := by
      rw [hp.result_eq_null_iff, ← hnoted i, List.getElem?_map, hst₀, Option.map_some,
        Option.some_inj]
    rw [NullReported]
    by_cases hroom : st.requestsRoom = true
    · simp only [hresult, hroom, Bool.true_eq_false, iff_false, not_or, not_not, forall_const]
    · have hnull := hnulls st₀ (List.mem_of_getElem? hst₀)
        (hp.requestsRoom ▸ Bool.eq_false_iff.mpr hroom)
      simp [hp.result_eq_null_iff.mpr hnull, hroom]
  · intro hreported replay
    rw [replayEntries_filter, List.filter_map]
    congr 2
    refine List.filter_congr fun st hst => ?_
    have hst := hreported st hst
    rw [NullReported] at hst
    simp [hst]

end

def pageAndNothing : List AllocationState :=
  [freshState 0x1000 0x1FFF 0x1000 1, freshState 0x2000 0x2FFF 0 1]

theorem page_and_nothing_reported :
    ∃ r, arbiterLibAllocateEntry .reference memoryOps (.plainMemory []) 5 pageAndNothing () =
        some r ∧ r.states.map (·.requestsRoom) = [true, false] ∧
      ∀ (i : Nat) (st : AllocationState), r.states[i]? = some st → st.NullReported := by
  have hview : (arbiterLibAllocateEntry .reference memoryOps (.plainMemory []) 5 pageAndNothing
      ()).map (fun r => (r.status, r.states.map (·.requestsRoom))) = some (.ok (), [true, false]) :=
    rfl
  obtain ⟨r, hrun, hr⟩ := Option.map_eq_some_iff.mp hview
  obtain ⟨hok, hrooms⟩ := Prod.mk.inj hr
  refine ⟨r, hrun, hrooms, fun i st hst => ?_⟩
  refine ((null_requests_reported_iff (ResArbiter.memory.keepsEntry .reference) hrun hok).1 i st
    hst).mpr fun hroom => ?_
  have hi : (r.states.map (·.requestsRoom))[i]? = some true := by
    rw [List.getElem?_map, hst, Option.map_some, hroom]
  rw [hrooms] at hi
  rcases i with _ | _ | i
  · exact ⟨by decide, by decide⟩
  · cases hi
  · cases hi

/-! ### An abandoned null request -/

def windowAndSlices : List ArbiterListEntry :=
  [.request ⟨1⟩ [.ofMemory .deviceExclusive 0 0x1FFF 0x1000 0x1000],
    .request ⟨2⟩ [.ofMemory .deviceExclusive 0x1000 0x17FF 0x800 1,
      .ofMemory .deviceExclusive 0 0x1FFF 0 1],
    .request ⟨3⟩ [.ofMemory .deviceExclusive 0x1000 0x1FFF 0x800 1,
      .ofMemory .deviceExclusive 0x1000 0x1FFF 0x800 1,
      .ofMemory .deviceExclusive 0x1000 0x1FFF 0x800 1]]

/-- While the first device holds the upper half of the window, the second one makes do with
nothing. When the third one has no room, the first moves down and the second takes its slice; it
is still reported as a null request, and a retest leaves its slice out. -/
theorem abandoned_null_request_reported :
    ∃ r, arbpTestAllocation .reference memoryOps 40 (.plainMemory []) windowAndSlices none () =
        some r ∧ r.status = .ok () ∧
      r.entries.map (fun e => (e.result, e.selectedAlternative)) =
        [(.success, some (.ofMemory .deviceExclusive 0 0x1FFF 0x1000 0x1000)),
          (.nullRequest, some (.ofMemory .deviceExclusive 0x1000 0x17FF 0x800 1)),
          (.success, some (.ofMemory .deviceExclusive 0x1000 0x1FFF 0x800 1))] ∧
      r.arbiter.possibleAllocation.map (fun x => (x.start, x.last, x.owner)) =
        [(0, 0xFFF, some ⟨1⟩), (0x1000, 0x17FF, some ⟨2⟩), (0x1800, 0x1FFF, some ⟨3⟩)] ∧
      (arbpRetestAllocation .reference memoryOps (.plainMemory []) r.entries
        ()).arbiter.possibleAllocation.map (fun x => (x.start, x.last, x.owner)) =
        [(0, 0xFFF, some ⟨1⟩), (0x1800, 0x1FFF, some ⟨3⟩)] := by
  refine ⟨_, rfl, rfl, ?_, ?_, ?_⟩ <;> decide

end UacpiNt
