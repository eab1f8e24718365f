import UacpiNt.ResArb.Frames

/-!
# Conflict queries

A conflict query places a candidate in a copy of the committed list. Each round in which that
fails reports the range that the callback was asked about last and drops all ranges of its owner
from the copy. So the copy gets shorter in each round, and an owner that was reported owns
nothing of it any more.
-/

namespace UacpiNt

open List

variable {σ : Type}

/-! ### Rounds -/

section

variable {env : Environment} {ops : ArbiterOps σ} {q q' : ConflictQuery σ}

theorem queryRound_inl (h : queryRound env ops q = .inl q') :
    ∃ x possible, (ops.findSuitableRange env q.arbiter
        (q.state.withWindow (q.state.start, q.state.last)) q.world).conflictingRange = some x ∧
      env.rtl.deleteOwnersRanges q.arbiter.possibleAllocation x.owner = .ok possible ∧
      q'.conflicts = q.conflicts ++ [⟨x.owner, x.start, x.last⟩] ∧
      q'.arbiter.possibleAllocation = possible := by
  rw [queryRound] at h
  simp only at h
  split at h
  · cases h
  split at h
  · cases h
  rename_i grown hgrow
  obtain ⟨harb, -, hconf⟩ := grow_some hgrow
  split at h
  · cases h
  rename_i x hx
  split at h
  · cases h
  rename_i possible hdelete
  cases h
  refine ⟨x, possible, hx, harb ▸ hdelete, ?_, rfl⟩
  rw [← hconf]

theorem queryRound_inr {conflicts : List ArbiterConflictInfo}
    (h : queryRound env ops q = .inr (.ok conflicts, q')) :
    conflicts = q.conflicts ∨ conflicts = q.conflicts ++ [wholeRangeConflict] := by
  rw [queryRound] at h
  simp only at h
  split at h
  · cases h
    exact .inl rfl
  split at h
  · cases h
  rename_i grown hgrow
  obtain ⟨-, -, hconf⟩ := grow_some hgrow
  split at h
  · cases h
    exact .inr (by rw [← hconf])
  · split at h <;> cases h

end

/-! ### What is reported -/

/-- Each conflict names a committed range with its bounds and its owner, no owner is named twice,
and the requesting device is not named. -/
structure NamesCommitted (committed : RtlRangeList) (device : Option DeviceObject)
    (conflicts : List ArbiterConflictInfo) : Prop where
  committed : ∀ c ∈ conflicts, ∃ x ∈ committed, c = ⟨x.owner, x.start, x.last⟩
  distinct : (conflicts.map (·.owningObject)).Nodup
  foreign : ∀ c ∈ conflicts, c.owningObject ≠ device

/-- The copy holds committed ranges whose owners are neither the requesting device nor reported
already. -/
structure QueryInv (committed : RtlRangeList) (device : Option DeviceObject)
    (q : ConflictQuery σ) : Prop where
  copied : ∀ x ∈ q.arbiter.possibleAllocation, x ∈ committed ∧ x.owner ≠ device ∧
    x.owner ∉ q.conflicts.map (·.owningObject)
  names : NamesCommitted committed device q.conflicts

variable {committed : RtlRangeList} {device : Option DeviceObject}
  {conflicts : List ArbiterConflictInfo} {env : Environment}

theorem NamesCommitted.append (h : NamesCommitted committed device conflicts) {x : RtlRange}
    (hx : x ∈ committed) (hfor : x.owner ≠ device)
    (hnew : x.owner ∉ conflicts.map (·.owningObject)) :
    NamesCommitted committed device (conflicts ++ [⟨x.owner, x.start, x.last⟩]) where
  committed := by
    intro c hc
    rcases mem_append.mp hc with hc | hc
    · exact h.committed c hc
    · exact ⟨x, hx, mem_singleton.mp hc⟩
  distinct := by
    rw [map_append, map_singleton]
    refine Nodup.append h.distinct (nodup_singleton _) ?_
    rw [disjoint_singleton]
    exact hnew
  foreign := by
    intro c hc
    rcases mem_append.mp hc with hc | hc
    · exact h.foreign c hc
    · rw [mem_singleton.mp hc]
      exact hfor

/-- Where the callback is asked about ranges of the copy, a round keeps the invariant and makes the
copy shorter. -/
theorem QueryInv.round {ops : ArbiterOps σ} (hrtl : env.rtl.Lawful) (hfd : ∀ arb st world x,
      (ops.findSuitableRange env arb st world).conflictingRange = some x →
      x ∈ arb.possibleAllocation) {q q' : ConflictQuery σ} (hq : QueryInv committed device q)
    (h : queryRound env ops q = .inl q') : QueryInv committed device q' ∧
      q'.arbiter.possibleAllocation.length < q.arbiter.possibleAllocation.length := by
  obtain ⟨x, possible, hx, hdelete, hconf, rfl⟩ := queryRound_inl h
  have hmem := hfd _ _ _ _ hx
  obtain ⟨hcomm, hfor, hnew⟩ := hq.copied x hmem
  obtain ⟨l, hl, hperm⟩ := hrtl.deleteOwners_spec q.arbiter.possibleAllocation x.owner
  obtain rfl : q'.arbiter.possibleAllocation = l := Except.ok.inj (hdelete.symm.trans hl)
  refine ⟨⟨?_, ?_⟩, ?_⟩
  · intro y hy
    obtain ⟨hy, howne⟩ := mem_filter.mp (hperm.mem_iff.mp hy)
    obtain ⟨hycom, hyfor, hynew⟩ := hq.copied y hy
    refine ⟨hycom, hyfor, ?_⟩
    rw [hconf, map_append, mem_append, not_or]
    refine ⟨hynew, ?_⟩
    simpa using howne
  · rw [hconf]
    exact hq.names.append hcomm hfor hnew
  · rw [hperm.length_eq, length_filter_lt_length_iff_exists]
    exact ⟨x, hmem, by simp⟩

/-! ### Memory and bus numbers -/

theorem ResArbiter.conflictingRange_mem {kind : ResArbiter} (hkind : kind ≠ .port)
    (hasks : env.rtl.AsksWithin) (arb : ArbiterInstance) (st : AllocationState) (world : Unit)
    (x : RtlRange) (h : (kind.ops.findSuitableRange env arb st world).conflictingRange = some x) :
    x ∈ arb.possibleAllocation := by
  have hlib : ∀ st, (arbiterLibFindSuitableRange env arb st).2 = some x →
      x ∈ arb.possibleAllocation := by
    intro st h
    rw [arbiterLibFindSuitableRange] at h
    split at h
    · cases h
    rename_i alt halt
    split at h
    · cases h
    split at h
    · cases h
    rename_i hlen
    have hask : (placeAlternative env arb (st.openAttributes alt) alt).2 =
        (env.rtl.findRange arb.possibleAllocation (st.openAttributes alt).currentMinimum
          (st.openAttributes alt).currentMaximum alt.length (max alt.alignment 1)
          ((st.openAttributes alt).terms arb alt)).2 := by
      rw [placeAlternative]
      split <;> rfl
    rw [hask] at h
    exact (hasks _ _ _ _ _ _ _ hlen (alignment_ne_zero alt) h).1
  cases kind with
  | memory => exact hlib st.openBootAttributes h
  | port => exact absurd rfl hkind
  | busNumber => exact hlib st h

theorem queryRounds_spec {ops : ArbiterOps σ} (hrtl : env.rtl.Lawful) (hfd : ∀ arb st world x,
      (ops.findSuitableRange env arb st world).conflictingRange = some x →
      x ∈ arb.possibleAllocation) {q : ConflictQuery σ} (hq : QueryInv committed device q) :
    ∃ answer q', (∀ fuel, q.arbiter.possibleAllocation.length < fuel →
        queryRounds env ops fuel q = some (answer, q')) ∧
      ∀ conflicts, answer = .ok conflicts → ∃ named, NamesCommitted committed device named ∧
        (conflicts = named ∨ conflicts = named ++ [wholeRangeConflict]) := by
  obtain ⟨⟨answer, q'⟩, hrun⟩ := Machine.run_of_decreasing
    (fun _ _ hs hstep => hs.round hrtl hfd hstep) hq
    (Nat.lt_succ_self q.arbiter.possibleAllocation.length)
  refine ⟨answer, q', fun fuel hfuel => ?_, ?_⟩
  · rw [queryRounds]
    exact Machine.run_mono hrun hfuel
  rintro conflicts rfl
  obtain ⟨last, hlast, -, hret⟩ := Machine.run_invariant
    (fun _ _ hs _ hstep => (QueryInv.round hrtl hfd hs hstep).1) hrun hq
    (Machine.along_of_forall (fun _ => trivial) _ _)
  exact ⟨last.conflicts, hlast.names, queryRound_inr hret⟩

/-- A query fails before its first round, or answers what its rounds do. They start without
conflicts and without the ranges of the requesting device. -/
theorem queryConflict_cases (env : Environment) (ops : ArbiterOps σ) (arb : ArbiterInstance)
    (device : Option DeviceObject) (resource : IoResourceDescriptor) (world : σ) :
    (∃ r e, r.answer = .error e ∧
      ∀ fuel, arbpQueryConflict env ops fuel arb device resource world = some r) ∨
    ∃ l q result, env.rtl.copyRangeList arb.allocation = .ok l ∧ q.conflicts = [] ∧
      q.arbiter.possibleAllocation = env.rtl.deleteOwnersRanges' l device ∧
      (∀ x, (result x : QueryResult σ).answer = x.1) ∧
      ∀ fuel, arbpQueryConflict env ops fuel arb device resource world =
        (queryRounds env ops fuel q).map result := by
  have hall : arb.forConflictQuery.allocation = arb.allocation := rfl
  cases hcopy : env.rtl.copyRangeList arb.allocation with
  | error e =>
    refine .inl ⟨⟨.error e, arb.forConflictQuery.endConflictQuery arb, world⟩, e, rfl, ?_⟩
    intro fuel
    simp only [arbpQueryConflict, queryConflictBody, hall, hcopy]
    rfl
  | ok l =>
    cases hbuild : arbpBuildAlternative ops resource with
    | error e =>
      refine .inl ⟨⟨.error e, (arb.forConflictQuery.withPossible l).endConflictQuery arb,
        world⟩, e, rfl, ?_⟩
      intro fuel
      simp only [arbpQueryConflict, queryConflictBody, hall, hcopy, hbuild]
      rfl
    | ok alt =>
      by_cases hpool : env.exAllocatePool 0 = true
      · rcases hpre : ops.preprocessEntry (queryState device alt) world with
          ⟨status, st, world'⟩
        cases status with
        | error e =>
          refine .inl ⟨⟨.error e, (arb.forConflictQuery.withPossible l).endConflictQuery arb,
            world'⟩, e, rfl, ?_⟩
          intro fuel
          simp only [arbpQueryConflict, queryConflictBody, hall, hcopy, hbuild, hpool, hpre]
          rfl
        | ok u =>
          refine .inr ⟨l, ⟨st, arb.forConflictQuery.withPossible
            (env.rtl.deleteOwnersRanges' l device), world', [], 10, 1⟩,
            fun x => ⟨x.1, x.2.arbiter.endConflictQuery arb, x.2.world⟩, rfl, rfl, rfl,
            fun _ => rfl, fun fuel => ?_⟩
          simp only [arbpQueryConflict, queryConflictBody, hall, hcopy, hbuild, hpool, hpre]
          exact Option.map_map ..
      · refine .inl ⟨⟨.error .insufficientResources,
          (arb.forConflictQuery.withPossible l).endConflictQuery arb, world⟩, _, rfl, ?_⟩
        intro fuel
        simp only [arbpQueryConflict, queryConflictBody, hall, hcopy, hbuild, hpool]
        rfl

theorem NamesCommitted.of_whole {device : DeviceObject} {named : List ArbiterConflictInfo}
    (h : NamesCommitted committed (some device) named)
    (hconf : conflicts = named ∨ conflicts = named ++ [wholeRangeConflict]) :
    (conflicts.filterMap (·.owningObject)).Nodup ∧
      ∀ c ∈ conflicts, c.owningObject ≠ some device := by
  have hown : conflicts.filterMap (·.owningObject) = (named.map (·.owningObject)).filterMap id := by
    rw [filterMap_map]
    rcases hconf with rfl | rfl
    · rfl
    · rw [filterMap_append]
      exact append_nil _
  constructor
  · rw [hown]
    refine h.distinct.filterMap ?_
    intro a a' owner ha ha'
    exact ha.trans ha'.symm
  · intro c hc
    have hc : c ∈ named ∨ c = wholeRangeConflict := by
      rcases hconf with rfl | rfl
      · exact .inl hc
      · simpa using hc
    rcases hc with hc | rfl
    · exact h.foreign c hc
    · exact fun hnone => by cases hnone

/-- A query for memory or bus numbers comes to an end, after no more rounds than there are
committed ranges and one. If it succeeds, what it reports are committed ranges with their bounds
and owners, of different owners and not of the requesting device, up to a last conflict that
stands for the whole range and has no owner. -/
theorem conflict_query_sound {env : Environment} (hrtl : env.rtl.Lawful)
    (hasks : env.rtl.AsksWithin) {kind : ResArbiter} (hkind : kind ≠ .port)
    (arb : ArbiterInstance) (device : DeviceObject) (resource : IoResourceDescriptor)
    (world : Unit) :
    ∃ r, (∀ fuel, arb.allocation.length < fuel →
        arbpQueryConflict env kind.ops fuel arb (some device) resource world = some r) ∧
      ∀ conflicts, r.answer = .ok conflicts →
        (∃ named, NamesCommitted arb.allocation (some device) named ∧
          (conflicts = named ∨ conflicts = named ++ [wholeRangeConflict])) ∧
        (conflicts.filterMap (·.owningObject)).Nodup ∧
        ∀ c ∈ conflicts, c.owningObject ≠ some device := by
  rcases queryConflict_cases env kind.ops arb (some device) resource world with
    ⟨r, e, hanswer, hrun⟩ | ⟨l, q, result, hcopy, hnone, hpossible, hresult, hrun⟩
  · refine ⟨r, fun fuel _ => hrun fuel, fun conflicts hok => ?_⟩
    rw [hanswer] at hok
    cases hok
  · obtain ⟨l', hcopy', hperm⟩ := hrtl.copy_spec arb.allocation
    obtain rfl : l = l' := Except.ok.inj (hcopy.symm.trans hcopy')
    have hdelete := hrtl.deleteOwnersRanges'_perm l (some device)
    have hq : QueryInv arb.allocation (some device) q := by
      constructor
      · intro x hx
        rw [hpossible] at hx
        obtain ⟨hx, howner⟩ := List.mem_filter.mp (hdelete.mem_iff.mp hx)
        refine ⟨hperm.mem_iff.mp hx, of_decide_eq_true howner, ?_⟩
        rw [hnone]
        exact List.not_mem_nil
      · rw [hnone]
        exact ⟨fun _ hc => (by cases hc), List.nodup_nil, fun _ hc => (by cases hc)⟩
    obtain ⟨answer, q', hrounds, hnames⟩ := queryRounds_spec hrtl
      (ResArbiter.conflictingRange_mem hkind hasks) hq
    have hlength : q.arbiter.possibleAllocation.length ≤ arb.allocation.length := by
      rw [hpossible, hdelete.length_eq, ← hperm.length_eq]
      exact List.length_filter_le _ l
    refine ⟨result (answer, q'), fun fuel hfuel => ?_, fun conflicts hok => ?_⟩
    · rw [hrun, hrounds fuel (Nat.lt_of_le_of_lt hlength hfuel)]
      rfl
    · rw [hresult] at hok
      obtain ⟨named, hnamed, hconflicts⟩ := hnames conflicts hok
      exact ⟨⟨named, hnamed, hconflicts⟩, hnamed.of_whole hconflicts⟩

def threePages : ArbiterInstance :=
  .plainMemory [⟨0x1000, 0x1FFF, 0, false, some ⟨1⟩⟩, ⟨0x2000, 0x2FFF, 0, false, some ⟨2⟩⟩,
    ⟨0x3000, 0x3FFF, 0, false, some ⟨3⟩⟩]

theorem two_owners_reported :
    ∃ r conflicts, arbpQueryConflict .reference memoryOps 4 threePages (some ⟨3⟩)
        (.ofMemory .deviceExclusive 0x1000 0x3FFF 0x3000 1) () = some r ∧
      r.answer = .ok conflicts ∧
      conflicts = [⟨some ⟨1⟩, 0x1000, 0x1FFF⟩, ⟨some ⟨2⟩, 0x2000, 0x2FFF⟩] ∧
      (conflicts.filterMap (·.owningObject)).Nodup := by
  obtain ⟨r, hrun, hsound⟩ := conflict_query_sound Environment.reference_lawful
    Environment.reference_asksWithin (show ResArbiter.memory ≠ .port by decide) threePages ⟨3⟩
    (.ofMemory .deviceExclusive 0x1000 0x3FFF 0x3000 1) ()
  have hanswer : (arbpQueryConflict .reference memoryOps 4 threePages (some ⟨3⟩)
      (.ofMemory .deviceExclusive 0x1000 0x3FFF 0x3000 1) ()).map (·.answer) =
      some (.ok [⟨some ⟨1⟩, 0x1000, 0x1FFF⟩, ⟨some ⟨2⟩, 0x2000, 0x2FFF⟩]) := rfl
  have hfour := hrun 4 (by decide)
  change arbpQueryConflict .reference memoryOps 4 threePages _ _ _ = _ at hfour
  rw [hfour] at hanswer
  have hok := Option.some.inj hanswer
  exact ⟨r, _, hfour, hok, rfl, (hsound _ hok).2.1⟩

end UacpiNt
