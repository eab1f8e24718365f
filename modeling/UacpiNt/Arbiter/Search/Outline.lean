import UacpiNt.Arbiter.Conflict
import UacpiNt.Arbiter.Ordering.LastResort
import Mathlib.Data.Prod.Lex

/-!
# Proof outlines of the search

An outline annotates the search of an arbiter that keeps the library's routines: what holds when
an entry is entered with those above it, what holds between two attempts to place it, and what
holds when it is given up. One theorem shows that a search with an outline comes to an end, so
that a result about the search has to give the annotations only. The search ends without the
clock: between two placements of an entry the walk over its windows gets shorter, or the window
that is tried again gets lower.
-/

namespace UacpiNt

variable {σ κ : Type}

namespace Search

/-- Annotations for the search. `κ` names the subproblems: the entries that are still to be
placed when an entry is entered. The list of states below the current one comes first, and the
tentative list last. -/
structure Annotation (κ : Type) where
  enter : κ → List AllocationState → List AllocationState → RtlRangeList → Prop
  trying : κ → List AllocationState → Bool → AllocationState → List AllocationState →
    RtlRangeList → Prop
  back : κ → List AllocationState → List AllocationState → RtlRangeList → Prop

/-- The state in which an entry is looked for, lower in the same window or in its next one. -/
def Looks (arb : ArbiterInstance) (retry : Bool) (current st : AllocationState) : Prop :=
  if retry then st = current else arbiterLibGetNextAllocationRange arb current = (true, st)

/-- A placement that was entered as `st` may be varied: it is given up, tried again lower in its
window, or tried in the next window. The next window comes where there is nothing lower, or the
deadline has passed. -/
structure Annotation.Varies (A : Annotation κ) (env : Environment) (deadline : UInt64) (k : κ)
    (placed : List AllocationState) (st : AllocationState) (above : List AllocationState)
    (possible : RtlRangeList) : Prop where
  givenUp : st.noRetry = true → A.back k placed ({ st with noRetry := false } :: above) possible
  lowered : st.noRetry = false → st.start > st.currentMinimum → st.current.any (·.fixed) = false →
    A.trying k placed true st.lowerWindow above possible
  moved : st.noRetry = false →
    (st.start > st.currentMinimum → st.current.any (·.fixed) = false →
      ∃ n, env.keQueryInterruptTime n > deadline) →
    A.trying k placed false st above possible

/-- An outline: the annotations hold where they stand. The result satisfies `G` where the search
returns, which it does without success when it is late or the first entry is given up. -/
structure Outline (env : Environment) (ops : ArbiterOps σ) (arb : ArbiterInstance)
    (times : UInt64 × UInt64) (G : SearchResult σ → Prop) (A : Annotation κ) : Prop where
  late : ∀ n r, env.keQueryInterruptTime n > times.2 → r.status ≠ .ok () → G r
  finish : ∀ {k placed possible}, A.enter k placed [] possible →
    ∀ s : Search σ, s.placed = placed → s.pending = [] → G (s.finish ops)
  root : ∀ {k pending possible} r, A.back k [] pending possible → r.status ≠ .ok () → G r
  entered : ∀ {k placed current above possible}, A.enter k placed (current :: above) possible →
    A.trying k placed false current above possible
  exhausted : ∀ {k placed current above possible}, A.trying k placed false current above possible →
    (arbiterLibGetNextAllocationRange arb current).1 = false →
    A.back k placed ((arbiterLibGetNextAllocationRange arb current).2 :: above) possible
  refused : ∀ {k placed retry current above possible st},
    A.trying k placed retry current above possible → Looks arb retry current st →
    (arbiterLibFindSuitableRange env (arb.withPossible possible) st).1.1 = false →
    A.trying k placed false
      (arbiterLibFindSuitableRange env (arb.withPossible possible) st).1.2 above possible
  placed : ∀ {k placed retry current above possible st st'},
    A.trying k placed retry current above possible → Looks arb retry current st →
    (arbiterLibFindSuitableRange env (arb.withPossible possible) st).1 = (true, st') →
    st'.requestsRoom = true →
    ∃ k', A.enter k' (st' :: placed) above (arbiterLibAddAllocation env.rtl possible st') ∧
      ∀ {above' possible'}, A.back k' (st' :: placed) above' possible' →
        A.Varies env times.1 k placed st' (above'.modifyHead (·.restart))
          (arbiterLibBacktrackAllocation env.rtl possible' st')
  marked : ∀ {k placed retry current above possible st st'},
    A.trying k placed retry current above possible → Looks arb retry current st →
    (arbiterLibFindSuitableRange env (arb.withPossible possible) st).1 = (true, st') →
    st'.requestsRoom = false →
    ∃ k', A.enter k' (st'.withResult .nullRequest :: placed) above possible ∧
      ∀ {above' possible'}, A.back k' (st'.withResult .nullRequest :: placed) above' possible' →
        A.back k placed (st'.withResult .nullRequest :: above'.modifyHead (·.restart)) possible'

def deadlines (s : Search σ) : UInt64 × UInt64 :=
  (s.deadline, s.hardDeadline)

/-- The search has given the entries of a subproblem up, and is back at the entry below. -/
def Returned (A : Annotation κ) (times : UInt64 × UInt64) (k : κ)
    (placed : List AllocationState) (n : Nat) (s : Search σ) : Prop :=
  ∃ below rest pending possible, placed = below :: rest ∧
    s.At .enter rest (below :: pending) true possible ∧ A.back k placed pending possible ∧
    pending.length = n ∧ s.deadlines = times

/-- What is ahead of an entry that is about to be tried: the walk over its windows, and what is
left of the window if it is tried again in the same one. -/
def effort (orderings : List ArbiterOrdering) (retry : Bool) (st : AllocationState) : ℕ ×ₗ ℕ :=
  toLex (st.remaining orderings, if retry then st.currentMaximum.toNat + 1 else 0)

theorem effort_lt {orderings : List ArbiterOrdering} {retry retry' : Bool}
    {st st' : AllocationState} : effort orderings retry' st' < effort orderings retry st ↔
      st'.remaining orderings < st.remaining orderings ∨
        st'.remaining orderings = st.remaining orderings ∧
          (if retry' then st'.currentMaximum.toNat + 1 else 0) <
            if retry then st.currentMaximum.toNat + 1 else 0 :=
  Prod.Lex.toLex_lt_toLex

section

variable {env : Environment} {ops : ArbiterOps σ} {arb : ArbiterInstance}
  {times : UInt64 × UInt64} {G : SearchResult σ → Prop} {A : Annotation κ} {k : κ}
  {placed above : List AllocationState} {current st st' : AllocationState}
  {possible : RtlRangeList} {retry : Bool} {n : Nat} {s t : Search σ}

theorem remaining_eq_of_unplaced (h : st'.unplaced = st.unplaced)
    (orderings : List ArbiterOrdering) : st'.remaining orderings = st.remaining orderings :=
  (congrArg (AllocationState.remaining orderings) h :)

theorem effort_next (h : Looks arb retry current st) (hsame : st'.unplaced = st.unplaced) :
    effort arb.orderingList.orderings false st' <
      effort arb.orderingList.orderings retry current := by
  rw [effort_lt, remaining_eq_of_unplaced hsame]
  cases retry with
  | true =>
    obtain rfl : st = current := h
    exact .inr ⟨rfl, Nat.succ_pos _⟩
  | false => exact .inl (remaining_nextRounds arb.orderingList.count_le_limit h)

theorem effort_lowered (hrtl : env.rtl.Lawful) (h : Looks arb retry current st)
    (hfd : (arbiterLibFindSuitableRange env (arb.withPossible possible) st).1 = (true, st'))
    (hst : st'.start > st'.currentMinimum) :
    effort arb.orderingList.orderings true st'.lowerWindow <
      effort arb.orderingList.orderings retry current := by
  have hsame := findSuitableRange_unplaced env (arb.withPossible possible) st
  rw [hfd] at hsame
  have hrem : st'.lowerWindow.remaining arb.orderingList.orderings =
      st.remaining arb.orderingList.orderings := remaining_eq_of_unplaced hsame _
  rw [effort_lt, hrem]
  cases retry with
  | false => exact .inl (remaining_nextRounds arb.orderingList.count_le_limit h)
  | true =>
    obtain rfl : st = current := h
    refine .inr ⟨rfl, ?_⟩
    obtain ⟨alt, -, hwin, hgr⟩ := findSuitableRange_grant (congrArg Prod.fst hfd)
    rw [hfd] at hgr
    have hle : st'.start.toNat ≤ st.currentMaximum.toNat :=
      UInt64.le_iff_toNat_le.mp (hgr.start_le_maximum hrtl hwin)
    have hpos := UInt64.lt_iff_toNat_lt.mp hst
    have hlower := RangeList.toNat_sub_one_of_lt hst
    simp only [AllocationState.lowerWindow, if_true]
    omega

variable (arb) in
theorem step_enter (hops : IsLibraryArbiter ops) {backtracking : Bool}
    (h : s.At .enter placed (current :: above) backtracking possible)
    (htime : ¬ env.keQueryInterruptTime s.reads > s.hardDeadline) : s.step env ops arb =
      if backtracking then { s with reads := s.reads + 1 }.vary env ops current above
      else .inl ({ s with reads := s.reads + 1 }.toAttempt current above false) := by
  obtain ⟨phase, placed, pending, backtracking, mcfgConflict, possible, world, d, hd, reads⟩ := s
  obtain ⟨rfl, rfl, rfl, rfl, rfl⟩ := h
  simp only [step, enter, if_neg htime, hops.preprocess_eq, arbiterLibPreprocessEntry]

section

variable (o : Outline env ops arb times G A)

include o

theorem leads_backtrack (hstep : s.step env ops arb = t.backtrack current above)
    (hpl : t.placed = placed) (hposs : t.possible = possible)
    (htimes : t.deadlines = times) (hlen : above.length = n)
    (h : A.back k placed (current :: above) possible) : Machine.Leads (step env ops arb) G
      (Returned A times k placed (n + 1)) s := by
  rw [backtrack] at hstep
  cases placed with
  | nil =>
    rw [hpl] at hstep
    exact .returns _ hstep (o.root _ h (by simp [failConflict]))
  | cons below rest =>
    rw [hpl] at hstep
    refine .move _ hstep (.here ⟨below, rest, current :: above, possible, rfl, ?_, h, ?_, htimes⟩)
    · exact ⟨rfl, rfl, rfl, rfl, hposs⟩
    · simp [hlen]

theorem leads_late {backtracking : Bool} {Q : Search σ → Prop}
    (h : s.At .enter placed (current :: above) backtracking possible)
    (htimes : s.deadlines = times)
    (htime : env.keQueryInterruptTime s.reads > s.hardDeadline) :
    Machine.Leads (step env ops arb) G Q s := by
  have hstep : s.step env ops arb =
      .inr ({ s with reads := s.reads + 1 }.failConflict .unsuccessful) := by
    obtain ⟨phase, placed, pending, backtracking, mcfgConflict, possible, world, d, hd, reads⟩ := s
    obtain ⟨rfl, rfl, rfl, rfl, rfl⟩ := h
    simp only [step, enter, if_pos htime]
  have hhard : s.hardDeadline = times.2 := congrArg Prod.snd htimes
  exact .returns _ hstep (o.late s.reads _ (hhard ▸ htime) (by simp [failConflict]))

variable (env ops arb times G A) in
def Attempts (k : κ) (placed : List AllocationState) (n : Nat) (bound : ℕ ×ₗ ℕ) : Prop :=
  ∀ (s : Search σ) (retry : Bool) (current : AllocationState) (above : List AllocationState)
    (possible : RtlRangeList), s.At (.attempt retry) placed (current :: above) false possible →
    s.deadlines = times → above.length = n → A.trying k placed retry current above possible →
    effort arb.orderingList.orderings retry current < bound →
    Machine.Leads (step env ops arb) G (Returned A times k placed (n + 1)) s

variable (hops : IsLibraryArbiter ops)

include hops

theorem leads_vary (hrtl : env.rtl.Lawful)
    (hatt : Attempts env ops arb times G A k placed n
      (effort arb.orderingList.orderings retry current)) (hlook : Looks arb retry current st)
    (hfd : (arbiterLibFindSuitableRange env (arb.withPossible possible) st).1 = (true, st'))
    (hroom : st'.requestsRoom = true) {above' : List AllocationState} {possible' : RtlRangeList}
    (hs : s.At .enter placed (st' :: above') true possible')
    (htimes : s.deadlines = times) (hlen : above'.length = n)
    (hvar : A.Varies env times.1 k placed st' (above'.modifyHead (·.restart))
      (arbiterLibBacktrackAllocation env.rtl possible' st')) :
    Machine.Leads (step env ops arb) G
      (Returned A times k placed (n + 1)) s := by
  have hdead : s.deadline = times.1 := congrArg Prod.fst htimes
  have hlen' : (above'.modifyHead (·.restart)).length = n := by simpa using hlen
  have hback : ops.backtrackAllocation env.rtl s.possible st' =
      arbiterLibBacktrackAllocation env.rtl possible' st' := by
    cases hops
    rw [hs.possible_eq]
    rfl
  have hsame := findSuitableRange_unplaced env (arb.withPossible possible) st
  rw [hfd] at hsame
  by_cases htime : env.keQueryInterruptTime s.reads > s.hardDeadline
  · exact leads_late o hs htimes htime
  have hstep := step_enter arb hops hs htime
  rw [if_pos rfl] at hstep
  simp only [vary, hroom, Bool.not_true, Bool.false_eq_true, if_false] at hstep
  by_cases hretr : st'.noRetry = true
  · rw [if_pos hretr] at hstep
    exact leads_backtrack o hstep hs.placed_eq hback htimes hlen' (hvar.givenUp hretr)
  rw [if_neg hretr] at hstep
  rw [Bool.not_eq_true] at hretr
  split at hstep <;> rename_i hlower
  · have hfix : st'.current.any (·.fixed) = false := by simpa using hlower.2
    split at hstep
    · refine .move _ hstep (hatt _ true _ _ _ ⟨rfl, hs.placed_eq, rfl, rfl, hback⟩ htimes
        hlen' (hvar.lowered hretr hlower.1 hfix) ?_)
      exact effort_lowered hrtl hlook hfd hlower.1
    rename_i hpass
    refine .move _ hstep (hatt _ false _ _ _ ⟨rfl, hs.placed_eq, rfl, rfl, hback⟩ htimes
      hlen' (hvar.moved hretr fun _ _ => ⟨s.reads + 1, ?_⟩) (effort_next hlook hsame))
    simpa [hdead] using hpass
  · refine .move _ hstep (hatt _ false _ _ _ ⟨rfl, hs.placed_eq, rfl, rfl, hback⟩ htimes
      hlen' (hvar.moved hretr fun hst hfix => ?_) (effort_next hlook hsame))
    exact absurd ⟨hst, by simp [hfix]⟩ hlower

theorem leads_skip (hroom : current.requestsRoom = false)
    (hs : s.At .enter placed (current :: above) true possible)
    (htimes : s.deadlines = times) (hlen : above.length = n)
    (hback : A.back k placed (current :: above.modifyHead (·.restart)) possible) :
    Machine.Leads (step env ops arb) G
      (Returned A times k placed (n + 1)) s := by
  by_cases htime : env.keQueryInterruptTime s.reads > s.hardDeadline
  · exact leads_late o hs htimes htime
  · have hstep := step_enter arb hops hs htime
    simp only [vary, hroom] at hstep
    exact leads_backtrack o hstep hs.placed_eq hs.possible_eq htimes (by simpa using hlen) hback

variable (env ops arb times G A) in
def Subproblems (n : Nat) : Prop :=
  ∀ (k : κ) (placed pending : List AllocationState) (possible : RtlRangeList) (s : Search σ),
    pending.length = n → s.At .enter placed pending false possible → s.deadlines = times →
    A.enter k placed pending possible →
    Machine.Leads (step env ops arb) G (Returned A times k placed n) s

/-- Looking for a placement: the entry is placed and the entries above are entered, or it goes on
to its next window. -/
theorem leads_seek (hrtl : env.rtl.Lawful)
    (hsub : Subproblems env ops arb times G A n)
    (hatt : Attempts env ops arb times G A k placed n
      (effort arb.orderingList.orderings retry current))
    (htry : A.trying k placed retry current above possible) (hlook : Looks arb retry current st)
    (hpl : s.placed = placed) (hcalm : s.backtracking = false)
    (hposs : s.possible = possible) (htimes : s.deadlines = times)
    (hlen : above.length = n) :
    Machine.Leads (step env ops arb) G (Returned A times k placed (n + 1))
      (s.seek env ops arb st above) := by
  subst hposs
  have hsame := findSuitableRange_unplaced env (arb.withPossible s.possible) st
  rcases hfd : (arbiterLibFindSuitableRange env (arb.withPossible s.possible) st).1 with
    ⟨granted, st'⟩
  have hseek : s.seek env ops arb st above =
      if granted then s.advance env ops st' above else s.toAttempt st' above false := by
    rw [seek, hops.find_eq]
    simp only [libraryFindSuitable, hfd]
  rw [hfd] at hsame
  rw [hseek]
  cases granted with
  | false =>
    have href := o.refused htry hlook (congrArg Prod.fst hfd)
    rw [hfd] at href
    exact hatt _ false st' above s.possible ⟨rfl, hpl, rfl, rfl, rfl⟩ htimes hlen
      href (effort_next hlook hsame)
  | true =>
    rw [if_pos rfl, advance]
    by_cases hroom : st'.requestsRoom = true
    · obtain ⟨k', henter, hvar⟩ := o.placed htry hlook hfd hroom
      have hadd : ops.addAllocation = arbiterLibAddAllocation := by
        cases hops
        rfl
      rw [if_pos hroom, hadd]
      refine Machine.Leads.trans (hsub k' (st' :: placed) above _ _ hlen
        ⟨rfl, by rw [← hpl], rfl, hcalm, rfl⟩ htimes henter) ?_
      rintro s' ⟨below, rest, above', possible', heq, hat, hback, hlen', htimes'⟩
      obtain ⟨rfl, rfl⟩ := List.cons.inj heq
      exact leads_vary o hops hrtl hatt hlook hfd hroom hat htimes' hlen'
        (hvar hback)
    · have hnone : st'.requestsRoom = false := by simpa using hroom
      have hmar : (st'.withResult .nullRequest).requestsRoom = false := hnone
      obtain ⟨k', henter, hgiven⟩ := o.marked htry hlook hfd hnone
      rw [if_neg hroom]
      refine Machine.Leads.trans (hsub k' (st'.withResult .nullRequest :: placed) above _ _ hlen
        ⟨rfl, by rw [← hpl], rfl, hcalm, rfl⟩ htimes henter) ?_
      rintro s' ⟨below, rest, above', possible', heq, hat, hback, hlen', htimes'⟩
      obtain ⟨rfl, rfl⟩ := List.cons.inj heq
      exact leads_skip o hops hmar hat htimes' hlen' (hgiven hback)

theorem attempts_of_subproblems (hrtl : env.rtl.Lawful)
    (hsub : Subproblems env ops arb times G A n) (k : κ)
    (placed : List AllocationState) (bound : ℕ ×ₗ ℕ) :
    Attempts env ops arb times G A k placed n bound := by
  induction bound using WellFoundedLT.induction with
  | ind bound ih =>
    intro s retry current above possible hs htimes hlen htry hless
    have hatt := ih _ hless
    cases retry with
    | true =>
      have hstep : s.step env ops arb = .inl (s.seek env ops arb current above) := by
        rw [step, hs.pending_eq, hs.phase_eq]
        rfl
      exact .move _ hstep (leads_seek o hops hrtl hsub hatt htry rfl hs.placed_eq
        hs.backtracking_eq hs.possible_eq htimes hlen)
    | false =>
      rcases hnext : arbiterLibGetNextAllocationRange arb current with ⟨offered, st⟩
      -- The walk reads the ordering list of the arbiter only.
      have hlib : arbiterLibGetNextAllocationRange (arb.withPossible s.possible) current =
          (offered, st) := hnext
      have hstep : s.step env ops arb =
          if offered then .inl (s.seek env ops arb st above) else s.backtrack st above := by
        rw [step, hs.pending_eq, hs.phase_eq]
        simp only [attempt, hops.next_eq, libraryGetNext, hlib, Bool.false_eq_true, if_false]
      cases offered with
      | true =>
        exact .move _ hstep (leads_seek o hops hrtl hsub hatt htry hnext
          hs.placed_eq hs.backtracking_eq hs.possible_eq htimes hlen)
      | false =>
        have hback := o.exhausted htry (congrArg Prod.fst hnext)
        rw [hnext] at hback
        exact leads_backtrack o hstep hs.placed_eq hs.possible_eq htimes hlen hback

theorem Outline.leads (hrtl : env.rtl.Lawful) (n : Nat) :
    Subproblems env ops arb times G A n := by
  induction n with
  | zero =>
    intro k placed pending possible s hlen hs htimes henter
    obtain rfl := List.length_eq_zero_iff.mp hlen
    refine .returns (s.finish ops) ?_ (o.finish henter s hs.placed_eq hs.pending_eq)
    rw [step, hs.pending_eq]
  | succ n ih =>
    intro k placed pending possible s hlen hs htimes henter
    obtain ⟨current, above, rfl⟩ := List.exists_cons_of_length_eq_add_one hlen
    by_cases htime : env.keQueryInterruptTime s.reads > s.hardDeadline
    · exact leads_late o hs htimes htime
    have hstep := step_enter arb hops hs htime
    refine .move _ hstep ?_
    refine attempts_of_subproblems o hops hrtl ih k placed
      (toLex (current.remaining arb.orderingList.orderings + 1, 0)) _ false current above possible
      ⟨rfl, hs.placed_eq, rfl, rfl, hs.possible_eq⟩ htimes (Nat.succ.inj hlen)
      (o.entered henter) ?_
    exact Prod.Lex.toLex_lt_toLex.mpr (.inl (Nat.lt_succ_self _))

end

theorem Outline.exists_run
    (o : Outline env ops arb (env.keQueryInterruptTime 0 + arbiterAllocateDeadline,
      env.keQueryInterruptTime 1 + arbiterAllocateHardDeadline) G A)
    (hops : IsLibraryArbiter ops) (hrtl : env.rtl.Lawful) (states : List AllocationState)
    (world : σ) (henter : A.enter k [] states arb.possibleAllocation) :
    ∃ fuel r, arbiterLibAllocateEntry env ops arb fuel states world = some r ∧ G r := by
  refine Machine.Leads.exists_run (.trans (o.leads hops hrtl states.length k [] states
    arb.possibleAllocation (start env arb states world) rfl ⟨rfl, rfl, rfl, rfl, rfl⟩ rfl henter)
    ?_)
  -- There is no entry below the first one to come back to.
  rintro s ⟨below, rest, -, -, hnil, -⟩
  cases hnil

end

theorem outline_true (env : Environment) (ops : ArbiterOps σ) (arb : ArbiterInstance)
    (times : UInt64 × UInt64) : Outline env ops arb times (fun _ => True)
      (⟨fun _ _ _ _ => True, fun _ _ _ _ _ _ => True, fun _ _ _ _ => True⟩ : Annotation Unit) where
  late _ _ _ _ := trivial
  finish _ _ _ _ := trivial
  root _ _ _ := trivial
  entered _ := trivial
  exhausted _ _ := trivial
  refused _ _ _ := trivial
  placed _ _ _ _ :=
    ⟨(), trivial, fun _ => ⟨fun _ => trivial, fun _ _ _ => trivial, fun _ _ => trivial⟩⟩
  marked _ _ _ _ := ⟨(), trivial, fun _ => trivial⟩

end Search

/-- For every clock, every stack, every ordering list and every base list, the search of an arbiter
that keeps the library's routines returns, and does not make use of more steps than it needs. -/
theorem allocateEntry_terminates {env : Environment} (hrtl : env.rtl.Lawful) {ops : ArbiterOps σ}
    (hops : IsLibraryArbiter ops) (arb : ArbiterInstance) (states : List AllocationState)
    (world : σ) :
    ∃ bound r, ∀ fuel, bound ≤ fuel →
      arbiterLibAllocateEntry env ops arb fuel states world = some r := by
  obtain ⟨bound, r, hrun, -⟩ :=
    (Search.outline_true env ops arb _).exists_run (k := ()) hops hrtl states world trivial
  exact ⟨bound, r, fun fuel hle => Machine.run_mono hrun hle⟩

/-- A clock that stands still: the first of two requests is tried at each of its four places before
the search gives up. -/
theorem search_on_stopped_clock :
    (∀ n, Environment.reference.keQueryInterruptTime n = 0) ∧
      (∃ bound r, ∀ fuel, bound ≤ fuel → arbiterLibAllocateEntry .reference resOps (.plainMemory [])
        fuel [freshState 0 3 1 1, freshState 0 3 4 1] () = some r) ∧
      (arbiterLibAllocateEntry .reference resOps (.plainMemory []) 40
        [freshState 0 3 1 1, freshState 0 3 4 1] ()).map (·.status) = some (.error .unsuccessful) :=
  ⟨fun _ => rfl, allocateEntry_terminates Environment.reference_lawful (.mk _ _ _ _) _ _ (), rfl⟩

end UacpiNt
