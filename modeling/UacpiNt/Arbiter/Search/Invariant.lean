import UacpiNt.Arbiter.Search.Move

/-!
# Invariants of the search

At every moment the tentative list is the list the search started from together with the
placements of exactly the entries below the current one, and of the current one while the
search backs over it. The theorem of this file carries that through all moves, together
with facts about the states on the stack: one that all of them share, and one that each
placed state was granted with, in view of those placed below it.
-/

namespace UacpiNt

open List

variable {σ κ : Type}

namespace AllocationState

/-- Two states stand for the same placement of the same entry. -/
structure SamePlacement (st st' : AllocationState) : Prop where
  entry : st'.entry = st.entry
  alternatives : st'.alternatives = st.alternatives
  currentAlternative : st'.currentAlternative = st.currentAlternative
  start : st'.start = st.start
  last : st'.last = st.last
  currentMinimum : st'.currentMinimum = st.currentMinimum
  currentMaximum : st'.currentMaximum = st.currentMaximum

theorem SamePlacement.current {st st' : AllocationState} (h : st.SamePlacement st') :
    st'.current = st.current := by
  rw [AllocationState.current, AllocationState.current, h.currentAlternative, h.alternatives]

theorem SamePlacement.requestsRoom {st st' : AllocationState} (h : st.SamePlacement st') :
    st'.requestsRoom = st.requestsRoom := by
  rw [AllocationState.requestsRoom, AllocationState.requestsRoom, h.current]

end AllocationState

open AllocationState

/-- How an arbiter books placements: the records a placement is entered with, that they are
added and withdrawn exactly, and that preprocessing leaves a placement alone. -/
structure Books (rtl : RtlApi) (ops : ArbiterOps σ) (claims : AllocationState → RtlRangeList) :
    Prop where
  add : ∀ l st, (∀ c ∈ claims st, c.start ≤ c.last) →
    (ops.addAllocation rtl l st).Perm (claims st ++ l)
  /-- Records are told apart by `image` at least as well as by their keys, and a record with
  the key of a claim has its image. -/
  withdraw : ∀ {κ : Type} (image : RtlRange → κ) l st rest,
    (∀ r r', image r = image r' → r.key = r'.key) →
    (∀ r ∈ l, ∀ c ∈ claims st, r.key = c.key → image r = image c) →
    (l.map image).Perm ((claims st).map image ++ rest) →
    ((ops.backtrackAllocation rtl l st).map image).Perm rest
  withdraw_congr : ∀ l st st', st.SamePlacement st' →
    ops.backtrackAllocation rtl l st' = ops.backtrackAllocation rtl l st
  preprocess : ∀ st world st' world' status,
    ops.preprocessEntry st world = (status, st', world') → st.SamePlacement st'

/-- A property of states that no routine of the search destroys. -/
structure Stable (env : Environment) (ops : ArbiterOps σ) (arb : ArbiterInstance)
    (W : AllocationState → Prop) : Prop where
  preprocess : ∀ st world st' world' status, W st →
    ops.preprocessEntry st world = (status, st', world') → W st'
  next : ∀ possible st world offered st' world', W st →
    ops.getNextAllocationRange (arb.withPossible possible) st world = (offered, st', world') → W st'
  find : ∀ possible st world, W st →
    W (ops.findSuitableRange env (arb.withPossible possible) st world).state
  restart : ∀ st, W st → W st.restart
  lowerWindow : ∀ st, W st → W st.lowerWindow
  noRetry : ∀ st, W st → W { st with noRetry := false }

theorem Stable.and {env : Environment} {ops : ArbiterOps σ} {arb : ArbiterInstance}
    {W W' : AllocationState → Prop} (h : Stable env ops arb W) (h' : Stable env ops arb W') :
    Stable env ops arb fun st => W st ∧ W' st where
  preprocess st world st' world' status hst heq :=
    ⟨h.preprocess st world st' world' status hst.1 heq,
      h'.preprocess st world st' world' status hst.2 heq⟩
  next possible st world offered st' world' hst heq :=
    ⟨h.next possible st world offered st' world' hst.1 heq,
      h'.next possible st world offered st' world' hst.2 heq⟩
  find possible st world hst := ⟨h.find possible st world hst.1, h'.find possible st world hst.2⟩
  restart st hst := ⟨h.restart st hst.1, h'.restart st hst.2⟩
  lowerWindow st hst := ⟨h.lowerWindow st hst.1, h'.lowerWindow st hst.2⟩
  noRetry st hst := ⟨h.noRetry st hst.1, h'.noRetry st hst.2⟩

theorem Stable.of_kept {γ : Type} {env : Environment} {ops : ArbiterOps σ} {arb : ArbiterInstance}
    {d : AllocationState → γ} (hprep : ∀ st world, d (ops.preprocessEntry st world).2.1 = d st)
    (hnext : ∀ arb st world, d (ops.getNextAllocationRange arb st world).2.1 = d st)
    (hfind : ∀ arb st world, d (ops.findSuitableRange env arb st world).state = d st)
    (hres : ∀ st, d st.restart = d st) (hlower : ∀ st, d st.lowerWindow = d st)
    (hretr : ∀ st, d { st with noRetry := false } = d st) (P : γ → Prop) :
    Stable env ops arb fun st => P (d st) where
  preprocess := by
    intro st world st' world' status hst heq
    have hkept := hprep st world
    rw [heq] at hkept
    rwa [hkept]
  next := by
    intro possible st world offered st' world' hst heq
    have hkept := hnext (arb.withPossible possible) st world
    rw [heq] at hkept
    rwa [hkept]
  find := by
    intro possible st world hst
    rwa [hfind]
  restart st hst := by rwa [hres]
  lowerWindow st hst := by rwa [hlower]
  noRetry st hst := by rwa [hretr]

/-- A relation between each state of a stack and the states below it. -/
def Stacked (R : AllocationState → List AllocationState → Prop) : List AllocationState → Prop
  | [] => True
  | st :: below => R st below ∧ Stacked R below

variable {R : AllocationState → List AllocationState → Prop} {states : List AllocationState}

theorem Stacked.exists_below (h : Stacked R states) {st : AllocationState} (hst : st ∈ states) :
    ∃ below, R st below := by
  induction states with
  | nil => cases hst
  | cons top below ih =>
    rcases mem_cons.mp hst with rfl | hst'
    · exact ⟨below, h.1⟩
    · exact ih h.2 hst'

theorem Stacked.above_or_below (h : Stacked R states) {a b : AllocationState} (ha : a ∈ states)
    (hb : b ∈ states) :
    a = b ∨ (∃ below, R a below ∧ b ∈ below) ∨ ∃ below, R b below ∧ a ∈ below := by
  induction states with
  | nil => cases ha
  | cons top below ih =>
    rcases mem_cons.mp ha with rfl | ha'
    · rcases mem_cons.mp hb with rfl | hb'
      · exact .inl rfl
      · exact .inr (.inl ⟨below, h.1, hb'⟩)
    · rcases mem_cons.mp hb with rfl | hb'
      · exact .inr (.inr ⟨below, h.1, ha'⟩)
      · exact ih h.2 ha' hb'

def held (claims : AllocationState → RtlRangeList) (st : AllocationState) : RtlRangeList :=
  if st.requestsRoom then claims st else []

theorem mem_held {claims : AllocationState → RtlRangeList} {st : AllocationState} {c : RtlRange} :
    c ∈ held claims st ↔ st.requestsRoom = true ∧ c ∈ claims st := by
  rw [held]
  split <;> rename_i hroom
  · exact ⟨fun hc => ⟨hroom, hc⟩, fun hc => hc.2⟩
  · exact ⟨fun hc => (by cases hc), fun hc => absurd hc.1 hroom⟩

namespace Search

/-- The states whose placements are in the tentative list, nearest first. While the search
backs over an entry, that entry has not given its placement up yet. -/
def holders (s : Search σ) : List AllocationState :=
  (if s.backtracking then s.pending.take 1 else []) ++ s.placed

def Booked (base : RtlRangeList) (image : RtlRange → κ)
    (claims : AllocationState → RtlRangeList) (possible : RtlRangeList)
    (states : List AllocationState) : Prop :=
  (possible.map image).Perm ((states.flatMap (held claims)).map image ++ base.map image)

/-- The invariant of the search. `W` holds of all states, `R` of each holder and the holders
below it, and `L` of a state that is tried again lower in its window. -/
structure Inv (base : RtlRangeList) (image : RtlRange → κ)
    (claims : AllocationState → RtlRangeList) (W : AllocationState → Prop)
    (R : AllocationState → List AllocationState → Prop) (L : AllocationState → Prop)
    (s : Search σ) : Prop where
  calm : ∀ retry, s.phase = .attempt retry → s.backtracking = false
  placed_all : ∀ st ∈ s.placed, W st
  pending_all : ∀ st ∈ s.pending, W st
  booked : Booked base image claims s.possible s.holders
  stacked : Stacked R s.holders
  retried : s.phase = .attempt true → ∀ current above, s.pending = current :: above → L current

theorem At.holders {s : Search σ} {phase : Phase} {placed pending : List AllocationState}
    {backtracking : Bool} {possible : RtlRangeList}
    (h : s.At phase placed pending backtracking possible) :
    s.holders = (if backtracking then pending.take 1 else []) ++ placed := by
  rw [Search.holders, h.backtracking_eq, h.pending_eq, h.placed_eq]

section

variable {env : Environment} {ops : ArbiterOps σ} {arb : ArbiterInstance} {base : RtlRangeList}
  {image : RtlRange → κ} {claims : AllocationState → RtlRangeList} {W : AllocationState → Prop}
  {L : AllocationState → Prop} {s s' : Search σ}

variable {possible : RtlRangeList} {current st : AllocationState}
  {placed pending : List AllocationState}

theorem booked_withdraw (hbooks : Books env.rtl ops claims)
    (himage : ∀ r r', image r = image r' → r.key = r'.key) {current' : AllocationState}
    (hsame : current.SamePlacement current') (hroom : current'.requestsRoom = true)
    (hexact : ∀ r ∈ possible, ∀ c ∈ held claims current, r.key = c.key → image r = image c)
    (h : Booked base image claims possible (current :: placed)) :
    Booked base image claims (ops.backtrackAllocation env.rtl possible current') placed := by
  have hheld : held claims current = claims current := by
    rw [held, ← hsame.requestsRoom, if_pos hroom]
  rw [hheld] at hexact
  rw [Booked, flatMap_cons, hheld, map_append, append_assoc] at h
  rw [hbooks.withdraw_congr possible current current' hsame]
  exact hbooks.withdraw image possible current _ himage hexact h

theorem booked_skip (hroom : current.requestsRoom = false)
    (h : Booked base image claims possible (current :: placed)) :
    Booked base image claims possible placed := by
  rw [Booked, flatMap_cons, held, hroom] at h
  exact h

theorem booked_enter (hbooks : Books env.rtl ops claims) (hroom : st.requestsRoom = true)
    (hcl : ∀ c ∈ claims st, c.start ≤ c.last) (h : Booked base image claims possible placed) :
    Booked base image claims (ops.addAllocation env.rtl possible st) (st :: placed) := by
  have hadd := (hbooks.add possible st hcl).map image
  rw [map_append] at hadd
  rw [Booked, flatMap_cons, held, hroom, map_append, append_assoc]
  exact hadd.trans (h.append_left _)

theorem booked_mark (hroom : st.requestsRoom = false)
    (h : Booked base image claims possible placed) :
    Booked base image claims possible (st.withResult .nullRequest :: placed) := by
  have hroom' : (st.withResult .nullRequest).requestsRoom = false := hroom
  rw [Booked, flatMap_cons, held, hroom']
  exact h

theorem forall_restart (hstab : Stable env ops arb W) {above : List AllocationState}
    (h : ∀ st ∈ above, W st) : ∀ st ∈ above.modifyHead (·.restart), W st := by
  cases above with
  | nil => exact h
  | cons a rest =>
    intro st hst
    rcases mem_cons.mp hst with rfl | hst
    · exact hstab.restart a (h a mem_cons_self)
    · exact h st (mem_cons_of_mem a hst)

variable {above : List AllocationState} {backtracking : Bool}

theorem Inv.of_enter (h : s.At .enter placed pending backtracking possible)
    (hpl : ∀ st ∈ placed, W st) (hpend : ∀ st ∈ pending, W st)
    (hbook : Booked base image claims possible
      ((if backtracking then pending.take 1 else []) ++ placed))
    (hstack : Stacked R ((if backtracking then pending.take 1 else []) ++ placed)) :
    Inv base image claims W R L s where
  calm retry hph := by cases h.phase_eq.symm.trans hph
  placed_all := by
    rw [h.placed_eq]
    exact hpl
  pending_all := by
    rw [h.pending_eq]
    exact hpend
  booked := by
    rw [h.possible_eq, h.holders]
    exact hbook
  stacked := by
    rw [h.holders]
    exact hstack
  retried hph := by cases h.phase_eq.symm.trans hph

theorem Inv.of_attempt {retry : Bool}
    (h : s.At (.attempt retry) placed (current :: above) false possible)
    (hpl : ∀ st ∈ placed, W st) (hcur : W current) (habove : ∀ st ∈ above, W st)
    (hbook : Booked base image claims possible placed) (hstack : Stacked R placed)
    (hret : retry = true → L current) : Inv base image claims W R L s where
  calm _ _ := h.backtracking_eq
  placed_all := by
    rw [h.placed_eq]
    exact hpl
  pending_all := by
    rw [h.pending_eq]
    exact forall_mem_cons.mpr ⟨hcur, habove⟩
  booked := by
    rw [h.possible_eq, h.holders]
    exact hbook
  stacked := by
    rw [h.holders]
    exact hstack
  retried hph current' above' hpend := by
    obtain ⟨rfl, -⟩ := List.cons.inj (h.pending_eq.symm.trans hpend)
    exact hret (Phase.attempt.inj (h.phase_eq.symm.trans hph))

theorem Inv.at {phase : Phase} (hinv : Inv base image claims W R L s)
    (h : s.At phase placed (current :: above) backtracking possible) :
    (∀ st ∈ placed, W st) ∧ (W current ∧ ∀ st ∈ above, W st) ∧
      Booked base image claims possible ((if backtracking then [current] else []) ++ placed) ∧
      Stacked R ((if backtracking then [current] else []) ++ placed) := by
  have hhrs : s.holders = (if backtracking then [current] else []) ++ placed := h.holders
  refine ⟨?_, ?_, ?_, ?_⟩
  · rw [← h.placed_eq]
    exact hinv.placed_all
  · rw [← forall_mem_cons, ← h.pending_eq]
    exact hinv.pending_all
  · rw [← h.possible_eq, ← hhrs]
    exact hinv.booked
  · rw [← hhrs]
    exact hinv.stacked

theorem Inv.holders_all (hinv : Inv base image claims W R L s) : ∀ st ∈ s.holders, W st := by
  intro st hst
  rcases mem_append.mp hst with hst | hst
  · split at hst
    · exact hinv.pending_all st (mem_of_mem_take hst)
    · cases hst
  · exact hinv.placed_all st hst

/-- What the invariant needs of a step: a placement is withdrawn exactly, and a placement
that is found is granted in view of those below it. -/
structure StepOk (env : Environment) (ops : ArbiterOps σ) (arb : ArbiterInstance)
    (image : RtlRange → κ) (claims : AllocationState → RtlRangeList) (W : AllocationState → Prop)
    (R : AllocationState → List AllocationState → Prop) (s : Search σ) : Prop where
  exact : s.backtracking = true → ∀ current above, s.pending = current :: above →
    ∀ r ∈ s.possible, ∀ c ∈ held claims current, r.key = c.key → image r = image c
  granted : ∀ st world', s.sought ops arb = some (st, world') →
    (ops.findSuitableRange env (arb.withPossible s.possible) st world').granted = true →
    (ops.findSuitableRange env (arb.withPossible s.possible) st world').state.requestsRoom = true →
    R (ops.findSuitableRange env (arb.withPossible s.possible) st world').state s.placed ∧
      ∀ c ∈ claims (ops.findSuitableRange env (arb.withPossible s.possible) st world').state,
        c.start ≤ c.last
  marked : ∀ st world', s.sought ops arb = some (st, world') →
    (ops.findSuitableRange env (arb.withPossible s.possible) st world').granted = true →
    (ops.findSuitableRange env (arb.withPossible s.possible) st world').state.requestsRoom = false →
    W ((ops.findSuitableRange env (arb.withPossible s.possible) st
      world').state.withResult .nullRequest) ∧
    R ((ops.findSuitableRange env (arb.withPossible s.possible) st
      world').state.withResult .nullRequest) s.placed

theorem Inv.sought (hstab : Stable env ops arb W) (hinv : Inv base image claims W R L s)
    {world' : σ} (h : s.sought ops arb = some (st, world')) : W st := by
  obtain ⟨current, above, hpend, hcase⟩ := sought_cases h
  have hcur : W current := hinv.pending_all current (hpend ▸ mem_cons_self)
  rcases hcase with ⟨-, rfl⟩ | hnext
  · exact hcur
  · exact hstab.next _ _ _ _ _ _ hcur hnext

/-- What is wanted of a window, holds of the window below a placement. -/
abbrev Lowers (W : AllocationState → Prop) (R : AllocationState → List AllocationState → Prop)
    (L : AllocationState → Prop) : Prop :=
  ∀ current below current', R current below → W current → current.SamePlacement current' →
    current'.requestsRoom = true → current'.start > current'.currentMinimum →
    current'.current.any (·.fixed) = false → L current'.lowerWindow

theorem Inv.move (hbooks : Books env.rtl ops claims) (hstab : Stable env ops arb W)
    (himage : ∀ r r', image r = image r' → r.key = r'.key)
    (hlower : Lowers W R L)
    (hok : StepOk env ops arb image claims W R s) (hinv : Inv base image claims W R L s)
    (h : Move env ops arb s s') : Inv base image claims W R L s' := by
  have hwit : ∀ {placed above current current' possible world'},
      s.At .enter placed (current :: above) true possible →
      ops.preprocessEntry current s.world = (.ok (), current', world') →
      current'.requestsRoom = true →
      Booked base image claims (ops.backtrackAllocation env.rtl possible current') placed := by
    intro placed above current current' possible world' h hpre hroom
    have hexact := hok.exact h.backtracking_eq current above h.pending_eq
    rw [h.possible_eq] at hexact
    exact booked_withdraw hbooks himage (hbooks.preprocess _ _ _ _ _ hpre) hroom hexact
      (hinv.at h).2.2.1
  cases h with
  | takenUp placed above current current' possible world' h hpre h' =>
    obtain ⟨hpl, ⟨hcur, habove⟩, hbook, hstack⟩ := hinv.at h
    exact .of_attempt h' hpl (hstab.preprocess _ _ _ _ _ hcur hpre) habove hbook
      hstack (fun hretr => by cases hretr)
  | skipped placed above below current current' possible world' h hpre hroom h' =>
    obtain ⟨hpl, ⟨hcur, habove⟩, hbook, hstack⟩ := hinv.at h
    rw [forall_mem_cons] at hpl
    have hcur' := hstab.preprocess _ _ _ _ _ hcur hpre
    have hsame := hbooks.preprocess _ _ _ _ _ hpre
    refine .of_enter h' hpl.2 (forall_mem_cons.mpr ⟨hpl.1, ?_⟩)
      (booked_skip (hsame.requestsRoom ▸ hroom) hbook) hstack.2
    exact forall_mem_cons.mpr ⟨hcur', forall_restart hstab habove⟩
  | givenUp placed above below current current' possible world' h hpre hroom hretr h' =>
    obtain ⟨hpl, ⟨hcur, habove⟩, -, hstack⟩ := hinv.at h
    rw [forall_mem_cons] at hpl
    have hcur' := hstab.noRetry _ (hstab.preprocess _ _ _ _ _ hcur hpre)
    refine .of_enter h' hpl.2 (forall_mem_cons.mpr ⟨hpl.1, ?_⟩) (hwit h hpre hroom) hstack.2
    exact forall_mem_cons.mpr ⟨hcur', forall_restart hstab habove⟩
  | lowered placed above current current' possible world' h hpre hroom hstar hfix h' =>
    obtain ⟨hpl, ⟨hcur, habove⟩, -, hstack⟩ := hinv.at h
    have hcur' := hstab.lowerWindow _ (hstab.preprocess _ _ _ _ _ hcur hpre)
    refine .of_attempt h' hpl hcur' (forall_restart hstab habove)
      (hwit h hpre hroom) hstack.2 fun _ => ?_
    exact hlower current placed current' hstack.1 hcur (hbooks.preprocess _ _ _ _ _ hpre)
      hroom hstar hfix
  | moved placed above current current' possible world' h hpre hroom h' =>
    obtain ⟨hpl, ⟨hcur, habove⟩, -, hstack⟩ := hinv.at h
    exact .of_attempt h' hpl (hstab.preprocess _ _ _ _ _ hcur hpre)
      (forall_restart hstab habove) (hwit h hpre hroom) hstack.2
      (fun hretr => by cases hretr)
  | entered placed above current st retry backtracking possible world' h hso hfd hroom h' =>
    obtain rfl : backtracking = false := h.backtracking_eq ▸ hinv.calm retry h.phase_eq
    obtain ⟨hpl, ⟨-, habove⟩, hbook, hstack⟩ := hinv.at h
    have hst := hstab.find possible st world' (hinv.sought hstab hso)
    rw [← h.possible_eq] at hfd hroom
    obtain ⟨hR, hcl⟩ := hok.granted st world' hso hfd hroom
    rw [h.possible_eq] at hR hroom hcl
    rw [h.placed_eq] at hR
    exact .of_enter h' (forall_mem_cons.mpr ⟨hst, hpl⟩) habove
      (booked_enter hbooks hroom hcl hbook) ⟨hR, hstack⟩
  | marked placed above current st retry backtracking possible world' h hso hfd hroom h' =>
    obtain rfl : backtracking = false := h.backtracking_eq ▸ hinv.calm retry h.phase_eq
    obtain ⟨hpl, ⟨-, habove⟩, hbook, hstack⟩ := hinv.at h
    rw [← h.possible_eq] at hfd hroom
    obtain ⟨hst, hR⟩ := hok.marked st world' hso hfd hroom
    rw [h.possible_eq] at hst hR hroom
    rw [h.placed_eq] at hR
    exact .of_enter h' (forall_mem_cons.mpr ⟨hst, hpl⟩) habove
      (booked_mark hroom hbook) ⟨hR, hstack⟩
  | refused placed above current st retry backtracking possible world' h hso h' =>
    obtain rfl : backtracking = false := h.backtracking_eq ▸ hinv.calm retry h.phase_eq
    obtain ⟨hpl, ⟨-, habove⟩, hbook, hstack⟩ := hinv.at h
    exact .of_attempt h' hpl (hstab.find possible st world' (hinv.sought hstab hso))
      habove hbook hstack (fun hretr => by cases hretr)
  | exhausted placed above below current current' backtracking possible world' h hnext h' =>
    obtain rfl : backtracking = false := h.backtracking_eq ▸ hinv.calm false h.phase_eq
    obtain ⟨hpl, ⟨hcur, habove⟩, hbook, hstack⟩ := hinv.at h
    rw [forall_mem_cons] at hpl
    refine .of_enter h' hpl.2 (forall_mem_cons.mpr ⟨hpl.1, ?_⟩) hbook hstack
    exact forall_mem_cons.mpr ⟨hstab.next _ _ _ _ _ _ hcur hnext, habove⟩

theorem At.states_eq {phase : Phase} (h : s.At phase placed pending backtracking possible) :
    s.states = placed.reverse ++ pending := by
  rw [states, h.placed_eq, h.pending_eq]

theorem map_restart {δ : Type} {d : AllocationState → δ}
    (hd : ∀ x, Stable env ops arb fun st => d st = x) (above : List AllocationState) :
    (above.modifyHead (·.restart)).map d = above.map d := by
  cases above with
  | nil => rfl
  | cons a rest =>
    have ha : d a.restart = d a := (hd (d a)).restart a rfl
    simp [ha]

theorem Move.map_states {δ : Type} {d : AllocationState → δ}
    (hd : ∀ x, Stable env ops arb fun st => d st = x)
    (hmark : s.grantsNull env ops arb = true → ∀ st, d (st.withResult .nullRequest) = d st)
    (h : Move env ops arb s s') : s'.states.map d = s.states.map d := by
  have hpre : ∀ st world st' world' status, ops.preprocessEntry st world = (status, st', world') →
      d st' = d st := fun st world st' world' status hst =>
    (hd (d st)).preprocess st world st' world' status rfl hst
  have hso : ∀ current above st world', s.pending = current :: above →
      s.sought ops arb = some (st, world') → d st = d current := by
    intro current above st world' hpend hst
    obtain ⟨current', above', hpend', hcase⟩ := sought_cases hst
    obtain ⟨rfl, rfl⟩ := List.cons.inj (hpend.symm.trans hpend')
    rcases hcase with ⟨-, rfl⟩ | hnext
    · rfl
    · exact (hd (d current)).next _ _ _ _ _ _ rfl hnext
  have hfind : ∀ possible st world,
      d (ops.findSuitableRange env (arb.withPossible possible) st world).state = d st :=
    fun possible st world => (hd (d st)).find possible st world rfl
  have hlower : ∀ st, d st.lowerWindow = d st := fun st => (hd (d st)).lowerWindow st rfl
  have hretr : ∀ st, d { st with noRetry := false } = d st := fun st => (hd (d st)).noRetry st rfl
  cases h with
  | takenUp placed above current current' possible world' h hst h'
  | skipped placed above below current current' possible world' h hst hroom h'
  | givenUp placed above below current current' possible world' h hst hroom hno h'
  | lowered placed above current current' possible world' h hst hroom hstar hfix h'
  | moved placed above current current' possible world' h hst hroom h' =>
    simp [h.states_eq, h'.states_eq, hpre _ _ _ _ _ hst, map_restart hd, hretr, hlower]
  | entered placed above current st retry backtracking possible world' h hst hfd hroom h'
  | refused placed above current st retry backtracking possible world' h hst h' =>
    simp [h.states_eq, h'.states_eq, hfind, hso current above st world' h.pending_eq hst]
  | marked placed above current st retry backtracking possible world' h hst hfd hroom h' =>
    have hnull : s.grantsNull env ops arb = true :=
      grantsNull_iff.mpr ⟨st, world', hst, by rwa [h.possible_eq], by rwa [h.possible_eq]⟩
    simp [h.states_eq, h'.states_eq, hfind, hmark hnull,
      hso current above st world' h.pending_eq hst]
  | exhausted placed above below current current' backtracking possible world' h hnext h' =>
    have hcur : d current' = d current := (hd (d current)).next _ _ _ _ _ _ rfl hnext
    simp [h.states_eq, h'.states_eq, hcur]

end

end Search

section

variable {env : Environment} {ops : ArbiterOps σ} {arb : ArbiterInstance} {image : RtlRange → κ}
  {claims : AllocationState → RtlRangeList} {W : AllocationState → Prop}
  {L : AllocationState → Prop} {cond : Search σ → Prop}

/-- A complete solution: the states in stack order, topmost first, with what the search knows
about them. -/
structure Solution (ops : ArbiterOps σ) (base : RtlRangeList) (image : RtlRange → κ)
    (claims : AllocationState → RtlRangeList) (W : AllocationState → Prop)
    (R : AllocationState → List AllocationState → Prop)
    (states : List AllocationState) (r : SearchResult σ) (placed : List AllocationState) :
    Prop where
  all : ∀ st ∈ placed, W st
  booked : Search.Booked base image claims r.possible placed
  stacked : Stacked R placed
  requests : placed.reverse.map (·.request) = states.map (·.request)
  packed : ∃ world, packSolution ops placed.reverse world = (r.status, r.states, r.world)

theorem solution_of_allocateEntry (hbooks : Books env.rtl ops claims) (hstab : Stable env ops arb W)
    (hrequ : ∀ x, Stable env ops arb fun st => st.request = x)
    (himage : ∀ r r', image r = image r' → r.key = r'.key)
    (hlower : Search.Lowers W R L)
    (hcond : ∀ s, s.Inv arb.possibleAllocation image claims W R L → cond s →
      s.StepOk env ops arb image claims W R)
    {fuel : Nat} {states : List AllocationState} {world : σ} {r : SearchResult σ}
    (hstates : ∀ st ∈ states, W st)
    (hrun : arbiterLibAllocateEntry env ops arb fuel states world = some r)
    (hok : r.status = .ok ()) (halong : Machine.Along (Search.step env ops arb) cond fuel
      (Search.start env arb states world)) :
    ∃ placed, Solution ops arb.possibleAllocation image claims W R states r placed := by
  have hstar : (Search.start env arb states world).Inv arb.possibleAllocation image claims W R L :=
    ⟨fun _ h => (by cases h), fun _ h => (by cases h), hstates, Perm.refl _, trivial,
      fun h => by cases h⟩
  obtain ⟨s, ⟨hinv, hreq⟩, -, hretu⟩ := Machine.run_invariant
    (fun (s s' : Search σ) (hs : s.Inv arb.possibleAllocation image claims W R L ∧
        s.states.map (·.request) = states.map (·.request)) hc hstep => by
      have hmove := Search.step_move hstep
      exact ⟨hs.1.move hbooks hstab himage hlower (hcond s hs.1 hc) hmove,
        (hmove.map_states hrequ fun _ _ => rfl).trans hs.2⟩)
    hrun ⟨hstar, rfl⟩ halong
  obtain ⟨hpend, rfl⟩ := Search.step_ok hretu hok
  have hhrs : s.holders = s.placed := by
    simp [Search.holders, hpend]
  have hs : s.states = s.placed.reverse := by
    simp [Search.states, hpend]
  refine ⟨s.placed, hinv.placed_all, hhrs ▸ hinv.booked, hhrs ▸ hinv.stacked,
    hs ▸ hreq, s.world, ?_⟩
  rw [← hs]
  rfl

end

end UacpiNt
