import UacpiNt.Arbiter.Search.Outline
import UacpiNt.Arbiter.Search.Ladder

/-!
# When the search finds a solution

The search finds a solution on the ladders, if there is one. A start between two rungs is never
tried, so other solutions are missed.
-/

namespace UacpiNt

open AllocationState Option UInt64
open RangeList (toNat_pos_of_ne_zero)
open List (mem_cons mem_cons_self mem_filterMap mem_cons_of_mem mem_map mem_map_of_mem
  forall_mem_cons map_cons mem_singleton mem_pair)

/-- Nothing excuses a conflict of the entry: it does not share, and no record is available to it. -/
structure Exclusive (st : AllocationState) : Prop where
  available : st.rangeAvailableAttributes = 0
  tag : st.rangeAttributes = 0
  nullConflict : st.nullConflictOk = false
  alone : ∀ alt ∈ st.requirements, alt.shared = false ∧
    alt.descriptor.shareDisposition ≠ .driverExclusive ∧ st.permittedAttributes alt = 0

/-- No entry meets a record that it may share or reclaim. Only a fixed alternative may be put over
records of its own device. -/
structure Unreclaimable (states : List AllocationState) (base : RtlRangeList) : Prop where
  untagged : ∀ r ∈ base, r.attributes &&& arbiterRangeSharedDriver = 0
  foreign : ∀ st ∈ states, st.requirements.any (·.fixed) = true → ∀ r ∈ base, r.owner ≠ st.owner
  distinct : states.Pairwise fun below st =>
    st.requirements.any (·.fixed) = true → below.owner ≠ st.owner

/-! ### What is found in a window -/

section

variable {env : Environment} {arb : ArbiterInstance} {st st' : AllocationState}
  {alt : ArbiterAlternative} {possible : RtlRangeList}

theorem Exclusive.step (h : Exclusive st) (hreq : st'.request = st.request)
    (hstep : AttributeStep st st') : Exclusive st' := by
  have hreqs := requirements_eq_of_request hreq
  refine ⟨?_, ?_, (congrArg nullConflictOk hreq :).trans h.nullConflict, ?_⟩
  · rcases hstep.available with hsame | ⟨alt, halt, havail⟩
    · exact hsame.trans h.available
    · have hper := (h.alone _ (current_mem_requirements halt)).2.2
      exact havail.trans (by rw [h.available, UInt8.zero_or]; exact hper)
  · rcases hstep.tag with hsame | ⟨alt, halt, hexcl, -⟩
    · exact hsame.trans h.tag
    · exact absurd hexcl (h.alone _ (current_mem_requirements halt)).2.1
  · intro alt halt
    rw [permittedAttributes_eq_of_request hreq]
    exact h.alone alt (hreqs ▸ halt)

theorem Exclusive.permits (h : Exclusive st) (halt : st.current = some alt)
    (hcall : arb.conflictCallback = none) (possible : RtlRangeList) (r : RtlRange) :
    ((st.openAttributes alt).terms (arb.withPossible possible) alt).permits r = false := by
  obtain ⟨hsh, -, hper⟩ := h.alone _ (current_mem_requirements halt)
  have hsh' : alt.shared = false := hsh
  have havail : (st.openAttributes alt).rangeAvailableAttributes = 0 := by
    rw [openAttributes_available, h.available, UInt8.zero_or]
    exact hper
  have hnull : (st.openAttributes alt).nullConflictOk = false := h.nullConflict
  have hcall' : (arb.withPossible possible).conflictCallback = none := hcall
  simp [RangeList.Terms.permits, RangeList.Terms.waives, terms, hsh', havail, hnull, hcall']

/-- The escapes refuse an entry whose records are neither its own nor to be shared. -/
theorem escapeConflict_refuses (halt : st.current = some alt)
    (hexcl : alt.descriptor.shareDisposition ≠ .driverExclusive)
    (huntag : ∀ r ∈ arb.possibleAllocation, r.attributes &&& arbiterRangeSharedDriver = 0)
    (hfor : alt.fixed = true → ∀ r ∈ arb.possibleAllocation, r.owner ≠ st.owner) :
    (escapeConflict env arb st).1 = false := by
  have hover : ∀ requester, st.owner = some requester → alt.fixed = true →
      (overrideWalk requester arb.possibleAllocation false st).1 = false := by
    intro requester hown hfix
    have hfor' := hfor hfix
    rw [hown] at hfor'
    generalize arb.possibleAllocation = l at hfor'
    induction l with
    | nil => rfl
    | cons r l ih =>
      obtain ⟨hr, hl⟩ := forall_mem_cons.mp hfor'
      rw [overrideWalk, if_neg hr]
      split
      · rfl
      · exact ih hl
  have hshare : arbpShareDriverExclusive env arb.possibleAllocation st = none := by
    rw [arbpShareDriverExclusive, halt]
    cases hown : st.entry.physicalDeviceObject with
    | none => rfl
    | some requester => simp [shareWalk_eq_false env requester _ hexcl huntag]
  have hconf : (arbiterLibOverrideConflict arb.possibleAllocation st).1 = false := by
    rw [arbiterLibOverrideConflict, halt]
    cases hown : st.entry.physicalDeviceObject with
    | none => rfl
    | some requester =>
      simp only
      split
      · next hfix => exact hover requester hown hfix
      · rfl
  simp [escapeConflict, hshare, hconf]

end

/-! ### The invariants of the search -/

namespace Search

variable {σ : Type} {ops : ArbiterOps σ} {arb : ArbiterInstance}

/-- A subproblem of the search: the requests that are still to be placed, and the records in their
way. -/
structure Subproblem where
  requests : List AllocationState
  records : RtlRangeList

section

variable (ops) (arb) (whole k : Subproblem) (placed : List AllocationState)
  (possible : RtlRangeList)

def Subproblem.Solvable (counts : List ArbiterAlternative → ArbiterAlternative → Prop) : Prop :=
  FitsInTurn arb.orderingList.orderings counts (k.requests.map (·.alternatives)) (taken k.records)

def Subproblem.Apart : Prop :=
  Unreclaimable k.requests k.records

/-- What is given to the first request leaves the others room. -/
def Subproblem.Wanted (cells : Set ℕ) : Prop :=
  FitsInTurn arb.orderingList.orderings (SurelyOffered arb.orderingList.orderings)
    (k.requests.tail.map (·.alternatives)) (taken k.records ∪ cells)

def Packs (alternatives : List ArbiterAlternative) : Prop :=
  ∀ alt ∈ alternatives, ∀ start assignment world,
    (ops.packResource alt.descriptor start assignment world).1 = .ok ()

/-- What holds of the pending entries of a subproblem and of the tentative list. -/
structure Scene (pending : List AllocationState) : Prop where
  requests_eq : k.requests = pending.map (·.request)
  keys : (possible.map (·.key)).Perm (k.records.map (·.key))
  forward : ∀ r ∈ possible, r.start ≤ r.last
  quiet : ∀ st ∈ pending, Exclusive st ∧ st.noRetry = false
  fresh : ∀ st ∈ pending.tail, st.currentAlternative = none

/-- What holds of a subproblem all the time. `whole` is the problem that the search was given. If
nothing of it is shared or reclaimed, then a solution extends what was placed. -/
structure Context : Prop where
  root : placed = [] → k = whole
  packs_placed : ∀ st ∈ placed, Packs ops st.requirements
  packs : ∀ st ∈ k.requests, Packs ops st.alternatives
  separate : whole.Apart → Unreclaimable k.requests possible
  extends_placed : whole.Apart → k.Solvable arb (fun _ _ => True) →
    whole.Solvable arb fun _ _ => True

/-- Nothing that the window gives is wanted, but for what the entry is about to be tried at. -/
def Excludes (alternatives : List ArbiterAlternative) (retry : Bool) (st : AllocationState)
    (i : Nat) (w : UInt64 × UInt64) : Prop :=
  ∀ alt, alternatives[i]? = some alt → SurelyOffered arb.orderingList.orderings alternatives alt →
    ∀ cells ∈ alt.rungs (taken k.records) w, k.Wanted arb cells →
    retry = true ∧ st.currentAlternative = some i ∧ cells ∈ alt.rungs (taken k.records) st.window

def Within (st : AllocationState) : Prop :=
  ∀ alt, st.current = some alt → ∀ cells ∈ alt.rungs (taken k.records) st.window,
    cells ∈ gives arb.orderingList.orderings (fun _ _ => True) st.requirements (taken k.records)

/-- An entry is about to be tried: nothing that it went past is wanted. -/
structure Trying (retry : Bool) (current : AllocationState) (above : List AllocationState) :
    Prop where
  scene : Scene k possible (current :: above)
  context : Context ops arb whole k placed possible
  walked : Walked arb.orderingList.orderings current.requirements
    (Excludes arb k current.requirements retry current) current
  within : whole.Apart → retry = true → Within arb k current

/-- An entry is given up: its subproblem cannot be solved. -/
structure GivenUp (pending : List AllocationState) : Prop where
  scene : Scene k possible pending
  context : Context ops arb whole k placed possible
  unsolvable : ¬ k.Solvable arb (SurelyOffered arb.orderingList.orderings)

def completeness : Annotation Subproblem where
  enter k placed pending possible := Scene k possible pending ∧
    Context ops arb whole k placed possible ∧ ∀ st ∈ pending, st.currentAlternative = none
  trying k placed retry current above possible :=
    Trying ops arb whole k placed possible retry current above
  back k placed pending possible := GivenUp ops arb whole k placed possible pending

end

section

variable {k : Subproblem} {alternatives : List ArbiterAlternative} {retry : Bool}
  {st : AllocationState}

theorem tellsFixed_excludes : TellsFixed arb.orderingList.orderings alternatives
    (Excludes arb k alternatives retry st) := by
  intro i alt halt hfix window hwin htold w hw alt' halt' hoff
  obtain rfl := Option.some.inj (halt.symm.trans halt')
  have hsized := hoff.sized hfix
  obtain ⟨window', hwin', htrim⟩ := mem_filterMap.mp hw
  rw [windows_sized hsized hwin'] at htrim
  rw [windows_sized hsized hwin] at htold
  exact htold w htrim alt halt hoff

theorem skipped_excludes {w : UInt64 × UInt64} :
    ∀ i alt, alternatives[i]? = some alt → alt.fixed = false →
      ¬ alt.Usable arb.orderingList.orderings → w ∈ alt.trimmedWindows arb.orderingList.orderings →
      Excludes arb k alternatives retry st i w := by
  intro i alt halt hfix hunus _ alt' halt' hoff
  obtain rfl := Option.some.inj (halt.symm.trans halt')
  exact absurd (hoff.usable hfix) hunus

end

theorem packSolution_of_packs {states : List AllocationState}
    (h : ∀ st ∈ states, Packs ops st.requirements) (world : σ) :
    (packSolution ops states world).1 = .ok () := by
  induction states generalizing world with
  | nil => rfl
  | cons st states ih =>
    obtain ⟨hst, hstates⟩ := forall_mem_cons.mp h
    simp only [packSolution]
    split
    · rename_i e herr
      exfalso
      cases hcur : st.current with
      | none => simp [hcur] at herr
      | some alt =>
        have hpack := hst _ (current_mem_requirements hcur)
        cases hasg : st.entry.assignment with
        | none => simp [hcur, hasg] at herr
        | some assignment =>
          have hok := hpack st.start assignment world
          simp only [hcur, hasg] at herr
          exact absurd (hok.symm.trans herr) (by simp)
    · exact ih hstates _

section

variable {env : Environment} {whole k : Subproblem}
  {placed above above' pending : List AllocationState} {retry : Bool}
  {current st st' : AllocationState} {possible possible' : RtlRangeList}
  {alt : ArbiterAlternative}

theorem Scene.clear (h : Scene k possible pending) : taken possible = taken k.records :=
  taken_eq_of_perm h.keys

theorem Scene.exclusive (h : Scene k possible (st :: above)) : Exclusive st :=
  (h.quiet _ mem_cons_self).1

section

variable (hhigh : env.rtl.Highest) (hcall : arb.conflictCallback = none)
  (hscene : Scene k possible (st :: above)) (halt : st.current = some alt) (hleng : alt.length ≠ 0)

include hhigh hcall hscene halt hleng

theorem isGreatest_of_answer (hrtl : env.rtl.Lawful) {start : UInt64}
    (hans : (st.openAttributes alt).answer env (arb.withPossible possible) alt = .ok start) :
    IsGreatest (alt.clearStarts (taken k.records) st.window.1.toNat (st.window.2.toNat + 1))
      start.toNat := by
  have hper : ∀ r ∈ possible, _ := fun r _ => hscene.exclusive.permits halt hcall possible r
  rw [← hscene.clear]
  constructor
  · exact (placement_iff_mem_clearStarts hper hscene.forward hleng).mp
      (Grant.placement hrtl hleng hans)
  · intro s hs
    obtain ⟨s, rfl⟩ := exists_toNat_of_mem_clearStarts hleng hs
    exact le_iff_toNat_le.mp (hhigh.le_found _ _ _ _ _ _ start _ hleng (alignment_ne_zero alt) hans
      ((placement_iff_mem_clearStarts hper hscene.forward hleng).mpr hs))

theorem rungs_empty_of_error {e : NtError}
    (hans : (st.openAttributes alt).answer env (arb.withPossible possible) alt = .error e)
    {cells : Set ℕ} : cells ∉ alt.rungs (taken k.records) st.window := by
  have hper : ∀ r ∈ possible, _ := fun r _ => hscene.exclusive.permits halt hcall possible r
  rintro (⟨hzero, -⟩ | ⟨-, s, hs, -⟩)
  · exact hleng hzero
  obtain ⟨s, hs⟩ := hs.nonempty
  rw [← hscene.clear] at hs
  obtain ⟨s, rfl⟩ := exists_toNat_of_mem_clearStarts hleng hs
  exact hhigh.not_placement _ _ _ _ _ _ e _ hleng (alignment_ne_zero alt) hans
    ((placement_iff_mem_clearStarts hper hscene.forward hleng).mpr hs)

/-- What a window gives beside the placement that was granted in it is given by what is left of the
window below that placement, if it may be varied. -/
theorem rungs_of_grant (hrtl : env.rtl.Lawful)
    (hgr : Grant env (arb.withPossible possible) st alt st') {cells : Set ℕ}
    (hcells : cells ∈ alt.rungs (taken k.records) st.window) :
    taken (st'.record :: k.records) = taken k.records ∪ cells ∨
      alt.fixed = false ∧ st.currentMinimum < st'.start ∧
        cells ∈ alt.rungs (taken k.records) (st.currentMinimum, st'.start - 1) := by
  cases hgr with
  | nothing hzero => exact absurd hzero hleng
  | shared _ _ _ hans | overridden _ _ hans =>
    exact absurd hcells (rungs_empty_of_error hhigh hcall hscene halt hleng hans)
  | found start _ hans =>
    have hgreat := isGreatest_of_answer hhigh hcall hscene halt hleng hrtl hans
    rcases hcells with ⟨hzero, -⟩ | ⟨-, s, hs, rfl⟩
    · exact absurd hzero hleng
    rcases hs.eq_or_below hgreat with rfl | ⟨⟨hfix, hlt⟩, hs⟩
    · left
      rw [taken_cons, cells_eq_Icc hleng, ← (Grant.placement hrtl hleng hans).toNat_last hleng]
      rfl
    · have hlt' : st.currentMinimum < start := lt_iff_toNat_lt.mpr hlt
      exact .inr ⟨hfix, hlt', .inr ⟨hleng, s, (toNat_sub_one_succ hlt').symm ▸ hs, rfl⟩⟩

end

theorem Scene.replace (h : Scene k possible (current :: above))
    (hreq : st.request = current.request) (hstep : AttributeStep current st)
    (hnoR : st.noRetry = current.noRetry) : Scene k possible (st :: above) := by
  obtain ⟨⟨hexcl, hretr⟩, habove⟩ := forall_mem_cons.mp h.quiet
  refine ⟨?_, h.keys, h.forward, forall_mem_cons.mpr ⟨⟨?_, hnoR.trans hretr⟩, habove⟩, h.fresh⟩
  · rw [h.requests_eq, map_cons, map_cons, hreq]
  · exact hexcl.step hreq hstep

theorem Scene.next (h : Scene k possible (current :: above)) (hrew : st.rewind = current.rewind) :
    Scene k possible (st :: above) :=
  h.replace (request_eq_of_rewind hrew) ⟨.inl (congrArg rangeAvailableAttributes hrew :),
    .inl (congrArg rangeAttributes hrew :)⟩ (congrArg AllocationState.noRetry hrew :)

theorem Trying.looks (h : Trying ops arb whole k placed possible retry current above)
    (hlook : Looks arb retry current st) :
    Scene k possible (st :: above) ∧ st.requirements = current.requirements ∧
      Walked arb.orderingList.orderings current.requirements
        (Excludes arb k current.requirements true st) st ∧ (whole.Apart → Within arb k st) := by
  cases retry with
  | true =>
    obtain rfl : st = current := hlook
    exact ⟨h.scene, rfl, h.walked, fun hap => h.within hap rfl⟩
  | false =>
    have hnext : arbiterLibGetNextAllocationRange arb current = (true, st) := hlook
    have hrew := getNextAllocationRange_rewind arb current
    rw [hnext] at hrew
    have hreqs := requirements_eq_of_request (request_eq_of_rewind hrew)
    obtain ⟨i, alt, hoff⟩ := (h.walked.nextRounds arb.orderingList.count_le_limit
      (current.remaining_lt_bound _) tellsFixed_excludes skipped_excludes).1 st hnext
    have hi := hoff.current
    refine ⟨h.scene.next hrew, hreqs, hoff.walked _ ?_ tellsFixed_excludes ?_,
      fun _ alt' halt' cells hcells => ?_⟩
    · intro j w hexc alt' halt' hoff cells hcells hwanted
      cases (hexc alt' halt' hoff cells hcells hwanted).1
    · exact fun alt' _ _ cells hcells _ => ⟨rfl, hi, hcells⟩
    · obtain ⟨j, hj, hget⟩ := bind_eq_some_iff.mp halt'
      obtain rfl := mem_unique hi hj
      have hget' := requirements_getElem? hreqs hget
      obtain rfl := Option.some.inj (hoff.requirement.symm.trans hget')
      exact ⟨_, hreqs ▸ List.mem_of_getElem? hoff.requirement, trivial, _, hoff.window_mem, hcells⟩

/-- The entry is to be tried lower in its window, or in the next one, without what was excluded. -/
theorem walked_narrowed {alternatives : List ArbiterAlternative}
    (h : Walked arb.orderingList.orderings alternatives (Excludes arb k alternatives true st) st)
    (halts : st'.alternatives = st.alternatives)
    (hcur : st'.currentAlternative = st.currentAlternative)
    (hwin : retry = false → st'.window = st.window)
    (hleft : ∀ alt, st.current = some alt →
      ∀ cells ∈ alt.rungs (taken k.records) st.window, k.Wanted arb cells →
      retry = true ∧ cells ∈ alt.rungs (taken k.records) st'.window) :
    Walked arb.orderingList.orderings alternatives (Excludes arb k alternatives retry st') st' := by
  have hins : ∀ i alt, st.currentAlternative = some i → alternatives[i]? = some alt →
      ∀ cells ∈ alt.rungs (taken k.records) st.window, k.Wanted arb cells →
      retry = true ∧ cells ∈ alt.rungs (taken k.records) st'.window := by
    intro i alt hi halt
    rw [← h.requirements_eq, requirements, List.getElem?_map] at halt
    obtain ⟨alt, hget, rfl⟩ := map_eq_some_iff.mp halt
    refine hleft alt ?_
    rw [AllocationState.current, hi]
    exact hget
  refine h.congr ?_ halts hcur ?_
  · intro i w hexc alt halt hoff cells hcells hwanted
    obtain ⟨-, hi, hcells'⟩ := hexc alt halt hoff cells hcells hwanted
    obtain ⟨hretr, hmem⟩ := hins i alt hi halt cells hcells' hwanted
    exact ⟨hretr, hcur.trans hi, hmem⟩
  · intro i hi alt halt hoff cells hcells hwanted
    cases retry with
    | true => exact ⟨rfl, hi, hcells⟩
    | false =>
      rw [hwin rfl] at hcells
      cases (hins i alt (hcur ▸ hi) halt cells hcells hwanted).1

theorem Trying.refused (hhigh : env.rtl.Highest) (hcall : arb.conflictCallback = none)
    (h : Trying ops arb whole k placed possible retry current above)
    (hlook : Looks arb retry current st)
    (href : (arbiterLibFindSuitableRange env (arb.withPossible possible) st).1.1 = false) :
    Trying ops arb whole k placed possible false
      (arbiterLibFindSuitableRange env (arb.withPossible possible) st).1.2 above := by
  obtain ⟨hscene, hreqs, hwal, -⟩ := h.looks hlook
  have hsame := findSuitableRange_unfound env (arb.withPossible possible) st
  have hattr := findSuitableRange_attributes env (arb.withPossible possible) st
  set st' := (arbiterLibFindSuitableRange env (arb.withPossible possible) st).1.2
  have hreq : st'.request = st.request := (congrArg request hsame :)
  refine ⟨hscene.replace hreq hattr (congrArg AllocationState.noRetry hsame :), h.context, ?_,
    fun _ hretr => (by cases hretr)⟩
  rw [requirements_eq_of_request hreq, hreqs]
  refine walked_narrowed hwal (congrArg AllocationState.alternatives hsame :)
    (congrArg AllocationState.currentAlternative hsame :) (fun _ => (congrArg window hsame :)) ?_
  intro alt halt cells hcells _
  exfalso
  rcases findSuitableRange_refused halt href with hemp | ⟨hleng, e, hans⟩
  · have hemp' := lt_iff_toNat_lt.mp hemp
    rcases hcells with ⟨-, hle, -⟩ | ⟨hleng, s, hs, -⟩
    · exact absurd hle (UInt64.not_le.mpr hemp)
    · obtain ⟨s, -, hmin, hfits, -⟩ := hs.nonempty
      have hlen := toNat_pos_of_ne_zero hleng
      simp only [window] at hmin hfits
      omega
  · exact rungs_empty_of_error hhigh hcall hscene halt hleng hans hcells

theorem Trying.exhausted (h : Trying ops arb whole k placed possible false current above)
    (hnext : (arbiterLibGetNextAllocationRange arb current).1 = false) :
    GivenUp ops arb whole k placed possible
      ((arbiterLibGetNextAllocationRange arb current).2 :: above) := by
  have htold := (h.walked.nextRounds arb.orderingList.count_le_limit
    (current.remaining_lt_bound _) tellsFixed_excludes skipped_excludes).2
    (arbiterLibGetNextAllocationRange arb current).2 (Prod.ext hnext rfl)
  refine ⟨h.scene.next (getNextAllocationRange_rewind arb current), h.context, fun hsol => ?_⟩
  rw [Subproblem.Solvable, h.scene.requests_eq] at hsol
  obtain ⟨cells, ⟨alt, halt, hoff, w, hw, hcells⟩, hrest⟩ := hsol
  obtain ⟨i, hi⟩ := List.mem_iff_getElem?.mp halt
  have hwanted : k.Wanted arb cells := by
    rw [Subproblem.Wanted, h.scene.requests_eq]
    exact hrest
  cases (htold i alt hi w hw alt hi hoff cells hcells hwanted).1

theorem answer_of_granted (h : Context ops arb whole k placed possible)
    (hscene : Scene k possible (st :: above)) (hap : whole.Apart) (halt : st.current = some alt)
    (hleng : alt.length ≠ 0)
    (hfd : (arbiterLibFindSuitableRange env (arb.withPossible possible) st).1 = (true, st')) :
    (st.openAttributes alt).answer env (arb.withPossible possible) alt = .ok st'.start ∧
      st'.last = st'.start + alt.length - 1 := by
  have hmem := current_mem_requirements halt
  have hsep := h.separate hap
  rw [hscene.requests_eq] at hsep
  have hesc :
      (escapeConflict env (arb.withPossible possible) (st.openAttributes alt)).1 = false := by
    refine escapeConflict_refuses halt (hscene.exclusive.alone _ hmem).2.1 hsep.untagged
      fun hfix => hsep.foreign st.request mem_cons_self ?_
    exact List.any_eq_true.mpr ⟨_, mem_map_of_mem hmem, hfix⟩
  rw [arbiterLibFindSuitableRange, halt] at hfd
  simp only at hfd
  split at hfd
  · cases hfd
  simp only [placeAlternative] at hfd
  rw [answer]
  split at hfd
  · next start hans =>
    cases hfd
    exact ⟨hans, rfl⟩
  · cases hesc.symm.trans (congrArg Prod.fst hfd)

theorem restarted (h : Scene k possible pending) :
    (pending.modifyHead (·.restart)).map (·.request) = pending.map (·.request) ∧
      ∀ st ∈ pending.modifyHead (·.restart),
        (Exclusive st ∧ st.noRetry = false) ∧ st.currentAlternative = none := by
  cases pending with
  | nil => exact ⟨rfl, fun _ h => (by cases h)⟩
  | cons st pending =>
    obtain ⟨⟨hexcl, hretr⟩, habove⟩ := forall_mem_cons.mp h.quiet
    exact ⟨rfl, forall_mem_cons.mpr ⟨⟨⟨hexcl.step rfl ⟨.inl rfl, .inl rfl⟩, hretr⟩, rfl⟩,
      fun st hst => ⟨habove st hst, h.fresh st hst⟩⟩⟩

theorem Scene.enter (h : Scene k possible (st :: above)) {records : RtlRangeList}
    (hkeys : (possible'.map (·.key)).Perm (records.map (·.key)))
    (hfwd : ∀ r ∈ possible', r.start ≤ r.last) :
    Scene ⟨above.map (·.request), records⟩ possible' above :=
  ⟨rfl, hkeys, hfwd, (forall_mem_cons.mp h.quiet).2,
    fun st hst => h.fresh st (List.mem_of_mem_tail hst)⟩

/-- The entries above were given up, and the entry is the first one to be placed again. -/
theorem Scene.resume (h : Scene k possible (st :: above)) {records possible'' : RtlRangeList}
    (h' : Scene ⟨above.map (·.request), records⟩ possible' above')
    (hkeys : (possible''.map (·.key)).Perm (k.records.map (·.key)))
    (hsub : ∀ r ∈ possible'', r ∈ possible') :
    Scene k possible'' (st :: above'.modifyHead (·.restart)) := by
  obtain ⟨hmap, hall⟩ := restarted h'
  refine ⟨?_, hkeys, fun r hr => h'.forward r (hsub r hr), ?_, fun st hst => (hall st hst).2⟩
  · rw [h.requests_eq, map_cons, map_cons, hmap, ← h'.requests_eq]
  · exact forall_mem_cons.mpr ⟨h.quiet _ mem_cons_self, fun st hst => (hall st hst).1⟩

theorem Context.resume (h : Context ops arb whole k placed possible)
    (hkeys : (possible.map (·.key)).Perm (k.records.map (·.key)))
    (hkeys' : (possible'.map (·.key)).Perm (k.records.map (·.key)))
    (huntag : whole.Apart → ∀ r ∈ possible', r.attributes &&& arbiterRangeSharedDriver = 0) :
    Context ops arb whole k placed possible' where
  root := h.root
  packs_placed := h.packs_placed
  packs := h.packs
  separate hap := by
    have hsep := h.separate hap
    refine ⟨huntag hap, fun st hst hfix r hr => ?_, hsep.distinct⟩
    have hmem : r.key ∈ possible.map (·.key) :=
      (hkeys'.trans hkeys.symm).mem_iff.mp (mem_map_of_mem hr)
    obtain ⟨r', hr', hkey⟩ := mem_map.mp hmem
    have hown : r'.owner = r.owner := congrArg (fun key => key.2.2) hkey
    exact hown ▸ hsep.foreign st hst hfix r' hr'
  extends_placed := h.extends_placed

theorem Context.next (h : Context ops arb whole k placed possible)
    (hscene : Scene k possible (st :: above)) {records : RtlRangeList}
    (hposs : ∀ r ∈ possible', r ∈ possible ∨ r.owner = st.owner ∧ r.attributes = 0)
    (hgives : whole.Apart → ∃ cells ∈ gives arb.orderingList.orderings (fun _ _ => True)
      st.requirements (taken k.records), taken records = taken k.records ∪ cells)
    (hreq : st'.requirements = st.requirements) :
    Context ops arb whole ⟨above.map (·.request), records⟩ (st' :: placed) possible' where
  root hnil := by cases hnil
  packs_placed := by
    refine forall_mem_cons.mpr ⟨?_, h.packs_placed⟩
    rw [hreq]
    exact h.packs st.request (hscene.requests_eq ▸ mem_cons_self)
  packs a ha := h.packs a (hscene.requests_eq ▸ mem_cons_of_mem _ ha)
  separate hap := by
    have hsep := h.separate hap
    rw [hscene.requests_eq] at hsep
    obtain ⟨hbelow, hdist⟩ := List.pairwise_cons.mp hsep.distinct
    refine ⟨fun r hr => ?_, fun a ha hfix r hr => ?_, hdist⟩
    · rcases hposs r hr with hr | ⟨-, hattr⟩
      · exact hsep.untagged r hr
      · rw [hattr, UInt8.zero_and]
    · rcases hposs r hr with hr | ⟨hown, -⟩
      · exact hsep.foreign a (mem_cons_of_mem _ ha) hfix r hr
      · rw [hown]
        exact hbelow a ha hfix
  extends_placed hap hsol := by
    obtain ⟨cells, hcells, htaken⟩ := hgives hap
    refine h.extends_placed hap ?_
    rw [Subproblem.Solvable, hscene.requests_eq]
    exact ⟨cells, hcells, htaken ▸ hsol⟩

/-- What is known of a state that was found room for. -/
theorem Scene.granted (hscene : Scene k possible (st :: above))
    (hfd : (arbiterLibFindSuitableRange env (arb.withPossible possible) st).1 = (true, st')) :
    st'.request = st.request ∧ Scene k possible (st' :: above) ∧
      st'.unfound = st.unfound ∧ ∃ alt, st.current = some alt ∧ st'.current = some alt ∧
      st.currentMinimum ≤ st.currentMaximum ∧ Grant env (arb.withPossible possible) st alt st' := by
  obtain ⟨alt, halt, hwin, hgr⟩ := findSuitableRange_grant (congrArg Prod.fst hfd)
  have hsame := findSuitableRange_unfound env (arb.withPossible possible) st
  have hattr := findSuitableRange_attributes env (arb.withPossible possible) st
  rw [hfd] at hgr hsame hattr
  have hreq : st'.request = st.request := (congrArg request hsame :)
  exact ⟨hreq, hscene.replace hreq hattr (congrArg AllocationState.noRetry hsame :), hsame, alt,
    halt, (congrArg AllocationState.current hsame :).trans halt, hwin, hgr⟩

theorem Trying.varies (hrtl : env.rtl.Lawful) (hhigh : env.rtl.Highest)
    (hcall : arb.conflictCallback = none) {deadline : UInt64}
    (hclock : ∀ n, env.keQueryInterruptTime n ≤ deadline)
    (h : Trying ops arb whole k placed possible retry current above)
    (hlook : Looks arb retry current st)
    (hfd : (arbiterLibFindSuitableRange env (arb.withPossible possible) st).1 = (true, st'))
    (hroom : st'.requestsRoom = true)
    (hback : GivenUp ops arb whole ⟨above.map (·.request), st'.record :: k.records⟩
      (st' :: placed) possible' above') :
    (completeness ops arb whole).Varies env deadline k placed st'
      (above'.modifyHead (·.restart)) (arbiterLibBacktrackAllocation env.rtl possible' st') := by
  obtain ⟨hscene, hreqs, hwal, hwithin⟩ := h.looks hlook
  obtain ⟨hreq, hplaced, hsame, alt, halt, halt', -, hgr⟩ := hscene.granted hfd
  have halts : st'.alternatives = st.alternatives := (congrArg AllocationState.alternatives hsame :)
  have hcur : st'.currentAlternative = st.currentAlternative :=
    (congrArg AllocationState.currentAlternative hsame :)
  have hwin : st'.window = st.window := (congrArg window hsame :)
  have hmini : st'.currentMinimum = st.currentMinimum := congrArg Prod.fst hwin
  have hreqs' : st'.requirements = current.requirements :=
    (requirements_eq_of_request hreq).trans hreqs
  have hleng := (requestsRoom_iff halt').mp hroom
  obtain ⟨hkeys, hsub⟩ := hrtl.deleteRange'_perm (·.key) (fun _ _ heq => heq)
    (fun _ _ heq => heq) hback.scene.keys
  have hdrawn := hplaced.resume hback.scene hkeys hsub
  have hcontext := h.context.resume h.scene.keys hkeys
    fun hap r hr => (hback.context.separate hap).untagged r (hsub r hr)
  -- What is wanted is not the placement itself, since the entries above could not be placed.
  have hbelow : ∀ cells ∈ alt.rungs (taken k.records) st.window, k.Wanted arb cells →
      alt.fixed = false ∧ st.currentMinimum < st'.start ∧
        cells ∈ alt.rungs (taken k.records) (st.currentMinimum, st'.start - 1) := by
    intro cells hcells hwanted
    refine (rungs_of_grant hhigh hcall hscene halt hleng hrtl hgr hcells).resolve_left ?_
    intro htaken
    refine hback.unsolvable ?_
    rw [Subproblem.Wanted, hscene.requests_eq, ← htaken] at hwanted
    exact hwanted
  refine ⟨fun hgiven => ?_, fun _ hstar hfix => ?_, fun _ hmoved => ?_⟩
  · rw [(hplaced.quiet _ mem_cons_self).2] at hgiven
    cases hgiven
  · have hfix' : alt.fixed = false := by simpa [halt'] using hfix
    refine ⟨hdrawn.replace rfl ⟨.inl rfl, .inl rfl⟩ rfl, hcontext, ?_, fun hap _ => ?_⟩
    · have hlow : st'.lowerWindow.requirements = current.requirements := hreqs'
      rw [hlow]
      refine walked_narrowed hwal halts hcur (fun hretr => (by cases hretr)) ?_
      intro a ha cells hcells hwanted
      obtain rfl := mem_unique halt ha
      have hleft := (hbelow cells hcells hwanted).2.2
      rw [← hmini] at hleft
      exact ⟨rfl, hleft⟩
    · intro a ha cells hcells
      have hlow : st'.lowerWindow.requirements = st.requirements := requirements_eq_of_request hreq
      have ha' : st'.current = some a := ha
      obtain rfl := mem_unique halt' ha'
      rw [hlow]
      refine hwithin hap alt halt cells ?_
      obtain ⟨hans, -⟩ := answer_of_granted h.context hscene hap halt hleng hfd
      have hgreat := isGreatest_of_answer hhigh hcall hscene halt hleng hrtl hans
      rcases hcells with ⟨hzero, -⟩ | ⟨-, s, hs, rfl⟩
      · exact absurd hzero hleng
      have hlt := lt_iff_toNat_lt.mp hstar
      refine .inr ⟨hleng, s, .lower hgreat ⟨hfix', ?_⟩ ?_, rfl⟩
      · exact (congrArg UInt64.toNat hmini).symm.trans_lt hlt
      · rw [← toNat_sub_one_succ hstar, ← show st'.lowerWindow.window.1 = st.window.1 from hmini]
        exact hs
  · refine ⟨hdrawn, hcontext, ?_, fun _ hretr => (by cases hretr)⟩
    rw [hreqs']
    refine walked_narrowed hwal halts hcur (fun _ => hwin) ?_
    intro a ha cells hcells hwanted
    exfalso
    obtain rfl := mem_unique halt ha
    obtain ⟨hfix, hlt, -⟩ := hbelow cells hcells hwanted
    obtain ⟨n, hn⟩ := hmoved (hmini.symm ▸ hlt) (by simpa [halt'] using hfix)
    exact UInt64.not_lt.mpr (hclock n) hn

theorem Trying.enters (hrtl : env.rtl.Lawful) (hhigh : env.rtl.Highest)
    (hcall : arb.conflictCallback = none)
    (h : Trying ops arb whole k placed possible retry current above)
    (hlook : Looks arb retry current st)
    (hfd : (arbiterLibFindSuitableRange env (arb.withPossible possible) st).1 = (true, st'))
    (hroom : st'.requestsRoom = true) :
    (completeness ops arb whole).enter ⟨above.map (·.request), st'.record :: k.records⟩
      (st' :: placed) above (arbiterLibAddAllocation env.rtl possible st') := by
  obtain ⟨hscene, -, -, hwithin⟩ := h.looks hlook
  obtain ⟨hreq, hplaced, -, alt, halt, halt', hwin, hgr⟩ := hscene.granted hfd
  have hleng := (requestsRoom_iff halt').mp hroom
  have hfwd := hgr.start_le_last hrtl hwin
  have hperm : (arbiterLibAddAllocation env.rtl possible st').Perm (st'.record :: possible) :=
    hrtl.addRange'_perm possible hfwd
  have hmem : ∀ r ∈ arbiterLibAddAllocation env.rtl possible st',
      r = st'.record ∨ r ∈ possible := fun r hr => mem_cons.mp (hperm.mem_iff.mp hr)
  refine ⟨hplaced.enter ((hperm.map _).trans (hplaced.keys.cons _)) fun r hr => ?_,
    h.context.next hscene (fun r hr => ?_) (fun hap => ?_) (requirements_eq_of_request hreq),
    hscene.fresh⟩
  · rcases hmem r hr with rfl | hr
    · exact hfwd
    · exact hscene.forward r hr
  · rcases hmem r hr with rfl | hr
    · exact .inr ⟨owner_eq_of_request hreq, hplaced.exclusive.tag⟩
    · exact .inl hr
  · obtain ⟨hans, hlast⟩ := answer_of_granted h.context hscene hap halt hleng hfd
    have hgreat := isGreatest_of_answer hhigh hcall hscene halt hleng hrtl hans
    refine ⟨alt.cells st'.start.toNat,
      hwithin hap alt halt _ (.inr ⟨hleng, _, .top hgreat, rfl⟩), ?_⟩
    rw [taken_cons, cells_eq_Icc hleng, ← (Grant.placement hrtl hleng hans).toNat_last hleng,
      ← hlast]
    rfl

/-- An entry that asks for nothing is passed over. It is given up with the entries above it: an
alternative that asks for something is not sure to be offered beside it. -/
theorem Trying.marked (h : Trying ops arb whole k placed possible retry current above)
    (hlook : Looks arb retry current st)
    (hfd : (arbiterLibFindSuitableRange env (arb.withPossible possible) st).1 = (true, st'))
    (hroom : st'.requestsRoom = false) :
    (completeness ops arb whole).enter ⟨above.map (·.request), k.records⟩
        (st'.withResult .nullRequest :: placed) above possible ∧
      ∀ {above' possible'}, GivenUp ops arb whole ⟨above.map (·.request), k.records⟩
          (st'.withResult .nullRequest :: placed) possible' above' →
        GivenUp ops arb whole k placed possible'
          (st'.withResult .nullRequest :: above'.modifyHead (·.restart)) := by
  obtain ⟨hscene, -, -, hwithin⟩ := h.looks hlook
  obtain ⟨hreq, hplaced, -, alt, halt, halt', hwin, -⟩ := hscene.granted hfd
  have hzero : alt.length = 0 := by
    by_contra hleng
    rw [(requestsRoom_iff halt').mpr hleng] at hroom
    cases hroom
  have hmarked : Scene k possible (st'.withResult .nullRequest :: above) :=
    hplaced.replace rfl ⟨.inl rfl, .inl rfl⟩ rfl
  refine ⟨⟨hscene.enter hscene.keys hscene.forward, h.context.next hscene (fun r hr => .inl hr)
    (fun hap => ?_) (requirements_eq_of_request hreq), hscene.fresh⟩, fun hback => ?_⟩
  · exact ⟨∅, hwithin hap alt halt _ (.inl ⟨hzero, hwin, rfl⟩), (Set.union_empty _).symm⟩
  · refine ⟨hmarked.resume hback.scene hback.scene.keys fun _ hr => hr,
      h.context.resume h.scene.keys hback.scene.keys fun hap =>
        (hback.context.separate hap).untagged, fun hsol => hback.unsolvable ?_⟩
    rw [Subproblem.Solvable, hscene.requests_eq] at hsol
    obtain ⟨cells, ⟨a, ha, hoff, w, hw, hcells⟩, hrest⟩ := hsol
    have hnone : cells = ∅ := by
      rcases hcells with ⟨-, -, hnone⟩ | ⟨hleng, -⟩
      · exact hnone
      · exact absurd hzero (hoff.alone.resolve_left hleng (alt.withPriority arbiterPriorityNull)
          (current_mem_requirements halt))
    rw [hnone, Set.union_empty] at hrest
    exact hrest

theorem completeness_outline (hrtl : env.rtl.Lawful) (hhigh : env.rtl.Highest)
    (hcall : arb.conflictCallback = none) (times : UInt64 × UInt64)
    (hclock : ∀ n, env.keQueryInterruptTime n ≤ times.1 ∧ env.keQueryInterruptTime n ≤ times.2)
    (whole : Subproblem) :
    Outline env ops arb times
      (fun r : SearchResult σ =>
        (whole.Solvable arb (SurelyOffered arb.orderingList.orderings) → r.status = .ok ()) ∧
        (whole.Apart → r.status = .ok () → whole.Solvable arb fun _ _ => True))
      (completeness ops arb whole) where
  late n r hlate := absurd hlate (UInt64.not_lt.mpr (hclock n).2)
  finish henter s hpl hpend := by
    obtain ⟨hscene, hcontext, -⟩ := henter
    refine ⟨fun _ => packSolution_of_packs (fun st hst => ?_) s.world, fun hap _ => ?_⟩
    · rw [states, hpend, hpl, List.append_nil, List.mem_reverse] at hst
      exact hcontext.packs_placed st hst
    · refine hcontext.extends_placed hap ?_
      rw [Subproblem.Solvable, hscene.requests_eq]
      trivial
  root r hback hfails :=
    ⟨fun hsol => absurd (hback.context.root rfl ▸ hsol) hback.unsolvable,
      fun _ hok => absurd hok hfails⟩
  entered henter :=
    ⟨henter.1, henter.2.1, walked_fresh (henter.2.2 _ mem_cons_self),
      fun _ hretr => (by cases hretr)⟩
  exhausted htry hnext := htry.exhausted hnext
  refused htry hlook href := htry.refused hhigh hcall hlook href
  placed htry hlook hfd hroom :=
    ⟨_, htry.enters hrtl hhigh hcall hlook hfd hroom, fun hback =>
      htry.varies hrtl hhigh hcall (fun n => (hclock n).1) hlook hfd hroom hback⟩
  marked htry hlook hfd hroom := ⟨_, htry.marked hlook hfd hroom⟩

end

end Search

def oneTaken (address : UInt64) : ArbiterInstance :=
  (ArbiterInstance.plainMemory []).withPossible [⟨address, address, 0, false, some ⟨3⟩⟩]

def memoryState (device : DeviceObject) (minimum maximum : UInt64) (length alignment : UInt32) :
    AllocationState :=
  { freshState minimum maximum length alignment with
    entry := .request device [.ofMemory .deviceExclusive minimum maximum length alignment]
    alternatives := (freshState minimum maximum length alignment).alternatives.map fun alt =>
      { alt with fixed := maximum - minimum + 1 == alt.length } }

def pairAndFourth (alignment : UInt32) : List AllocationState :=
  [memoryState ⟨1⟩ 0 3 2 alignment, memoryState ⟨2⟩ 3 3 1 1]

theorem disjoint_taken_singleton {alt : ArbiterAlternative} {s : ℕ} {r : RtlRange}
    (h : s + alt.length.toNat ≤ r.start.toNat ∨ r.last.toNat < s) :
    Disjoint (alt.cells s) (taken [r]) := by
  rw [Set.disjoint_left]
  rintro a ⟨hfst, hlast⟩ ⟨r', hr', hstar, hend⟩
  obtain rfl := mem_singleton.mp hr'
  omega

end UacpiNt
