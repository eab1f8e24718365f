import UacpiNt.Arbiter.Ordering.Prune
import UacpiNt.Arbiter.Ordering.Walk
import UacpiNt.ResArb.Basic

/-!
# Reserved windows are a last resort

The walk offers the ordering windows of all alternatives before it offers the whole window of
any. The ordering windows avoid the reserved ones, so a reserved window is met by a whole
window only, when the ordering windows are used up.
-/

namespace UacpiNt

open AllocationState ArbiterAlternative List

def AllocationState.Meets (st : AllocationState) (r : ArbiterOrdering) : Prop :=
  st.currentMinimum ≤ r.last ∧ r.start ≤ st.currentMaximum
deriving Decidable

namespace ArbiterAlternative

variable {orderings : List ArbiterOrdering} {alt : ArbiterAlternative}

/-- An ordering window that the alternative fits can be rounded up inside the address space, or
lies below all reserved windows. -/
def RoundsClear (orderings reserved : List ArbiterOrdering) (alt : ArbiterAlternative) : Prop :=
  alt.length ≠ 0 → ∀ o ∈ orderings, alt.fitsOrdering o = true →
    (alt.clip o).1.toNat + (alt.effectiveAlignment.toNat - 1) < 2 ^ 64 ∨
      ∀ r ∈ reserved, (alt.clip o).2 < r.start

instance (orderings reserved : List ArbiterOrdering) (alt : ArbiterAlternative) :
    Decidable (alt.RoundsClear orderings reserved) :=
  inferInstanceAs (Decidable (_ → ∀ o ∈ orderings, _))

theorem clip_inside {o : ArbiterOrdering} (h : alt.fitsOrdering o = true) :
    o.start ≤ (alt.clip o).1 ∧ (alt.clip o).1 ≤ o.last ∧ o.start ≤ (alt.clip o).2 ∧
      (alt.clip o).2 ≤ o.last := by
  simp only [fitsOrdering, Bool.and_eq_true, Bool.not_eq_true', Bool.or_eq_false_iff,
    decide_eq_false_iff_not, UInt64.not_lt] at h
  obtain ⟨⟨hst, hlast⟩, -⟩ := h
  have hfst : (alt.clip o).1 = if alt.minimum ≤ o.start then o.start else alt.minimum := rfl
  have hsecond : (alt.clip o).2 = if alt.maximum ≤ o.last then alt.maximum else o.last := rfl
  refine ⟨alt.start_le_clip o, ?_, ?_, alt.clip_le_last o⟩
  · rw [hfst]
    split
    · exact o.start_le_last
    · exact hlast
  · rw [hsecond]
    split
    · exact hst
    · exact o.start_le_last

theorem trimWindow_clear {reserved : List ArbiterOrdering} {o r : ArbiterOrdering}
    {w : UInt64 × UInt64} (hclr : alt.RoundsClear orderings reserved) (ho : o ∈ orderings)
    (hfits : alt.fitsOrdering o = true) (hr : r ∈ reserved) (hdisj : ¬ o.Intersects r)
    (htrim : trimWindow alt (alt.clip o) = some w) : ¬ (w.1 ≤ r.last ∧ r.start ≤ w.2) := by
  obtain ⟨hfst, hfst', hlast, hlast'⟩ := clip_inside hfits
  rintro ⟨hle, hle'⟩
  by_cases hzero : alt.length = 0
  · rw [trimWindow, if_pos hzero] at htrim
    cases htrim
    exact hdisj ⟨UInt64.le_trans hfst hle, UInt64.le_trans hle' hlast'⟩
  obtain ⟨-, hbelow, -⟩ := trimWindow_ends hzero htrim
  rcases hclr hzero o ho hfits with hround | habove
  · have htrimm := trimWindow_trimmed hzero hround htrim
    exact hdisj ⟨UInt64.le_trans hfst (UInt64.le_trans htrimm.minimum_le hle),
      UInt64.le_trans hle' (UInt64.le_trans hbelow hlast')⟩
  · exact absurd (UInt64.le_trans hle' hbelow) (UInt64.not_le.mpr (habove r hr))

end ArbiterAlternative

section

variable {orderings reserved : List ArbiterOrdering} {st st' : AllocationState}

/-- The window was seen, or the alternative is fixed. -/
def Seen (requirements : List ArbiterAlternative) (seen : List (UInt64 × UInt64)) :
    Nat → UInt64 × UInt64 → Prop :=
  OrFixed requirements fun _ w => w ∈ seen

theorem offered_of_offeredStates {arb : ArbiterInstance} {requirements : List ArbiterAlternative}
    {seen : List (UInt64 × UInt64)} (n : Nat)
    (h : Walked arb.orderingList.orderings requirements (Seen requirements seen) st)
    (hwin : st.window ∈ seen) {before after : List AllocationState}
    (hsplit : offeredStates arb n st = before ++ st' :: after) :
    Offers arb.orderingList.orderings st' ∧ ∃ i alt, Offered arb.orderingList.orderings
      requirements (Seen requirements ((before.map window).reverse ++ seen)) st' i alt := by
  induction n generalizing st seen before with
  | zero => simp [offeredStates] at hsplit
  | succ n ih =>
    simp only [offeredStates] at hsplit
    split at hsplit
    · rename_i hoff
      have hcall : arbiterLibGetNextAllocationRange arb st = (true, _) := Prod.ext hoff rfl
      obtain ⟨i, alt, hfst⟩ := (h.nextRounds arb.orderingList.count_le_limit
        (st.remaining_lt_bound _) (tellsFixed_orFixed _ _ _) fun _ _ _ _ _ _ => .inl hwin).1 _ hcall
      cases before with
      | nil =>
        obtain ⟨rfl, -⟩ := List.cons.inj hsplit
        exact ⟨offers_of_nextRounds _ _ hcall, i, alt, hfst⟩
      | cons first before =>
        obtain ⟨rfl, hrest⟩ := List.cons.inj hsplit
        rw [map_cons, reverse_cons, append_assoc]
        exact ih (hfst.walked _ (fun _ _ h => h.imp_left (mem_cons_of_mem _))
          (tellsFixed_orFixed _ _ _) (.inl mem_cons_self)) mem_cons_self hrest
    · simp at hsplit

/-- A window that meets a reserved one is offered in a pass over whole windows, when the ordering
windows of all alternatives were seen. -/
theorem Offered.last_resort {requirements : List ArbiterAlternative} {i : Nat}
    {seen : List (UInt64 × UInt64)} {alt₀ : ArbiterAlternative}
    (hlim : orderings.length ≤ arbiterOrderingLimit)
    (hdisj : ∀ o ∈ orderings, ∀ r ∈ reserved, ¬ o.Intersects r) (hoff : Offers orderings st)
    (h : Offered orderings requirements (Seen requirements seen) st i alt₀)
    (hclr : ∀ alt ∈ st.alternatives, alt.RoundsClear orderings reserved) {r : ArbiterOrdering}
    (hr : r ∈ reserved) (hmeets : st.Meets r) : (∃ alt ∈ st.current, alt.atReserved = true) ∧
      (∀ alt ∈ st.alternatives, alt.atReserved = true ∨ alt.priority = arbiterPriorityExhausted) ∧
      ∀ alt ∈ st.alternatives, alt.fixed = false → ∀ o ∈ orderings, alt.fitsOrdering o = true →
        ∀ w, trimWindow alt (alt.clip o) = some w → w ∈ seen := by
  obtain ⟨alt, window, halt, hexh, hwin, htrim⟩ := hoff
  have hmem := current_mem_alternatives halt
  have haims := h.settled.aims
  have hget : st.alternatives[i]? = some alt := by
    rw [AllocationState.current, h.current] at halt
    exact halt
  have hres : alt.priority = alt.reservedPriority := by
    rcases haims alt hmem with hnone | hres | ⟨k, o, ho, hfits, hprio⟩
    · exact absurd hnone hexh
    · exact hres
    rw [candidateWindow_ordering hlim ho hprio] at hwin
    obtain rfl := Option.some.inj hwin
    have ho' := mem_of_getElem? ho
    exact absurd hmeets (trimWindow_clear (hclr alt hmem) ho' hfits hr (hdisj o ho' r hr) htrim)
  have hpast : ∀ alt' ∈ st.alternatives,
      alt'.atReserved = true ∨ alt'.priority = arbiterPriorityExhausted := by
    intro alt' halt'
    rcases haims alt' halt' with hnone | hres' | ⟨k, o, ho, -, hprio⟩
    · exact .inr hnone
    · exact .inl (atReserved_of_eq hres')
    -- The priority of an ordering window would be lower than that of a whole window.
    exfalso
    have hle := h.least alt hget alt' halt'
    have hk := lt_of_lt_of_le (List.getElem?_eq_some_iff.mp ho).1 hlim
    rw [hres, reservedPriority, hprio, windowPriority] at hle
    rw [arbiterOrderingLimit] at hk
    simp only [arbiterPriorityReserved, arbiterPriorityPreferredReserved] at hle
    split at hle <;> split at hle <;> omega
  refine ⟨⟨alt, halt, atReserved_of_eq hres⟩, hpast, ?_⟩
  intro alt' halt' hfix o ho hfits w hw
  obtain ⟨k, hk⟩ := mem_iff_getElem?.mp ho
  obtain ⟨j, hj⟩ := mem_iff_getElem?.mp halt'
  have hpass : alt'.Past (.ordering k) := by
    rcases hpast alt' halt' with hat | hnone
    · exact .inr (.inl hat)
    · exact .inl hnone
  refine (h.settled.told j alt' hj (.ordering k) _ w (by simp [windowAt, hk, hfits]) hw
    hpass).resolve_right ?_
  rw [requirements_getElem? h.settled.requirements_eq hj]
  exact fun hfix' => Bool.false_ne_true (hfix.symm.trans hfix')

theorem roundsClear_of_rewind (hrew : st'.rewind = st.rewind)
    (h : ∀ alt ∈ st.alternatives, alt.RoundsClear orderings reserved) :
    ∀ alt ∈ st'.alternatives, alt.RoundsClear orderings reserved := by
  intro alt halt
  have hreqs : st'.requirements = st.requirements :=
    congrArg AllocationState.alternatives hrew
  have hmem : alt.withPriority arbiterPriorityNull ∈ st.requirements := by
    rw [← hreqs]
    exact mem_map_of_mem halt
  obtain ⟨alt₀, halt₀, hsame⟩ := mem_map.mp hmem
  have hclr : (alt₀.withPriority arbiterPriorityNull).RoundsClear orderings reserved := h alt₀ halt₀
  rw [hsame] at hclr
  exact hclr

end

/-- For every policy whose fragments fit, no ordering window meets a reserved one. For every
fresh state whose ordering windows can be rounded up clear of the reserved ones, a window that
meets a reserved one is offered as the whole window of an alternative, when all alternatives
are past their ordering windows and each of these was offered before. The walk skips a window
that equals the one the state started with, and it tries a fixed alternative once. -/
theorem reserved_windows_last_resort {σ : Type} {ops : ArbiterOps σ}
    {translate : TranslateOrdering} {env : Environment}
    (hpool : ∀ n, env.exAllocatePool n = true) {registry : Registry} {arb : ArbiterInstance}
    {orderName reservedName : String}
    (hfits : FragmentsFit
      (policyWindows ops translate registry arb.resourceType .allocationOrder orderName)
      (policyWindows ops translate registry arb.resourceType .reservedResources reservedName))
    (allocations : Nat) :
    ∃ arb' allocations', arbiterLibDefaultAssignmentOrdering ops translate env registry arb
        orderName reservedName allocations = (.ok (), arb', allocations') ∧
      (∀ o ∈ arb'.orderingList.orderings, ∀ r ∈ arb'.reservedList.orderings, ¬ o.Intersects r) ∧
      ∀ st : AllocationState, st.currentAlternative = none →
        (∀ alt ∈ st.alternatives,
          alt.RoundsClear arb'.orderingList.orderings arb'.reservedList.orderings) →
        ∀ n before st' after, offeredStates arb' n st = before ++ st' :: after →
        ∀ r ∈ arb'.reservedList.orderings, st'.Meets r →
          (∃ alt ∈ st'.current, alt.atReserved = true) ∧
          (∀ alt ∈ st'.alternatives,
            alt.atReserved = true ∨ alt.priority = arbiterPriorityExhausted) ∧
          ∀ alt ∈ st'.alternatives, alt.fixed = false →
            ∀ o ∈ arb'.orderingList.orderings, alt.fitsOrdering o = true →
            ∀ w, trimWindow alt (alt.clip o) = some w →
              w ∈ before.map window ∨ w = st.window := by
  obtain ⟨l, reserved, allocations', hpolicy, hl, hreserved⟩ :=
    defaultAssignmentOrdering_ok hpool hfits allocations
  have hdisjoint : ∀ o ∈ l.orderings, ∀ r ∈ reserved.orderings, ¬ o.Intersects r := by
    rw [hl, hreserved]
    exact fun o ho r hr => not_intersects_pruned ho hr
  refine ⟨_, allocations', hpolicy, hdisjoint, ?_⟩
  intro st hfresh hclear n before st' after hsplit r hr hmeets
  obtain ⟨hoffers, i, alt, hoffered⟩ := offered_of_offeredStates n
    (walked_fresh hfresh) (List.mem_singleton_self st.window) hsplit
  have hmem :
      st' ∈ offeredStates { arb with orderingList := l, reservedList := reserved } n st := by
    rw [hsplit]
    exact List.mem_append_right _ List.mem_cons_self
  obtain ⟨hwhole, hpast, hseen⟩ := hoffered.last_resort l.count_le_limit hdisjoint hoffers
    (roundsClear_of_rewind (offeredStates_rewind hmem) hclear) hr hmeets
  refine ⟨hwhole, hpast, fun alt halt hfixed o ho hfit w hw => ?_⟩
  have hw' := hseen alt halt hfixed o ho hfit w hw
  simpa using hw'

def twoWindows (preferred reserved : UInt64 × UInt64) : Registry
  | .allocationOrder, _ =>
    some (.requirementsList [.ofMemory .deviceExclusive preferred.1 preferred.2 1 1])
  | .reservedResources, _ =>
    some (.requirementsList [.ofMemory .deviceExclusive reserved.1 reserved.2 1 1])
  | .inaccessibleRange, _ => none

def freshState (minimum maximum : UInt64) (length alignment : UInt32) : AllocationState :=
  { AllocationState.zero (.request ⟨1⟩ []) with
    start := 1
    alternatives := [{
      minimum := minimum
      maximum := maximum
      length := length.toUInt64
      alignment := alignment.toUInt64
      priority := arbiterPriorityNull
      shared := false
      fixed := false
      badRange := false
      inaccessibleOk := false
      descriptor := .ofMemory .deviceExclusive minimum maximum length alignment }] }

theorem reserved_window_offered_third :
    ∃ arb' allocations', arbiterLibDefaultAssignmentOrdering resOps none .reference
        (twoWindows (0x1000, 0x3FFF) (0x2000, 0x2FFF)) (.plainMemory []) "Memory" "Memory" 0 =
        (.ok (), arb', allocations') ∧
      (offeredStates arb' 4 (freshState 0x1000 0x3FFF 0x800 1)).map window =
        [(0x1000, 0x1FFF), (0x3000, 0x3FFF), (0x1000, 0x3FFF)] ∧
      ∀ st' ∈ (offeredStates arb' 4 (freshState 0x1000 0x3FFF 0x800 1))[2]?,
        ∀ alt ∈ st'.alternatives,
          alt.atReserved = true ∨ alt.priority = arbiterPriorityExhausted := by
  have hpool : ∀ n, Environment.reference.exAllocatePool n = true := fun _ => rfl
  have hfits : FragmentsFit
      (policyWindows resOps none (twoWindows (0x1000, 0x3FFF) (0x2000, 0x2FFF))
        (ArbiterInstance.plainMemory []).resourceType .allocationOrder "Memory")
      (policyWindows resOps none (twoWindows (0x1000, 0x3FFF) (0x2000, 0x2FFF))
        (ArbiterInstance.plainMemory []).resourceType .reservedResources "Memory") := by decide
  obtain ⟨arb', allocations', hpolicy, -, hlast⟩ := reserved_windows_last_resort hpool hfits 0
  obtain ⟨-, hresult⟩ := Prod.mk.inj hpolicy
  obtain ⟨rfl, rfl⟩ := Prod.mk.inj hresult
  refine ⟨_, _, rfl, by decide, ?_⟩
  rintro st' ⟨⟩
  exact (hlast (freshState 0x1000 0x3FFF 0x800 1) rfl (by decide) 4 [_, _] _ [] rfl
    ⟨0x2000, 0x2FFF, by decide⟩ (by decide) (by decide)).2.1

/-- Rounding the only ordering window up runs over the end of the address space, and what is
offered of it meets the reserved window at zero. -/
theorem wrapped_window_meets_reserved :
    ∃ arb' allocations', arbiterLibDefaultAssignmentOrdering resOps none .reference
        (twoWindows (0xFFFFFFFFFFFF0001, 0xFFFFFFFFFFFFFFFF) (0, 0xFFF)) (.plainMemory [])
        "Memory" "Memory" 0 = (.ok (), arb', allocations') ∧
      ∃ st' r, offeredStates arb' 1
          (freshState 0xFFFFFFFFFFFF0001 0xFFFFFFFFFFFFFFFF 0x10 0x10000) = [st'] ∧
        r ∈ arb'.reservedList.orderings ∧ st'.Meets r ∧
        st'.current.any (·.atReserved) = false :=
  ⟨_, _, rfl, _, ⟨0, 0xFFF, by decide⟩, rfl, by decide, by decide, by decide⟩

open RangeList (toNat_pos_of_ne_zero toNat_sub_one)

/-! ### Rounding in 64 bits -/

theorem roundUp_eq_zero {alignment minimum : UInt64} (hpos : alignment ≠ 0)
    (h : 2 ^ 64 ≤ minimum.toNat + (alignment.toNat - 1)) : roundUp alignment minimum = 0 := by
  have hlt := alignment.toNat_lt
  have hlt' := minimum.toNat_lt
  have hsum : (minimum + (alignment - 1)).toNat =
      minimum.toNat + (alignment.toNat - 1) - 2 ^ 64 := by
    rw [UInt64.toNat_add, toNat_sub_one hpos]
    omega
  -- The sum lost more than it exceeds the alignment by, so nothing is left of it.
  have hmod : (minimum + (alignment - 1)) % alignment = minimum + (alignment - 1) := by
    rw [← UInt64.toNat_inj, UInt64.toNat_mod]
    exact Nat.mod_eq_of_lt (by omega)
  rw [roundUp, hmod, UInt64.sub_self]

theorem dvd_toNat_roundUp {alignment : UInt64} (hpos : alignment ≠ 0) (minimum : UInt64) :
    alignment.toNat ∣ (roundUp alignment minimum).toNat := by
  by_cases h : minimum.toNat + (alignment.toNat - 1) < 2 ^ 64
  · rw [toNat_roundUp_eq hpos h]
    exact Nat.dvd_mul_right _ _
  · rw [roundUp_eq_zero hpos (not_lt.mp h)]
    exact Nat.dvd_zero _

/-! ### Usable windows -/

namespace AllocationState

/-- The working window lies inside the bounds of the alternative, begins with an aligned
placement of it and ends with the last one. -/
structure Usable (st : AllocationState) (alt : ArbiterAlternative) : Prop where
  minimum_le : alt.minimum ≤ st.currentMinimum
  le_maximum : st.currentMaximum ≤ alt.maximum
  aligned : alt.effectiveAlignment.toNat ∣ st.currentMinimum.toNat
  room : st.currentMinimum.toNat + alt.length.toNat ≤ st.currentMaximum.toNat + 1
  last : ∃ top, IsGreatest (alt.starts st.window) top ∧
    st.currentMaximum.toNat + 1 = top + alt.length.toNat

variable {orderings : List ArbiterOrdering} {st : AllocationState} {alt : ArbiterAlternative}
  {window : UInt64 × UInt64}

theorem usable_iff_minimum_le (hleng : alt.length ≠ 0)
    (hwin : candidateWindow orderings alt = some window)
    (htrim : trimWindow alt window = some (st.currentMinimum, st.currentMaximum)) :
    st.Usable alt ↔ alt.minimum ≤ st.currentMinimum := by
  refine ⟨fun h => h.minimum_le, fun hmin => ?_⟩
  have hpos := toNat_pos_of_ne_zero hleng
  obtain ⟨hfst, hlast, top, hdvd, hle, htop⟩ := trimWindow_ends hleng htrim
  simp only at hfst hlast hle htop
  have hgreat : IsGreatest (alt.starts st.window) top := by
    constructor
    · exact ⟨hdvd, hle, show top ≤ st.currentMaximum.toNat by omega,
        show top + alt.length.toNat ≤ st.currentMaximum.toNat + 1 by omega⟩
    · rintro s ⟨-, -, -, hs⟩
      change s + alt.length.toNat ≤ st.currentMaximum.toNat + 1 at hs
      omega
  refine ⟨hmin, ?_, ?_, by omega, top, hgreat, htop⟩
  · exact UInt64.le_trans hlast (ArbiterAlternative.candidateWindow_bounds hwin).2
  · rw [hfst]
    exact dvd_toNat_roundUp alt.effectiveAlignment_ne_zero window.1

/-- The start of a window that was trimmed keeps the lower bound as long as rounding up stays
inside the address space; a bound of zero cannot be missed. -/
theorem minimum_le_iff_rounds (hleng : alt.length ≠ 0)
    (hwin : candidateWindow orderings alt = some window)
    (htrim : trimWindow alt window = some (st.currentMinimum, st.currentMaximum)) :
    alt.minimum ≤ st.currentMinimum ↔
      alt.minimum = 0 ∨ window.1.toNat + (alt.effectiveAlignment.toNat - 1) < 2 ^ 64 := by
  have hpos := alt.effectiveAlignment_ne_zero
  have hfst : st.currentMinimum = roundUp alt.effectiveAlignment window.1 :=
    (trimWindow_ends hleng htrim).1
  constructor
  · intro hle
    by_contra hnot
    rw [not_or, not_lt] at hnot
    rw [hfst, roundUp_eq_zero hpos hnot.2] at hle
    exact hnot.1 (UInt64.le_zero_iff.mp hle)
  · rintro (hzero | hround)
    · rw [hzero]
      exact UInt64.zero_le
    · rw [hfst]
      exact UInt64.le_trans (ArbiterAlternative.candidateWindow_bounds hwin).1
        (toNat_roundUp hpos hround).1

end AllocationState

open AllocationState

/-- For every state and every ordering list, a window that is returned for an alternative of
nonzero length is usable if and only if the alternative begins at address zero, or rounding the
start of the candidate window up to the alignment stays inside the address space. -/
theorem offered_window_usable_iff {arb : ArbiterInstance} {st st' : AllocationState}
    {alt : ArbiterAlternative} (h : arbiterLibGetNextAllocationRange arb st = (true, st'))
    (halt : st'.current = some alt) (hlength : alt.length ≠ 0) :
    st'.Usable alt ↔ alt.minimum = 0 ∨
      ∀ window ∈ candidateWindow arb.orderingList.orderings alt,
        window.1.toNat + (alt.effectiveAlignment.toNat - 1) < 2 ^ 64 := by
  obtain ⟨alt', window, halt', -, hwindow, htrim⟩ := offers_of_nextRounds _ _ h
  obtain rfl : alt' = alt := Option.some.inj (halt'.symm.trans halt)
  rw [usable_iff_minimum_le hlength hwindow htrim, minimum_le_iff_rounds hlength hwindow htrim,
    hwindow]
  simp only [Option.mem_some_iff, forall_eq']

theorem top_window_usable :
    ∃ st' alt, arbiterLibGetNextAllocationRange (.plainMemory [])
        (freshState 0xFFFFFFFFFFFF0001 0xFFFFFFFFFFFFFFFF 0x10 0x30) = (true, st') ∧
      st'.current = some alt ∧ st'.window = (0xFFFFFFFFFFFF0030, 0xFFFFFFFFFFFFFFFF) ∧
      st'.Usable alt := by
  obtain ⟨st', hoffered⟩ : ∃ st', arbiterLibGetNextAllocationRange (.plainMemory [])
      (freshState 0xFFFFFFFFFFFF0001 0xFFFFFFFFFFFFFFFF 0x10 0x30) = (true, st') := ⟨_, rfl⟩
  have hstate := (Prod.mk.inj hoffered).2
  subst hstate
  refine ⟨_, _, rfl, rfl, by decide, (offered_window_usable_iff hoffered rfl (by decide)).mpr ?_⟩
  right
  rintro window ⟨⟩
  decide

/-- A requirement near the top of the address space with a coarser alignment is offered a window
that begins at address zero. -/
theorem wrapped_window_unusable :
    ∃ alt st', arbpBuildAlternative resOps
        (.ofMemory .deviceExclusive 0xFFFFFFFFFFFF0001 0xFFFFFFFFFFFFFFFF 0x10 0x10000) = .ok alt ∧
      arbiterLibGetNextAllocationRange (.plainMemory [])
        { AllocationState.zero (.request ⟨1⟩ []) with start := 1, alternatives := [alt] } =
        (true, st') ∧
      st'.current.map (·.minimum) = some 0xFFFFFFFFFFFF0001 ∧ st'.currentMinimum = 0 ∧
      ∀ alt' ∈ st'.current, ¬ st'.Usable alt' := by
  refine ⟨_, _, rfl, rfl, by decide, by decide, ?_⟩
  rintro alt' ⟨⟩ husable
  exact absurd husable.minimum_le (by decide)

end UacpiNt
