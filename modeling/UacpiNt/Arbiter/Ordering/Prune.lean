import UacpiNt.Arbiter.Ordering.Basic

/-!
# Pruning is interval subtraction

As long as the pool has memory and the fragments fit the capacity, the ordering list that the
registry policy leaves is the list of preferred windows with the reserved windows taken out,
address by address.
-/

namespace UacpiNt

open List UInt64

namespace ArbiterOrdering

section

variable (o o' hole : ArbiterOrdering) (x : UInt64)

def Contains : Prop :=
  o.start ≤ x ∧ x ≤ o.last

def minus : List ArbiterOrdering :=
  if o.last < hole.start ∨ hole.last < o.start then [o]
  else
    (if h : o.start < hole.start then [⟨o.start, hole.start - 1, le_sub_one_of_lt h⟩] else []) ++
      if h : hole.last < o.last then [⟨hole.last + 1, o.last, add_one_le_of_lt h⟩] else []

theorem exists_mem_minus :
    (∃ f ∈ o.minus hole, f.Contains x) ↔ o.Contains x ∧ ¬ hole.Contains x := by
  have hsub : o.start < hole.start → (hole.start - 1).toNat = hole.start.toNat - 1 :=
    RangeList.toNat_sub_one_of_lt
  have hadd : hole.last < o.last → (hole.last + 1).toNat = hole.last.toNat + 1 := by
    intro h
    have hlt := o.last.toNat_lt
    rw [lt_iff_toNat_lt] at h
    rw [UInt64.toNat_add, toNat_one]
    omega
  rw [minus]
  split
  · rename_i houts
    simp only [Contains, mem_singleton, exists_eq_left, lt_iff_toNat_lt,
      le_iff_toNat_le] at houts ⊢
    omega
  · rename_i hmeets
    rw [not_or, UInt64.not_lt, UInt64.not_lt, le_iff_toNat_le,
      le_iff_toNat_le] at hmeets
    by_cases hleft : o.start < hole.start
    · have hsub := hsub hleft
      by_cases hright : hole.last < o.last
      · have hadd := hadd hright
        rw [dif_pos hleft, dif_pos hright]
        simp only [Contains, singleton_append, mem_cons, not_mem_nil, or_false,
          exists_eq_or_imp, exists_eq_left, le_iff_toNat_le]
        rw [lt_iff_toNat_lt] at hleft hright
        omega
      · rw [dif_pos hleft, dif_neg hright]
        simp only [Contains, append_nil, mem_singleton, exists_eq_left,
          le_iff_toNat_le]
        rw [lt_iff_toNat_lt] at hleft hright
        omega
    · by_cases hright : hole.last < o.last
      · have hadd := hadd hright
        rw [dif_neg hleft, dif_pos hright]
        simp only [Contains, nil_append, mem_singleton, exists_eq_left,
          le_iff_toNat_le]
        rw [lt_iff_toNat_lt] at hleft hright
        omega
      · rw [dif_neg hleft, dif_neg hright]
        simp only [Contains, nil_append, not_mem_nil, false_and, exists_false, false_iff,
          le_iff_toNat_le]
        rw [lt_iff_toNat_lt] at hleft hright
        omega

def Intersects : Prop :=
  o.start ≤ o'.last ∧ o'.start ≤ o.last
deriving Decidable

theorem intersects_iff : o.Intersects o' ↔ ∃ x, o.Contains x ∧ o'.Contains x := by
  constructor
  · rintro ⟨hle, hle'⟩
    rcases UInt64.le_total o.start o'.start with h | h
    · exact ⟨o'.start, ⟨h, hle'⟩, UInt64.le_refl _, o'.start_le_last⟩
    · exact ⟨o.start, ⟨UInt64.le_refl _, o.start_le_last⟩, h, hle⟩
  · rintro ⟨x, ⟨hx, hx'⟩, hy, hy'⟩
    exact ⟨UInt64.le_trans hx hy', UInt64.le_trans hy hx'⟩

end

def ofRange (range : UInt64 × UInt64) : Option ArbiterOrdering :=
  if h : range.1 ≤ range.2 then some ⟨range.1, range.2, h⟩ else none

end ArbiterOrdering

def Covers (l : List ArbiterOrdering) (x : UInt64) : Prop :=
  ∃ o ∈ l, o.Contains x

def pruned (l holes : List ArbiterOrdering) : List ArbiterOrdering :=
  holes.foldl (fun l hole => l.flatMap (·.minus hole)) l

/-- At no point of the pruning are there more fragments than an ordering list can hold. -/
def FragmentsFit : List ArbiterOrdering → List ArbiterOrdering → Prop
  | _, [] => True
  | l, hole :: rest => (l.flatMap (·.minus hole)).length ≤ arbiterOrderingLimit ∧
      FragmentsFit (l.flatMap (·.minus hole)) rest

instance decideFragmentsFit : (l holes : List ArbiterOrdering) → Decidable (FragmentsFit l holes)
  | _, [] => .isTrue trivial
  | l, hole :: rest =>
    @instDecidableAnd _ _ inferInstance (decideFragmentsFit (l.flatMap (·.minus hole)) rest)

theorem covers_pruned (l holes : List ArbiterOrdering) (x : UInt64) :
    Covers (pruned l holes) x ↔ Covers l x ∧ ¬ Covers holes x := by
  induction holes generalizing l with
  | nil => simp [pruned, Covers]
  | cons hole rest ih =>
    have hone : Covers (l.flatMap (·.minus hole)) x ↔ Covers l x ∧ ¬ hole.Contains x := by
      simp only [Covers, mem_flatMap]
      constructor
      · rintro ⟨f, ⟨o, ho, hf⟩, hx⟩
        obtain ⟨hin, hout⟩ := (o.exists_mem_minus hole x).mp ⟨f, hf, hx⟩
        exact ⟨⟨o, ho, hin⟩, hout⟩
      · rintro ⟨⟨o, ho, hin⟩, hout⟩
        obtain ⟨f, hf, hx⟩ := (o.exists_mem_minus hole x).mpr ⟨hin, hout⟩
        exact ⟨f, ⟨o, ho, hf⟩, hx⟩
    have hcons : Covers (hole :: rest) x ↔ hole.Contains x ∨ Covers rest x := by
      simp [Covers]
    rw [pruned, foldl_cons, ← pruned, ih]
    tauto

/-! ### The routines -/

namespace ArbiterOrderingList

def Regular (l : ArbiterOrderingList) : Prop :=
  l.maximum ∈ [0, 16, 32, 64, 128, 256, 512, 1024]

theorem regular_empty : empty.Regular := by
  simp [Regular, empty, arbiterOrderingGranularity]

theorem Regular.newMaximum {l : ArbiterOrderingList} (h : l.Regular)
    (hlt : l.maximum < arbiterOrderingLimit) : l.newMaximum ≤ arbiterOrderingLimit ∧
      l.newMaximum ∈ [0, 16, 32, 64, 128, 256, 512, 1024] := by
  rw [Regular] at h
  rw [ArbiterOrderingList.newMaximum]
  generalize l.maximum = maximum at h hlt
  revert maximum
  decide

end ArbiterOrderingList

section

variable {env : Environment} (hpool : ∀ n, env.exAllocatePool n = true)

include hpool

variable {l : ArbiterOrderingList}

theorem addOrdering_ok (hl : l.Regular) (hcnt : l.orderings.length < arbiterOrderingLimit)
    {start last : UInt64} (horder : start ≤ last) (allocations : Nat) :
    ∃ l' allocations', arbiterLibAddOrdering env l start last allocations =
      (.ok l', allocations') ∧ l'.orderings = l.orderings ++ [⟨start, last, horder⟩] ∧
      l'.Regular := by
  rw [arbiterLibAddOrdering, dif_pos horder]
  by_cases hroom : l.count < l.maximum
  · rw [dif_pos hroom]
    exact ⟨_, _, rfl, rfl, hl⟩
  have hfull : l.maximum < arbiterOrderingLimit := lt_of_le_of_lt (not_lt.mp hroom) hcnt
  obtain ⟨hlim, hreg⟩ := hl.newMaximum hfull
  rw [dif_neg hroom, dif_pos hlim, hpool]
  exact ⟨_, _, rfl, rfl, hreg⟩

omit hpool in
theorem addOrdering_error (env : Environment) {start last : UInt64}
    (h : start ≤ last → l.orderings.length = arbiterOrderingLimit) (allocations : Nat) :
    ∃ e, arbiterLibAddOrdering env l start last allocations = (.error e, allocations) := by
  rw [arbiterLibAddOrdering]
  by_cases horder : start ≤ last
  · have hmax : l.maximum = arbiterOrderingLimit :=
      le_antisymm l.maximum_le_limit (h horder ▸ l.count_le_maximum)
    have hroom : ¬ l.count < l.maximum := by
      rw [ArbiterOrderingList.count, h horder, hmax]
      exact lt_irrefl _
    have hlim : ¬ l.newMaximum ≤ arbiterOrderingLimit := by
      rw [not_le, ← hmax]
      exact l.maximum_lt_newMaximum
    rw [dif_pos horder, dif_neg hroom, dif_neg hlim]
    exact ⟨_, rfl⟩
  · rw [dif_neg horder]
    exact ⟨_, rfl⟩

theorem excludeFrom_ok (hl : l.Regular) (o hole : ArbiterOrdering)
    (hfits : l.orderings.length + (o.minus hole).length ≤ arbiterOrderingLimit)
    (allocations : Nat) : ∃ l' allocations', excludeFrom env o hole.start hole.last l allocations =
      (.ok l', allocations') ∧ l'.orderings = l.orderings ++ o.minus hole ∧ l'.Regular := by
  rw [excludeFrom]
  by_cases houts : o.last < hole.start ∨ hole.last < o.start
  · rw [ArbiterOrdering.minus, if_pos houts] at hfits ⊢
    rw [if_pos houts]
    exact addOrdering_ok hpool hl hfits o.start_le_last allocations
  rw [ArbiterOrdering.minus, if_neg houts] at hfits ⊢
  rw [if_neg houts]
  have hleft : ∃ l₁ allocations₁, (if o.start < hole.start then
        arbiterLibAddOrdering env l o.start (hole.start - 1) allocations
      else (.ok l, allocations)) = (.ok l₁, allocations₁) ∧
      l₁.orderings = l.orderings ++ (if h : o.start < hole.start then
        [⟨o.start, hole.start - 1, le_sub_one_of_lt h⟩] else []) ∧ l₁.Regular := by
    by_cases h : o.start < hole.start
    · rw [if_pos h, dif_pos h]
      rw [dif_pos h] at hfits
      exact addOrdering_ok hpool hl (by simp at hfits; omega) (le_sub_one_of_lt h) allocations
    · rw [if_neg h, dif_neg h, append_nil]
      exact ⟨l, allocations, rfl, rfl, hl⟩
  obtain ⟨l₁, allocations₁, hadd, hords, hl₁⟩ := hleft
  simp only [hadd]
  rw [length_append, ← Nat.add_assoc, ← length_append, ← hords] at hfits
  rw [← append_assoc, ← hords]
  by_cases h : hole.last < o.last
  · rw [if_pos h, dif_pos h]
    rw [dif_pos h] at hfits
    exact addOrdering_ok hpool hl₁ hfits (add_one_le_of_lt h) allocations₁
  · rw [if_neg h, dif_neg h, append_nil]
    exact ⟨l₁, allocations₁, rfl, rfl, hl₁⟩

theorem excludeFromAll_ok (hole : ArbiterOrdering) (orderings : List ArbiterOrdering)
    (hl : l.Regular)
    (hfits : l.orderings.length + (orderings.flatMap (·.minus hole)).length ≤ arbiterOrderingLimit)
    (allocations : Nat) :
    ∃ l' allocations', excludeFromAll env hole.start hole.last orderings l allocations =
      (.ok l', allocations') ∧ l'.orderings = l.orderings ++ orderings.flatMap (·.minus hole) ∧
      l'.Regular := by
  induction orderings generalizing l allocations with
  | nil => exact ⟨l, allocations, rfl, by simp, hl⟩
  | cons o rest ih =>
    rw [flatMap_cons, length_append, ← Nat.add_assoc] at hfits
    obtain ⟨l₁, allocations₁, hfrom, hords, hl₁⟩ :=
      excludeFrom_ok hpool hl o hole (le_trans (Nat.le_add_right _ _) hfits) allocations
    rw [← length_append, ← hords] at hfits
    obtain ⟨l₂, allocations₂, hrest, horderings₂, hl₂⟩ := ih hl₁ hfits allocations₁
    refine ⟨l₂, allocations₂, ?_, ?_, hl₂⟩
    · rw [excludeFromAll, hfrom]
      exact hrest
    · rw [horderings₂, hords, flatMap_cons, append_assoc]

theorem excludeOrderingRange_ok (l : ArbiterOrderingList) (hole : ArbiterOrdering)
    (hfits : (l.orderings.flatMap (·.minus hole)).length ≤ arbiterOrderingLimit)
    (allocations : Nat) :
    ∃ l' allocations', arbpExcludeOrderingRange env l hole.start hole.last allocations =
      (.ok l', allocations') ∧ l'.orderings = l.orderings.flatMap (·.minus hole) ∧ l'.Regular := by
  rw [arbpExcludeOrderingRange, if_neg (UInt64.not_lt.mpr hole.start_le_last),
    arbpCreateOrderingList, hpool]
  have hemp : ArbiterOrderingList.empty.orderings.length +
      (l.orderings.flatMap (·.minus hole)).length ≤ arbiterOrderingLimit := by
    rw [ArbiterOrderingList.empty, length_nil, Nat.zero_add]
    exact hfits
  obtain ⟨l', allocations', hall, hords, hl'⟩ := excludeFromAll_ok hpool hole l.orderings
    ArbiterOrderingList.regular_empty hemp (allocations + 1)
  exact ⟨l', allocations', hall, hords, hl'⟩

/-! ### The policy as a whole -/

theorem forEach_addOrdering (ranges : List (UInt64 × UInt64)) {arb : ArbiterInstance}
    (hl : arb.orderingList.Regular) (allocations : Nat) :
    ∃ l allocations', arbpForEachRegistryRange (arbpAddOrderingCallback env) ranges arb
        allocations = ({ arb with orderingList := l }, allocations') ∧
      l.orderings = (arb.orderingList.orderings ++
        ranges.filterMap ArbiterOrdering.ofRange).take arbiterOrderingLimit ∧ l.Regular := by
  induction ranges generalizing arb allocations with
  | nil =>
    refine ⟨arb.orderingList, allocations, rfl, ?_, hl⟩
    rw [filterMap_nil, append_nil, take_of_length_le]
    exact arb.orderingList.count_le_limit
  | cons range rest ih =>
    rw [arbpForEachRegistryRange, arbpAddOrderingCallback]
    by_cases hfull : range.1 ≤ range.2 → arb.orderingList.orderings.length = arbiterOrderingLimit
    · obtain ⟨e, herr⟩ := addOrdering_error env hfull allocations
      obtain ⟨l, allocations', hrest, hords, hl'⟩ := ih hl allocations
      rw [herr]
      refine ⟨l, allocations', hrest, ?_, hl'⟩
      rw [hords]
      by_cases horder : range.1 ≤ range.2
      · rw [take_append_of_le_length (hfull horder).ge,
          take_append_of_le_length (hfull horder).ge]
      · rw [filterMap_cons_none (by rw [ArbiterOrdering.ofRange, dif_neg horder])]
    · rw [Classical.not_imp] at hfull
      obtain ⟨horder, hne⟩ := hfull
      have hcnt : arb.orderingList.orderings.length < arbiterOrderingLimit :=
        lt_of_le_of_ne arb.orderingList.count_le_limit hne
      obtain ⟨l₁, allocations₁, hadd, horderings₁, hl₁⟩ :=
        addOrdering_ok hpool hl hcnt horder allocations
      have hl₁' : ({ arb with orderingList := l₁ } : ArbiterInstance).orderingList.Regular := hl₁
      obtain ⟨l, allocations', hrest, hords, hl'⟩ := ih hl₁' allocations₁
      rw [hadd]
      refine ⟨l, allocations', hrest, ?_, hl'⟩
      rw [hords, horderings₁, append_assoc, filterMap_cons_some
        (by rw [ArbiterOrdering.ofRange, dif_pos horder])]
      rfl

/-- The reserved windows of the registry become the reserved list, as far as it has room, and
are taken out of the ordering list. -/
theorem forEach_addReserved (ranges : List (UInt64 × UInt64)) {arb : ArbiterInstance}
    (hr : arb.reservedList.Regular) {holes : List ArbiterOrdering}
    (hholes : holes = (ranges.filterMap ArbiterOrdering.ofRange).take
      (arbiterOrderingLimit - arb.reservedList.orderings.length))
    (hfits : FragmentsFit arb.orderingList.orderings holes) (allocations : Nat) :
    ∃ l r allocations', arbpForEachRegistryRange (arbpAddReservedCallback env) ranges arb
        allocations = ({ arb with orderingList := l, reservedList := r }, allocations') ∧
      l.orderings = pruned arb.orderingList.orderings holes ∧
      r.orderings = arb.reservedList.orderings ++ holes := by
  induction ranges generalizing arb holes allocations with
  | nil =>
    obtain rfl : holes = [] := by simpa using hholes
    exact ⟨arb.orderingList, arb.reservedList, allocations, rfl, rfl, by simp⟩
  | cons range rest ih =>
    rw [arbpForEachRegistryRange, arbpAddReservedCallback]
    by_cases hfull : range.1 ≤ range.2 → arb.reservedList.orderings.length = arbiterOrderingLimit
    · obtain ⟨e, herr⟩ := addOrdering_error env hfull allocations
      have hholes' : holes = (rest.filterMap ArbiterOrdering.ofRange).take
          (arbiterOrderingLimit - arb.reservedList.orderings.length) := by
        rw [hholes]
        by_cases horder : range.1 ≤ range.2
        · rw [hfull horder, Nat.sub_self, take_zero, take_zero]
        · rw [filterMap_cons_none (by rw [ArbiterOrdering.ofRange, dif_neg horder])]
      obtain ⟨l, r, allocations', hrest, hl', hr'⟩ := ih hr hholes' hfits allocations
      rw [herr]
      exact ⟨l, r, allocations', hrest, hl', hr'⟩
    · rw [Classical.not_imp] at hfull
      obtain ⟨horder, hne⟩ := hfull
      have hcnt : arb.reservedList.orderings.length < arbiterOrderingLimit :=
        lt_of_le_of_ne arb.reservedList.count_le_limit hne
      obtain ⟨r₁, allocations₁, hadd, hr₁, hreg⟩ := addOrdering_ok hpool hr hcnt horder allocations
      obtain ⟨room, hroom⟩ := Nat.exists_eq_add_of_lt hcnt
      rw [filterMap_cons_some (by rw [ArbiterOrdering.ofRange, dif_pos horder]), hroom,
        Nat.add_assoc, Nat.add_sub_cancel_left] at hholes
      subst hholes
      obtain ⟨l₁, allocations₂, hexc, hl₁, -⟩ :=
        excludeOrderingRange_ok hpool arb.orderingList ⟨range.1, range.2, horder⟩ hfits.1
          allocations₁
      have hreg' : ({ arb with orderingList := l₁, reservedList := r₁ } :
          ArbiterInstance).reservedList.Regular := hreg
      have hholes' : (rest.filterMap ArbiterOrdering.ofRange).take room =
          (rest.filterMap ArbiterOrdering.ofRange).take
            (arbiterOrderingLimit - r₁.orderings.length) := by
        rw [hr₁, length_append, length_singleton]
        congr 1
        omega
      have hfits' := hfits.2
      rw [← hl₁] at hfits'
      obtain ⟨l, r, allocations', hrest, hl', hr'⟩ := ih hreg' hholes' hfits' allocations₂
      simp only [hadd, hexc]
      refine ⟨l, r, allocations', hrest, ?_, ?_⟩
      · rw [hl', hl₁]
        rfl
      · rw [hr', hr₁, append_assoc]
        rfl

end

def policyWindows {σ : Type} (ops : ArbiterOps σ) (translate : TranslateOrdering)
    (registry : Registry) (resourceType : CmResourceType) (subkey : PolicySubkey)
    (valueName : String) : List ArbiterOrdering :=
  ((registryRanges ops translate resourceType (registry.descriptors subkey valueName)).filterMap
    ArbiterOrdering.ofRange).take arbiterOrderingLimit

theorem defaultAssignmentOrdering_ok {σ : Type} {ops : ArbiterOps σ}
    {translate : TranslateOrdering} {env : Environment}
    (hpool : ∀ n, env.exAllocatePool n = true) {registry : Registry} {arb : ArbiterInstance}
    {orderName reservedName : String} (hfits : FragmentsFit
      (policyWindows ops translate registry arb.resourceType .allocationOrder orderName)
      (policyWindows ops translate registry arb.resourceType .reservedResources reservedName))
    (allocations : Nat) :
    ∃ l r allocations', arbiterLibDefaultAssignmentOrdering ops translate env registry arb
        orderName reservedName allocations =
        (.ok (), { arb with orderingList := l, reservedList := r }, allocations') ∧
      l.orderings = pruned
        (policyWindows ops translate registry arb.resourceType .allocationOrder orderName)
        (policyWindows ops translate registry arb.resourceType .reservedResources reservedName) ∧
      r.orderings =
        policyWindows ops translate registry arb.resourceType .reservedResources reservedName := by
  rw [arbiterLibDefaultAssignmentOrdering]
  simp only [arbpCreateOrderingList, hpool, if_true]
  have hemp : ({ arb with orderingList := .empty, reservedList := .empty } :
      ArbiterInstance).orderingList.Regular := ArbiterOrderingList.regular_empty
  obtain ⟨l, allocations₁, hfst, hl, -⟩ := forEach_addOrdering hpool
    (registryRanges ops translate arb.resourceType
      (registry.descriptors .allocationOrder orderName)) hemp (allocations + 1 + 1)
  have hres : ({ arb with orderingList := l, reservedList := .empty } :
      ArbiterInstance).reservedList.Regular := ArbiterOrderingList.regular_empty
  have hl' : l.orderings =
      policyWindows ops translate registry arb.resourceType .allocationOrder orderName := hl
  rw [← hl'] at hfits ⊢
  obtain ⟨l', r, allocations₂, hsecond, hprun, hr⟩ := forEach_addReserved hpool
    (registryRanges ops translate arb.resourceType
      (registry.descriptors .reservedResources reservedName)) hres rfl hfits allocations₁
  rw [hfst]
  simp only [hsecond]
  exact ⟨l', r, allocations₂, rfl, hprun, hr⟩

theorem not_intersects_pruned {l holes : List ArbiterOrdering} {o hole : ArbiterOrdering}
    (ho : o ∈ pruned l holes) (hhole : hole ∈ holes) : ¬ o.Intersects hole := by
  rw [ArbiterOrdering.intersects_iff]
  rintro ⟨x, hx, hx'⟩
  exact ((covers_pruned l holes x).mp ⟨o, ho, hx⟩).2 ⟨hole, hhole, hx'⟩

end UacpiNt
