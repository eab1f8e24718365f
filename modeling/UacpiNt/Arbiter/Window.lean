import UacpiNt.Arbiter.Suitable
import Mathlib.Order.Bounds.Basic

/-!
# The windows that are offered

As long as rounding up does not run over the end of the address space, a window that the walk
offers lies inside the bounds of its alternative, starts aligned and has room for the
alternative's length. The window of a fixed alternative is then its only placement.
-/

namespace UacpiNt

open RangeList (toNat_pos_of_ne_zero toNat_sub_one)
open UInt64 (toNat_add toNat_one toNat_sub_of_le toNat_mod le_iff_toNat_le toNat_inj)

/-! ### Rounding and trimming -/

variable {alignment minimum : UInt64} {alt : ArbiterAlternative}
  {window trimmed : UInt64 × UInt64}

theorem toNat_roundUp_eq (hpos : alignment ≠ 0)
    (h : minimum.toNat + (alignment.toNat - 1) < 2 ^ 64) : (roundUp alignment minimum).toNat =
      alignment.toNat * ((minimum.toNat + (alignment.toNat - 1)) / alignment.toNat) := by
  have hal := toNat_pos_of_ne_zero hpos
  have hsum : (minimum + (alignment - 1)).toNat = minimum.toNat + (alignment.toNat - 1) := by
    simp only [toNat_add, UInt64.toNat_sub, toNat_one]
    omega
  have hmod := Nat.div_add_mod (minimum.toNat + (alignment.toNat - 1)) alignment.toNat
  rw [roundUp, toNat_sub_of_le, toNat_mod, hsum]
  · omega
  · exact Nat.mod_le _ _

theorem toNat_roundUp (hpos : alignment ≠ 0) (h : minimum.toNat + (alignment.toNat - 1) < 2 ^ 64) :
    minimum ≤ roundUp alignment minimum ∧ roundUp alignment minimum % alignment = 0 := by
  have hal := toNat_pos_of_ne_zero hpos
  have hround := toNat_roundUp_eq hpos h
  have hmod := Nat.div_add_mod (minimum.toNat + (alignment.toNat - 1)) alignment.toNat
  have hrem := Nat.mod_lt (minimum.toNat + (alignment.toNat - 1)) hal
  constructor
  · rw [le_iff_toNat_le]
    omega
  · rw [← toNat_inj, toNat_mod, hround]
    exact Nat.mul_mod_right _ _

/-- The window holds an aligned placement of the alternative at each of its ends. -/
structure Trimmed (alt : ArbiterAlternative) (window trimmed : UInt64 × UInt64) : Prop where
  minimum_le : window.1 ≤ trimmed.1
  le_maximum : trimmed.2 ≤ window.2
  aligned : trimmed.1 % alt.effectiveAlignment = 0
  room : trimmed.1.toNat + alt.length.toNat ≤ trimmed.2.toNat + 1

theorem toNat_roundDown_le (alignment address : UInt64) :
    (address - address % alignment).toNat ≤ address.toNat := by
  have hmod : address % alignment ≤ address := by
    exact Nat.mod_le _ _
  rw [toNat_sub_of_le _ _ hmod]
  exact Nat.sub_le _ _

theorem dvd_toNat_roundDown (alignment address : UInt64) :
    alignment.toNat ∣ (address - address % alignment).toNat := by
  rw [toNat_sub_of_le]
  · exact Nat.dvd_sub_mod _
  · exact Nat.mod_le _ _

theorem trimWindow_ends (hleng : alt.length ≠ 0) (h : trimWindow alt window = some trimmed) :
    trimmed.1 = roundUp alt.effectiveAlignment window.1 ∧ trimmed.2 ≤ window.2 ∧
      ∃ top, alt.effectiveAlignment.toNat ∣ top ∧ trimmed.1.toNat ≤ top ∧
        trimmed.2.toNat + 1 = top + alt.length.toNat := by
  have hpos := toNat_pos_of_ne_zero hleng
  have hdown := toNat_roundDown_le alt.effectiveAlignment (window.2 - (alt.length - 1))
  have hdvd := dvd_toNat_roundDown alt.effectiveAlignment (window.2 - (alt.length - 1))
  have hlen := toNat_sub_one hleng
  simp only [trimWindow] at h
  rw [if_neg hleng] at h
  generalize roundUp alt.effectiveAlignment window.1 = minimum at h ⊢
  generalize (window.2 - (alt.length - 1)) -
    (window.2 - (alt.length - 1)) % alt.effectiveAlignment = aligned at h hdown hdvd
  split at h
  · cases h
  rename_i hfits
  split at h
  · cases h
  rename_i hroom
  cases h
  rw [not_or] at hfits
  have hmini : minimum ≤ window.2 := UInt64.not_lt.mp hfits.1
  have hspace := le_iff_toNat_le.mp (UInt64.not_lt.mp hfits.2)
  rw [toNat_sub_of_le _ _ hmini] at hspace
  rw [toNat_sub_of_le _ _ (by rw [le_iff_toNat_le, hlen]; omega)] at hdown
  have hlast : (aligned + (alt.length - 1)).toNat = aligned.toNat + (alt.length.toNat - 1) := by
    have := window.2.toNat_lt
    rw [toNat_add]
    omega
  refine ⟨rfl, ?_, aligned.toNat, hdvd, le_iff_toNat_le.mp (UInt64.not_lt.mp hroom), ?_⟩
  · rw [le_iff_toNat_le, hlast]
    omega
  · rw [hlast]
    omega

theorem trimWindow_trimmed (hleng : alt.length ≠ 0)
    (hround : window.1.toNat + (alt.effectiveAlignment.toNat - 1) < 2 ^ 64)
    (h : trimWindow alt window = some trimmed) : Trimmed alt window trimmed := by
  obtain ⟨hle, halig⟩ := toNat_roundUp alt.effectiveAlignment_ne_zero hround
  obtain ⟨hfst, hlast, top, -, hroom, htop⟩ := trimWindow_ends hleng h
  rw [← hfst] at hle halig
  exact ⟨hle, hlast, halig, by omega⟩

/-! ### The placements a window holds -/

/-- The starts of the aligned placements of the alternative that a window holds. -/
def ArbiterAlternative.starts (alt : ArbiterAlternative) (window : UInt64 × UInt64) : Set ℕ :=
  {s | alt.effectiveAlignment.toNat ∣ s ∧ window.1.toNat ≤ s ∧ s ≤ window.2.toNat ∧
    s + alt.length.toNat ≤ window.2.toNat + 1}

/-- The window `trimmed` reaches from the first placement that the window holds to the last. -/
structure Spans (alt : ArbiterAlternative) (window trimmed : UInt64 × UInt64) : Prop where
  first : IsLeast (alt.starts window) trimmed.1.toNat
  last : ∃ top, IsGreatest (alt.starts window) top ∧
    trimmed.2.toNat + 1 = top + alt.length.toNat

theorem Spans.unique {w w' : UInt64 × UInt64} (h : Spans alt window w) (h' : Spans alt window w') :
    w = w' := by
  obtain ⟨top, htop, hlast⟩ := h.last
  obtain ⟨top', htop', hlast'⟩ := h'.last
  have hfst := h.first.unique h'.first
  have hsame := htop.unique htop'
  exact Prod.ext (toNat_inj.mp hfst) (toNat_inj.mp (by omega))

theorem roundUp_le_of_dvd (hpos : alignment ≠ 0)
    (h : minimum.toNat + (alignment.toNat - 1) < 2 ^ 64) {s : ℕ} (hdvd : alignment.toNat ∣ s)
    (hle : minimum.toNat ≤ s) : (roundUp alignment minimum).toNat ≤ s := by
  obtain ⟨k, rfl⟩ := hdvd
  have hal := toNat_pos_of_ne_zero hpos
  rw [toNat_roundUp_eq hpos h]
  apply Nat.mul_le_mul_left
  rw [← Nat.lt_succ_iff, Nat.div_lt_iff_lt_mul hal, Nat.succ_mul, Nat.mul_comm k]
  omega

theorem le_roundDown_of_dvd {address : UInt64} {s : ℕ} (hdvd : alignment.toNat ∣ s)
    (hle : s ≤ address.toNat) : s ≤ (address - address % alignment).toNat := by
  have hmod : address % alignment ≤ address := by
    exact Nat.mod_le _ _
  rw [toNat_sub_of_le _ _ hmod, toNat_mod]
  obtain ⟨k, rfl⟩ := hdvd
  have hdiv := Nat.div_add_mod address.toNat alignment.toNat
  have hk : alignment.toNat * k ≤ alignment.toNat * (address.toNat / alignment.toNat) := by
    rcases Nat.eq_zero_or_pos alignment.toNat with hzero | hal
    · simp [hzero]
    · exact Nat.mul_le_mul_left _ ((Nat.le_div_iff_mul_le hal).mpr (by rwa [Nat.mul_comm]))
  omega

section

variable {w : UInt64 × UInt64} {s : ℕ}

theorem isGreatest_roundDown (hleng : alt.length ≠ 0) (hs : s ∈ alt.starts window) :
    IsGreatest (alt.starts window) ((window.2 - (alt.length - 1)) -
      (window.2 - (alt.length - 1)) % alt.effectiveAlignment).toNat := by
  have hlen := toNat_pos_of_ne_zero hleng
  have hfits := hs.2.2.2
  have hroom : (window.2 - (alt.length - 1)).toNat = window.2.toNat - (alt.length.toNat - 1) := by
    rw [toNat_sub_of_le, toNat_sub_one hleng]
    rw [le_iff_toNat_le, toNat_sub_one hleng]
    omega
  have hgreat : ∀ s ∈ alt.starts window, s ≤ ((window.2 - (alt.length - 1)) -
      (window.2 - (alt.length - 1)) % alt.effectiveAlignment).toNat := by
    intro s hs
    have hfits := hs.2.2.2
    exact le_roundDown_of_dvd hs.1 (by omega)
  have hdown := toNat_roundDown_le alt.effectiveAlignment (window.2 - (alt.length - 1))
  exact ⟨⟨dvd_toNat_roundDown _ _, hs.2.1.trans (hgreat s hs), by omega, by omega⟩, hgreat⟩

section

variable (hround : window.1.toNat + (alt.effectiveAlignment.toNat - 1) < 2 ^ 64)

include hround

theorem isLeast_roundUp (hs : s ∈ alt.starts window) :
    IsLeast (alt.starts window) (roundUp alt.effectiveAlignment window.1).toNat := by
  have hpos := alt.effectiveAlignment_ne_zero
  have hleast : ∀ s ∈ alt.starts window,
      (roundUp alt.effectiveAlignment window.1).toNat ≤ s := fun s hs =>
    roundUp_le_of_dvd hpos hround hs.1 hs.2.1
  refine ⟨⟨?_, ?_, (hleast s hs).trans hs.2.2.1, ?_⟩, hleast⟩
  · rw [toNat_roundUp_eq hpos hround]
    exact Nat.dvd_mul_right _ _
  · exact le_iff_toNat_le.mp (toNat_roundUp hpos hround).1
  · exact (Nat.add_le_add_right (hleast s hs) _).trans hs.2.2.2

theorem spans_trimWindow (hleng : alt.length ≠ 0) (hs : s ∈ alt.starts window) :
    ∃ w, trimWindow alt window = some w ∧ Spans alt window w := by
  have hlen := toNat_pos_of_ne_zero hleng
  have hleast := isLeast_roundUp hround hs
  have hgreat := isGreatest_roundDown hleng hs
  have hle := hleast.2 hgreat.1
  obtain ⟨-, -, hmax, hfits⟩ := hleast.1
  obtain ⟨-, -, -, hfits'⟩ := hgreat.1
  simp only [trimWindow, if_neg hleng]
  generalize roundUp alt.effectiveAlignment window.1 = minimum at *
  generalize (window.2 - (alt.length - 1)) -
    (window.2 - (alt.length - 1)) % alt.effectiveAlignment = top at *
  have hmini : minimum ≤ window.2 := le_iff_toNat_le.mpr hmax
  have hspace : alt.length - 1 ≤ window.2 - minimum := by
    rw [le_iff_toNat_le, toNat_sub_one hleng, toNat_sub_of_le _ _ hmini]
    omega
  rw [if_neg (not_or.mpr ⟨UInt64.not_lt.mpr hmini, UInt64.not_lt.mpr hspace⟩),
    if_neg (UInt64.not_lt.mpr (le_iff_toNat_le.mpr hle))]
  refine ⟨_, rfl, hleast, top.toNat, hgreat, ?_⟩
  have hlt := window.2.toNat_lt
  rw [toNat_add, toNat_sub_one hleng]
  omega

theorem trimWindow_eq_some_iff (hleng : alt.length ≠ 0) :
    trimWindow alt window = some w ↔ Spans alt window w := by
  constructor
  · intro htrim
    have hlen := toNat_pos_of_ne_zero hleng
    obtain ⟨hmin, hmax, halig, hroom⟩ := trimWindow_trimmed hleng hround htrim
    rw [le_iff_toNat_le] at hmin hmax
    have hdvd : alt.effectiveAlignment.toNat ∣ w.1.toNat := by
      have hmod := congrArg UInt64.toNat halig
      exact Nat.dvd_of_mod_eq_zero hmod
    have hs : w.1.toNat ∈ alt.starts window := ⟨hdvd, hmin, by omega, by omega⟩
    obtain ⟨w', htrim', hspans⟩ := spans_trimWindow hround hleng hs
    obtain rfl := Option.mem_unique htrim' htrim
    exact hspans
  · intro h
    obtain ⟨w', htrim, hspans⟩ := spans_trimWindow hround hleng h.first.1
    rw [htrim, hspans.unique h]

theorem mem_starts_of_trimWindow (h : trimWindow alt window = some w) (hs : s ∈ alt.starts window) :
    s ∈ alt.starts w := by
  by_cases hleng : alt.length = 0
  · rw [trimWindow, if_pos hleng] at h
    cases h
    exact hs
  obtain ⟨w', htrim, hspans⟩ := spans_trimWindow hround hleng hs
  obtain rfl := Option.mem_unique htrim h
  obtain ⟨top, htop, hlast⟩ := hspans.last
  have hlen := toNat_pos_of_ne_zero hleng
  have hbelow := htop.2 hs
  exact ⟨hs.1, hspans.first.2 hs, by omega, by omega⟩

end

end

/-! ### The windows of an alternative -/

namespace ArbiterAlternative

section

variable (alt) (orderings : List ArbiterOrdering) (o : ArbiterOrdering)

/-- The windows an alternative is tried in, before they are trimmed. -/
def windows (alt : ArbiterAlternative) : List (UInt64 × UInt64) :=
  (alt.minimum, alt.maximum) :: (orderings.filter alt.fitsOrdering).map alt.clip

/-- Rounding the start of a window up stays inside the address space. -/
def RoundsInside (alt : ArbiterAlternative) : Prop :=
  ∀ window ∈ alt.windows orderings,
    window.1.toNat + (alt.effectiveAlignment.toNat - 1) < 2 ^ 64

instance (alt : ArbiterAlternative) : Decidable (alt.RoundsInside orderings) :=
  show Decidable (∀ window ∈ alt.windows orderings,
      window.1.toNat + (alt.effectiveAlignment.toNat - 1) < 2 ^ 64) from
    List.decidableBAll _ _

theorem minimum_le_clip : alt.minimum ≤ (alt.clip o).1 := by
  rw [clip, le_iff_toNat_le, UInt64.toNat_max]
  exact le_max_left _ _

theorem clip_le_maximum : (alt.clip o).2 ≤ alt.maximum := Std.min_le_left

theorem start_le_clip : o.start ≤ (alt.clip o).1 := by
  rw [clip, le_iff_toNat_le, UInt64.toNat_max]
  exact le_max_right _ _

theorem clip_le_last : (alt.clip o).2 ≤ o.last := Std.min_le_right

end

variable {orderings : List ArbiterOrdering}

theorem windows_bounds (h : window ∈ alt.windows orderings) :
    alt.minimum ≤ window.1 ∧ window.2 ≤ alt.maximum := by
  rcases List.mem_cons.mp h with rfl | h
  · exact ⟨UInt64.le_refl _, UInt64.le_refl _⟩
  · obtain ⟨o, -, rfl⟩ := List.mem_map.mp h
    exact ⟨alt.minimum_le_clip o, alt.clip_le_maximum o⟩

def windowPriority (alt : ArbiterAlternative) (i : Nat) : Int :=
  if alt.descriptor.preferred then -((i : Int) + 1) else (i : Int) + 1

/-- The priority of the alternative stands for a window that it fits, for its whole window, or
for none. -/
def Aims (orderings : List ArbiterOrdering) (alt : ArbiterAlternative) : Prop :=
  alt.priority = arbiterPriorityExhausted ∨ alt.priority = alt.reservedPriority ∨
    ∃ i o, orderings[i]? = some o ∧ alt.fitsOrdering o = true ∧
      alt.priority = alt.windowPriority i

theorem atReserved_iff (alt : ArbiterAlternative) : alt.atReserved = true ↔
    alt.priority = arbiterPriorityReserved ∨ alt.priority = arbiterPriorityPreferredReserved := by
  simp [atReserved]

theorem atReserved_of_eq (h : alt.priority = alt.reservedPriority) : alt.atReserved = true := by
  rw [atReserved_iff, h, reservedPriority]
  split
  · exact .inr rfl
  · exact .inl rfl

theorem aims_priorityFrom (orderings : List ArbiterOrdering) (alt : ArbiterAlternative)
    (index : Nat) : (alt.withPriority (alt.priorityFrom orderings index)).Aims orderings := by
  rw [priorityFrom]
  cases hnext : alt.nextOrdering orderings index with
  | none => exact .inr (.inl rfl)
  | some i =>
    obtain ⟨-, -, o, ho, hfits⟩ := nextOrdering_spec hnext
    exact .inr (.inr ⟨i, o, ho, hfits, rfl⟩)

theorem aims_writePriority (orderings : List ArbiterOrdering) (alt : ArbiterAlternative) :
    (arbpWritePriority orderings alt).Aims orderings := by
  rw [arbpWritePriority]
  split
  · rename_i hexh
    exact .inl hexh
  split
  · exact .inl rfl
  split
  · exact aims_priorityFrom orderings alt 0
  split
  · exact .inl rfl
  · split
    · exact .inr (.inl rfl)
    · exact aims_priorityFrom orderings alt _

theorem windowPriority_spec {i : Nat} {o : ArbiterOrdering}
    (hlim : orderings.length ≤ arbiterOrderingLimit) (ho : orderings[i]? = some o)
    (h : alt.priority = alt.windowPriority i) :
    orderingIndex alt.priority = i ∧ alt.atReserved = false ∧
      alt.priority ≠ arbiterPriorityExhausted ∧ alt.priority ≠ arbiterPriorityNull := by
  have hi : i < arbiterOrderingLimit := lt_of_lt_of_le (List.getElem?_eq_some_iff.mp ho).1 hlim
  refine ⟨?_, ?_, ?_, ?_⟩
  · rw [h]
    exact orderingIndex_window alt.descriptor.preferred hi
  · rw [Bool.eq_false_iff, Ne, atReserved_iff, h, windowPriority, arbiterPriorityReserved,
      arbiterPriorityPreferredReserved]
    rw [arbiterOrderingLimit] at hi
    split <;> omega
  · rw [h, windowPriority, arbiterPriorityExhausted]
    rw [arbiterOrderingLimit] at hi
    split <;> omega
  · rw [h, windowPriority, arbiterPriorityNull]
    split <;> omega

theorem candidateWindow_ordering {i : Nat} {o : ArbiterOrdering}
    (hlim : orderings.length ≤ arbiterOrderingLimit) (ho : orderings[i]? = some o)
    (h : alt.priority = alt.windowPriority i) :
    candidateWindow orderings alt = some (alt.clip o) := by
  obtain ⟨hidx, hres, -, -⟩ := windowPriority_spec hlim ho h
  rw [candidateWindow, hres, hidx, ho]
  rfl

theorem candidateWindow_mem (hlim : orderings.length ≤ arbiterOrderingLimit)
    (haims : alt.Aims orderings) (hexh : alt.priority ≠ arbiterPriorityExhausted)
    (h : candidateWindow orderings alt = some window) : window ∈ alt.windows orderings := by
  rcases haims with hnone | hres | ⟨i, o, ho, hfits, hprio⟩
  · exact absurd hnone hexh
  · rw [candidateWindow, if_pos (atReserved_of_eq hres)] at h
    cases h
    exact List.mem_cons_self
  rw [candidateWindow_ordering hlim ho hprio] at h
  cases h
  exact List.mem_cons_of_mem _ (List.mem_map_of_mem
    (List.mem_filter.mpr ⟨List.mem_of_getElem? ho, hfits⟩))

theorem candidateWindow_bounds (h : candidateWindow orderings alt = some window) :
    alt.minimum ≤ window.1 ∧ window.2 ≤ alt.maximum := by
  rw [candidateWindow] at h
  split at h
  · cases h
    exact ⟨UInt64.le_refl _, UInt64.le_refl _⟩
  · obtain ⟨o, -, rfl⟩ := Option.map_eq_some_iff.mp h
    exact ⟨alt.minimum_le_clip o, alt.clip_le_maximum o⟩

end ArbiterAlternative

/-! ### The windows of a state -/

theorem forall_mem_modify {P : ArbiterAlternative → Prop} {l : List ArbiterAlternative}
    {f : ArbiterAlternative → ArbiterAlternative} (i : Nat) (h : ∀ alt ∈ l, P alt)
    (hf : ∀ alt, P (f alt)) : ∀ alt ∈ l.modify i f, P alt := by
  intro alt halt
  obtain ⟨j, hj⟩ := List.mem_iff_getElem?.mp halt
  rw [List.getElem?_modify] at hj
  obtain ⟨alt', hget, rfl⟩ := Option.map_eq_some_iff.mp hj
  split
  · exact hf alt'
  · exact h alt' (List.mem_of_getElem? hget)

namespace AllocationState

/-- Once the walk has begun, the priorities of all alternatives stand for fitting windows. -/
def AllAim (orderings : List ArbiterOrdering) (st : AllocationState) : Prop :=
  st.currentAlternative.isSome → ∀ alt ∈ st.alternatives, alt.Aims orderings

variable {orderings : List ArbiterOrdering} {st st' : AllocationState}

theorem aims_writePriorities (h : st.AllAim orderings) :
    ∀ alt ∈ (st.writePriorities orderings).alternatives, alt.Aims orderings := by
  intro alt halt
  rw [writePriorities] at halt
  cases hcur : st.currentAlternative with
  | none =>
    rw [hcur] at halt
    obtain ⟨alt, -, rfl⟩ := List.mem_map.mp halt
    exact ArbiterAlternative.aims_writePriority orderings _
  | some i =>
    rw [hcur] at halt
    exact forall_mem_modify i (h (by simp [hcur]))
      (ArbiterAlternative.aims_writePriority orderings) alt halt

theorem aims_exhaust (h : ∀ alt ∈ st.alternatives, alt.Aims orderings) (i : Nat) :
    ∀ alt ∈ (st.exhaust i).alternatives, alt.Aims orderings :=
  forall_mem_modify i h fun _ => .inl rfl

theorem allAim_nextRound (h : st.AllAim orderings) :
    (nextRound orderings st).state.AllAim orderings := by
  have hround := round_nextRound orderings st
  generalize nextRound orderings st = round at hround ⊢
  have haims := aims_writePriorities h
  cases hround with
  | exhausted st' hst =>
    rcases hst with rfl | rfl
    · exact h
    · exact fun _ => haims
  | spent alt i => exact fun _ => aims_exhaust haims i
  | passed | offered => exact fun _ => haims

theorem allAim_nextRounds (fuel : Nat) (h : st.AllAim orderings) :
    (nextRounds orderings fuel st).2.AllAim orderings :=
  nextRounds_state (fun _ => allAim_nextRound) fuel h

/-- The working window is one that the alternative may be placed in; for a fixed alternative it
is the only placement. -/
structure InBounds (st : AllocationState) (alt : ArbiterAlternative) : Prop where
  minimum_le : alt.minimum ≤ st.currentMinimum
  le_maximum : st.currentMaximum ≤ alt.maximum
  fixed : alt.fixed = true → st.currentMinimum = alt.minimum ∧ st.currentMaximum = alt.maximum ∧
    alt.minimum % alt.effectiveAlignment = 0 ∧
    alt.maximum.toNat + 1 = alt.minimum.toNat + alt.length.toNat

theorem le_maximum_of_offers (hoff : Offers orderings st) (halt : st.current = some alt)
    (hleng : alt.length ≠ 0) : st.currentMaximum ≤ alt.maximum := by
  obtain ⟨alt', window, halt', -, hwin, htrim⟩ := hoff
  obtain rfl := Option.mem_unique halt' halt
  exact UInt64.le_trans (trimWindow_ends hleng htrim).2.1
    (ArbiterAlternative.candidateWindow_bounds hwin).2

theorem minimum_le_of_offers (hoff : Offers orderings st) (halt : st.current = some alt)
    (hleng : alt.length ≠ 0) (hal : alt.effectiveAlignment = 1) :
    alt.minimum ≤ st.currentMinimum := by
  obtain ⟨alt', window, halt', -, hwin, htrim⟩ := hoff
  obtain rfl := Option.mem_unique halt' halt
  have hround : window.1.toNat + (alt'.effectiveAlignment.toNat - 1) < 2 ^ 64 := by
    rw [hal]
    exact window.1.toNat_lt
  exact UInt64.le_trans (ArbiterAlternative.candidateWindow_bounds hwin).1
    (trimWindow_trimmed hleng hround htrim).minimum_le

/-- A window that is offered is within bounds, unless rounding up runs over the end of the
address space. -/
theorem inBounds_of_offers (hlim : orderings.length ≤ arbiterOrderingLimit)
    (hoff : Offers orderings st) (haim : st.AllAim orderings) (halt : st.current = some alt)
    (hleng : alt.length ≠ 0) (hfix : alt.fixed = (alt.maximum - alt.minimum + 1 == alt.length))
    (hround : alt.RoundsInside orderings) : st.InBounds alt := by
  obtain ⟨alt', window, halt', hexh, hwin, htrim⟩ := hoff
  obtain rfl := Option.mem_unique halt' halt
  obtain ⟨i, hi, hget⟩ := Option.bind_eq_some_iff.mp halt
  have hmem := ArbiterAlternative.candidateWindow_mem hlim
    (haim (by simp [hi]) _ (List.mem_of_getElem? hget)) hexh hwin
  obtain ⟨hmin, hmax⟩ := ArbiterAlternative.windows_bounds hmem
  have htrimm := trimWindow_trimmed hleng (hround window hmem) htrim
  have hmini := UInt64.le_trans hmin htrimm.minimum_le
  have hmaxi := UInt64.le_trans htrimm.le_maximum hmax
  refine ⟨hmini, hmaxi, fun hf => ?_⟩
  rw [hf] at hfix
  have hwd : alt'.maximum - alt'.minimum + 1 = alt'.length := by simpa using hfix.symm
  -- Both ends of the window are pinned, since it is no wider than the length.
  have hroom := htrimm.room
  have hpos := toNat_pos_of_ne_zero hleng
  rw [le_iff_toNat_le] at hmini hmaxi
  have hlt := alt'.maximum.toNat_lt
  have hle : alt'.minimum ≤ alt'.maximum := by
    rw [le_iff_toNat_le]
    omega
  have hcnt := congrArg UInt64.toNat hwd
  rw [toNat_add, toNat_sub_of_le _ _ hle, toNat_one] at hcnt
  simp only at hmini hmaxi hroom
  have hfst : st.currentMinimum = alt'.minimum := toNat_inj.mp (by omega)
  have hlast : st.currentMaximum = alt'.maximum := toNat_inj.mp (by omega)
  refine ⟨hfst, hlast, ?_, by omega⟩
  rw [← hfst]
  exact htrimm.aligned

end AllocationState

end UacpiNt
