import UacpiNt.Arbiter.Ordering.LastResort

/-!
# Which windows are offered

A call that answers that there is no window left comes after all windows of the alternatives that
are not fixed were offered. What is told of a window is here that it was offered for the
alternative.
-/

namespace UacpiNt

open AllocationState ArbiterAlternative List Option
open RangeList (toNat_pos_of_ne_zero)

section

variable {arb : ArbiterInstance} {requirements : List ArbiterAlternative}
  {seen : List (Nat × (UInt64 × UInt64))} {left : UInt64 × UInt64} {st st' : AllocationState}

/-- The window was offered for the alternative, or the alternative is fixed. -/
def WasOffered (requirements : List ArbiterAlternative) (seen : List (Nat × (UInt64 × UInt64))) :
    Nat → UInt64 × UInt64 → Prop :=
  OrFixed requirements fun i w => (i, w) ∈ seen

/-- The windows of the alternative at `i` cannot be taken for another window: all of them are
usable, or none equals the window left in the state or a window of another alternative. -/
def Distinct (orderings : List ArbiterOrdering) (requirements : List ArbiterAlternative)
    (left : UInt64 × UInt64) (i : Nat) (alt : ArbiterAlternative) : Prop :=
  alt.Usable orderings ∨ ∀ w ∈ alt.trimmedWindows orderings, w ≠ left ∧
    ∀ j alt', requirements[j]? = some alt' → w ∈ alt'.trimmedWindows orderings → j = i

def Origin (orderings : List ArbiterOrdering) (requirements : List ArbiterAlternative)
    (left : UInt64 × UInt64) (seen : List (Nat × (UInt64 × UInt64))) (w : UInt64 × UInt64) : Prop :=
  w = left ∨ ∃ j alt, requirements[j]? = some alt ∧ w ∈ alt.trimmedWindows orderings ∧
    (j, w) ∈ seen

def offers (states : List AllocationState) : List (Nat × (UInt64 × UInt64)) :=
  states.filterMap fun st => st.currentAlternative.map fun i => (i, st.window)

theorem mem_offers {states : List AllocationState} {i : Nat} {w : UInt64 × UInt64} :
    (i, w) ∈ offers states ↔ ∃ st ∈ states, st.currentAlternative = some i ∧ st.window = w := by
  simp [offers]

theorem wasOffered_of_origin {orderings : List ArbiterOrdering}
    (hdist : ∀ i alt, requirements[i]? = some alt → alt.fixed = false →
      Distinct orderings requirements left i alt)
    (horig : Origin orderings requirements left seen st.window) :
    ∀ i alt, requirements[i]? = some alt → alt.fixed = false → ¬ alt.Usable orderings →
      st.window ∈ alt.trimmedWindows orderings → WasOffered requirements seen i st.window := by
  intro i alt halt hfix hunus hmem
  obtain ⟨hleft, hoth⟩ := (hdist i alt halt hfix).resolve_left hunus _ hmem
  rcases horig with hsame | ⟨j, alt', halt', hmem', hseen⟩
  · exact absurd hsame hleft
  · obtain rfl := hoth j alt' halt' hmem'
    exact .inl hseen

/-- When a call answers that there is no window left, every window of an alternative that is not
fixed was offered. -/
theorem offers_all (hdist : ∀ i alt, requirements[i]? = some alt → alt.fixed = false →
      Distinct arb.orderingList.orderings requirements left i alt) (n : Nat)
    (hwal : Walked arb.orderingList.orderings requirements (WasOffered requirements seen) st)
    (horig : Origin arb.orderingList.orderings requirements left seen st.window)
    (hend : (offeredStates arb n st).length < n) : ∀ i alt, requirements[i]? = some alt →
      ∀ w ∈ alt.trimmedWindows arb.orderingList.orderings,
        WasOffered requirements (seen ++ offers (offeredStates arb n st)) i w := by
  induction n generalizing st seen with
  | zero => cases hend
  | succ n ih =>
    have hskip := wasOffered_of_origin hdist horig
    obtain ⟨hoff, hexh⟩ := hwal.nextRounds arb.orderingList.count_le_limit
      (st.remaining_lt_bound _) (tellsFixed_orFixed _ _ _) hskip
    rcases hcall : arbiterLibGetNextAllocationRange arb st with ⟨offered, st₁⟩
    simp only [offeredStates, hcall] at hend ⊢
    cases offered with
    | false =>
      simp only [Bool.false_eq_true, if_false, offers, filterMap_nil, append_nil]
      exact hexh st₁ hcall
    | true =>
      obtain ⟨i, alt, hoffered⟩ := hoff st₁ hcall
      have hi := hoffered.current
      have hwal' := hoffered.walked (WasOffered requirements (seen ++ [(i, st₁.window)]))
        (fun _ _ h => h.imp_left (mem_append_left _)) (tellsFixed_orFixed _ _ _)
        (.inl (mem_append_right _ mem_cons_self))
      have horig' : Origin arb.orderingList.orderings requirements left
          (seen ++ [(i, st₁.window)]) st₁.window :=
        .inr ⟨i, alt, hoffered.requirement, hoffered.window_mem, mem_append_right _ mem_cons_self⟩
      rw [if_pos rfl, length_cons, Nat.succ_lt_succ_iff] at hend
      have hrest := ih hwal' horig' hend
      simpa [offers, hi] using hrest

theorem length_offeredStates_le (arb : ArbiterInstance) (n : Nat) (st : AllocationState) :
    (offeredStates arb n st).length ≤ st.remaining arb.orderingList.orderings := by
  induction n generalizing st with
  | zero => exact Nat.zero_le _
  | succ n ih =>
    rcases hcall : arbiterLibGetNextAllocationRange arb st with ⟨offered, st₁⟩
    simp only [offeredStates, hcall]
    cases offered with
    | false => exact Nat.zero_le _
    | true =>
      have hless := remaining_nextRounds arb.orderingList.count_le_limit hcall
      have hrest := ih st₁
      simp only [if_true, length_cons]
      omega

end

/-- Where a window holds a placement, rounding its start up stays inside the address space. -/
def ArbiterAlternative.RoundsHeld (orderings : List ArbiterOrdering) (alt : ArbiterAlternative) :
    Prop :=
  ∀ window ∈ alt.windows orderings, ∀ s ∈ alt.starts window,
    window.1.toNat + (alt.effectiveAlignment.toNat - 1) < 2 ^ 64

variable {alt : ArbiterAlternative}

theorem roundsHeld_of_dvd (h : alt.effectiveAlignment.toNat ∣ 2 ^ 64)
    (orderings : List ArbiterOrdering) : alt.RoundsHeld orderings := by
  rintro window - s ⟨hdvd, hle, hmax, -⟩
  have hlt := window.2.toNat_lt
  obtain ⟨k, hk⟩ := h
  obtain ⟨m, rfl⟩ := hdvd
  have hm : m + 1 ≤ k := by
    have : alt.effectiveAlignment.toNat * m < alt.effectiveAlignment.toNat * k := by omega
    exact Nat.lt_of_mul_lt_mul_left this
  have hnext := Nat.mul_le_mul_left alt.effectiveAlignment.toNat hm
  rw [Nat.mul_add] at hnext
  omega

theorem fitsOrdering_of_mem_starts {o : ArbiterOrdering} {s : ℕ}
    (hs : s ∈ alt.starts (alt.clip o)) :
    alt.fitsOrdering o = true ∨ alt.clip o = (alt.minimum, alt.maximum) := by
  obtain ⟨-, hfst, hlast, hfits⟩ := hs
  have hmin := UInt64.le_iff_toNat_le.mp (alt.minimum_le_clip o)
  have hmax := UInt64.le_iff_toNat_le.mp (alt.clip_le_maximum o)
  have hlt' := alt.maximum.toNat_lt
  have hle : (alt.clip o).1 ≤ (alt.clip o).2 := UInt64.le_iff_toNat_le.mpr (by omega)
  by_cases hspace : (alt.clip o).2.toNat - (alt.clip o).1.toNat + 1 < 2 ^ 64
  · left
    rw [fitsOrdering, Bool.and_eq_true]
    refine ⟨?_, ?_⟩
    · rw [Bool.not_eq_true', Bool.or_eq_false_iff, decide_eq_false_iff_not,
        decide_eq_false_iff_not, UInt64.not_lt, UInt64.not_lt]
      exact ⟨UInt64.le_trans (UInt64.le_trans (alt.start_le_clip o) hle) (alt.clip_le_maximum o),
        UInt64.le_trans (UInt64.le_trans (alt.minimum_le_clip o) hle) (alt.clip_le_last o)⟩
    · rw [decide_eq_true_eq, ge_iff_le, UInt64.le_iff_toNat_le, UInt64.toNat_add,
        UInt64.toNat_sub_of_le _ _ hle, UInt64.toNat_one]
      omega
  · right
    have hfst' : (alt.clip o).1.toNat = alt.minimum.toNat := by omega
    have hlast' : (alt.clip o).2.toNat = alt.maximum.toNat := by omega
    exact Prod.ext (UInt64.toNat_inj.mp hfst') (UInt64.toNat_inj.mp hlast')

theorem usable_of_length_eq_zero (h : alt.length = 0) (orderings : List ArbiterOrdering) :
    alt.Usable orderings := by
  intro o _ _
  rw [trimWindow, if_pos h]
  rfl

theorem distinct_requirements {orderings : List ArbiterOrdering} {st : AllocationState}
    {left : UInt64 × UInt64}
    (h : ∀ i alt, st.alternatives[i]? = some alt → alt.fixed = false → alt.length ≠ 0 →
      Distinct orderings st.alternatives left i alt) :
    ∀ i alt, st.requirements[i]? = some alt → alt.fixed = false →
      Distinct orderings st.requirements left i alt := by
  intro i alt halt hfix
  by_cases hlen : alt.length = 0
  · exact .inl (usable_of_length_eq_zero hlen orderings)
  rw [requirements, getElem?_map] at halt
  obtain ⟨alt, hget, rfl⟩ := map_eq_some_iff.mp halt
  rcases h i alt hget hfix hlen with husab | hoth
  · exact .inl husab
  refine .inr fun w hw => ⟨(hoth w hw).1, fun j alt' halt' hw' => ?_⟩
  rw [requirements, getElem?_map] at halt'
  obtain ⟨alt', hget', rfl⟩ := map_eq_some_iff.mp halt'
  exact (hoth w hw).2 j alt' hget' hw'

/-- For every ordering list, every array of alternatives and every window left in the state: the
calls that start from a state without an alternative in use come to an end. If the windows of each
alternative that is neither fixed nor without length can be told apart and rounded, they have then
offered, for each such alternative, what the placements in its part of each ordering window and
in its whole window span. -/
theorem all_windows_offered (arb : ArbiterInstance) {st : AllocationState}
    (hfresh : st.currentAlternative = none)
    (hdistinct : ∀ i alt, st.alternatives[i]? = some alt → alt.fixed = false → alt.length ≠ 0 →
      Distinct arb.orderingList.orderings st.alternatives st.window i alt)
    (hround : ∀ alt ∈ st.alternatives, alt.fixed = false → alt.length ≠ 0 →
      alt.RoundsHeld arb.orderingList.orderings) :
    ∃ n, (offeredStates arb n st).length < n ∧
      ∀ i alt, st.alternatives[i]? = some alt → alt.fixed = false → alt.length ≠ 0 →
        ∀ window, (∃ o ∈ arb.orderingList.orderings, window = alt.clip o) ∨
          window = (alt.minimum, alt.maximum) → ∀ w, Spans alt window w →
        ∃ st' ∈ offeredStates arb n st, st'.currentAlternative = some i ∧ st'.window = w := by
  refine ⟨st.remaining arb.orderingList.orderings + 1,
    Nat.lt_succ_of_le (length_offeredStates_le arb _ st), ?_⟩
  intro i alt halt hfixed hlength window hwindow w hspans
  have hmem : window ∈ alt.windows arb.orderingList.orderings := by
    rcases hwindow with ⟨o, ho, rfl⟩ | rfl
    · rcases fitsOrdering_of_mem_starts hspans.first.1 with hfits | hwhole
      · exact List.mem_cons_of_mem _ (List.mem_map_of_mem (List.mem_filter.mpr ⟨ho, hfits⟩))
      · rw [hwhole]
        exact List.mem_cons_self
    · exact List.mem_cons_self
  have htrim := (trimWindow_eq_some_iff (hround alt (List.mem_of_getElem? halt) hfixed
    hlength window hmem _ hspans.first.1) hlength).mpr hspans
  have hwalked : Walked arb.orderingList.orderings st.requirements (WasOffered st.requirements [])
      st := walked_fresh hfresh
  have horigin : Origin arb.orderingList.orderings st.requirements st.window [] st.window :=
    .inl rfl
  have hall := offers_all (distinct_requirements hdistinct) _ hwalked horigin
    (Nat.lt_succ_of_le (length_offeredStates_le arb _ st)) i _ (requirements_getElem? rfl halt) w
    (List.mem_filterMap.mpr ⟨window, hmem, htrim⟩)
  rcases hall with hseen | hother
  · exact mem_offers.mp hseen
  · rw [requirements_getElem? rfl halt] at hother
    cases hfixed.symm.trans hother

def ArbiterInstance.ordered (orderings : List ArbiterOrdering)
    (h : orderings.length ≤ arbiterOrderingLimit) : ArbiterInstance :=
  { ArbiterInstance.plainMemory [] with orderingList := ⟨orderings, _, le_rfl, h⟩ }

def ArbiterOrdering.secondSixteen : ArbiterOrdering :=
  ⟨0x10, 0x1F, by decide⟩

def oddThenEven : ArbiterInstance :=
  .ordered [⟨0x1, 0x8, by decide⟩, .secondSixteen] (by decide)

def leftState (left : UInt64 × UInt64) : AllocationState :=
  (freshState 0x1 0x2F 0x8 0x10).withWindow left

theorem spans_secondWindow : ∀ alt ∈ (leftState (0, 0)).alternatives,
    Spans alt (alt.clip .secondSixteen) (0x10, 0x17) := by
  intro alt halt
  obtain rfl := mem_singleton.mp halt
  exact (trimWindow_eq_some_iff (by decide) (by decide)).mp rfl

theorem second_window_offered :
    ∃ n, (offeredStates oddThenEven n (leftState (0, 0))).length < n ∧
      ∃ st' ∈ offeredStates oddThenEven n (leftState (0, 0)),
        st'.currentAlternative = some 0 ∧ st'.window = (0x10, 0x17) := by
  have hdistinct : ∀ i alt, (leftState (0, 0)).alternatives[i]? = some alt → alt.fixed = false →
      alt.length ≠ 0 → Distinct oddThenEven.orderingList.orderings
        (leftState (0, 0)).alternatives (leftState (0, 0)).window i alt := by
    intro i alt halt _ _
    have hzero : ∀ j alt, (leftState (0, 0)).alternatives[j]? = some alt → j = 0 := by
      intro j alt hj
      exact Nat.lt_one_iff.mp (List.getElem?_eq_some_iff.mp hj).1
    obtain rfl := List.mem_singleton.mp (List.mem_of_getElem? halt)
    refine .inr fun w hw => ⟨?_, fun j alt' hj _ => (hzero j alt' hj).trans (hzero i _ halt).symm⟩
    have hwindows : w ∈ [((0x10 : UInt64), (0x27 : UInt64)), (0x10, 0x17)] := hw
    rintro rfl
    exact absurd hwindows (by decide)
  have hround : ∀ alt ∈ (leftState (0, 0)).alternatives, alt.fixed = false → alt.length ≠ 0 →
      alt.RoundsHeld oddThenEven.orderingList.orderings := by
    intro alt halt _ _
    obtain rfl := List.mem_singleton.mp halt
    exact roundsHeld_of_dvd (by decide) _
  obtain ⟨n, hend, hall⟩ := all_windows_offered oddThenEven rfl hdistinct hround
  exact ⟨n, hend, hall 0 _ rfl rfl (by decide) _
    (.inl ⟨_, List.mem_cons_of_mem _ List.mem_cons_self, rfl⟩) _
    (spans_secondWindow _ List.mem_cons_self)⟩

/-- The second ordering window is what the state was left with. The alternative is taken up at the
first window, which cannot hold it, and the second one is skipped as if it had been offered: the
whole window is all that is offered. -/
theorem left_window_skipped :
    ∃ alt o, (leftState (0x10, 0x17)).currentAlternative = none ∧
      (leftState (0x10, 0x17)).alternatives = [alt] ∧ alt.fixed = false ∧ alt.length ≠ 0 ∧
      o ∈ oddThenEven.orderingList.orderings ∧ Spans alt (alt.clip o) (0x10, 0x17) ∧
      (offeredStates oddThenEven 2 (leftState (0x10, 0x17))).map window = [(0x10, 0x27)] :=
  ⟨_, .secondSixteen, rfl, rfl, rfl, by decide,
    List.mem_cons_of_mem _ List.mem_cons_self, spans_secondWindow _ List.mem_cons_self, rfl⟩

end UacpiNt
