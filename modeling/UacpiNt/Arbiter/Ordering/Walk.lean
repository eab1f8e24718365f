import UacpiNt.Arbiter.Window

/-!
# Which windows the walk goes past

An alternative goes through the ordering windows that it fits and then to its whole window.
`Walked` says of a state of the walk that everything the alternatives went past was told, where
the meaning of being told is left open: that a window was offered, or that it holds no placement
that is wanted. A window is not offered if it equals the working window and the alternative is
the one in use already, so the invariant has to know that such a window was told.
-/

namespace UacpiNt

open AllocationState List Option

def AllocationState.window (st : AllocationState) : UInt64 × UInt64 :=
  (st.currentMinimum, st.currentMaximum)

namespace ArbiterAlternative

section

variable {orderings : List ArbiterOrdering} {alt : ArbiterAlternative}

def Passed (alt : ArbiterAlternative) (i : Nat) : Prop :=
  alt.priority = arbiterPriorityExhausted ∨ alt.atReserved = true ∨
    ∃ k, alt.priority = alt.windowPriority k ∧ i < k

theorem windowPriority_injective {i k : Nat} (h : alt.windowPriority i = alt.windowPriority k) :
    i = k := by
  rw [windowPriority, windowPriority] at h
  split at h <;> omega

theorem lt_of_passed_priorityFrom (hlim : orderings.length ≤ arbiterOrderingLimit)
    {index i : Nat} {o : ArbiterOrdering} (ho : orderings[i]? = some o)
    (hfits : alt.fitsOrdering o = true)
    (h : (alt.withPriority (alt.priorityFrom orderings index)).Passed i) : i < index := by
  have hany : orderings[i]?.any alt.fitsOrdering = true := by
    rw [ho]
    exact hfits
  have hlen := (List.getElem?_eq_some_iff.mp ho).1
  by_contra hle
  rw [not_lt] at hle
  rw [priorityFrom] at h
  cases hnext : alt.nextOrdering orderings index with
  | none =>
    have hnone := find?_range'_eq_none.mp hnext i hle (by omega)
    rw [hany] at hnone
    cases hnone
  | some j =>
    rw [hnext] at h
    obtain ⟨-, -, o', ho', -⟩ := nextOrdering_spec hnext
    have hprio : (alt.withPriority (alt.windowPriority j)).priority =
        (alt.withPriority (alt.windowPriority j)).windowPriority j := rfl
    obtain ⟨-, hres, hexh, -⟩ := windowPriority_spec hlim ho' hprio
    rcases h with h | h | ⟨k, hk, hik⟩
    · exact hexh h
    · exact Bool.false_ne_true (hres.symm.trans h)
    obtain rfl : j = k := windowPriority_injective hk
    have hfst := (find?_range'_eq_some.mp hnext).2.2 i hle hik
    rw [hany] at hfst
    cases hfst

theorem passed_writePriority (hlim : orderings.length ≤ arbiterOrderingLimit)
    (haims : alt.Aims orderings) (hfix : alt.fixed = false) {i : Nat} {o : ArbiterOrdering}
    (ho : orderings[i]? = some o) (hfits : alt.fitsOrdering o = true)
    (h : (arbpWritePriority orderings alt).Passed i) :
    alt.Passed i ∨ alt.priority = alt.windowPriority i := by
  rcases haims with hexh | hres | ⟨k, o', ho', -, hprio⟩
  · exact .inl (.inl hexh)
  · exact .inl (.inr (.inl (atReserved_of_eq hres)))
  obtain ⟨hidx, hres, hexh, hnull⟩ := windowPriority_spec hlim ho' hprio
  have hk := (List.getElem?_eq_some_iff.mp ho').1
  rw [arbpWritePriority, if_neg hexh, hres, if_neg hnull, hfix, hidx, if_neg (not_le.mpr hk)] at h
  have hle := lt_of_passed_priorityFrom hlim ho hfits h
  rcases Nat.lt_succ_iff_lt_or_eq.mp hle with hlt | rfl
  · exact .inl (.inr (.inr ⟨k, hprio, hlt⟩))
  · exact .inr hprio

end

/-- Where an alternative can stand: at an ordering window, or at its whole window. -/
inductive Place where
  | ordering (i : Nat)
  | whole

variable {orderings : List ArbiterOrdering} {alt : ArbiterAlternative} {p : Place}
  {window : UInt64 × UInt64}

/-- The window that goes with a place, if the alternative fits it. -/
def windowAt (orderings : List ArbiterOrdering) (alt : ArbiterAlternative) :
    Place → Option (UInt64 × UInt64)
  | .ordering i => (orderings[i]?.filter alt.fitsOrdering).map alt.clip
  | .whole => some (alt.minimum, alt.maximum)

def Stands (alt : ArbiterAlternative) : Place → Prop
  | .ordering i => alt.priority = alt.windowPriority i
  | .whole => alt.priority = alt.reservedPriority

def Past (alt : ArbiterAlternative) : Place → Prop
  | .ordering i => alt.Passed i
  | .whole => alt.priority = arbiterPriorityExhausted

theorem windowAt_ordering {i : Nat} (h : alt.windowAt orderings (.ordering i) = some window) :
    ∃ o, orderings[i]? = some o ∧ alt.fitsOrdering o = true ∧ alt.clip o = window := by
  obtain ⟨o, ho, hclip⟩ := map_eq_some_iff.mp h
  obtain ⟨ho, hfits⟩ := filter_eq_some_iff.mp ho
  exact ⟨o, ho, hfits, hclip⟩

theorem windowAt_mem (h : alt.windowAt orderings p = some window) :
    window ∈ alt.windows orderings := by
  cases p with
  | whole =>
    cases h
    exact mem_cons_self
  | ordering i =>
    obtain ⟨o, ho, hfits, rfl⟩ := windowAt_ordering h
    exact mem_cons_of_mem _ (mem_map_of_mem
      (mem_filter.mpr ⟨mem_of_getElem? ho, hfits⟩))

theorem exists_windowAt (h : window ∈ alt.windows orderings) :
    ∃ p, alt.windowAt orderings p = some window := by
  rcases mem_cons.mp h with rfl | h
  · exact ⟨.whole, rfl⟩
  obtain ⟨o, ho, rfl⟩ := mem_map.mp h
  obtain ⟨ho, hfits⟩ := mem_filter.mp ho
  obtain ⟨i, hi⟩ := mem_iff_getElem?.mp ho
  exact ⟨.ordering i, by simp [windowAt, hi, hfits]⟩

section

variable (orderings) (alt)

theorem reservedPriority_ne_exhausted : alt.reservedPriority ≠ arbiterPriorityExhausted := by
  rw [reservedPriority]
  split <;> decide

theorem arbpWritePriority_eq : arbpWritePriority orderings alt =
      alt.withPriority (arbpWritePriority orderings alt).priority :=
  arbpWritePriority_withPriority orderings alt (arbpWritePriority orderings alt).priority

end

section

variable (hlimit : orderings.length ≤ arbiterOrderingLimit)

include hlimit

theorem priorityFrom_ne_exhausted (alt : ArbiterAlternative) (index : Nat) :
    alt.priorityFrom orderings index ≠ arbiterPriorityExhausted := by
  rw [priorityFrom]
  cases hnext : alt.nextOrdering orderings index with
  | none => exact alt.reservedPriority_ne_exhausted
  | some i =>
    obtain ⟨-, -, o, ho, -⟩ := nextOrdering_spec hnext
    have hprio : (alt.withPriority (alt.windowPriority i)).priority =
        (alt.withPriority (alt.windowPriority i)).windowPriority i := rfl
    exact (windowPriority_spec hlimit ho hprio).2.2.1

theorem exists_stands (haims : alt.Aims orderings) (h : alt.priority ≠ arbiterPriorityExhausted) :
    ∃ p window, alt.Stands p ∧ alt.windowAt orderings p = some window ∧
      candidateWindow orderings alt = some window := by
  rcases haims with hnone | hres | ⟨i, o, ho, hfits, hprio⟩
  · exact absurd hnone h
  · refine ⟨.whole, _, hres, rfl, ?_⟩
    rw [candidateWindow, if_pos (atReserved_of_eq hres)]
  · exact ⟨.ordering i, alt.clip o, hprio, by simp [windowAt, ho, hfits],
      candidateWindow_ordering hlimit ho hprio⟩

theorem candidateWindow_of_stands (hstan : alt.Stands p)
    (hwin : alt.windowAt orderings p = some window) :
    candidateWindow orderings alt = some window := by
  cases p with
  | whole => rw [candidateWindow, if_pos (atReserved_of_eq hstan), ← hwin, windowAt]
  | ordering i =>
    obtain ⟨o, ho, -, rfl⟩ := windowAt_ordering hwin
    exact candidateWindow_ordering hlimit ho hstan

theorem past_writePriority (haims : alt.Aims orderings) (hfix : alt.fixed = false)
    (hwin : alt.windowAt orderings p = some window)
    (h : (arbpWritePriority orderings alt).Past p) : alt.Past p ∨ alt.Stands p := by
  cases p with
  | ordering i =>
    obtain ⟨o, ho, hfits, -⟩ := windowAt_ordering hwin
    exact passed_writePriority hlimit haims hfix ho hfits h
  | whole =>
    rcases haims with hnone | hres | ⟨i, o, ho, hfits, hprio⟩
    · exact .inl hnone
    · exact .inr hres
    -- From an ordering window the alternative goes to another one, or to its whole window.
    exfalso
    obtain ⟨hidx, hres, hexh, hnull⟩ := windowPriority_spec hlimit ho hprio
    have hi := (List.getElem?_eq_some_iff.mp ho).1
    rw [arbpWritePriority, if_neg hexh, hres, if_neg hnull, hfix, hidx, if_neg (not_le.mpr hi)] at h
    exact priorityFrom_ne_exhausted hlimit alt (i + 1) h

theorem exhausted_of_le (haims : alt.Aims orderings) (h : arbiterPriorityExhausted ≤ alt.priority) :
    alt.priority = arbiterPriorityExhausted := by
  rcases haims with hnone | hres | ⟨i, o, ho, -, hprio⟩
  · exact hnone
  · rw [hres, reservedPriority] at h
    split at h <;> exact absurd h (by decide)
  have hi := lt_of_lt_of_le (List.getElem?_eq_some_iff.mp ho).1 hlimit
  rw [hprio, windowPriority] at h
  rw [arbiterOrderingLimit] at hi
  simp only [arbiterPriorityExhausted] at h
  split at h <;> omega

theorem not_past_seeded (hwin : alt.windowAt orderings p = some window) :
    ¬ (arbpWritePriority orderings (alt.withPriority arbiterPriorityNull)).Past p := by
  intro h
  cases p with
  | whole => exact priorityFrom_ne_exhausted hlimit _ 0 h
  | ordering i =>
    obtain ⟨o, ho, hfits, -⟩ := windowAt_ordering hwin
    exact Nat.not_lt_zero i (lt_of_passed_priorityFrom hlimit ho hfits h)

theorem writePriority_fixed (haims : alt.Aims orderings) (hfix : alt.fixed = true) :
    (arbpWritePriority orderings alt).priority = arbiterPriorityExhausted := by
  rcases haims with hnone | hres | ⟨i, o, ho, -, hprio⟩
  · rw [arbpWritePriority, if_pos hnone, hnone]
  · have hexh : alt.priority ≠ arbiterPriorityExhausted := by
      rw [hres]
      exact alt.reservedPriority_ne_exhausted
    rw [arbpWritePriority, if_neg hexh, if_pos (atReserved_of_eq hres)]
    rfl
  · obtain ⟨-, hres, hexh, hnull⟩ := windowPriority_spec hlimit ho hprio
    rw [arbpWritePriority, if_neg hexh, hres, if_neg hnull, if_pos hfix]
    rfl

end

theorem stood_of_writePriority
    (h : (arbpWritePriority orderings alt).priority ≠ arbiterPriorityExhausted) :
    alt.priority ≠ arbiterPriorityExhausted ∧ alt.atReserved = false := by
  rw [arbpWritePriority] at h
  split at h <;> rename_i hexh
  · exact absurd hexh h
  split at h
  · exact absurd rfl h
  · rename_i hres
    exact ⟨hexh, by simpa using hres⟩

section

variable (orderings) (alt)

def trimmedWindows : List (UInt64 × UInt64) :=
  (alt.windows orderings).filterMap (trimWindow alt)

/-- Every ordering window that has room for the alternative's length can hold it. -/
def Usable : Prop :=
  ∀ o ∈ orderings, alt.fitsOrdering o = true → (trimWindow alt (alt.clip o)).isSome

instance : Decidable (alt.Usable orderings) :=
  List.decidableBAll _ _

end

theorem not_usable_of_trim (hstan : alt.Stands p) (hp : alt.windowAt orderings p = some window)
    (hres : alt.atReserved = false) (htrim : trimWindow alt window = none) :
    ¬ alt.Usable orderings := by
  intro husab
  cases p with
  | whole =>
    rw [atReserved_of_eq hstan] at hres
    cases hres
  | ordering i =>
    obtain ⟨o, ho, hfits, rfl⟩ := windowAt_ordering hp
    have hsome := husab o (mem_of_getElem? ho) hfits
    rw [htrim] at hsome
    cases hsome

end ArbiterAlternative

open ArbiterAlternative

section

variable {orderings : List ArbiterOrdering} {requirements : List ArbiterAlternative}
  {Told Told' : Nat → UInt64 × UInt64 → Prop} {st st' : AllocationState}

/-- What the walk keeps to. The windows that the alternatives are past were told, and so was the
one that the alternative in use stands at, and all of it if it is fixed. If the working window is
one that the alternative in use may come to again, it was told as well. -/
structure Walked (orderings : List ArbiterOrdering) (requirements : List ArbiterAlternative)
    (Told : Nat → UInt64 × UInt64 → Prop) (st : AllocationState) : Prop where
  requirements_eq : st.requirements = requirements
  aims : st.AllAim orderings
  told : st.currentAlternative.isSome → ∀ i alt, st.alternatives[i]? = some alt →
    ∀ p window w, alt.windowAt orderings p = some window → trimWindow alt window = some w →
    alt.Past p ∨ st.currentAlternative = some i ∧ (alt.fixed = true ∨ alt.Stands p) → Told i w
  current : ∀ i alt, st.currentAlternative = some i → st.alternatives[i]? = some alt →
    alt.fixed = false → alt.priority ≠ arbiterPriorityExhausted → alt.atReserved = false →
    st.window ∈ alt.trimmedWindows orderings → Told i st.window

/-- One window of a fixed alternative tells of all of them. -/
def TellsFixed (orderings : List ArbiterOrdering) (requirements : List ArbiterAlternative)
    (Told : Nat → UInt64 × UInt64 → Prop) : Prop :=
  ∀ i alt, requirements[i]? = some alt → alt.fixed = true →
    ∀ window ∈ alt.windows orderings, (∀ w, trimWindow alt window = some w → Told i w) →
    ∀ w ∈ alt.trimmedWindows orderings, Told i w

theorem walked_fresh (h : st.currentAlternative = none) :
    Walked orderings st.requirements Told st where
  requirements_eq := rfl
  aims hsome := by
    rw [h] at hsome
    cases hsome
  told hsome := by
    rw [h] at hsome
    cases hsome
  current i _ hsome := by
    rw [h] at hsome
    cases hsome

theorem Walked.congr (h : Walked orderings requirements Told st)
    (hmono : ∀ i w, Told i w → Told' i w) (halts : st'.alternatives = st.alternatives)
    (hcurr : st'.currentAlternative = st.currentAlternative)
    (hnow : ∀ i, st'.currentAlternative = some i → Told' i st'.window) :
    Walked orderings requirements Told' st' where
  requirements_eq := by
    rw [AllocationState.requirements, halts]
    exact h.requirements_eq
  aims hsome := by
    rw [halts]
    exact h.aims (hcurr ▸ hsome)
  told hsome i alt halt p window w hwin htrim hpast := by
    rw [halts] at halt
    rw [hcurr] at hsome hpast
    exact hmono i w (h.told hsome i alt halt p window w hwin htrim hpast)
  current i _ hi _ _ _ _ _ := hnow i hi

theorem getElem?_writePriorities (orderings : List ArbiterOrdering) (st : AllocationState)
    (i : Nat) : (st.writePriorities orderings).alternatives[i]? = st.alternatives[i]?.map fun alt =>
        match st.currentAlternative with
        | none => arbpWritePriority orderings (alt.withPriority arbiterPriorityNull)
        | some j => if j = i then arbpWritePriority orderings alt else alt := by
  rw [writePriorities]
  cases st.currentAlternative with
  | none => simp
  | some j => exact getElem?_modify ..

/-- What was told before the alternatives go on covers all that they are past afterwards. -/
structure Settled (orderings : List ArbiterOrdering) (requirements : List ArbiterAlternative)
    (Told : Nat → UInt64 × UInt64 → Prop) (st : AllocationState) : Prop where
  requirements_eq : st.requirements = requirements
  aims : ∀ alt ∈ st.alternatives, alt.Aims orderings
  told : ∀ i alt, st.alternatives[i]? = some alt → ∀ p window w,
    alt.windowAt orderings p = some window → trimWindow alt window = some w → alt.Past p → Told i w

theorem Settled.mono (hmono : ∀ i w, Told i w → Told' i w)
    (h : Settled orderings requirements Told st) : Settled orderings requirements Told' st where
  requirements_eq := h.requirements_eq
  aims := h.aims
  told i alt halt p window w hwin htrim hpast :=
    hmono i w (h.told i alt halt p window w hwin htrim hpast)

/-- A window that is offered for the alternative at `i`, which is at its lowest. What the
alternatives are past was told before, and they were walked once the window is told as well. -/
structure Offered (orderings : List ArbiterOrdering) (requirements : List ArbiterAlternative)
    (Told : Nat → UInt64 × UInt64 → Prop) (st : AllocationState) (i : Nat)
    (alt : ArbiterAlternative) : Prop where
  current : st.currentAlternative = some i
  requirement : requirements[i]? = some alt
  window_mem : st.window ∈ alt.trimmedWindows orderings
  least : ∀ alt, st.alternatives[i]? = some alt →
    ∀ alt' ∈ st.alternatives, alt.priority ≤ alt'.priority
  settled : Settled orderings requirements Told st
  walked : ∀ Told' : Nat → UInt64 × UInt64 → Prop, (∀ i w, Told i w → Told' i w) →
    TellsFixed orderings requirements Told' → Told' i st.window →
    Walked orderings requirements Told' st

theorem requirements_getElem? (h : st.requirements = requirements) {i : Nat}
    (halt : st.alternatives[i]? = some alt) :
    requirements[i]? = some (alt.withPriority arbiterPriorityNull) := by
  rw [← h, AllocationState.requirements, getElem?_map, halt]
  rfl

variable (hlimit : orderings.length ≤ arbiterOrderingLimit)

include hlimit

theorem Walked.settled (h : Walked orderings requirements Told st) :
    Settled orderings requirements Told (st.writePriorities orderings) where
  requirements_eq := (congrArg AllocationState.alternatives
    (rewind_writePriorities orderings st)).trans h.requirements_eq
  aims := aims_writePriorities h.aims
  told := by
    intro i alt halt p window w hwin htrim hpast
    rw [getElem?_writePriorities] at halt
    obtain ⟨alt₀, hget, rfl⟩ := map_eq_some_iff.mp halt
    cases hcurr : st.currentAlternative with
    | none =>
      simp only [hcurr] at hwin hpast
      exact absurd hpast (not_past_seeded hlimit hwin)
    | some j =>
      have hsome : st.currentAlternative.isSome := by simp [hcurr]
      simp only [hcurr] at hwin htrim hpast
      by_cases hj : j = i
      · rw [if_pos hj] at hwin htrim hpast
        have haims := h.aims hsome alt₀ (mem_of_getElem? hget)
        rw [arbpWritePriority_eq] at htrim
        rw [arbpWritePriority_eq] at hwin
        refine h.told hsome i alt₀ hget p window w hwin htrim ?_
        rw [hcurr, hj]
        cases hfix : alt₀.fixed with
        | true => exact .inr ⟨rfl, .inl rfl⟩
        | false =>
          exact (past_writePriority hlimit haims hfix hwin hpast).imp_right fun hstan =>
            ⟨rfl, .inr hstan⟩
      · rw [if_neg hj] at hwin htrim hpast
        exact h.told hsome i alt₀ hget p window w hwin htrim (.inl hpast)

variable {alt : ArbiterAlternative}

theorem Settled.walked (h : Settled orderings requirements Told st)
    (hfix : TellsFixed orderings requirements Told) {i : Nat} {p : Place}
    {window : UInt64 × UInt64} (hget : st.alternatives[i]? = some alt) (hstan : alt.Stands p)
    (hwin : alt.windowAt orderings p = some window)
    (hplace : ∀ w, trimWindow alt window = some w → Told i w)
    (halts : st'.alternatives = st.alternatives) (hcurr : st'.currentAlternative = some i)
    (hnow : alt.fixed = false → alt.atReserved = false →
      st'.window ∈ alt.trimmedWindows orderings → Told i st'.window) :
    Walked orderings requirements Told st' := by
  have hreqs : st'.requirements = requirements := by
    rw [AllocationState.requirements, halts]
    exact h.requirements_eq
  have hreq := requirements_getElem? h.requirements_eq hget
  refine ⟨hreqs, fun _ => by rw [halts]; exact h.aims, ?_, ?_⟩
  · intro _ k alt' halt' p' window' w hwin' htrim hcase
    rw [halts] at halt'
    rcases hcase with hpast | ⟨hk, htries⟩
    · exact h.told k alt' halt' p' window' w hwin' htrim hpast
    obtain rfl := mem_unique hcurr hk
    obtain rfl := mem_unique hget halt'
    rcases htries with hf | hstan'
    · exact hfix i _ hreq hf window (windowAt_mem hwin) hplace w
        (mem_filterMap.mpr ⟨window', windowAt_mem hwin', htrim⟩)
    obtain rfl : window = window' := Option.some.inj
      ((candidateWindow_of_stands hlimit hstan hwin).symm.trans
        (candidateWindow_of_stands hlimit hstan' hwin'))
    exact hplace w htrim
  · intro k alt' hk halt' hf _ hres hmem
    rw [halts] at halt'
    obtain rfl := mem_unique hcurr hk
    obtain rfl := mem_unique hget halt'
    exact hnow hf hres hmem

theorem Settled.all (h : Settled orderings requirements Told st)
    (hexh : ∀ alt ∈ st.alternatives, arbiterPriorityExhausted ≤ alt.priority) :
    ∀ i alt, requirements[i]? = some alt → ∀ w ∈ alt.trimmedWindows orderings, Told i w := by
  intro i alt halt w hw
  rw [← h.requirements_eq, AllocationState.requirements, getElem?_map] at halt
  obtain ⟨alt, hget, rfl⟩ := map_eq_some_iff.mp halt
  have hmem := mem_of_getElem? hget
  have hnone := exhausted_of_le hlimit (h.aims alt hmem) (hexh alt hmem)
  obtain ⟨window, hwin, htrim⟩ := mem_filterMap.mp hw
  obtain ⟨p, hp⟩ := exists_windowAt hwin
  refine h.told i alt hget p window w hp htrim ?_
  cases p with
  | whole => exact hnone
  | ordering k => exact .inl hnone

theorem Walked.skipped (h : Walked orderings requirements Told st) {i : Nat}
    (hcurr : st.currentAlternative = some i)
    (hget : (st.writePriorities orderings).alternatives[i]? = some alt)
    (hprio : alt.priority ≠ arbiterPriorityExhausted)
    (hmem : st.window ∈ alt.trimmedWindows orderings) : Told i st.window := by
  rw [getElem?_writePriorities] at hget
  obtain ⟨alt₀, hget₀, rfl⟩ := map_eq_some_iff.mp hget
  simp only [hcurr] at hprio hmem
  have haims := h.aims (by simp [hcurr]) alt₀ (mem_of_getElem? hget₀)
  obtain ⟨hexh, hres⟩ := stood_of_writePriority hprio
  have hfix : alt₀.fixed = false := by
    rw [Bool.eq_false_iff]
    exact fun hfix => hprio (writePriority_fixed hlimit haims hfix)
  rw [arbpWritePriority_eq] at hmem
  exact h.current i alt₀ hcurr hget₀ hfix hexh hres hmem

/-- One round of the walk: it goes on, it offers a window, or all windows were told. A window
that is skipped since it equals the working window was told. -/
theorem Walked.nextRound (h : Walked orderings requirements Told st)
    (hfix : TellsFixed orderings requirements Told)
    (hskip : ∀ i alt, requirements[i]? = some alt → alt.fixed = false → ¬ alt.Usable orderings →
      st.window ∈ alt.trimmedWindows orderings → Told i st.window) :
    (∀ st', nextRound orderings st = .again st' →
        Walked orderings requirements Told st' ∧ st'.window = st.window) ∧
      (∀ st', nextRound orderings st = .offered st' →
        ∃ i alt, Offered orderings requirements Told st' i alt) ∧
      ∀ st', nextRound orderings st = .exhausted st' →
        ∀ i alt, requirements[i]? = some alt → ∀ w ∈ alt.trimmedWindows orderings, Told i w := by
  have hsett := h.settled hlimit
  have hwin : (st.writePriorities orderings).window = st.window := by
    rw [writePriorities]
    split <;> rfl
  have hcurr : (st.writePriorities orderings).currentAlternative = st.currentAlternative := by
    rw [writePriorities]
    split <;> rfl
  have hround := round_nextRound orderings st
  -- The candidate of an alternative that is taken up is the window of a place.
  have hstan : ∀ {i alt}, (st.writePriorities orderings).LowestAt i alt →
      ∃ p window, alt.Stands p ∧ alt.windowAt orderings p = some window ∧
        candidateWindow orderings alt = some window := fun hat =>
    exists_stands hlimit (hsett.aims _ (mem_of_getElem? hat.get)) hat.ne_exhausted
  refine ⟨fun st' heq => ?_, fun st' heq => ?_, fun st' heq => ?_⟩
  · cases heq ▸ hround with
    | spent alt i hat hnone =>
      obtain ⟨_, _, _, _, hcand⟩ := hstan hat
      cases hcand.symm.trans hnone
    | passed alt i window hat hcand hsame =>
      obtain ⟨p, window', hp, hat', hcand'⟩ := hstan hat
      cases hcand.symm.trans hcand'
      have htold : ∀ w, trimWindow alt window = some w → w = st.window ∧ Told i w := by
        intro w hw
        obtain ⟨hw', hcur⟩ := hsame w hw
        obtain rfl : w = st.window := hw'.trans hwin
        exact ⟨rfl, h.skipped hlimit (hcurr.symm.trans hcur) hat.get hat.ne_exhausted
          (mem_filterMap.mpr ⟨window, windowAt_mem hat', hw⟩)⟩
      refine ⟨hsett.walked hlimit hfix hat.get hp hat' (fun w hw => (htold w hw).2) rfl rfl ?_,
        hwin⟩
      intro hf hres hmem
      change Told i (st.writePriorities orderings).window
      cases htrim : trimWindow alt window with
      | none =>
        have hunus := not_usable_of_trim hp hat' hres htrim
        have hmem' : st.window ∈ alt.trimmedWindows orderings := hwin ▸ hmem
        rw [hwin]
        exact hskip i _ (requirements_getElem? hsett.requirements_eq hat.get) hf hunus hmem'
      | some w =>
        obtain ⟨rfl, htold⟩ := htold w htrim
        rw [hwin]
        exact htold
  · cases heq ▸ hround with
    | offered alt i window trimmed hat hcand htrim =>
      obtain ⟨p, window', hp, hat', hcand'⟩ := hstan hat
      cases hcand.symm.trans hcand'
      have hleast : ∀ alt', (st.writePriorities orderings).alternatives[i]? = some alt' →
          ∀ alt'' ∈ (st.writePriorities orderings).alternatives,
            alt'.priority ≤ alt''.priority := by
        intro alt' halt'
        obtain rfl := mem_unique hat.get halt'
        exact hat.least
      refine ⟨i, _, rfl, requirements_getElem? hsett.requirements_eq hat.get,
        mem_filterMap.mpr ⟨window, windowAt_mem hat', htrim⟩, hleast,
        ⟨hsett.requirements_eq, hsett.aims, hsett.told⟩, ?_⟩
      intro Told' hmono hfix' htold
      refine (hsett.mono hmono).walked hlimit hfix' hat.get hp hat' ?_ rfl rfl fun _ _ _ =>
        htold
      intro w hw
      obtain rfl := mem_unique htrim hw
      exact htold
  · cases heq ▸ hround with
    | exhausted _ _ hall => exact hsett.all hlimit hall

theorem Walked.nextRounds {fuel : Nat} (hfuel : st.remaining orderings < fuel)
    (h : Walked orderings requirements Told st) (hfix : TellsFixed orderings requirements Told)
    (hskip : ∀ i alt, requirements[i]? = some alt → alt.fixed = false → ¬ alt.Usable orderings →
      st.window ∈ alt.trimmedWindows orderings → Told i st.window) :
    (∀ st', nextRounds orderings fuel st = (true, st') →
      ∃ i alt, Offered orderings requirements Told st' i alt) ∧
      ∀ st', nextRounds orderings fuel st = (false, st') →
        ∀ i alt, requirements[i]? = some alt → ∀ w ∈ alt.trimmedWindows orderings, Told i w := by
  induction fuel generalizing st with
  | zero => omega
  | succ fuel ih =>
    obtain ⟨hagain, hoff, hexh⟩ := h.nextRound hlimit hfix hskip
    rw [UacpiNt.nextRounds]
    cases hround : UacpiNt.nextRound orderings st with
    | exhausted st₁ =>
      exact ⟨fun _ heq => (by cases heq), fun _ _ => hexh st₁ hround⟩
    | offered st₁ =>
      refine ⟨?_, fun _ heq => (by cases heq)⟩
      rintro _ ⟨⟩
      exact hoff st₁ hround
    | again st₁ =>
      obtain ⟨hwal, hwin⟩ := hagain st₁ hround
      have hless := remaining_nextRound hlimit (.inl hround)
      refine ih (by omega) hwal ?_
      rw [hwin]
      exact hskip

end

/-! ### Calls -/

/-- The states in which the first `n` calls of `ArbiterLibGetNextAllocationRange` offer a window,
each made on the state that the last one left. -/
def AllocationState.offeredStates (arb : ArbiterInstance) :
    Nat → AllocationState → List AllocationState
  | 0, _ => []
  | n + 1, st =>
    let (offered, st') := arbiterLibGetNextAllocationRange arb st
    if offered then st' :: offeredStates arb n st' else []

theorem offeredStates_rewind {arb : ArbiterInstance} {n : Nat} {st st' : AllocationState}
    (h : st' ∈ offeredStates arb n st) : st'.rewind = st.rewind := by
  induction n generalizing st with
  | zero => cases h
  | succ n ih =>
    have hrew := getNextAllocationRange_rewind arb st
    simp only [offeredStates] at h
    split at h
    · rcases mem_cons.mp h with rfl | h'
      · exact hrew
      · exact (ih h').trans hrew
    · cases h

/-- The window is told of, or the alternative is fixed. -/
def OrFixed (requirements : List ArbiterAlternative) (Told : Nat → UInt64 × UInt64 → Prop)
    (i : Nat) (w : UInt64 × UInt64) : Prop :=
  Told i w ∨ requirements[i]?.any (·.fixed) = true

theorem tellsFixed_orFixed (orderings : List ArbiterOrdering)
    (requirements : List ArbiterAlternative) (Told : Nat → UInt64 × UInt64 → Prop) :
    TellsFixed orderings requirements (OrFixed requirements Told) := by
  intro i alt halt hfix _ _ _ w _
  exact .inr (by simp [halt, hfix])

end UacpiNt
