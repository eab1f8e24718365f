import UacpiNt.Arbiter.Ordering.Coverage

/-!
# The order in which windows are offered

The walk goes on with an alternative of lowest priority. For ordinary alternatives a lower
priority is an ordering window of lower index, so that their windows are offered in the order of
the list. For preferred alternatives it is a window of higher index: the alternative that starts
furthest down the list is taken through all its windows first. So the ordering windows that can
be offered after another one are those that are ahead of the state, and only two preferred
alternatives can offer them out of order.
-/

namespace UacpiNt

open AllocationState ArbiterAlternative Option

section

variable {orderings : List ArbiterOrdering} {st st' : AllocationState} {j k : Nat}

theorem passed_of_passed {alt : ArbiterAlternative}
    (hlimit : orderings.length ≤ arbiterOrderingLimit) (haims : alt.Aims orderings)
    (h : alt.Passed k ∨ alt.priority = alt.windowPriority k) :
    (arbpWritePriority orderings alt).Passed k := by
  rcases haims with hnone | hres | ⟨l, o, ho, -, hprio⟩
  · rw [arbpWritePriority, if_pos hnone]
    exact .inl hnone
  · have hexh : alt.priority ≠ arbiterPriorityExhausted := by
      rw [hres]
      exact alt.reservedPriority_ne_exhausted
    rw [arbpWritePriority, if_neg hexh, if_pos (atReserved_of_eq hres)]
    exact .inl rfl
  · obtain ⟨hidx, hres, hexh, hnull⟩ := windowPriority_spec hlimit ho hprio
    have hle : k ≤ l := by
      rcases h with (hnone | hat | ⟨m, hm, hkm⟩) | hstan
      · exact absurd hnone hexh
      · exact absurd (hres.symm.trans hat) Bool.false_ne_true
      · obtain rfl := windowPriority_injective (hprio.symm.trans hm)
        exact hkm.le
      · exact (windowPriority_injective (hstan.symm.trans hprio)).le
    have hl := (List.getElem?_eq_some_iff.mp ho).1
    rw [arbpWritePriority, if_neg hexh, hres, if_neg Bool.false_ne_true, if_neg hnull,
      hidx, if_neg (not_le.mpr hl)]
    split
    · exact .inl rfl
    rw [priorityFrom]
    cases hnext : alt.nextOrdering orderings (l + 1) with
    | none => exact .inr (.inl (atReserved_of_eq rfl))
    | some m =>
      obtain ⟨hm, -⟩ := nextOrdering_spec hnext
      exact .inr (.inr ⟨m, rfl, by omega⟩)

section

variable (orderings) (st) (j) (k)

/-- The alternative at `j` fits the ordering window at `k` and has not passed it. -/
def Unpassed : Prop :=
  ∃ alt o, st.alternatives[j]? = some alt ∧ orderings[k]? = some o ∧
    alt.fitsOrdering o = true ∧ ¬ alt.Passed k

/-- The ordering window at `k` can still be offered for the alternative at `j`: all windows can
before the walk begins, and the one that the alternative in use stands at cannot. -/
def Ahead : Prop :=
  ∃ alt o, st.alternatives[j]? = some alt ∧ orderings[k]? = some o ∧ alt.fitsOrdering o = true ∧
    (st.currentAlternative.isSome → ¬ alt.Passed k ∧
      (st.currentAlternative = some j → alt.priority ≠ alt.windowPriority k))

end

theorem Ahead.unpassed (h : Ahead orderings st j k) (hsome : st.currentAlternative.isSome) :
    Unpassed orderings st j k := by
  obtain ⟨alt, o, halt, ho, hfits, hahead⟩ := h
  exact ⟨alt, o, halt, ho, hfits, (hahead hsome).1⟩

variable (hlimit : orderings.length ≤ arbiterOrderingLimit) (haim : st.AllAim orderings)

include hlimit haim

theorem ahead_of_writePriorities (h : Unpassed orderings (st.writePriorities orderings) j k) :
    Ahead orderings st j k := by
  obtain ⟨alt, o, halt, ho, hfits, hpass⟩ := h
  rw [getElem?_writePriorities] at halt
  obtain ⟨alt₀, hget, rfl⟩ := map_eq_some_iff.mp halt
  cases hcur : st.currentAlternative with
  | none =>
    simp only [hcur] at hfits
    exact ⟨alt₀, o, hget, ho, hfits, fun hsome => by simp [hcur] at hsome⟩
  | some i =>
    simp only [hcur] at hfits hpass
    by_cases hi : i = j
    · rw [if_pos hi] at hfits hpass
      rw [arbpWritePriority_eq] at hfits
      have haims := haim (by simp [hcur]) alt₀ (List.mem_of_getElem? hget)
      exact ⟨alt₀, o, hget, ho, hfits, fun _ =>
        ⟨fun h => hpass (passed_of_passed hlimit haims (.inl h)),
          fun _ h => hpass (passed_of_passed hlimit haims (.inr h))⟩⟩
    · rw [if_neg hi] at hfits hpass
      refine ⟨alt₀, o, hget, ho, hfits, fun _ => ⟨hpass, fun h => ?_⟩⟩
      rw [hcur] at h
      exact absurd (Option.some.inj h) hi

theorem ahead_of_nextRound
    (hround : nextRound orderings st = .again st' ∨ nextRound orderings st = .offered st')
    (h : Unpassed orderings st' j k) : Ahead orderings st j k := by
  refine ahead_of_writePriorities hlimit haim ?_
  have hcases := round_nextRound orderings st
  rcases hround with hagain | hoff
  · cases hagain ▸ hcases with
    | spent alt i =>
      -- An alternative that was spent has passed every window.
      obtain ⟨alt', o, halt', ho, hfits, hpass⟩ := h
      simp only [select, exhaust, List.getElem?_modify] at halt'
      obtain ⟨alt₀, hget, rfl⟩ := map_eq_some_iff.mp halt'
      by_cases hi : i = j
      · rw [if_pos hi] at hpass
        exact absurd (.inl rfl) hpass
      · rw [if_neg hi] at hfits hpass
        exact ⟨alt₀, o, hget, ho, hfits, hpass⟩
    | passed => exact h
  · cases hoff ▸ hcases with
    | offered => exact h

theorem ahead_of_nextRounds {fuel : Nat} (hcall : nextRounds orderings fuel st = (true, st'))
    (h : Unpassed orderings st' j k) : Ahead orderings st j k := by
  refine nextRounds_offered (P := fun st st' => st.AllAim orderings →
    Unpassed orderings st' j k → Ahead orderings st j k)
    (fun _ _ hr haim => ahead_of_nextRound hlimit haim (.inr hr)) ?_ hcall haim h
  intro st st₁ st' hr hlater haim h
  have haim' := allAim_nextRound haim
  rw [hr] at haim'
  exact ahead_of_nextRound hlimit haim (.inl hr) ((hlater haim' h).unpassed (nextRound_again hr).1)

end

/-- The ordering window that an offered state is at: whether its alternative is preferred, and the
index of the window in the ordering list. There is none for a whole window. -/
def AllocationState.orderingOffer (st : AllocationState) : Option (Bool × Nat) :=
  st.current.bind fun alt =>
    if alt.atReserved then none else some (alt.descriptor.preferred, orderingIndex alt.priority)

/-- Two preferred alternatives of the list fit one and the same ordering window only. -/
def PreferredAgree (orderings : List ArbiterOrdering) (alternatives : List ArbiterAlternative) :
    Prop :=
  ∀ (i j : Nat) (alt alt' : ArbiterAlternative), alternatives[i]? = some alt →
    alternatives[j]? = some alt' → i ≠ j →
    alt.descriptor.preferred = true → alt'.descriptor.preferred = true →
    ∀ (k k' : Nat) (o o' : ArbiterOrdering), orderings[k]? = some o → orderings[k']? = some o' →
      alt.fitsOrdering o = true → alt'.fitsOrdering o' = true → k = k'

/-- What may follow an offer: after one for an ordinary alternative none for a preferred one, and
none of lower index for the same kind of alternative. For preferred ones this takes `agree`. -/
structure MayFollow (agree : Prop) (a b : Bool × Nat) : Prop where
  preferred : b.1 = true → a.1 = true
  ordinary : a.1 = false → b.1 = false → a.2 ≤ b.2
  both : agree → a.1 = true → b.1 = true → a.2 ≤ b.2

section

variable {orderings : List ArbiterOrdering} {requirements : List ArbiterAlternative}
  {Told : Nat → UInt64 × UInt64 → Prop} {st st' : AllocationState} {i j k k' : Nat}
  {alt alt' : ArbiterAlternative}

structure AtOrdering (orderings : List ArbiterOrdering) (st : AllocationState) (i k : Nat)
    (alt : ArbiterAlternative) : Prop where
  current : st.currentAlternative = some i
  alternative : st.alternatives[i]? = some alt
  window : ∃ o, orderings[k]? = some o ∧ alt.fitsOrdering o = true
  priority : alt.priority = alt.windowPriority k

theorem atOrdering_of_offer (hlimit : orderings.length ≤ arbiterOrderingLimit)
    (hoff : Offers orderings st) (haims : ∀ alt ∈ st.alternatives, alt.Aims orderings)
    {a : Bool × Nat} (hoffe : st.orderingOffer = some a) :
    ∃ i alt, AtOrdering orderings st i a.2 alt ∧ alt.descriptor.preferred = a.1 := by
  obtain ⟨alt, halt, hsome⟩ := bind_eq_some_iff.mp hoffe
  obtain ⟨i, hi, hget⟩ := bind_eq_some_iff.mp halt
  obtain ⟨alt', -, halt', hexh, -⟩ := hoff
  obtain rfl := mem_unique halt halt'
  split at hsome
  · cases hsome
  rename_i hres
  cases hsome
  rcases haims alt (List.mem_of_getElem? hget) with
    hnone | hat | ⟨k, o, ho, hfits, hprio⟩
  · exact absurd hnone hexh
  · exact absurd (atReserved_of_eq hat) hres
  obtain ⟨hidx, -⟩ := windowPriority_spec hlimit ho hprio
  refine ⟨i, alt, ⟨hi, hget, ⟨o, ?_, hfits⟩, ?_⟩, rfl⟩
  · rw [hidx]
    exact ho
  · rw [hidx]
    exact hprio

theorem AtOrdering.unpassed (hlimit : orderings.length ≤ arbiterOrderingLimit)
    (h : AtOrdering orderings st i k alt) : Unpassed orderings st i k := by
  obtain ⟨o, ho, hfits⟩ := h.window
  obtain ⟨-, hres, hexh, -⟩ := windowPriority_spec hlimit ho h.priority
  refine ⟨alt, o, h.alternative, ho, hfits, ?_⟩
  rintro (hnone | hat | ⟨l, hl, hkl⟩)
  · exact hexh hnone
  · exact Bool.false_ne_true (hres.symm.trans hat)
  · obtain rfl := windowPriority_injective (h.priority.symm.trans hl)
    exact Nat.lt_irrefl k hkl

theorem exists_le_of_unpassed (haims : alt.Aims orderings) (h : ¬ alt.Passed k) :
    ∃ l, alt.priority = alt.windowPriority l ∧ l ≤ k := by
  rcases haims with hnone | hres | ⟨l, -, -, -, hprio⟩
  · exact absurd (.inl hnone) h
  · exact absurd (.inr (.inl (atReserved_of_eq hres))) h
  · refine ⟨l, hprio, ?_⟩
    by_contra hlt
    exact h (.inr (.inr ⟨l, hprio, not_le.mp hlt⟩))

theorem mayFollow_of_ahead {alt₀ : ArbiterAlternative}
    (h : Offered orderings requirements Told st i alt₀) (hat : AtOrdering orderings st i k alt)
    (hahead : Ahead orderings st j k') (halt' : st.alternatives[j]? = some alt') :
    MayFollow (PreferredAgree orderings st.requirements) (alt.descriptor.preferred, k)
      (alt'.descriptor.preferred, k') := by
  obtain ⟨alt', o', hget, ho', hfits', hleft⟩ := hahead
  obtain rfl := mem_unique hget halt'
  have hsome : st.currentAlternative.isSome := by simp [hat.current]
  obtain ⟨hpass, hstan⟩ := hleft hsome
  have hmem := List.mem_of_getElem? halt'
  obtain ⟨l, hl, hle⟩ := exists_le_of_unpassed (h.settled.aims alt' hmem) hpass
  have hleast := h.least alt hat.alternative alt' hmem
  have hprio := hat.priority
  rw [hprio, hl, windowPriority, windowPriority] at hleast
  refine ⟨?_, ?_, ?_⟩
  · intro hpref
    by_contra hord
    simp only [Bool.not_eq_true] at hpref hord
    rw [hpref, hord, if_pos rfl, if_neg Bool.false_ne_true] at hleast
    omega
  · intro hord hord'
    simp only at hord hord'
    rw [hord, if_neg Bool.false_ne_true] at hleast
    omega
  · intro hagr hpref hpref'
    obtain ⟨o, ho, hfits⟩ := hat.window
    by_cases hij : i = j
    · -- The alternative in use goes on to windows of higher index.
      subst hij
      obtain rfl := mem_unique hat.alternative halt'
      obtain rfl := windowPriority_injective (hprio.symm.trans hl)
      exact hle
    · exact (hagr i j _ _ (requirements_getElem? rfl hat.alternative)
        (requirements_getElem? rfl halt') hij hpref hpref' k k' o o' ho ho' hfits
        hfits').le

end

/-- The offers of the calls from a state are ahead of it, and each may follow those before it. -/
theorem offers_mayFollow (arb : ArbiterInstance) (n : Nat) {st : AllocationState}
    {requirements : List ArbiterAlternative}
    (h : Walked arb.orderingList.orderings requirements (fun _ _ => True) st) :
    (∀ b ∈ (offeredStates arb n st).filterMap orderingOffer, ∃ j alt,
        Ahead arb.orderingList.orderings st j b.2 ∧
        st.requirements[j]? = some alt ∧ alt.descriptor.preferred = b.1) ∧
      ((offeredStates arb n st).filterMap orderingOffer).Pairwise
        (MayFollow (PreferredAgree arb.orderingList.orderings st.requirements)) := by
  have hlimit := arb.orderingList.count_le_limit
  induction n generalizing st with
  | zero => exact ⟨fun b hb => (by cases hb), .nil⟩
  | succ n ih =>
    rcases hcall : arbiterLibGetNextAllocationRange arb st with ⟨offered, st'⟩
    simp only [offeredStates, hcall]
    cases offered with
    | false => exact ⟨fun b hb => (by cases hb), .nil⟩
    | true =>
      obtain ⟨i, _, hoff⟩ := (h.nextRounds hlimit (st.remaining_lt_bound _)
        (fun _ _ _ _ _ _ _ _ _ => trivial) fun _ _ _ _ _ _ => trivial).1 st' hcall
      have hrew := getNextAllocationRange_rewind arb st
      rw [hcall] at hrew
      have hreqs : st'.requirements = st.requirements :=
        congrArg AllocationState.alternatives hrew
      obtain ⟨hahead, hpw⟩ := ih (hoff.walked _ (fun _ _ h => h)
        (fun _ _ _ _ _ _ _ _ _ => trivial) trivial)
      rw [hreqs] at hahead hpw
      have hsome : st'.currentAlternative.isSome := by simp [hoff.current]
      have hlater : ∀ b ∈ (offeredStates arb n st').filterMap orderingOffer, ∃ j alt,
          Ahead arb.orderingList.orderings st j b.2 ∧
          st.requirements[j]? = some alt ∧ alt.descriptor.preferred = b.1 := by
        intro b hb
        obtain ⟨j, alt, hj, halt, hpref⟩ := hahead b hb
        exact ⟨j, alt, ahead_of_nextRounds hlimit h.aims hcall (hj.unpassed hsome), halt, hpref⟩
      rw [if_pos rfl, List.filterMap_cons]
      cases hoffe : st'.orderingOffer with
      | none => exact ⟨hlater, hpw⟩
      | some a =>
        obtain ⟨j, alt, hat, hpref⟩ := atOrdering_of_offer hlimit (offers_of_nextRounds _ _ hcall)
          hoff.settled.aims hoffe
        obtain rfl := mem_unique hoff.current hat.current
        constructor
        · intro b hb
          rcases List.mem_cons.mp hb with rfl | hb
          · exact ⟨i, _, ahead_of_nextRounds hlimit h.aims hcall (hat.unpassed hlimit),
              requirements_getElem? hreqs hat.alternative, hpref⟩
          · exact hlater b hb
        · refine List.pairwise_cons.mpr ⟨fun b hb => ?_, hpw⟩
          obtain ⟨j, alt', hj, halt', hpref'⟩ := hahead b hb
          obtain ⟨alt'', o, hget, ho, hfits, hleft⟩ := hj
          have hsame : alt'.descriptor.preferred = alt''.descriptor.preferred := by
            have hreq := requirements_getElem? hreqs hget
            rw [halt'] at hreq
            rw [Option.some.inj hreq]
            rfl
          have hfol := mayFollow_of_ahead hoff hat ⟨alt'', o, hget, ho, hfits, hleft⟩ hget
          rw [hreqs, hpref, ← hsame, hpref'] at hfol
          exact hfol

theorem preferredAgree_requirements {orderings : List ArbiterOrdering} {st : AllocationState}
    (h : PreferredAgree orderings st.alternatives) : PreferredAgree orderings st.requirements := by
  intro i j alt alt' halt halt' hij hpref hpref' k k' o o' ho ho' hfits hfits'
  rw [requirements, List.getElem?_map] at halt halt'
  obtain ⟨alt, hget, rfl⟩ := map_eq_some_iff.mp halt
  obtain ⟨alt', hget', rfl⟩ := map_eq_some_iff.mp halt'
  exact h i j alt alt' hget hget' hij hpref hpref' k k' o o' ho ho' hfits hfits'

/-- For every ordering list and every array of alternatives, the ordering windows that are offered
from a fresh state for preferred alternatives come before those for ordinary ones, and the indices
of those for ordinary ones never decrease. Where no two preferred alternatives fit different
ordering windows, the indices of those for preferred ones never decrease either. -/
theorem offers_in_preference_order (arb : ArbiterInstance) {st : AllocationState}
    (hfresh : st.currentAlternative = none) (n : Nat) :
    ((offeredStates arb n st).filterMap orderingOffer).Pairwise (fun a b =>
        (b.1 = true → a.1 = true) ∧ (a.1 = false → b.1 = false → a.2 ≤ b.2)) ∧
      (PreferredAgree arb.orderingList.orderings st.alternatives →
        ((offeredStates arb n st).filterMap orderingOffer).Pairwise fun a b =>
          (b.1 = true → a.1 = true) ∧ (a.1 = b.1 → a.2 ≤ b.2)) := by
  have hpairwise := (offers_mayFollow arb n (walked_fresh hfresh)).2
  refine ⟨hpairwise.imp fun h => ⟨h.preferred, h.ordinary⟩, fun hagree => ?_⟩
  refine hpairwise.imp fun h => ⟨h.preferred, fun hsame => ?_⟩
  rename_i a b
  cases ha : a.1 with
  | true => exact h.both (preferredAgree_requirements hagree) ha (hsame ▸ ha)
  | false => exact h.ordinary ha (hsame ▸ ha)

def lowThenHigh : ArbiterInstance :=
  .ordered [⟨0x0, 0xF, by decide⟩, .secondSixteen] (by decide)

def choiceState (choices : List (Bool × UInt64 × UInt64)) : AllocationState :=
  { freshState 0 0 1 1 with
    alternatives := choices.map fun (preferred, minimum, maximum) =>
      { minimum := minimum
        maximum := maximum
        length := 8
        alignment := 1
        priority := arbiterPriorityNull
        shared := false
        fixed := false
        badRange := false
        inaccessibleOk := false
        descriptor := { IoResourceDescriptor.ofMemory .deviceExclusive minimum maximum 8 1 with
          option := if preferred then 1 else 0 } } }

theorem preferred_before_ordinary :
    (choiceState [(false, 0x0, 0x1F), (true, 0x10, 0x1F)]).currentAlternative = none ∧
      (offeredStates lowThenHigh 6
        (choiceState [(false, 0x0, 0x1F), (true, 0x10, 0x1F)])).filterMap orderingOffer =
        [(true, 1), (false, 0), (false, 1)] ∧
      ((offeredStates lowThenHigh 6
        (choiceState [(false, 0x0, 0x1F), (true, 0x10, 0x1F)])).filterMap orderingOffer).Pairwise
        fun a b => (b.1 = true → a.1 = true) ∧ (a.1 = b.1 → a.2 ≤ b.2) := by
  have hagree : PreferredAgree lowThenHigh.orderingList.orderings
      (choiceState [(false, 0x0, 0x1F), (true, 0x10, 0x1F)]).alternatives := by
    have hone : ∀ (i : Nat) (alt : ArbiterAlternative),
        (choiceState [(false, 0x0, 0x1F), (true, 0x10, 0x1F)]).alternatives[i]? = some alt →
        alt.descriptor.preferred = true → i = 1 := by
      intro i alt halt hpreferred
      rcases i with _ | _ | i
      · cases halt
        cases hpreferred
      · rfl
      · cases halt
    intro i j alt alt' halt halt' hij hpreferred hpreferred'
    exact absurd ((hone i alt halt hpreferred).trans (hone j alt' halt' hpreferred').symm) hij
  exact ⟨rfl, rfl, (offers_in_preference_order lowThenHigh rfl 6).2 hagree⟩

theorem later_window_first :
    (choiceState [(true, 0x0, 0xF), (true, 0x10, 0x1F)]).currentAlternative = none ∧
      (offeredStates lowThenHigh 5
        (choiceState [(true, 0x0, 0xF), (true, 0x10, 0x1F)])).filterMap orderingOffer =
        [(true, 1), (true, 0)] :=
  ⟨rfl, rfl⟩

end UacpiNt
