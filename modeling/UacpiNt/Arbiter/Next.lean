import UacpiNt.Arbiter.Basic
import Mathlib.Data.List.MinMax
import Mathlib.Algebra.Order.BigOperators.Group.List
import Mathlib.Algebra.Order.Ring.Nat

/-!
# The walk over candidate windows

An entry is tried in the windows of the arbiter's ordering list first, and then
once in each alternative's own whole window. How far an alternative has got is
kept in its priority: the index of the ordering window it is at, biased by one and
negated for a preferred alternative, then one of the two reserved priorities for the
whole window, then exhausted. The walk always continues with an alternative of
lowest priority.
-/

namespace UacpiNt

/-- The index of the ordering window a priority stands for. It is computed in 32
bits, so the null priority stands for an index beyond every list. -/
def orderingIndex (priority : Int) : Nat :=
  if priority < 0 then (-(priority + 1)).toNat else ((priority - 1) % 2 ^ 32).toNat

namespace ArbiterAlternative

section

variable (orderings : List ArbiterOrdering) (alt : ArbiterAlternative) (index : Nat)
  (o : ArbiterOrdering)

def clip : UInt64 × UInt64 :=
  (max alt.minimum o.start, min alt.maximum o.last)

/-- The ordering window meets the alternative's, and what is left of it has room
for the alternative's length. -/
def fitsOrdering : Bool :=
  !(decide (o.start > alt.maximum) || decide (alt.minimum > o.last)) &&
    decide ((alt.clip o).2 - (alt.clip o).1 + 1 ≥ alt.length)

def reservedPriority : Int :=
  if alt.descriptor.preferred then arbiterPriorityPreferredReserved else arbiterPriorityReserved

def atReserved : Bool :=
  alt.priority = arbiterPriorityReserved || alt.priority = arbiterPriorityPreferredReserved

def withPriority (priority : Int) : ArbiterAlternative :=
  { alt with priority := priority }

def nextOrdering : Option Nat :=
  (List.range' index (orderings.length - index)).find? fun i =>
    orderings[i]?.any alt.fitsOrdering

def priorityFrom : Int :=
  match alt.nextOrdering orderings index with
  | some i => if alt.descriptor.preferred then -((i : Int) + 1) else (i : Int) + 1
  | none => alt.reservedPriority

end

end ArbiterAlternative

open ArbiterAlternative

section

variable (orderings : List ArbiterOrdering) (alt : ArbiterAlternative)

def arbpWritePriority : ArbiterAlternative :=
  if alt.priority = arbiterPriorityExhausted then alt
  else if alt.atReserved then alt.withPriority arbiterPriorityExhausted
  else if alt.priority = arbiterPriorityNull then alt.withPriority (alt.priorityFrom orderings 0)
  -- A fixed alternative has one placement, so it gets a single shot.
  else if alt.fixed then alt.withPriority arbiterPriorityExhausted
  else if orderingIndex alt.priority ≥ orderings.length then alt.withPriority alt.reservedPriority
  else alt.withPriority (alt.priorityFrom orderings (orderingIndex alt.priority + 1))

/-- The window an alternative's priority stands for, `none` if the priority is
beyond the ordering list. -/
def candidateWindow : Option (UInt64 × UInt64) :=
  if alt.atReserved then some (alt.minimum, alt.maximum)
  else orderings[orderingIndex alt.priority]?.map alt.clip

def ArbiterAlternative.effectiveAlignment : UInt64 :=
  if alt.alignment = 0 then 1 else alt.alignment

def roundUp (alignment minimum : UInt64) : UInt64 :=
  minimum + (alignment - 1) - (minimum + (alignment - 1)) % alignment

/-- Trim a window so that it starts and ends with an aligned placement of the
alternative's length; `none` if it cannot hold one. -/
def trimWindow (window : UInt64 × UInt64) : Option (UInt64 × UInt64) :=
  if alt.length = 0 then some window
  else
    let minimum := roundUp alt.effectiveAlignment window.1
    let room := window.2 - (alt.length - 1)
    let alignedMax := room - room % alt.effectiveAlignment
    if minimum > window.2 ∨ alt.length - 1 > window.2 - minimum then none
    else if alignedMax < minimum then none
    else some (minimum, alignedMax + (alt.length - 1))

end

namespace AllocationState

section

variable (st : AllocationState) (i : Nat)

/-- Bring the priorities up to date: advance the alternative last worked on, or seed
all of them on the first call. -/
def writePriorities (orderings : List ArbiterOrdering) (st : AllocationState) :
    AllocationState :=
  match st.currentAlternative with
  | some i => { st with alternatives := st.alternatives.modify i (arbpWritePriority orderings) }
  | none =>
    { st with
      alternatives := st.alternatives.map fun alt =>
        arbpWritePriority orderings (alt.withPriority arbiterPriorityNull) }

/-- The first alternative of lowest priority, with its index. -/
def lowest : Option (ArbiterAlternative × Nat) :=
  -- The order is named, since the one found through the conditionally complete order of the
  -- integers does not compute.
  letI : Preorder Int := Int.instLinearOrder.toPreorder
  st.alternatives.zipIdx.argmin fun p => p.1.priority

def select : AllocationState :=
  { st with currentAlternative := some i }

def exhaust : AllocationState :=
  { st with
    alternatives := st.alternatives.modify i fun alt => alt.withPriority arbiterPriorityExhausted }

def withWindow (window : UInt64 × UInt64) : AllocationState :=
  { st with currentMinimum := window.1, currentMaximum := window.2 }

end

end AllocationState

section

variable (orderings : List ArbiterOrdering) (st : AllocationState)

inductive NextRound where
  | exhausted (st : AllocationState)
  | offered (st : AllocationState)
  | again (st : AllocationState)

/-- What becomes of the alternative at `i` once it is the lowest. -/
def offerWindow (alt : ArbiterAlternative) (i : Nat) : NextRound :=
  if alt.priority = arbiterPriorityExhausted then .exhausted st
  else match candidateWindow orderings alt with
    | none => .again ((st.exhaust i).select i)
    | some window =>
      match trimWindow alt window with
      | none => .again (st.select i)
      | some trimmed =>
        -- An offer that repeats the last one is skipped.
        if trimmed.1 ≠ st.currentMinimum ∨ trimmed.2 ≠ st.currentMaximum ∨
            st.currentAlternative ≠ some i then
          .offered ((st.select i).withWindow trimmed)
        else .again (st.select i)

def nextRound : NextRound :=
  match (st.writePriorities orderings).lowest with
  | none => .exhausted st
  | some (alt, i) => offerWindow orderings (st.writePriorities orderings) alt i

def nextRounds (orderings : List ArbiterOrdering) : Nat → AllocationState → Bool × AllocationState
  | 0, st => (false, st)
  | fuel + 1, st =>
    match nextRound orderings st with
    | .exhausted st' => (false, st')
    | .offered st' => (true, st')
    | .again st' => nextRounds orderings fuel st'

/-- More rounds than a walk can take; see `AllocationState.remaining_lt_bound`. -/
def nextRoundsBound : Nat :=
  2 * (st.alternatives.length * (orderings.length + 3)) + 2

end

def arbiterLibGetNextAllocationRange (arb : ArbiterInstance) (st : AllocationState) :
    Bool × AllocationState :=
  let orderings := arb.orderingList.orderings
  nextRounds orderings (nextRoundsBound orderings st) st

/-! ### Properties of the walk -/

open AllocationState ArbiterAlternative List

namespace ArbiterAlternative

variable (alt : ArbiterAlternative)

@[simp] theorem withPriority_withPriority (p q : Int) :
    (alt.withPriority p).withPriority q = alt.withPriority q := rfl

end ArbiterAlternative

@[simp] theorem arbpWritePriority_withPriority (orderings : List ArbiterOrdering)
    (alt : ArbiterAlternative) (p : Int) :
    (arbpWritePriority orderings alt).withPriority p = alt.withPriority p := by
  rw [arbpWritePriority]
  repeat' split
  all_goals rfl

theorem map_withPriority_modify (alternatives : List ArbiterAlternative) (i : Nat)
    (f : ArbiterAlternative → ArbiterAlternative) (p : Int)
    (hf : ∀ alt, (f alt).withPriority p = alt.withPriority p) :
    (alternatives.modify i f).map (·.withPriority p) = alternatives.map (·.withPriority p) := by
  apply ext_getElem?
  intro j
  rw [getElem?_map, getElem?_map, getElem?_modify]
  cases alternatives[j]? with
  | none => rfl
  | some alt =>
    by_cases hij : i = j
    · simp [hij, hf]
    · simp [hij]

namespace AllocationState

section

variable (st : AllocationState) (i : Nat)

/-- The requirements of an entry, decoded; where the walk stands is left out. -/
def requirements : List ArbiterAlternative :=
  st.alternatives.map (·.withPriority arbiterPriorityNull)

/-- The state without everything the walk keeps in it. -/
def rewind : AllocationState :=
  { st with
    currentMinimum := 0
    currentMaximum := 0
    currentAlternative := none
    alternatives := st.requirements }

@[simp] theorem rewind_select : (st.select i).rewind = st.rewind := rfl

@[simp] theorem rewind_withWindow (window : UInt64 × UInt64) :
    (st.withWindow window).rewind = st.rewind := rfl

theorem rewind_eq_of_requirements {st : AllocationState} {alternatives : List ArbiterAlternative}
    (h : alternatives.map (·.withPriority arbiterPriorityNull) = st.requirements) :
    ({ st with alternatives := alternatives } : AllocationState).rewind = st.rewind := by
  simp only [rewind, requirements] at h ⊢
  rw [h]

@[simp] theorem rewind_exhaust : (st.exhaust i).rewind = st.rewind :=
  rewind_eq_of_requirements (map_withPriority_modify _ _ _ _ fun _ => rfl)

end

@[simp] theorem rewind_writePriorities (orderings : List ArbiterOrdering)
    (st : AllocationState) : (st.writePriorities orderings).rewind = st.rewind := by
  rw [writePriorities]
  split
  · exact rewind_eq_of_requirements
      (map_withPriority_modify _ _ _ _ (arbpWritePriority_withPriority orderings · _))
  · apply rewind_eq_of_requirements
    simp [requirements]

end AllocationState

def NextRound.state : NextRound → AllocationState
  | .exhausted st | .offered st | .again st => st

variable {st st' : AllocationState} {alt : ArbiterAlternative} {i : Nat}
  {orderings : List ArbiterOrdering}

theorem lowest_getElem? (h : st.lowest = some (alt, i)) : st.alternatives[i]? = some alt :=
  mem_zipIdx_iff_getElem?.mp (argmin_mem h)

theorem le_of_lowest (h : st.lowest = some (alt, i)) :
    ∀ alt' ∈ st.alternatives, alt.priority ≤ alt'.priority := by
  intro alt' halt'
  obtain ⟨j, hj⟩ := mem_iff_getElem?.mp halt'
  have hmem : (alt', j) ∈ st.alternatives.zipIdx := mem_zipIdx_iff_getElem?.mpr hj
  have hlow : (alt, i) ∈ st.alternatives.zipIdx.argmin fun p => p.1.priority := h
  have hle := le_of_mem_argmin hmem hlow
  exact hle

/-- The alternative at `i` has the lowest priority, and this is not exhausted. -/
structure AllocationState.LowestAt (st : AllocationState) (i : Nat) (alt : ArbiterAlternative) :
    Prop where
  get : st.alternatives[i]? = some alt
  ne_exhausted : alt.priority ≠ arbiterPriorityExhausted
  least : ∀ alt' ∈ st.alternatives, alt.priority ≤ alt'.priority

/-- What one round of the walk can do, where `st` is the state before and `st₁` the one in which the
priorities have gone on. -/
inductive Round (orderings : List ArbiterOrdering) (st st₁ : AllocationState) : NextRound → Prop
    where
  | exhausted (st' : AllocationState) (hst : st' = st ∨ st' = st₁)
      (hall : ∀ alt ∈ st₁.alternatives, arbiterPriorityExhausted ≤ alt.priority) :
      Round orderings st st₁ (.exhausted st')
  | spent (alt : ArbiterAlternative) (i : Nat) (hat : st₁.LowestAt i alt)
      (hnone : candidateWindow orderings alt = none) :
      Round orderings st st₁ (.again ((st₁.exhaust i).select i))
  | passed (alt : ArbiterAlternative) (i : Nat) (window : UInt64 × UInt64)
      (hat : st₁.LowestAt i alt) (hcandidate : candidateWindow orderings alt = some window)
      (hsame : ∀ trimmed, trimWindow alt window = some trimmed →
        trimmed = (st₁.currentMinimum, st₁.currentMaximum) ∧ st₁.currentAlternative = some i) :
      Round orderings st st₁ (.again (st₁.select i))
  | offered (alt : ArbiterAlternative) (i : Nat) (window trimmed : UInt64 × UInt64)
      (hat : st₁.LowestAt i alt) (hcandidate : candidateWindow orderings alt = some window)
      (htrim : trimWindow alt window = some trimmed) :
      Round orderings st st₁ (.offered ((st₁.select i).withWindow trimmed))

theorem round_nextRound (orderings : List ArbiterOrdering) (st : AllocationState) :
    Round orderings st (st.writePriorities orderings) (nextRound orderings st) := by
  rw [nextRound]
  split
  · rename_i hlow
    have hnil := zipIdx_eq_nil_iff.mp (argmin_eq_none.mp hlow)
    exact .exhausted st (.inl rfl) (by simp [hnil])
  rename_i alt i hlow
  rw [offerWindow]
  split
  · rename_i hexh
    exact .exhausted _ (.inr rfl) (hexh ▸ le_of_lowest hlow)
  rename_i hprio
  have hat : (st.writePriorities orderings).LowestAt i alt :=
    ⟨lowest_getElem? hlow, hprio, le_of_lowest hlow⟩
  split
  · exact .spent alt i hat ‹_›
  rename_i window hcand
  split
  · rename_i htrim
    exact .passed alt i window hat hcand (by simp [htrim])
  rename_i trimmed htrim
  split
  · exact .offered alt i window trimmed hat hcand htrim
  rename_i hsame
  simp only [not_or, not_not] at hsame
  refine .passed alt i window hat hcand fun w hw => ?_
  cases htrim.symm.trans hw
  exact ⟨Prod.ext hsame.1 hsame.2.1, hsame.2.2⟩

theorem nextRound_rewind (orderings : List ArbiterOrdering) (st : AllocationState) :
    (nextRound orderings st).state.rewind = st.rewind := by
  have hround := round_nextRound orderings st
  generalize nextRound orderings st = round at hround ⊢
  cases hround with
  | exhausted st' hst => rcases hst with rfl | rfl <;> simp [NextRound.state]
  | spent | passed | offered => simp [NextRound.state]

theorem nextRounds_state {P : AllocationState → Prop}
    (hround : ∀ st, P st → P (nextRound orderings st).state) (fuel : Nat) (h : P st) :
    P (nextRounds orderings fuel st).2 := by
  induction fuel generalizing st with
  | zero => exact h
  | succ fuel ih =>
    have hnext := hround st h
    rw [nextRounds]
    cases hr : nextRound orderings st with
    | exhausted st' | offered st' =>
      rw [hr] at hnext
      exact hnext
    | again st' =>
      rw [hr] at hnext
      exact ih hnext

/-- What holds of an offer, and is carried back over the rounds before it, holds of the walk. -/
theorem nextRounds_offered {P : AllocationState → AllocationState → Prop}
    (hoff : ∀ st st', nextRound orderings st = .offered st' → P st st')
    (hagain : ∀ st st₁ st', nextRound orderings st = .again st₁ → P st₁ st' → P st st')
    {fuel : Nat} (h : nextRounds orderings fuel st = (true, st')) : P st st' := by
  induction fuel generalizing st with
  | zero => cases h
  | succ fuel ih =>
    rw [nextRounds] at h
    cases hr : nextRound orderings st with
    | exhausted st₁ =>
      rw [hr] at h
      cases h
    | offered st₁ =>
      rw [hr] at h
      cases h
      exact hoff st st' hr
    | again st₁ =>
      rw [hr] at h
      exact hagain st st₁ st' hr (ih h)

section

variable (orderings) (n fuel : Nat) (priority : Int)

theorem nextRounds_rewind (st : AllocationState) :
    (nextRounds orderings fuel st).2.rewind = st.rewind :=
  nextRounds_state (P := fun st' => st'.rewind = st.rewind)
    (fun st' h => (nextRound_rewind orderings st').trans h) fuel rfl

theorem getNextAllocationRange_rewind (arb : ArbiterInstance) (st : AllocationState) :
    (arbiterLibGetNextAllocationRange arb st).2.rewind = st.rewind :=
  nextRounds_rewind _ _ st

/-- The working window of a state is the one its alternative is to be tried in. -/
def Offers (st : AllocationState) : Prop :=
  ∃ alt window, st.current = some alt ∧ alt.priority ≠ arbiterPriorityExhausted ∧
    candidateWindow orderings alt = some window ∧
    trimWindow alt window = some (st.currentMinimum, st.currentMaximum)

theorem offers_of_nextRound (h : nextRound orderings st = .offered st') : Offers orderings st' := by
  cases h ▸ round_nextRound orderings st with
  | offered alt i window trimmed hat hcand htrim =>
    exact ⟨alt, window, hat.get, hat.ne_exhausted, hcand, htrim⟩

theorem offers_of_nextRounds (h : nextRounds orderings fuel st = (true, st')) :
    Offers orderings st' :=
  nextRounds_offered (P := fun _ st' => Offers orderings st')
    (fun _ _ => offers_of_nextRound orderings) (fun _ _ _ _ h => h) h

/-! ### The walk ends

Each round either ends the walk or consumes the priority of an alternative, and an
alternative has a bounded number of priorities ahead of it. -/

theorem orderingIndex_window (preferred : Bool) (hi : i < arbiterOrderingLimit) :
    orderingIndex (if preferred then -((i : Int) + 1) else (i : Int) + 1) = i := by
  simp only [arbiterOrderingLimit] at hi
  cases preferred with
  | true =>
    simp only [orderingIndex, if_true]
    rw [if_pos (by omega)]
    omega
  | false =>
    simp only [orderingIndex, Bool.false_eq_true, if_false]
    rw [if_neg (by omega)]
    omega

def rank : Nat :=
  if priority = arbiterPriorityExhausted then 0
  else if priority = arbiterPriorityReserved ∨ priority = arbiterPriorityPreferredReserved then 1
  else if priority = arbiterPriorityNull then n + 3
  else if orderingIndex priority ≥ n then 2
  else n - orderingIndex priority + 2

theorem rank_le : rank n priority ≤ n + 3 := by
  rw [rank]
  repeat' split
  all_goals omega

theorem rank_pos {n : Nat} {priority : Int} (h : priority ≠ arbiterPriorityExhausted) :
    0 < rank n priority := by
  rw [rank]
  repeat' split
  all_goals omega

theorem rank_reservedPriority (alt : ArbiterAlternative) : rank n alt.reservedPriority = 1 := by
  rw [reservedPriority]
  cases alt.descriptor.preferred <;>
    simp [rank, arbiterPriorityExhausted, arbiterPriorityReserved, arbiterPriorityPreferredReserved]

end

theorem nextOrdering_spec {index : Nat} (h : alt.nextOrdering orderings index = some i) :
    index ≤ i ∧ i < orderings.length ∧ ∃ o, orderings[i]? = some o ∧ alt.fitsOrdering o = true := by
  have hmem := mem_of_find?_eq_some h
  have hfits := find?_some h
  rw [mem_range'_1] at hmem
  obtain ⟨o, ho, hfits⟩ := (Option.any_eq_true _ _).mp hfits
  exact ⟨hmem.1, by omega, o, ho, hfits⟩

theorem rank_priorityFrom (hlimit : orderings.length ≤ arbiterOrderingLimit)
    (alt : ArbiterAlternative) (index : Nat) :
    rank orderings.length (alt.priorityFrom orderings index) ≤
      max 1 (orderings.length - index + 2) := by
  rw [priorityFrom]
  cases hnext : alt.nextOrdering orderings index with
  | none => simp [rank_reservedPriority]
  | some i =>
    obtain ⟨hind, hi, -⟩ := nextOrdering_spec hnext
    have hidx := orderingIndex_window alt.descriptor.preferred (lt_of_lt_of_le hi hlimit)
    have hnull : (if alt.descriptor.preferred then -((i : Int) + 1) else (i : Int) + 1) ≠
        arbiterPriorityNull := by
      rw [arbiterPriorityNull]
      split <;> omega
    simp only
    generalize (if alt.descriptor.preferred then -((i : Int) + 1) else (i : Int) + 1) = p
      at hidx hnull
    rw [rank, hidx, if_neg (not_le.mpr hi)]
    split
    · omega
    · split <;> omega

theorem rank_writePriority (hlimit : orderings.length ≤ arbiterOrderingLimit)
    (alt : ArbiterAlternative) (h : alt.priority ≠ arbiterPriorityExhausted) :
    rank orderings.length (arbpWritePriority orderings alt).priority <
      rank orderings.length alt.priority := by
  have hexh : rank orderings.length arbiterPriorityExhausted = 0 := by simp [rank]
  have hpos := rank_pos (n := orderings.length) h
  rw [arbpWritePriority, if_neg h]
  by_cases hres : alt.atReserved = true
  · rw [if_pos hres]
    simpa [withPriority, hexh] using hpos
  rw [if_neg hres]
  have hres' : ¬ (alt.priority = arbiterPriorityReserved ∨
      alt.priority = arbiterPriorityPreferredReserved) := by
    simpa [atReserved] using hres
  by_cases hnull : alt.priority = arbiterPriorityNull
  · have hfrom := rank_priorityFrom hlimit alt 0
    have hrank : rank orderings.length alt.priority = orderings.length + 3 := by
      rw [rank, if_neg h, if_neg hres', if_pos hnull]
    rw [if_pos hnull]
    simp only [withPriority]
    omega
  · rw [if_neg hnull]
    split
    · simpa [withPriority, hexh] using hpos
    split <;> rename_i hind
    · have hrank : rank orderings.length alt.priority = 2 := by
        rw [rank, if_neg h, if_neg hres', if_neg hnull, if_pos hind]
      simp [withPriority, rank_reservedPriority, hrank]
    have hfrom := rank_priorityFrom hlimit alt (orderingIndex alt.priority + 1)
    have hrank : rank orderings.length alt.priority =
        orderings.length - orderingIndex alt.priority + 2 := by
      rw [rank, if_neg h, if_neg hres', if_neg hnull, if_neg hind]
    simp only [withPriority]
    omega

theorem sum_map_modify (g : ArbiterAlternative → Nat) (f : ArbiterAlternative → ArbiterAlternative)
    {l : List ArbiterAlternative} (h : l[i]? = some alt) :
    ((l.modify i f).map g).sum + g alt = (l.map g).sum + g (f alt) := by
  induction l generalizing i with
  | nil => simp at h
  | cons b l ih =>
    cases i with
    | zero =>
      cases h
      simp only [modify_zero_cons, map_cons, sum_cons]
      omega
    | succ i =>
      have := ih (i := i) h
      simp only [modify_succ_cons, map_cons, sum_cons]
      omega

namespace AllocationState

def potential (n : Nat) (st : AllocationState) : Nat :=
  (st.alternatives.map fun alt => rank n alt.priority).sum

def spent (st : AllocationState) : Bool :=
  st.current.all fun alt => alt.priority = arbiterPriorityExhausted

theorem potential_le (n : Nat) (st : AllocationState) :
    st.potential n ≤ st.alternatives.length * (n + 3) := by
  have h := sum_le_card_nsmul (st.alternatives.map fun alt => rank n alt.priority) (n + 3) (by
      intro x hx
      obtain ⟨alt, -, rfl⟩ := mem_map.mp hx
      exact rank_le n alt.priority)
  simpa [potential] using h

theorem potential_writePriorities {orderings : List ArbiterOrdering}
    (hlimit : orderings.length ≤ arbiterOrderingLimit) {st : AllocationState} {i : Nat}
    (hi : st.currentAlternative = some i) :
    (st.writePriorities orderings).potential orderings.length + (if st.spent then 0 else 1) ≤
      st.potential orderings.length := by
  have hwrite : st.writePriorities orderings =
      { st with alternatives := st.alternatives.modify i (arbpWritePriority orderings) } := by
    rw [writePriorities, hi]
  rw [hwrite]
  cases halt : st.alternatives[i]? with
  | none =>
    have hspent : st.spent = true := by simp [spent, current, hi, halt]
    rw [hspent, modify_eq_self (List.getElem?_eq_none_iff.mp halt)]
    simp
  | some alt =>
    have hsum := sum_map_modify (fun alt => rank orderings.length alt.priority)
      (arbpWritePriority orderings) halt
    by_cases hexh : alt.priority = arbiterPriorityExhausted
    · have hspent : st.spent = true := by simp [spent, current, hi, halt, hexh]
      rw [hspent]
      rw [arbpWritePriority, if_pos hexh] at hsum
      simp only [potential, if_true]
      omega
    · have hspent : st.spent = false := by simp [spent, current, hi, halt, hexh]
      have hrank := rank_writePriority hlimit alt hexh
      rw [hspent]
      simp only [potential, Bool.false_eq_true, if_false]
      omega

end AllocationState

theorem nextRound_again (h : nextRound orderings st = .again st') :
    st'.currentAlternative.isSome ∧ 2 * st'.potential orderings.length + st'.spent.toNat ≤
      2 * (st.writePriorities orderings).potential orderings.length := by
  cases h ▸ round_nextRound orderings st with
  | spent alt i hat =>
    refine ⟨rfl, ?_⟩
    have hpos := rank_pos (n := orderings.length) hat.ne_exhausted
    have hsum := sum_map_modify (fun alt => rank orderings.length alt.priority)
      (fun alt => alt.withPriority arbiterPriorityExhausted) hat.get
    have hzero : rank orderings.length
        (alt.withPriority arbiterPriorityExhausted).priority = 0 := by
      simp [rank, withPriority]
    have hbit := Bool.toNat_le (((st.writePriorities orderings).exhaust i).select i).spent
    simp only [AllocationState.potential, select,
      exhaust] at hsum hbit ⊢
    omega
  | passed alt i window hat =>
    have hkept : ((st.writePriorities orderings).select i).spent = false := by
      simp [AllocationState.spent, AllocationState.current, select, hat.get,
        hat.ne_exhausted]
    exact ⟨rfl, by rw [hkept]; exact le_rfl⟩

theorem nextRound_offered (h : nextRound orderings st = .offered st') :
    st'.currentAlternative.isSome ∧ st'.spent = false ∧
      st'.alternatives = (st.writePriorities orderings).alternatives := by
  cases h ▸ round_nextRound orderings st with
  | offered alt i window trimmed hat =>
    refine ⟨rfl, ?_, rfl⟩
    simp [AllocationState.spent, AllocationState.current, select,
      withWindow, hat.get, hat.ne_exhausted]

variable (hlimit : orderings.length ≤ arbiterOrderingLimit)

include hlimit

theorem rank_seeded (alt : ArbiterAlternative) : rank orderings.length
        (arbpWritePriority orderings (alt.withPriority arbiterPriorityNull)).priority ≤
      orderings.length + 2 := by
  have hnull : arbiterPriorityNull ≠ arbiterPriorityExhausted := by decide
  have hrank := rank_writePriority hlimit (alt.withPriority arbiterPriorityNull) hnull
  have hle := rank_le orderings.length (alt.withPriority arbiterPriorityNull).priority
  omega

theorem potential_seeded (h : st.currentAlternative = none) :
    (st.writePriorities orderings).potential orderings.length ≤
      st.alternatives.length * (orderings.length + 2) := by
  have hsum := sum_le_card_nsmul (st.alternatives.map fun alt => rank orderings.length
      (arbpWritePriority orderings (alt.withPriority arbiterPriorityNull)).priority)
    (orderings.length + 2)
    (by
      intro x hx
      obtain ⟨alt, -, rfl⟩ := mem_map.mp hx
      exact rank_seeded hlimit alt)
  simpa [AllocationState.potential, AllocationState.writePriorities, h, Function.comp_def]
    using hsum

namespace AllocationState

/-- How much of the walk is ahead of a state. A fresh state has all of it ahead, whatever
priorities were left in it. -/
def remaining (orderings : List ArbiterOrdering) (st : AllocationState) : Nat :=
  match st.currentAlternative with
  | none => 2 * (st.alternatives.length * (orderings.length + 3)) + 1
  | some _ => 2 * st.potential orderings.length + st.spent.toNat

omit hlimit in
theorem remaining_lt_bound (orderings : List ArbiterOrdering) (st : AllocationState) :
    st.remaining orderings < nextRoundsBound orderings st := by
  have hpot := st.potential_le orderings.length
  have hbit := Bool.toNat_le st.spent
  rw [remaining, nextRoundsBound]
  cases st.currentAlternative with
  | none | some => simp only; omega

theorem potential_lt_remaining (st : AllocationState) :
    2 * (st.writePriorities orderings).potential orderings.length < st.remaining orderings := by
  rw [remaining]
  cases hcur : st.currentAlternative with
  | none =>
    have hseed := potential_seeded hlimit hcur
    simp only
    rw [Nat.mul_add] at hseed ⊢
    omega
  | some i =>
    have hwrite := potential_writePriorities hlimit hcur
    cases hspent : st.spent <;> simp [hspent] at hwrite ⊢ <;> omega

end AllocationState

theorem remaining_nextRound
    (h : nextRound orderings st = .again st' ∨ nextRound orderings st = .offered st') :
    st'.remaining orderings < st.remaining orderings := by
  refine lt_of_le_of_lt ?_ (st.potential_lt_remaining hlimit)
  rcases h with hagain | hoff
  · obtain ⟨hcur, hpot⟩ := nextRound_again hagain
    obtain ⟨i, hi⟩ := Option.isSome_iff_exists.mp hcur
    simpa [AllocationState.remaining, hi] using hpot
  · obtain ⟨hcur, hspent, halts⟩ := nextRound_offered hoff
    obtain ⟨i, hi⟩ := Option.isSome_iff_exists.mp hcur
    simp [AllocationState.remaining, hi, hspent, AllocationState.potential, halts]

theorem remaining_nextRounds {fuel : Nat} (h : nextRounds orderings fuel st = (true, st')) :
    st'.remaining orderings < st.remaining orderings :=
  nextRounds_offered (P := fun st st' => st'.remaining orderings < st.remaining orderings)
    (fun _ _ hr => remaining_nextRound hlimit (.inr hr))
    (fun _ _ _ hr hless => hless.trans (remaining_nextRound hlimit (.inl hr))) h

end UacpiNt
