import UacpiNt.Arbiter.Transaction.Solution
import UacpiNt.ResArb.Basic
import Mathlib.Algebra.Group.Nat.Defs
import Mathlib.Algebra.Order.Ring.Int

/-!
# The most constrained entry comes first

A test adds up the scores of the alternatives of each entry in a field as wide as a pointer, and
sorts its list by that field. The list comes out stably sorted by the sums themselves exactly if
the field compares every two entries as their sums do. A field of 64 bits holds the sum of any
number of alternatives that a list can have, one of 32 bits does not.
-/

namespace UacpiNt

open InsertionSort List

variable {σ : Type}

/-! ### Scores -/

section

variable (env : Environment) (score : IoResourceDescriptor → Int) (entry : ArbiterListEntry)

def sumScores (alternatives : List IoResourceDescriptor) : Int :=
  alternatives.foldr (fun d sum => score d + sum) 0

def ArbiterListEntry.totalScore : Int :=
  sumScores score entry.alternatives

/-- What a pointer-sized field holds of a sum. -/
def Environment.truncate (sum : Int) : Int :=
  sum.bmod (2 ^ env.pointerBits)

def ArbiterListEntry.scored : ArbiterListEntry :=
  { entry with workSpace := env.truncate (entry.totalScore score) }

def ArbiterListEntry.ScoresNonneg : Prop :=
  ∀ d ∈ entry.alternatives, 0 ≤ score d

end

variable {score : IoResourceDescriptor → Int} {alternatives : List IoResourceDescriptor}
  {ops : ArbiterOps σ} {entries : List ArbiterListEntry} {env : Environment}

theorem scoreAlternatives_eq (env : Environment) (h : ∀ d ∈ alternatives, 0 ≤ score d) (sum : Int) :
    scoreAlternatives env score alternatives (env.truncate sum) =
      (true, env.truncate (sum + sumScores score alternatives)) := by
  induction alternatives generalizing sum with
  | nil => rw [scoreAlternatives, sumScores, foldr_nil, Int.add_zero]
  | cons d rest ih =>
    obtain ⟨hd, hrest⟩ := forall_mem_cons.mp h
    have hstep : (env.truncate sum + score d).bmod (2 ^ env.pointerBits) =
        env.truncate (sum + score d) := Int.bmod_add_bmod
    rw [scoreAlternatives, if_neg (not_lt.mpr hd), hstep, ih hrest, Int.add_assoc]
    rfl

theorem scoreEntry_eq (env : Environment) (hscore : ops.scoreRequirement = some score)
    {entry : ArbiterListEntry} (h : entry.ScoresNonneg score) :
    scoreEntry env ops entry = (true, entry.scored env score) := by
  have hzero : env.truncate 0 = 0 := Int.zero_bmod
  have hsum := scoreAlternatives_eq env h 0
  rw [hzero, Int.zero_add] at hsum
  rw [scoreEntry, hscore]
  simp only
  rw [hsum]
  rfl

theorem prepareEntries_scored (env : Environment) (hscore : ops.scoreRequirement = some score)
    (withdraw : Bool) (h : ∀ e ∈ entries, e.ScoresNonneg score) (previous : Option DeviceObject)
    (possible : RtlRangeList) :
    (prepareEntries env ops withdraw entries previous possible).1 = .ok () ∧
      (prepareEntries env ops withdraw entries previous possible).2.1 =
        entries.map (·.scored env score) := by
  induction entries generalizing previous possible with
  | nil => exact ⟨rfl, rfl⟩
  | cons entry rest ih =>
    obtain ⟨hent, hrest⟩ := forall_mem_cons.mp h
    simp only [prepareEntries, scoreEntry_eq env hscore hent, if_true]
    obtain ⟨hstat, hents⟩ := ih hrest (if withdraw then entry.physicalDeviceObject else previous)
      (if withdraw && entry.physicalDeviceObject != previous then
        env.rtl.deleteOwnersRanges' possible entry.physicalDeviceObject else possible)
    exact ⟨hstat, by rw [hents, map_cons]⟩

/-! ### The sorted list -/

/-- The list as a test has sorted it, whether or not the stack could be built for it. -/
def sortedList : Except (TransactionResult σ) TestSetup → List ArbiterListEntry
  | .ok setup => setup.entries
  | .error r => r.entries

theorem sortedList_testSetup (hscore : ops.scoreRequirement = some score) {arb : ArbiterInstance}
    {allocateFrom : Option (List CmPartialResourceDescriptor)} {possible : RtlRangeList}
    (hpos : initialPossible env ops arb allocateFrom = .ok possible)
    (hnn : ∀ e ∈ entries, e.ScoresNonneg score) (world : σ) :
    sortedList (testSetup env ops arb entries allocateFrom world) =
      sort ArbiterListEntry.workSpace (entries.map (·.scored env score)) := by
  obtain ⟨hstat, hents⟩ := prepareEntries_scored env hscore allocateFrom.isNone hnn none possible
  rw [testSetup, hpos]
  simp only [hstat, hents, sortArbitrationList_eq, stackSetup]
  split <;> rfl

/-! ### Sums that fit -/

theorem Environment.truncate_eq {sum : Int} (h : 0 ≤ sum) (hfits : 2 * sum < 2 ^ env.pointerBits) :
    env.truncate sum = sum := by
  apply Int.bmod_eq_of_le_mul_two
  all_goals
    push_cast
    omega

theorem sumScores_nonneg (h : ∀ d ∈ alternatives, 0 ≤ score d) :
    0 ≤ sumScores score alternatives := by
  induction alternatives with
  | nil => exact le_rfl
  | cons d rest ih =>
    obtain ⟨hd, hrest⟩ := forall_mem_cons.mp h
    exact Int.add_nonneg hd (ih hrest)

theorem sumScores_le (hscore : ∀ d, score d ≤ maxLong) (alternatives : List IoResourceDescriptor) :
    sumScores score alternatives ≤ alternatives.length * maxLong := by
  induction alternatives with
  | nil => simp [sumScores]
  | cons d rest ih =>
    have hd := hscore d
    rw [sumScores, foldr_cons, ← sumScores, length_cons]
    push_cast
    rw [Int.add_mul]
    omega

theorem pairwise_of_fits (hnn : ∀ e ∈ entries, e.ScoresNonneg score)
    (hfits : ∀ e ∈ entries, 2 * e.totalScore score < 2 ^ env.pointerBits) :
    entries.Pairwise fun e e' => e.totalScore score ≤ e'.totalScore score ↔
      env.truncate (e.totalScore score) ≤ env.truncate (e'.totalScore score) := by
  have hsame : ∀ e ∈ entries, env.truncate (e.totalScore score) = e.totalScore score :=
    fun e he => Environment.truncate_eq (sumScores_nonneg (hnn e he)) (hfits e he)
  rw [pairwise_iff_forall_sublist]
  intro e e' hpair
  rw [hsame e (hpair.subset (by simp)), hsame e' (hpair.subset (by simp))]

/-- For every arbitration list without a malformed requirement, the list that a test sorts is the
scored list, stably sorted by the sums of the scores, if and only if the score field compares
every two entries of the list as their sums do. In 64 bits it always does. -/
theorem most_constrained_first_iff {env : Environment} {ops : ArbiterOps σ}
    {score : IoResourceDescriptor → Int} (hscore : ops.scoreRequirement = some score)
    {arb : ArbiterInstance} {entries : List ArbiterListEntry}
    {allocateFrom : Option (List CmPartialResourceDescriptor)} {possible : RtlRangeList}
    (hpossible : initialPossible env ops arb allocateFrom = .ok possible)
    (hnonneg : ∀ e ∈ entries, e.ScoresNonneg score) (world : σ) :
    (IsStableSort (·.totalScore score) (entries.map (·.scored env score))
        (sortedList (testSetup env ops arb entries allocateFrom world)) ↔
      entries.Pairwise fun e e' => e.totalScore score ≤ e'.totalScore score ↔
        env.truncate (e.totalScore score) ≤ env.truncate (e'.totalScore score)) ∧
    (env.pointerBits = 64 → (∀ d, score d ≤ maxLong) →
      (∀ e ∈ entries, e.alternatives.length < 2 ^ 32) →
      IsStableSort (·.totalScore score) (entries.map (·.scored env score))
        (sortedList (testSetup env ops arb entries allocateFrom world))) := by
  have hiff : IsStableSort (·.totalScore score) (entries.map (·.scored env score))
        (sortedList (testSetup env ops arb entries allocateFrom world)) ↔
      entries.Pairwise fun e e' => e.totalScore score ≤ e'.totalScore score ↔
        env.truncate (e.totalScore score) ≤ env.truncate (e'.totalScore score) := by
    rw [sortedList_testSetup hscore hpossible hnonneg world, isStableSort_sort_iff,
      List.pairwise_map]
    rfl
  refine ⟨hiff, fun hbits hmax hcount => hiff.mpr (pairwise_of_fits hnonneg fun e he => ?_)⟩
  have hle := sumScores_le hmax e.alternatives
  have hlength := hcount e he
  rw [hbits, ArbiterListEntry.totalScore]
  simp only [maxLong] at hle
  omega

def wideAndNarrow : List ArbiterListEntry :=
  [.request ⟨1⟩ [.ofMemory .deviceExclusive 0 0xFFFFFFFFFFFFFFFF 0x1000 1,
      .ofMemory .deviceExclusive 0 0xFFFFFFFFFFFFFFFF 0x1000 1],
    .request ⟨2⟩ [.ofMemory .deviceExclusive 0x1000 0x2FFF 0x1000 1]]

theorem wideAndNarrow_nonneg : ∀ e ∈ wideAndNarrow, e.ScoresNonneg uacpiNtResScoreRequirement := by
  simp only [wideAndNarrow, forall_mem_cons, ArbiterListEntry.ScoresNonneg]
  refine ⟨?_, ?_, fun _ h => (by cases h)⟩ <;> decide

theorem narrow_entry_first :
    (sortedList (testSetup .reference resOps (.plainMemory []) wideAndNarrow none ())).map
        (·.physicalDeviceObject) = [some ⟨2⟩, some ⟨1⟩] ∧
      IsStableSort (·.totalScore uacpiNtResScoreRequirement)
        (wideAndNarrow.map (·.scored .reference uacpiNtResScoreRequirement))
        (sortedList (testSetup .reference resOps (.plainMemory []) wideAndNarrow none ())) := by
  refine ⟨by decide, ?_⟩
  exact (most_constrained_first_iff rfl rfl wideAndNarrow_nonneg ()).1.mpr (by decide)

/-- In 32 bits the scores of the wide entry add up to a negative number, and it comes first. -/
theorem wide_entry_first_in_32_bits :
    (sortedList (testSetup { Environment.reference with pointerBits := 32 } resOps
        (.plainMemory []) wideAndNarrow none ())).map
          (fun e => (e.physicalDeviceObject, e.workSpace)) = [(some ⟨1⟩, -2), (some ⟨2⟩, 0x2000)] ∧
      wideAndNarrow.map (·.totalScore uacpiNtResScoreRequirement) = [0xFFFFFFFE, 0x2000] ∧
      ¬ IsStableSort (·.totalScore uacpiNtResScoreRequirement)
        (wideAndNarrow.map (·.scored { Environment.reference with pointerBits := 32 }
          uacpiNtResScoreRequirement))
        (sortedList (testSetup { Environment.reference with pointerBits := 32 } resOps
          (.plainMemory []) wideAndNarrow none ())) := by
  refine ⟨by decide, by decide, fun h => ?_⟩
  have hfirst := (List.pairwise_cons.mp h.ascending).1 _ List.mem_cons_self
  exact absurd hfirst (by decide)

end UacpiNt
