import UacpiNt.Arbiter.Ordering.Prune
import UacpiNt.Arbiter.Transaction.Test

/-!
# Taking a range out of an ordering list

What `ArbpExcludeOrderingRange` leaves of a window are its fragments: the intervals inside the
window and outside the range that no longer such interval contains. There are at most two, and
the lower one comes first. Every list that the routine returns is made of them, window by
window, whether or not the pool had memory for it.
-/

namespace UacpiNt

open List UInt64

namespace ArbiterOrdering

def Inside (f o : ArbiterOrdering) : Prop :=
  o.start ≤ f.start ∧ f.last ≤ o.last

theorem Inside.antisymm {f g : ArbiterOrdering} (h : f.Inside g) (h' : g.Inside f) : f = g := by
  have hst : f.start = g.start := UInt64.le_antisymm h'.1 h.1
  have hlast : f.last = g.last := UInt64.le_antisymm h.2 h'.2
  cases g
  cases hst
  cases hlast
  rfl

/-- A maximal interval of the window outside the hole. It is not empty, as no window is. -/
structure Fragment (o hole f : ArbiterOrdering) : Prop where
  inside : f.Inside o
  clear : ¬ f.Intersects hole
  maximal : ∀ g : ArbiterOrdering, g.Inside o → ¬ g.Intersects hole → f.Inside g → g = f

/-- The list holds the fragments of the window, the lower one first. -/
structure Fragments (o hole : ArbiterOrdering) (fs : List ArbiterOrdering) : Prop where
  mem_iff : ∀ f, f ∈ fs ↔ Fragment o hole f
  ascending : fs.Pairwise fun f g => f.last < g.start
  length_le : fs.length ≤ 2

variable {o hole f : ArbiterOrdering}

theorem minus_cases (h : f ∈ o.minus hole) : (o.last < hole.start ∨ hole.last < o.start) ∧ f = o ∨
    (o.start < hole.start ∧ hole.start ≤ o.last) ∧ f.start = o.start ∧
      f.last.toNat + 1 = hole.start.toNat ∨
    (o.start ≤ hole.last ∧ hole.last < o.last) ∧ f.start.toNat = hole.last.toNat + 1 ∧
      f.last = o.last := by
  rw [minus] at h
  split at h
  · rename_i hout
    exact .inl ⟨hout, mem_singleton.mp h⟩
  rename_i hmeets
  rw [not_or, UInt64.not_lt, UInt64.not_lt] at hmeets
  rcases mem_append.mp h with h | h
  · split at h
    · rename_i hleft
      obtain rfl := mem_singleton.mp h
      refine .inr (.inl ⟨⟨hleft, hmeets.1⟩, rfl, ?_⟩)
      have hpos := lt_iff_toNat_lt.mp hleft
      rw [RangeList.toNat_sub_one_of_lt hleft]
      omega
    · cases h
  · split at h
    · rename_i hright
      obtain rfl := mem_singleton.mp h
      refine .inr (.inr ⟨⟨hmeets.2, hright⟩, ?_, rfl⟩)
      have hlt := lt_iff_toNat_lt.mp hright
      have hbound := o.last.toNat_lt
      rw [UInt64.toNat_add, toNat_one]
      omega
    · cases h

theorem inside_of_mem_minus (h : f ∈ o.minus hole) : f.Inside o := by
  simp only [Inside, le_iff_toNat_le]
  rcases minus_cases h with ⟨-, rfl⟩ | ⟨⟨-, hmeets⟩, hst, hlast⟩ | ⟨⟨hmeets, -⟩, hst, hlast⟩
  · exact ⟨le_rfl, le_rfl⟩
  · rw [le_iff_toNat_le] at hmeets
    rw [hst]
    omega
  · rw [le_iff_toNat_le] at hmeets
    rw [hlast]
    omega

theorem not_intersects_of_mem_minus (h : f ∈ o.minus hole) : ¬ f.Intersects hole := by
  rw [intersects_iff]
  rintro ⟨x, hx, hx'⟩
  exact ((o.exists_mem_minus hole x).mp ⟨f, h, hx⟩).2 hx'

theorem inside_of_intersects {g : ArbiterOrdering} (h : f ∈ o.minus hole) (hins : g.Inside o)
    (hclr : ¬ g.Intersects hole) (hmeets : g.Intersects f) : g.Inside f := by
  have hhole := le_iff_toNat_le.mp hole.start_le_last
  simp only [Inside, Intersects, le_iff_toNat_le] at *
  rcases minus_cases h with ⟨-, rfl⟩ | ⟨-, hst, hlast⟩ | ⟨-, hst, hlast⟩
  · exact hins
  · rw [hst] at hmeets ⊢
    omega
  · rw [hlast] at hmeets ⊢
    omega

theorem mem_minus_iff : f ∈ o.minus hole ↔ Fragment o hole f := by
  constructor
  · intro h
    refine ⟨inside_of_mem_minus h, not_intersects_of_mem_minus h, fun g hins hclr hle => ?_⟩
    have hmeets : g.Intersects f :=
      ⟨UInt64.le_trans hle.1 f.start_le_last, UInt64.le_trans f.start_le_last hle.2⟩
    exact (inside_of_intersects h hins hclr hmeets).antisymm hle
  · intro h
    -- The fragment that holds the first address of `f` contains all of it.
    have hfst : f.Contains f.start := ⟨UInt64.le_refl _, f.start_le_last⟩
    have ho : o.Contains f.start := ⟨h.inside.1, UInt64.le_trans f.start_le_last h.inside.2⟩
    have hhole : ¬ hole.Contains f.start := fun hx =>
      h.clear ((intersects_iff f hole).mpr ⟨_, hfst, hx⟩)
    obtain ⟨g, hg, hx⟩ := (o.exists_mem_minus hole f.start).mpr ⟨ho, hhole⟩
    have hle := inside_of_intersects hg h.inside h.clear ((intersects_iff f g).mpr ⟨_, hfst, hx⟩)
    rw [← h.maximal g (inside_of_mem_minus hg) (not_intersects_of_mem_minus hg) hle]
    exact hg

theorem pairwise_minus (o hole : ArbiterOrdering) :
    (o.minus hole).Pairwise fun f g => f.last < g.start := by
  rw [minus]
  split
  · exact pairwise_singleton _ _
  rw [pairwise_append]
  refine ⟨?_, ?_, ?_⟩
  · split
    · exact pairwise_singleton _ _
    · exact List.Pairwise.nil
  · split
    · exact pairwise_singleton _ _
    · exact List.Pairwise.nil
  intro f hf g hg
  split at hf
  · rename_i hleft
    split at hg
    · rename_i hright
      obtain rfl := mem_singleton.mp hf
      obtain rfl := mem_singleton.mp hg
      have hhole := le_iff_toNat_le.mp hole.start_le_last
      have hlt := lt_iff_toNat_lt.mp hright
      have hbound := o.last.toNat_lt
      rw [lt_iff_toNat_lt, RangeList.toNat_sub_one_of_lt hleft, UInt64.toNat_add,
        toNat_one]
      omega
    · cases hg
  · cases hf

theorem length_minus_le (o hole : ArbiterOrdering) : (o.minus hole).length ≤ 2 := by
  rw [minus]
  split
  · exact Nat.le_succ 1
  rw [length_append]
  have hleft : (if h : o.start < hole.start then
      [(⟨o.start, hole.start - 1, le_sub_one_of_lt h⟩ : ArbiterOrdering)]
      else []).length ≤ 1 := by
    split <;> simp
  have hright : (if h : hole.last < o.last then
      [(⟨hole.last + 1, o.last, add_one_le_of_lt h⟩ : ArbiterOrdering)] else []).length ≤ 1 := by
    split <;> simp
  omega

theorem fragments_minus (o hole : ArbiterOrdering) : Fragments o hole (o.minus hole) :=
  ⟨fun _ => mem_minus_iff, pairwise_minus o hole, length_minus_le o hole⟩

end ArbiterOrdering

open ArbiterOrdering

/-! ### The routine -/

section

variable {env : Environment} {l l' : ArbiterOrderingList} {allocations allocations' : Nat}

theorem orderings_of_addOrdering {start last : UInt64}
    (h : arbiterLibAddOrdering env l start last allocations = (.ok l', allocations')) :
    ∃ horder : start ≤ last, l'.orderings = l.orderings ++ [⟨start, last, horder⟩] := by
  rw [arbiterLibAddOrdering] at h
  split at h
  · rename_i horder
    refine ⟨horder, ?_⟩
    split at h
    · cases h
      rfl
    split at h
    · split at h
      · cases h
        rfl
      · cases h
    · cases h
  · cases h

theorem orderings_of_excludeFrom {o hole : ArbiterOrdering}
    (h : excludeFrom env o hole.start hole.last l allocations = (.ok l', allocations')) :
    l'.orderings = l.orderings ++ o.minus hole := by
  rw [excludeFrom] at h
  by_cases hout : o.last < hole.start ∨ hole.last < o.start
  · rw [if_pos hout] at h
    rw [minus, if_pos hout]
    exact (orderings_of_addOrdering h).2
  rw [if_neg hout] at h
  rw [minus, if_neg hout, ← append_assoc]
  -- The lower fragment, if there is one, is in the list before the upper one is looked at.
  have hleft : ∀ l₁ allocations₁, (if o.start < hole.start then
        arbiterLibAddOrdering env l o.start (hole.start - 1) allocations
      else (.ok l, allocations)) = (.ok l₁, allocations₁) →
      l₁.orderings = l.orderings ++ (if h : o.start < hole.start then
        [⟨o.start, hole.start - 1, le_sub_one_of_lt h⟩] else []) := by
    intro l₁ allocations₁ hadd
    split at hadd
    · rename_i hlt
      rw [dif_pos hlt]
      exact (orderings_of_addOrdering hadd).2
    · rename_i hge
      cases hadd
      rw [dif_neg hge, append_nil]
  simp only at h
  split at h
  · cases h
  rename_i l₁ allocations₁ hadd
  rw [← hleft l₁ allocations₁ hadd]
  split at h
  · rename_i hlt
    rw [dif_pos hlt]
    exact (orderings_of_addOrdering h).2
  · rename_i hge
    cases h
    rw [dif_neg hge, append_nil]

theorem orderings_of_excludeFromAll {hole : ArbiterOrdering} {orderings : List ArbiterOrdering}
    (h : excludeFromAll env hole.start hole.last orderings l allocations = (.ok l', allocations')) :
    l'.orderings = l.orderings ++ orderings.flatMap (·.minus hole) := by
  induction orderings generalizing l allocations with
  | nil =>
    cases h
    rw [flatMap_nil, append_nil]
  | cons o rest ih =>
    rw [excludeFromAll] at h
    split at h
    · cases h
    · rename_i l₁ allocations₁ hfrom
      rw [ih h, orderings_of_excludeFrom hfrom, flatMap_cons, append_assoc]

theorem orderings_of_excludeOrderingRange {hole : ArbiterOrdering}
    (h : arbpExcludeOrderingRange env l hole.start hole.last allocations = (.ok l', allocations')) :
    l'.orderings = l.orderings.flatMap (·.minus hole) := by
  rw [arbpExcludeOrderingRange, if_neg (UInt64.not_lt.mpr hole.start_le_last)] at h
  split at h
  · cases h
  rename_i pruned allocations₁ hcrea
  have hemp : pruned = .empty := by
    obtain ⟨hcrea, -⟩ := Prod.mk.inj hcrea
    split at hcrea
    · cases hcrea
      rfl
    · cases hcrea
  rw [orderings_of_excludeFromAll h, hemp]
  rfl

end

/-- The list that `ArbpExcludeOrderingRange` leaves where its caller's list `l` was. The pruned
list is built in a local variable and takes its place in the last step of a success. -/
def orderingListAfter (l : ArbiterOrderingList) :
    Except NtError ArbiterOrderingList → ArbiterOrderingList
  | .ok pruned => pruned
  | .error _ => l

theorem addReservedCallback_orderingList (env : Environment) (arb : ArbiterInstance)
    (range : UInt64 × UInt64) (allocations : Nat) {reserved : ArbiterOrderingList}
    {allocations' : Nat} (h : arbiterLibAddOrdering env arb.reservedList range.1 range.2
      allocations = (.ok reserved, allocations')) :
    (arbpAddReservedCallback env arb range allocations).1.orderingList =
      orderingListAfter arb.orderingList
        (arbpExcludeOrderingRange env arb.orderingList range.1 range.2 allocations').1 := by
  rw [arbpAddReservedCallback, h]
  simp only
  split <;> rename_i hexc <;> rw [hexc] <;> rfl

/-- For every ordering list, every range that is not backwards and every behaviour of the pool,
the routine replaces each window, in order, by its fragments outside the range, the lower one
first. If it fails, the list is as it was. -/
theorem excludeOrderingRange_exact (env : Environment) (l : ArbiterOrderingList)
    {start last : UInt64} (horder : start ≤ last) (allocations : Nat) :
    (∀ l', (arbpExcludeOrderingRange env l start last allocations).1 = .ok l' →
      ∃ parts, List.Forall₂ (fun o fs => Fragments o ⟨start, last, horder⟩ fs) l.orderings parts ∧
        (orderingListAfter l (arbpExcludeOrderingRange env l start last allocations).1).orderings =
          parts.flatten) ∧
    ∀ e, (arbpExcludeOrderingRange env l start last allocations).1 = .error e →
      orderingListAfter l (arbpExcludeOrderingRange env l start last allocations).1 = l := by
  constructor
  · intro l' h
    refine ⟨l.orderings.map (·.minus ⟨start, last, horder⟩), ?_, ?_⟩
    · rw [List.forall₂_map_right_iff, List.forall₂_same]
      exact fun o _ => fragments_minus o _
    · rw [h]
      have hpair : arbpExcludeOrderingRange env l start last allocations = (.ok l',
          (arbpExcludeOrderingRange env l start last allocations).2) := Prod.ext h rfl
      exact @orderings_of_excludeOrderingRange _ _ _ _ _ ⟨start, last, horder⟩ hpair
  · intro e h
    rw [h]
    rfl

/-- Sixteen addresses are taken out of the whole address space, out of themselves and out of a
window that ends with them. -/
theorem sixteen_excluded :
    ∃ l l' : ArbiterOrderingList, l.orderings.map (fun o => (o.start, o.last)) =
        [(0, 0xFFFFFFFFFFFFFFFF), (0x10, 0x1F), (0, 0x1F)] ∧
      (arbpExcludeOrderingRange .reference l 0x10 0x1F 0).1 = .ok l' ∧
      l'.orderings.map (fun o => (o.start, o.last)) =
        [(0, 0xF), (0x20, 0xFFFFFFFFFFFFFFFF), (0, 0xF)] ∧
      ∃ horder parts,
        List.Forall₂ (fun o fs => Fragments o ⟨0x10, 0x1F, horder⟩ fs) l.orderings parts ∧
        l'.orderings = parts.flatten := by
  have hrange : (0x10 : UInt64) ≤ 0x1F := by decide
  refine ⟨⟨[⟨0, 0xFFFFFFFFFFFFFFFF, by decide⟩, ⟨0x10, 0x1F, hrange⟩, ⟨0, 0x1F, by decide⟩], 16,
    Nat.le_of_ble_eq_true rfl, by decide⟩, _, rfl, rfl, rfl, hrange, ?_⟩
  exact (excludeOrderingRange_exact .reference _ hrange 0).1 _ rfl

end UacpiNt
