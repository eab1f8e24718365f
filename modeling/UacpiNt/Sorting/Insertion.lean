import Mathlib.Data.List.DropRight
import Mathlib.Data.List.Induction
import Mathlib.Data.List.Sort

/-!
# Insertion behind equals

A list is sorted by taking its elements one after the other and inserting each behind all those
whose key is no greater. The result is a stable sort: elements with one key stay in the order
they had. When the key is only a stand-in for another one, the result is a stable sort by the
other key exactly if the two keys compare every two elements of the list alike.
-/

namespace InsertionSort

open List

variable {α β κ κ' : Type*} [LinearOrder κ] [LinearOrder κ']

def insertBehind (key : α → κ) (a : α) (l : List α) : List α :=
  l.orderedInsert (fun a b => key a < key b) a

def sort (key : α → κ) (l : List α) : List α :=
  l.foldl (fun sorted a => insertBehind key a sorted) []

def Ascending (key : α → κ) (l : List α) : Prop :=
  l.Pairwise fun a b => key a ≤ key b

/-- The list `sorted` is a stable sort of the list `l`. -/
structure IsStableSort (key : α → κ) (l sorted : List α) : Prop where
  perm : sorted.Perm l
  ascending : Ascending key sorted
  stable : ∀ k, sorted.filter (fun a => key a = k) = l.filter (fun a => key a = k)

section

variable (key : α → κ)

theorem insertBehind_cons (a b : α) (l : List α) : insertBehind key a (b :: l) =
    if key a < key b then a :: b :: l else b :: insertBehind key a l :=
  orderedInsert_cons _ a b l

theorem perm_insertBehind (a : α) (l : List α) : (insertBehind key a l).Perm (a :: l) :=
  perm_orderedInsert _ a l

variable {key}

section

variable {a b : α} {l : List α}

theorem mem_insertBehind : b ∈ insertBehind key a l ↔ b = a ∨ b ∈ l :=
  mem_orderedInsert _

theorem ascending_insertBehind (a : α) (h : Ascending key l) :
    Ascending key (insertBehind key a l) := by
  induction l with
  | nil => exact pairwise_singleton _ a
  | cons b l ih =>
    obtain ⟨hb, hl⟩ := pairwise_cons.mp h
    rw [insertBehind_cons]
    split
    · rename_i hlt
      refine pairwise_cons.mpr ⟨?_, h⟩
      intro c hc
      rcases mem_cons.mp hc with rfl | hc
      · exact hlt.le
      · exact hlt.le.trans (hb c hc)
    · rename_i hle
      refine pairwise_cons.mpr ⟨?_, ih hl⟩
      intro c hc
      rcases mem_insertBehind.mp hc with rfl | hc
      · exact not_lt.mp hle
      · exact hb c hc

theorem ascending_insertFromEnd (a : α) (h : Ascending key l) :
    Ascending key (l.rdropWhile (fun x => decide (key a < key x)) ++
      a :: l.rtakeWhile fun x => decide (key a < key x)) := by
  induction l using reverseRecOn with
  | nil => exact pairwise_singleton _ a
  | append_singleton l x ih =>
    obtain ⟨hl, -, hx⟩ := pairwise_append.mp h
    have hle : ∀ b ∈ l, key b ≤ key x := fun b hb => hx b hb x (mem_singleton_self x)
    rw [rdropWhile_concat, rtakeWhile_concat]
    by_cases hlt : key a < key x
    · -- The element moves past the last one, which stays the last.
      rw [if_pos (decide_eq_true hlt), if_pos (decide_eq_true hlt), ← cons_append,
        ← append_assoc]
      refine pairwise_append.mpr ⟨ih hl, pairwise_singleton _ x, fun b hb y hy => ?_⟩
      rw [mem_singleton.mp hy]
      rcases mem_append.mp hb with hb | hb
      · exact hle b (( rdropWhile_prefix _ l).subset hb)
      · rcases mem_cons.mp hb with rfl | hb
        · exact hlt.le
        · exact hle b ((rtakeWhile_suffix _ l).subset hb)
    · rw [if_neg (by simpa using hlt), if_neg (by simpa using hlt)]
      refine pairwise_append.mpr ⟨h, pairwise_singleton _ a, fun b hb y hy => ?_⟩
      rw [mem_singleton.mp hy]
      rcases mem_append.mp hb with hb | hb
      · exact (hle b hb).trans (not_lt.mp hlt)
      · rw [mem_singleton.mp hb]
        exact not_lt.mp hlt

theorem filter_insertBehind (a : α) (h : Ascending key l) (k : κ) :
    (insertBehind key a l).filter (fun b => key b = k) =
      l.filter (fun b => key b = k) ++ [a].filter fun b => key b = k := by
  induction l with
  | nil => rfl
  | cons b l ih =>
    obtain ⟨hb, hl⟩ := pairwise_cons.mp h
    rw [insertBehind_cons]
    split
    · rename_i hlt
      by_cases hk : key a = k
      · -- Everything behind the new element has a greater key.
        have hnone : (b :: l).filter (fun b => key b = k) = [] := by
          rw [filter_eq_nil_iff]
          intro c hc
          have hle : key b ≤ key c := by
            rcases mem_cons.mp hc with rfl | hc
            · exact le_rfl
            · exact hb c hc
          have hne : key c ≠ k := (hk ▸ hlt.trans_le hle).ne'
          simpa using hne
        rw [filter_cons_of_pos (by simpa using hk), hnone, nil_append,
          filter_cons_of_pos (by simpa using hk), filter_nil]
      · rw [filter_cons_of_neg (by simpa using hk), filter_cons_of_neg
          (a := a) (by simpa using hk), filter_nil, append_nil]
    · by_cases hk : key b = k
      · rw [filter_cons_of_pos (by simpa using hk), filter_cons_of_pos
          (by simpa using hk), ih hl, cons_append]
      · rw [filter_cons_of_neg (by simpa using hk), filter_cons_of_neg
          (by simpa using hk), ih hl]

theorem pair_sublist_insertBehind (h : Ascending key l) (hb : b ∈ l) (hle : key b ≤ key a) :
    Sublist [b, a] (insertBehind key a l) := by
  induction l with
  | nil => cases hb
  | cons c l ih =>
    obtain ⟨hc, hl⟩ := pairwise_cons.mp h
    have hca : key c ≤ key a := by
      rcases mem_cons.mp hb with rfl | hb
      · exact hle
      · exact (hc b hb).trans hle
    rw [insertBehind_cons, if_neg (not_lt.mpr hca)]
    rcases mem_cons.mp hb with rfl | hb
    · have hmem : a ∈ insertBehind key a l := mem_insertBehind.mpr (.inl rfl)
      exact (singleton_sublist.mpr hmem).cons_cons b
    · exact (ih hl hb).cons c

theorem sublist_pair_insertBehind (hb : b ∈ l) (hlt : key a < key b) :
    Sublist [a, b] (insertBehind key a l) := by
  refine cons_sublist_orderedInsert (singleton_sublist.mpr hb) fun c hc => ?_
  obtain rfl := mem_singleton.mp hc
  exact hlt

end

end

section

variable {key : α → κ} {key' : α → κ'} {l : List α}

section

variable (key) (l)

theorem sort_concat (a : α) : sort key (l ++ [a]) = insertBehind key a (sort key l) := by
  rw [sort, foldl_append]
  rfl

theorem perm_sort : (sort key l).Perm l := by
  induction l using reverseRecOn with
  | nil => exact Perm.refl _
  | append_singleton l a ih =>
    rw [sort_concat]
    exact (perm_insertBehind key a _).trans ((ih.cons a).trans
      (perm_append_singleton a l).symm)

theorem ascending_sort : Ascending key (sort key l) := by
  induction l using reverseRecOn with
  | nil => exact List.Pairwise.nil
  | append_singleton l a ih =>
    rw [sort_concat]
    exact ascending_insertBehind a ih

theorem filter_sort (k : κ) :
    (sort key l).filter (fun a => key a = k) = l.filter fun a => key a = k := by
  induction l using reverseRecOn with
  | nil => rfl
  | append_singleton l a ih =>
    rw [sort_concat, filter_insertBehind a (ascending_sort key l), ih, filter_append]

theorem isStableSort_sort : IsStableSort key l (sort key l) :=
  ⟨perm_sort key l, ascending_sort key l, filter_sort key l⟩

end

/-- Two elements stay in order unless the first has the greater key; then they change places. -/
theorem pair_sublist_sort {a b : α} (h : Sublist [a, b] l) :
    (key a ≤ key b → Sublist [a, b] (sort key l)) ∧
      (key b < key a → Sublist [b, a] (sort key l)) := by
  induction l using reverseRecOn with
  | nil => cases h
  | append_singleton l c ih =>
    rw [sort_concat]
    have hsub : (sort key l).Sublist (insertBehind key c (sort key l)) :=
      sublist_orderedInsert c _
    obtain ⟨l₁, l₂, hsplit, h₁, h₂⟩ := sublist_append_iff.mp h
    rcases sublist_singleton.mp h₂ with rfl | rfl
    · rw [append_nil] at hsplit
      rw [← hsplit] at h₁
      exact ⟨fun hle => ((ih h₁).1 hle).trans hsub, fun hlt => ((ih h₁).2 hlt).trans hsub⟩
    have hpair : [a] ++ [b] = l₁ ++ [c] := hsplit
    obtain ⟨rfl, hlast⟩ := append_inj' hpair rfl
    obtain rfl : b = c := singleton_inj.mp hlast
    have ha : a ∈ sort key l := (perm_sort key l).mem_iff.mpr (singleton_sublist.mp h₁)
    exact ⟨pair_sublist_insertBehind (ascending_sort key l) ha, sublist_pair_insertBehind ha⟩

theorem insertBehind_congr {a : α} (h : ∀ b ∈ l, key' b ≤ key' a ↔ key b ≤ key a) :
    insertBehind key a l = insertBehind key' a l := by
  induction l with
  | nil => rfl
  | cons b l ih =>
    obtain ⟨hb, hl⟩ := forall_mem_cons.mp h
    have hlt : key a < key b ↔ key' a < key' b := by
      rw [← not_le, ← not_le, hb]
    rw [insertBehind_cons, insertBehind_cons, ih hl]
    simp only [hlt]

theorem sort_congr (h : l.Pairwise fun a b => key' a ≤ key' b ↔ key a ≤ key b) :
    sort key l = sort key' l := by
  induction l using reverseRecOn with
  | nil => rfl
  | append_singleton l a ih =>
    obtain ⟨hl, -, ha⟩ := pairwise_append.mp h
    rw [sort_concat, sort_concat, ← ih hl]
    apply insertBehind_congr
    intro b hb
    exact ha b ((perm_sort key l).mem_iff.mp hb) a (mem_singleton_self a)

/-- Sorting by a key gives a stable sort by another key if and only if the two keys compare
every two elements of the list alike. -/
theorem isStableSort_sort_iff : IsStableSort key' l (sort key l) ↔
    l.Pairwise fun a b => key' a ≤ key' b ↔ key a ≤ key b := by
  constructor
  · intro h
    rw [pairwise_iff_forall_sublist]
    intro a b hab
    have hasc : ∀ {a b : α}, Sublist [a, b] (sort key l) → key' a ≤ key' b :=
      pairwise_iff_forall_sublist.mp h.ascending
    have hsor : ∀ {a b : α}, Sublist [a, b] (sort key l) → key a ≤ key b :=
      pairwise_iff_forall_sublist.mp (ascending_sort key l)
    constructor
    · intro hle
      by_contra hnot
      rw [not_le] at hnot
      -- The two changed places, so the other key is the same for both, and stability fails.
      have heq : key' b = key' a := le_antisymm (hasc ((pair_sublist_sort hab).2 hnot)) hle
      have hfilter : Sublist [a, b] (l.filter fun c => key' c = key' a) := by
        have hpair := hab.filter fun c => key' c = key' a
        rw [filter_cons_of_pos (by simp), filter_cons_of_pos (by simpa using heq)] at hpair
        exact hpair
      rw [← h.stable] at hfilter
      exact absurd (hsor (hfilter.trans filter_sublist)) (not_le.mpr hnot)
    · intro hle
      exact hasc ((pair_sublist_sort hab).1 hle)
  · intro h
    rw [sort_congr h]
    exact isStableSort_sort key' l

end

end InsertionSort
