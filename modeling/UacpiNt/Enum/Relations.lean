import Mathlib.Algebra.Group.Nat.Defs
import UacpiNt.Enum.ChildList
import UacpiNt.Nt.Basic

/-!
# Bus relations

The children of a node are merged into the relations that an IRP carries: the objects that are
listed stay, and the present children of the node that are not listed come after them. A first pass
over the child list counts the present children for the allocation, a second one appends.

Counts have 32 bits, and so has their sum, which the array is allocated for.
-/

namespace UacpiNt

open List

structure DeviceRelations (δ : Type) where
  objects : List δ
  length_lt : objects.length < 2 ^ 32

structure ListedPdo (δ ν : Type) extends ChildPdo ν where
  self : δ
  reported : Bool
deriving DecidableEq, Repr

/-- The new relations: the objects there is room for, the count, the objects that were written with
their indices, the references that were taken, and the child list. -/
structure MergedRelations (δ ν : Type) where
  capacity : Nat
  count : UInt32
  written : List (δ × Nat)
  referenced : List δ
  children : List (ListedPdo δ ν)

section

variable {δ ν : Type} [DecidableEq δ] [DecidableEq ν]

def uacpiNtPdoBelongsTo (parent : ν) (secondParent : Option ν) (pdo : ListedPdo δ ν) : Bool :=
  pdo.present && (pdo.scopeNode = parent || secondParent = some pdo.scopeNode)

def listed : Option (DeviceRelations δ) → List δ
  | none => []
  | some existing => existing.objects

def isNew (existing : List δ) (parent : ν) (secondParent : Option ν) (pdo : ListedPdo δ ν) : Bool :=
  uacpiNtPdoBelongsTo parent secondParent pdo && pdo.self ∉ existing

/-- The second pass over the child list, with the count of the relations. -/
def appendChildren (existing : List δ) (parent : ν) (secondParent : Option ν) :
    List (ListedPdo δ ν) → UInt32 → UInt32 × List (δ × Nat) × List δ × List (ListedPdo δ ν)
  | [], count => (count, [], [], [])
  | pdo :: rest, count =>
    if isNew existing parent secondParent pdo then
      let (last, written, referenced, children) :=
        appendChildren existing parent secondParent rest (count + 1)
      (last, (pdo.self, count.toNat) :: written, pdo.self :: referenced,
        { pdo with reported := true } :: children)
    else
      let (last, written, referenced, children) :=
        appendChildren existing parent secondParent rest count
      (last, written, referenced, pdo :: children)

def uacpiNtMergeChildRelations (existing : Option (DeviceRelations δ))
    (children : List (ListedPdo δ ν)) (parent : ν) (secondParent : Option ν) (allocated : Bool) :
    Except NtError (MergedRelations δ ν) :=
  let existingCount : UInt32 := .ofNat (listed existing).length
  let added : UInt32 := .ofNat (children.countP (uacpiNtPdoBelongsTo parent secondParent))
  if !allocated then .error .insufficientResources
  else
    let (count, written, referenced, children) :=
      appendChildren (listed existing) parent secondParent children existingCount
    -- The allocation has room for one object at least.
    .ok ⟨max 1 (existingCount + added).toNat, count, (listed existing).zipIdx ++ written,
      referenced, children⟩

def markReported (existing : List δ) (parent : ν) (secondParent : Option ν)
    (children : List (ListedPdo δ ν)) : List (ListedPdo δ ν) :=
  children.map fun pdo =>
    if isNew existing parent secondParent pdo then { pdo with reported := true } else pdo

variable {existing : List δ} {parent : ν} {secondParent : Option ν}
  {children : List (ListedPdo δ ν)}

theorem appendChildren_eq {count : UInt32}
    (hfits : count.toNat + (children.filter (isNew existing parent secondParent)).length < 2 ^ 32) :
    ∃ last : UInt32,
      last.toNat = count.toNat + (children.filter (isNew existing parent secondParent)).length ∧
      appendChildren existing parent secondParent children count =
        (last, ((children.filter (isNew existing parent secondParent)).map ListedPdo.self).zipIdx
            count.toNat, (children.filter (isNew existing parent secondParent)).map ListedPdo.self,
          markReported existing parent secondParent children) := by
  induction children generalizing count with
  | nil => exact ⟨count, rfl, rfl⟩
  | cons pdo rest ih =>
    cases hnew : isNew existing parent secondParent pdo with
    | true =>
      rw [filter_cons_of_pos hnew, length_cons] at hfits ⊢
      have hcnt : (count + 1).toNat = count.toNat + 1 := by
        rw [UInt32.toNat_add, UInt32.toNat_one]
        omega
      obtain ⟨last, hlast, happ⟩ := @ih (count + 1) (by omega)
      refine ⟨last, by omega, ?_⟩
      rw [appendChildren, happ, hcnt]
      simp [markReported, hnew]
    | false =>
      rw [filter_cons_of_neg (Bool.eq_false_iff.1 hnew)] at hfits ⊢
      obtain ⟨last, hlast, happ⟩ := ih hfits
      refine ⟨last, hlast, ?_⟩
      rw [appendChildren, happ]
      simp [markReported, hnew]

omit [DecidableEq δ] in
theorem length_listed_lt (relations : Option (DeviceRelations δ)) :
    (listed relations).length < 2 ^ 32 := by
  cases relations with
  | none => exact Nat.two_pow_pos 32
  | some existing => exact existing.length_lt

theorem capacity_eq {relations : Option (DeviceRelations δ)} {merged : MergedRelations δ ν}
    (h : uacpiNtMergeChildRelations relations children parent secondParent true = .ok merged) :
    merged.capacity = max 1 (((listed relations).length +
      children.countP (uacpiNtPdoBelongsTo parent secondParent)) % 2 ^ 32) := by
  cases h
  simp

theorem exists_merge (relations : Option (DeviceRelations δ)) (children : List (ListedPdo δ ν))
    (parent : ν) (secondParent : Option ν) :
    ∃ merged, uacpiNtMergeChildRelations relations children parent secondParent true = .ok merged ∧
      ∀ entry ∈ (listed relations).zipIdx, entry ∈ merged.written :=
  ⟨_, rfl, fun _ => mem_append_left _⟩

theorem merge_eq {relations : Option (DeviceRelations δ)} (hfits : (listed relations).length +
      (children.filter (isNew (listed relations) parent secondParent)).length < 2 ^ 32) :
    ∃ merged, uacpiNtMergeChildRelations relations children parent secondParent true = .ok merged ∧
      merged.written = (listed relations ++ (children.filter
        (isNew (listed relations) parent secondParent)).map ListedPdo.self).zipIdx ∧
      merged.count.toNat = (listed relations).length +
        (children.filter (isNew (listed relations) parent secondParent)).length ∧
      merged.referenced =
        (children.filter (isNew (listed relations) parent secondParent)).map ListedPdo.self ∧
      merged.children = markReported (listed relations) parent secondParent children := by
  have hcnt : (UInt32.ofNat (listed relations).length).toNat = (listed relations).length :=
    UInt32.toNat_ofNat_of_lt' (length_listed_lt relations)
  obtain ⟨last, hlast, happ⟩ := appendChildren_eq (hcnt.symm ▸ hfits)
  rw [hcnt] at hlast happ
  refine ⟨_, rfl, ?_⟩
  simp only [happ]
  exact ⟨by simp [zipIdx_append], hlast, trivial, trivial⟩

theorem isNew_of_mem_markReported {pdo : ListedPdo δ ν}
    (h : pdo ∈ markReported existing parent secondParent children) :
    isNew (existing ++ (children.filter (isNew existing parent secondParent)).map ListedPdo.self)
      parent secondParent pdo = false := by
  obtain ⟨child, hchild, rfl⟩ := mem_map.1 h
  cases hnew : isNew existing parent secondParent child with
  | true =>
    have hlist : child.self ∈
        (children.filter (isNew existing parent secondParent)).map ListedPdo.self :=
      mem_map_of_mem (mem_filter.2 ⟨hchild, hnew⟩)
    simp only [isNew, if_true, mem_append, hlist]
    simp
  | false =>
    simp [isNew] at hnew ⊢
    tauto

theorem countP_belongsTo_le (hdistinct : (children.map ListedPdo.self).Nodup) :
    children.countP (uacpiNtPdoBelongsTo parent secondParent) ≤
      (existing ++ (children.filter (isNew existing parent secondParent)).map
        ListedPdo.self).length := by
  rw [countP_eq_length_filter, ← length_map ListedPdo.self]
  refine (subperm_of_subset (hdistinct.sublist (filter_sublist.map _)) ?_).length_le
  intro object hobject
  obtain ⟨pdo, hpdo, rfl⟩ := mem_map.1 hobject
  obtain ⟨hpdo, hbelongs⟩ := mem_filter.1 hpdo
  by_cases hlisted : pdo.self ∈ existing
  · exact mem_append_left _ hlisted
  · exact mem_append_right _
      (mem_map_of_mem (mem_filter.2 ⟨hpdo, by simp [isNew, hbelongs, hlisted]⟩))

/-- The merge keeps the objects that are listed, appends the new children in their order, takes a
reference to each of them and marks exactly these as reported, stays inside the array, and a second
merge appends nothing, exactly if the existing count and the number of the present children of the
scope, which are added as 32-bit numbers, do not wrap around. -/
theorem merge_child_relations_iff (relations : Option (DeviceRelations δ)) (parent : ν)
    (secondParent : Option ν) (children : List (ListedPdo δ ν))
    (hdistinct : (children.map ListedPdo.self).Nodup) :
    let new := children.filter (isNew (listed relations) parent secondParent)
    let objects := listed relations ++ new.map ListedPdo.self
    (∃ merged,
        uacpiNtMergeChildRelations relations children parent secondParent true = .ok merged ∧
        objects.length ≤ merged.capacity ∧
        merged.written = objects.zipIdx ∧ merged.count.toNat = objects.length ∧
        merged.referenced = new.map ListedPdo.self ∧
        merged.children = markReported (listed relations) parent secondParent children ∧
        ∀ again : DeviceRelations δ, again.objects = objects →
          ∃ merged', uacpiNtMergeChildRelations (some again) merged.children parent secondParent
              true = .ok merged' ∧
            merged'.written = objects.zipIdx ∧ merged'.count = merged.count ∧
            merged'.referenced = [] ∧ merged'.children = merged.children) ↔
      (listed relations).length + children.countP (uacpiNtPdoBelongsTo parent secondParent) <
        2 ^ 32 := by
  intro new objects
  have hlength : objects.length = (listed relations).length + new.length := by simp [objects]
  have hnew : new.length ≤ children.countP (uacpiNtPdoBelongsTo parent secondParent) := by
    rw [← countP_eq_length_filter]
    exact countP_mono_left fun pdo _ h => (Bool.and_eq_true _ _ ▸ h).1
  constructor
  · rintro ⟨merged, hmerge, hroom, -⟩
    -- A child that belongs to the scope is listed or new, so the array is too small after a wrap.
    have hbelongs : _ ≤ objects.length := countP_belongsTo_le hdistinct
    have hlisted := length_listed_lt relations
    rw [capacity_eq hmerge] at hroom
    omega
  · intro hsum
    have hroom : objects.length ≤ max 1 (((listed relations).length +
        children.countP (uacpiNtPdoBelongsTo parent secondParent)) % 2 ^ 32) := by
      rw [Nat.mod_eq_of_lt hsum]
      omega
    obtain ⟨merged, hmerge, hwritten, hcount, hreferenced, hchildren⟩ := merge_eq
      (show (listed relations).length + new.length < 2 ^ 32 by omega)
    refine ⟨merged, hmerge, (capacity_eq hmerge).symm ▸ hroom, hwritten, hcount.trans hlength.symm,
      hreferenced, hchildren, fun again hagain => ?_⟩
    have hnone : merged.children.filter
        (isNew (listed (some again)) parent secondParent) = [] := by
      rw [hchildren, List.filter_eq_nil_iff]
      intro pdo hpdo
      rw [listed, hagain, isNew_of_mem_markReported hpdo]
      exact Bool.false_ne_true
    obtain ⟨merged', hmerge', hwritten', hcount', hreferenced', hchildren'⟩ := merge_eq
      (show (listed (some again)).length + (merged.children.filter
        (isNew (listed (some again)) parent secondParent)).length < 2 ^ 32 from
          hnone.symm ▸ again.length_lt)
    rw [hnone] at hwritten' hcount' hreferenced'
    refine ⟨merged', hmerge', ?_, ?_, hreferenced', ?_⟩
    · rw [hwritten', List.map_nil, List.append_nil, listed, hagain]
    · rw [← UInt32.toNat_inj, hcount', hcount, listed, hagain]
      exact hlength
    · rw [hchildren']
      refine (List.map_congr_left fun pdo hpdo => ?_).trans (List.map_id' _)
      rw [if_neg (List.filter_eq_nil_iff.1 hnone pdo hpdo)]

end

theorem child_appended_to_relations :
    ∃ merged, uacpiNtMergeChildRelations (some ⟨[5], by decide⟩)
        [⟨⟨2, 1, true, false, false⟩, 5, true⟩, ⟨⟨3, 1, true, false, false⟩, 6, false⟩] 1 none
        true = .ok merged ∧
      merged.written = [(5, 0), (6, 1)] ∧ merged.referenced = [6] := by
  obtain ⟨merged, hmerge, -, hwritten, -, hreferenced, -⟩ :=
    (merge_child_relations_iff (some ⟨[5], by decide⟩) 1 none
      [⟨⟨2, 1, true, false, false⟩, 5, true⟩, ⟨⟨3, 1, true, false, false⟩, 6, false⟩]
      (by decide)).2 (by decide)
  exact ⟨merged, hmerge, hwritten, hreferenced⟩

def numberedRelations (n : Nat) (h : n < 2 ^ 32) : DeviceRelations Nat where
  objects := List.range n
  length_lt := by
    rw [List.length_range]
    exact h

theorem nodup_numberedRelations {n : Nat} (h : n < 2 ^ 32) :
    ((numberedRelations n h).objects ++ [n]).Nodup := by
  rw [numberedRelations, ← List.range_succ]
  exact List.nodup_range

theorem merge_numberedRelations {n : Nat} (h : n < 2 ^ 32) (hn : 1 < n)
    (children : List (ListedPdo Nat Nat)) :
    ∃ merged, uacpiNtMergeChildRelations (some (numberedRelations n h)) children 1 none true =
        .ok merged ∧
      merged.capacity = max 1 ((n + children.countP (uacpiNtPdoBelongsTo 1 none)) % 2 ^ 32) ∧
      (1, 1) ∈ merged.written := by
  obtain ⟨merged, hmrg, hwr⟩ := exists_merge (some (numberedRelations n h)) children 1 none
  refine ⟨merged, hmrg, (capacity_eq hmrg).trans ?_, hwr _ ?_⟩
  · rw [listed, numberedRelations, List.length_range]
  · rw [listed, numberedRelations, List.mk_mem_zipIdx_iff_getElem?]
    exact List.getElem?_range hn

theorem full_relations_overflow :
    ((numberedRelations (2 ^ 32 - 1) (by decide)).objects ++ [2 ^ 32 - 1]).Nodup ∧
      ∃ merged, uacpiNtMergeChildRelations (some (numberedRelations (2 ^ 32 - 1) (by decide)))
          [⟨⟨2, 1, true, false, false⟩, 2 ^ 32 - 1, false⟩] 1 none true = .ok merged ∧
        merged.capacity = 1 ∧ (1, 1) ∈ merged.written := by
  obtain ⟨merged, hmerge, hcapacity, hwritten⟩ := merge_numberedRelations
    (show 2 ^ 32 - 1 < 2 ^ 32 by decide) (by decide)
    [⟨⟨2, 1, true, false, false⟩, 2 ^ 32 - 1, false⟩]
  exact ⟨nodup_numberedRelations _, merged, hmerge, hcapacity.trans (by decide), hwritten⟩

end UacpiNt
