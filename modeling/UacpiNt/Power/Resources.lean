import Mathlib.Data.List.DropRight
import UacpiNt.Holding.Basic

/-!
# Power resources

A power resource is counted by the devices that need it on. The first reference evaluates `_ON`,
the last one `_OFF`. A device state change references the resources of the new state before `_PSx`
and drops those it no longer needs after it; a wake block references the resources of `_PRW` while
it is armed. The lists come from AML packages: `UacpiNtPowerResResolve` removes duplicates and
sorts them by the order of the resources.
-/

namespace UacpiNt

open List

def uacpintMaxPowerResources : Nat := 8

structure ResourceList (ρ : Type) where
  entries : List ρ
  nodup : entries.Nodup
  length_le : entries.length ≤ uacpintMaxPowerResources

namespace ResourceList

variable {ρ : Type}

instance : EmptyCollection (ResourceList ρ) := ⟨⟨[], List.nodup_nil, Nat.zero_le _⟩⟩

@[simp] theorem entries_empty : (∅ : ResourceList ρ).entries = [] := rfl

end ResourceList

/-! ### The lists of a package -/

section

variable {ρ : Type} [DecidableEq ρ]

/-- The known resources that the elements of a package name, without duplicates, until there are
`maxCount` of them. An element that names none is `none`. -/
def collectResources (maxCount : Nat) : List (Option ρ) → List ρ → List ρ
  | [], list => list
  | element :: rest, list =>
    if list.length < maxCount then
      match element with
      | none => collectResources maxCount rest list
      | some r =>
        if r ∈ list then collectResources maxCount rest list
        else collectResources maxCount rest (list ++ [r])
    else list

/-- Move a resource down past those of the sorted part that are switched on later. -/
def insertByOrder (order : ρ → UInt16) (sorted : List ρ) (r : ρ) : List ρ :=
  sorted.rdropWhile (fun x => decide (order r < order x)) ++
    r :: sorted.rtakeWhile fun x => decide (order r < order x)

omit [DecidableEq ρ] in
theorem insertByOrder_perm (order : ρ → UInt16) (sorted : List ρ) (r : ρ) :
    (insertByOrder order sorted r).Perm (sorted ++ [r]) := by
  have hmid : (insertByOrder order sorted r).Perm (r :: sorted) := by
    have hperm : (insertByOrder order sorted r).Perm
        (r :: (sorted.rdropWhile (fun x => decide (order r < order x)) ++
          sorted.rtakeWhile fun x => decide (order r < order x))) := perm_middle
    rwa [rdropWhile_append_rtakeWhile] at hperm
  exact hmid.trans (perm_append_singleton r sorted).symm

omit [DecidableEq ρ] in
theorem foldl_insertByOrder_perm (order : ρ → UInt16) (list sorted : List ρ) :
    (list.foldl (insertByOrder order) sorted).Perm (sorted ++ list) := by
  induction list generalizing sorted with
  | nil => simp
  | cons r list ih =>
    have hins := (insertByOrder_perm order sorted r).append_right list
    simpa using (ih (insertByOrder order sorted r)).trans hins

theorem collectResources_spec (maxCount : Nat) (elements : List (Option ρ)) {list : List ρ}
    (hnd : list.Nodup) (hlen : list.length ≤ maxCount) :
    (collectResources maxCount elements list).Nodup ∧
      (collectResources maxCount elements list).length ≤ maxCount := by
  induction elements generalizing list with
  | nil => exact ⟨hnd, hlen⟩
  | cons element rest ih =>
    by_cases hroom : list.length < maxCount
    · cases element with
      | none => simpa [collectResources, hroom] using ih hnd hlen
      | some r =>
        by_cases hr : r ∈ list
        · simpa [collectResources, hroom, hr] using ih hnd hlen
        · have happ := hnd.append (nodup_singleton r) (by simpa using hr)
          simpa [collectResources, hroom, hr] using ih happ (by simpa using Nat.succ_le_of_lt hroom)
    · cases element <;> simpa [collectResources, hroom] using ⟨hnd, hlen⟩

/-- `UacpiNtPowerResResolve`, with room for `UACPINT_MAX_POWER_RESOURCES` entries. -/
def uacpiNtPowerResResolve (order : ρ → UInt16) (elements : List (Option ρ)) : ResourceList ρ :=
  let list := collectResources uacpintMaxPowerResources elements []
  have hspec := collectResources_spec uacpintMaxPowerResources elements List.nodup_nil
    (Nat.zero_le _)
  have hperm := foldl_insertByOrder_perm order list []
  ⟨list.foldl (insertByOrder order) [], hperm.nodup_iff.2 hspec.1, hperm.length_eq ▸ hspec.2⟩

end

/-! ### References -/

/-- The power resources of the system: whether they were collected, the number of references to
each and whether it is on. -/
structure PowerResources (ρ : Type) where
  ready : Bool
  refCount : ρ → Nat
  on : ρ → Bool

section

variable {ρ : Type} [DecidableEq ρ]

section

variable (order : ρ → UInt16) (succeeds : ρ → Bool) (package : Option (List (Option ρ)))
  (s : PowerResources ρ) (r : ρ)

/-- `_STA` says which resources are on. -/
def uacpiNtPowerResInit (sta : ρ → Bool) (s : PowerResources ρ) : PowerResources ρ :=
  if s.ready then s else ⟨true, fun _ => 0, sta⟩

/-- `succeeds` says for which resources `_ON` succeeds. -/
def uacpiNtPowerResReference : PowerResources ρ :=
  let s := { s with refCount := Function.update s.refCount r (s.refCount r + 1) }
  if s.refCount r ≠ 1 ∨ s.on r then s
  else if succeeds r then { s with on := Function.update s.on r true }
  else s

/-- `UacpiNtPowerResDereference`, with the resources whose `_OFF` it evaluates. -/
def uacpiNtPowerResDereference : PowerResources ρ × List ρ :=
  let s := if 0 < s.refCount r then
      { s with refCount := Function.update s.refCount r (s.refCount r - 1) }
    else s
  if s.refCount r ≠ 0 ∨ s.on r = false then (s, [])
  else if succeeds r then ({ s with on := Function.update s.on r false }, [r])
  else (s, [r])

def dereferenceAll (succeeds : ρ → Bool) : List ρ → PowerResources ρ → PowerResources ρ × List ρ
  | [], s => (s, [])
  | r :: rest, s =>
    let (s, off) := uacpiNtPowerResDereference succeeds s r
    let (s, offs) := dereferenceAll succeeds rest s
    (s, off ++ offs)

/-- The package is `none` if the method is absent, fails or returns something else. -/
def uacpiNtPowerResEvalList : ResourceList ρ :=
  match s.ready, package with
  | true, some elements => uacpiNtPowerResResolve order elements
  | _, _ => ∅

/-- `UacpiNtPowerResAcquireForState`, with the list of the new state. -/
def uacpiNtPowerResAcquireForState (heldResources : ResourceList ρ) (s : PowerResources ρ) :
    PowerResources ρ × ResourceList ρ :=
  let newList := uacpiNtPowerResEvalList order package s
  ((newList.entries.filter (· ∉ heldResources.entries)).foldl
    (uacpiNtPowerResReference succeeds) s, newList)

/-- `UacpiNtPowerResReleaseDelta`, with what the device then holds and the resources whose `_OFF`
is evaluated. A list never has more entries than the device has room for. -/
def uacpiNtPowerResReleaseDelta (newList heldResources : ResourceList ρ) (s : PowerResources ρ) :
    PowerResources ρ × ResourceList ρ × List ρ :=
  if s.ready then
    let (s, off) :=
      dereferenceAll succeeds (heldResources.entries.reverse.filter (· ∉ newList.entries)) s
    (s, newList, off)
  else (s, heldResources, [])

/-- The first two elements of `_PRW` are no resources, and a package without them is refused. -/
def uacpiNtPowerResAcquireWake : PowerResources ρ × ResourceList ρ :=
  let package := (package.filter fun elements => decide (2 ≤ elements.length)).map (List.drop 2)
  let list := uacpiNtPowerResEvalList order package s
  (list.entries.foldl (uacpiNtPowerResReference succeeds) s, list)

def uacpiNtPowerResReleaseWake (list : ResourceList ρ) (s : PowerResources ρ) :
    PowerResources ρ × List ρ :=
  if s.ready then dereferenceAll succeeds list.entries.reverse s else (s, [])

end

/-! ### What the references do to the counts -/

open Holding

variable (succeeds : ρ → Bool) (s : PowerResources ρ) (r : ρ)

@[simp] theorem reference_refCount : (uacpiNtPowerResReference succeeds s r).refCount =
      Function.update s.refCount r (s.refCount r + 1) := by
  rw [uacpiNtPowerResReference]
  split
  · rfl
  · split <;> rfl

@[simp] theorem reference_ready : (uacpiNtPowerResReference succeeds s r).ready = s.ready := by
  rw [uacpiNtPowerResReference]
  split
  · rfl
  · split <;> rfl

@[simp] theorem foldl_reference_ready (list : List ρ) (s : PowerResources ρ) :
    (list.foldl (uacpiNtPowerResReference succeeds) s).ready = s.ready := by
  induction list generalizing s with
  | nil => rfl
  | cons r list ih => rw [List.foldl_cons, ih, reference_ready]

theorem foldl_reference_refCount {list : List ρ} (hnd : list.Nodup) (s : PowerResources ρ) (r : ρ) :
    (list.foldl (uacpiNtPowerResReference succeeds) s).refCount r = s.refCount r + held list r := by
  induction list generalizing s with
  | nil => simp [held]
  | cons q list ih =>
    obtain ⟨hq, hrest⟩ := nodup_cons.1 hnd
    rw [foldl_cons, ih hrest]
    by_cases hr : r = q
    · subst hr
      simp [hq]
    · simp [held, hr]

theorem dereference_eq : uacpiNtPowerResDereference succeeds s r =
      let s := { s with refCount := Function.update s.refCount r (s.refCount r - 1) }
      if s.refCount r ≠ 0 ∨ s.on r = false then (s, [])
      else if succeeds r then ({ s with on := Function.update s.on r false }, [r])
      else (s, [r]) := by
  rw [uacpiNtPowerResDereference]
  by_cases hpos : 0 < s.refCount r
  · rw [if_pos hpos]
  · have hsame : s.refCount r - 1 = s.refCount r := by omega
    rw [if_neg hpos, hsame, Function.update_eq_self]

@[simp] theorem dereference_refCount : (uacpiNtPowerResDereference succeeds s r).1.refCount =
      Function.update s.refCount r (s.refCount r - 1) := by
  rw [dereference_eq]
  dsimp only
  split
  · rfl
  · split <;> rfl

@[simp] theorem dereference_ready :
    (uacpiNtPowerResDereference succeeds s r).1.ready = s.ready := by
  rw [dereference_eq]
  dsimp only
  split
  · rfl
  · split <;> rfl

theorem dereference_off {succeeds : ρ → Bool} {s : PowerResources ρ} {r q : ρ}
    (h : q ∈ (uacpiNtPowerResDereference succeeds s r).2) :
    q = r ∧ (uacpiNtPowerResDereference succeeds s r).1.refCount r = 0 := by
  rw [dereference_refCount]
  rw [dereference_eq] at h
  dsimp only at h
  split at h
  · simp at h
  · rename_i hzero
    push Not at hzero
    split at h <;> exact ⟨mem_singleton.1 h, hzero.1⟩

@[simp] theorem dereferenceAll_ready (list : List ρ) (s : PowerResources ρ) :
    (dereferenceAll succeeds list s).1.ready = s.ready := by
  induction list generalizing s with
  | nil => rfl
  | cons r list ih => simp only [dereferenceAll, ih, dereference_ready]

theorem dereferenceAll_refCount {list : List ρ} (hnd : list.Nodup) (s : PowerResources ρ) (r : ρ) :
    (dereferenceAll succeeds list s).1.refCount r = s.refCount r - held list r := by
  induction list generalizing s with
  | nil => simp [dereferenceAll, held]
  | cons q list ih =>
    obtain ⟨hq, hrest⟩ := nodup_cons.1 hnd
    simp only [dereferenceAll, ih hrest]
    by_cases hr : r = q
    · subst hr
      simp [hq]
    · simp [held, hr]

theorem dereferenceAll_off {succeeds : ρ → Bool} {list : List ρ} (hnd : list.Nodup)
    {s : PowerResources ρ} {r : ρ} (h : r ∈ (dereferenceAll succeeds list s).2) :
    r ∈ list ∧ (dereferenceAll succeeds list s).1.refCount r = 0 := by
  induction list generalizing s with
  | nil => simp [dereferenceAll] at h
  | cons q list ih =>
    obtain ⟨hq, hrest⟩ := nodup_cons.1 hnd
    simp only [dereferenceAll, mem_append] at h ⊢
    rcases h with h | h
    · -- The count of the head is not touched again: the list names it once.
      obtain ⟨rfl, hzero⟩ := dereference_off h
      refine ⟨mem_cons_self, ?_⟩
      rw [dereferenceAll_refCount succeeds hrest, hzero, Nat.zero_sub]
    · exact ⟨mem_cons_of_mem q (ih hrest h).1, (ih hrest h).2⟩

end

end UacpiNt
