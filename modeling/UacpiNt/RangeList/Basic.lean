import Mathlib.Data.List.Perm.Basic
import Mathlib.Data.Multiset.MapFold
import Mathlib.Data.List.Sort

/-!
# Range lists

A range list records which intervals of some space are taken, by whom, and on
which terms they may be taken again. Intervals are closed. The list is read in
the order its iterator visits it; nothing here depends on that order except the
iteration itself, so the operations are specified up to permutation.

The operations are a parameter: `Api` is their interface and `Api.Lawful` what a
correct implementation does. A program that uses range lists is verified for
every lawful implementation.
-/

namespace RangeList

structure Range (α ω : Type) where
  start : α
  last : α
  attributes : UInt8
  shared : Bool
  owner : Option ω
deriving DecidableEq, Repr

namespace Range

variable {α ω : Type}

def key (r : Range α ω) : α × α × Option ω :=
  (r.start, r.last, r.owner)

def Overlaps [LE α] (r : Range α ω) (lo hi : α) : Prop :=
  r.start ≤ hi ∧ lo ≤ r.last

instance [LE α] [DecidableLE α] (r : Range α ω) (lo hi : α) :
    Decidable (r.Overlaps lo hi) :=
  inferInstanceAs (Decidable (_ ∧ _))

theorem fields_of_key {r : Range α ω} {start last : α} {owner : Option ω}
    (h : r.key = (start, last, owner)) : r.start = start ∧ r.last = last ∧ r.owner = owner := by
  cases h
  exact ⟨rfl, rfl, rfl⟩

theorem overlaps_of_key [LE α] {r r' : Range α ω} (h : r.key = r'.key) {lo hi : α} :
    r.Overlaps lo hi ↔ r'.Overlaps lo hi := by
  obtain ⟨hst, hlast, -⟩ := fields_of_key h
  rw [Overlaps, Overlaps, hst, hlast]

end Range

/-- The terms on which a request accepts to meet records that exist already. -/
structure Terms (α ω : Type) where
  sharedOk : Bool
  nullConflictOk : Bool
  attributeAvailableMask : UInt8
  callback : Option (Range α ω → Bool)

namespace Terms

variable {α ω : Type}

def none : Terms α ω :=
  ⟨false, false, 0, .none⟩

def waives (t : Terms α ω) (r : Range α ω) : Bool :=
  t.sharedOk && r.shared || r.attributes &&& t.attributeAvailableMask != 0 ||
    t.nullConflictOk && r.owner.isNone

def permits (t : Terms α ω) (r : Range α ω) : Bool :=
  t.waives r || t.callback.any (fun accepts => accepts r)

@[simp] theorem none_permits (r : Range α ω) : (none : Terms α ω).permits r = false := by
  simp [permits, waives, none]

end Terms

/-- The operations of a range list. A failing operation leaves its list as it
was. Together with its answer, an availability query returns the last record it
asked the callback about. -/
structure Api (α ω ε : Type) where
  copyRangeList : List (Range α ω) → Except ε (List (Range α ω))
  addRange : List (Range α ω) → Range α ω → Bool → Except ε (List (Range α ω))
  deleteRange : List (Range α ω) → α → α → Option ω → Except ε (List (Range α ω))
  deleteOwnersRanges : List (Range α ω) → Option ω → Except ε (List (Range α ω))
  isRangeAvailable : List (Range α ω) → α → α → Terms α ω →
    Except ε Bool × Option (Range α ω)

namespace Api

variable {α ω ε : Type}

/-- What the operations are documented to do. -/
structure Lawful [LE α] [DecidableEq ω] (api : Api α ω ε) : Prop where
  copy_spec : ∀ l, ∃ l', api.copyRangeList l = .ok l' ∧ l'.Perm l
  /-- An addition that is told to ignore conflicts records the range. -/
  add_spec : ∀ l r, r.start ≤ r.last →
    ∃ l', api.addRange l r true = .ok l' ∧ l'.Perm (r :: l)
  /-- So does one that meets no record. -/
  add_free_spec : ∀ l r, r.start ≤ r.last → (∀ x ∈ l, ¬ x.Overlaps r.start r.last) →
    ∃ l', api.addRange l r false = .ok l' ∧ l'.Perm (r :: l)
  /-- An interval that ends before it starts is refused. -/
  add_backwards : ∀ l r b, ¬ r.start ≤ r.last → ∃ e, api.addRange l r b = .error e
  /-- A deletion removes one record with the given bounds and owner. -/
  delete_spec : ∀ l lo hi o, (∃ r ∈ l, r.key = (lo, hi, o)) →
    ∃ r l', api.deleteRange l lo hi o = .ok l' ∧ r.key = (lo, hi, o) ∧ l.Perm (r :: l')
  /-- A deletion of a record that is not there fails. -/
  delete_absent : ∀ l lo hi o, (∀ r ∈ l, r.key ≠ (lo, hi, o)) →
    ∃ e, api.deleteRange l lo hi o = .error e
  deleteOwners_spec : ∀ l o, ∃ l', api.deleteOwnersRanges l o = .ok l' ∧
    l'.Perm (l.filter fun r => decide (r.owner ≠ o))
  /-- A range is available when every record it meets is acceptable. -/
  available_spec : ∀ l lo hi t, (api.isRangeAvailable l lo hi t).1 =
    .ok true ↔ ∀ r ∈ l, r.Overlaps lo hi → t.permits r = true

end Api

/-! ### Iteration -/

variable {α ω : Type}

structure Iterates [LE α] (iterate : List (Range α ω) → List (Range α ω)) : Prop where
  perm : ∀ l, (iterate l).Perm l
  ascending : ∀ l, (iterate l).Pairwise fun x y => x.start ≤ y.start

section

variable [LE α] [DecidableLE α]

def sorted (l : List (Range α ω)) : List (Range α ω) :=
  l.insertionSort fun x y => x.start ≤ y.start

theorem iterates_sorted (htot : ∀ a b : α, a ≤ b ∨ b ≤ a)
    (htrans : ∀ a b c : α, a ≤ b → b ≤ c → a ≤ c) :
    Iterates (sorted : List (Range α ω) → List (Range α ω)) where
  perm l := List.perm_insertionSort _ l
  ascending l := by
    have : Std.Total fun x y : Range α ω => x.start ≤ y.start := ⟨fun x y => htot _ _⟩
    have : IsTrans (Range α ω) fun x y => x.start ≤ y.start := ⟨fun x y z => htrans _ _ _⟩
    exact List.pairwise_insertionSort _ l

end

end RangeList
