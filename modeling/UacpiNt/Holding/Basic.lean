import Mathlib.Algebra.BigOperators.Ring.Finset
import Mathlib.Data.Fintype.BigOperators
import Mathlib.Logic.Function.Basic

/-!
# Counting holders

Each of finitely many holders lists the things that it holds. `holders` is the number of holders
of a thing, and a count is `Balanced` if it is that number for every thing. When one holder
changes its list, the count stays balanced if it moves by the difference between the two lists.
-/

namespace Holding

section

variable {κ ι ρ : Type*} [Fintype κ] [Fintype ι] [DecidableEq κ] [DecidableEq ρ]

def held (list : List ρ) (r : ρ) : Nat := if r ∈ list then 1 else 0

@[simp] theorem held_of_mem {list : List ρ} {r : ρ} (h : r ∈ list) : held list r = 1 := if_pos h

@[simp] theorem held_of_not_mem {list : List ρ} {r : ρ} (h : r ∉ list) : held list r = 0 := if_neg h

theorem held_congr {list list' : List ρ} {r : ρ} (h : r ∈ list ↔ r ∈ list') :
    held list r = held list' r := by
  simp only [held, h]

theorem held_filter_add (list other : List ρ) (r : ρ) :
    held (list.filter (· ∉ other)) r + held other r = held (list ++ other) r := by
  by_cases hr : r ∈ other <;> simp [held, hr]

def holders (claims : κ → List ρ) (r : ρ) : Nat :=
  (Finset.univ.filter fun k => r ∈ claims k).card

omit [DecidableEq κ] in
theorem holders_eq_sum (claims : κ → List ρ) (r : ρ) :
    holders claims r = ∑ k, held (claims k) r := Finset.card_filter _ _

omit [DecidableEq κ] in
theorem holders_eq_zero_iff {claims : κ → List ρ} {r : ρ} :
    holders claims r = 0 ↔ ∀ k, r ∉ claims k := by
  simp [holders]

theorem holders_update (claims : κ → List ρ) (k : κ) (list : List ρ) (r : ρ) :
    holders (Function.update claims k list) r + held (claims k) r =
      holders claims r + held list r := by
  have hrest : ∑ j ∈ Finset.univ.erase k, held (Function.update claims k list j) r =
      ∑ j ∈ Finset.univ.erase k, held (claims j) r :=
    Finset.sum_congr rfl fun j hj => by
      rw [Function.update_of_ne (Finset.ne_of_mem_erase hj)]
  rw [holders_eq_sum, holders_eq_sum, ← Finset.add_sum_erase _ _ (Finset.mem_univ k),
    ← Finset.add_sum_erase _ (fun j => held (claims j) r) (Finset.mem_univ k), Function.update_self]
  omega

omit [DecidableEq κ] in
theorem holders_sum (left : κ → List ρ) (right : ι → List ρ) (r : ρ) :
    holders (Sum.elim left right) r = holders left r + holders right r := by
  simp only [holders_eq_sum, Fintype.sum_sum_type, Sum.elim_inl, Sum.elim_inr]

/-- The count of every thing is the number of its holders. -/
def Balanced (count : ρ → Nat) (claims : κ → List ρ) : Prop := ∀ r, count r = holders claims r

variable {count count' : ρ → Nat} {claims : κ → List ρ} {k : κ} {list : List ρ} {r : ρ}

omit [DecidableEq κ] in
theorem Balanced.pos (h : Balanced count claims) (hr : r ∈ claims k) : 0 < count r := by
  rw [h r, Nat.pos_iff_ne_zero, Ne, holders_eq_zero_iff]
  exact fun hnone => hnone k hr

omit [DecidableEq κ] in
theorem Balanced.held_le (h : Balanced count claims) (k : κ) (hlist : r ∈ list → r ∈ claims k) :
    held list r ≤ count r := by
  by_cases hr : r ∈ list
  · simpa [hr] using Nat.succ_le_of_lt (h.pos (hlist hr))
  · simp [hr]

omit [DecidableEq κ] in
theorem Balanced.not_mem (h : Balanced count claims) (hr : count r = 0) (k : κ) :
    r ∉ claims k := holders_eq_zero_iff.1 ((h r).symm.trans hr) k

theorem Balanced.update (h : Balanced count claims)
    (hcnt : ∀ r, count' r + held (claims k) r = count r + held list r) :
    Balanced count' (Function.update claims k list) := by
  intro r
  have hmoved := holders_update claims k list r
  have hbef := h r
  have hafter := hcnt r
  omega

end

section

/-! ### One bit for all users of a line -/

open Function

variable {κ L : Type*} [DecidableEq κ] [DecidableEq L]

/-- The bit of a line is set exactly if some user has the line in use. -/
def Shows (bit : L → Bool) (uses : κ → Option L) : Prop :=
  ∀ line, bit line = true ↔ ∃ k, uses k = some line

variable {bit : L → Bool} {uses : κ → Option L} {k : κ} {line : L}

theorem Shows.set (h : Shows bit uses) (hidle : uses k = none) (line : L) :
    Shows (update bit line true) (update uses k (some line)) := by
  intro other
  by_cases hoth : other = line
  · subst hoth
    simpa using ⟨k, by simp⟩
  rw [update_of_ne hoth, h other]
  constructor
  · rintro ⟨j, hj⟩
    have hjk : j ≠ k := by
      rintro rfl
      simp [hidle] at hj
    exact ⟨j, by rwa [update_of_ne hjk]⟩
  · rintro ⟨j, hj⟩
    by_cases hjk : j = k
    · subst hjk
      rw [update_self] at hj
      exact absurd (Option.some.inj hj).symm hoth
    · exact ⟨j, by rwa [update_of_ne hjk] at hj⟩

theorem Shows.clear_iff (h : Shows bit uses) (hk : uses k = some line) :
    Shows (update bit line false) (update uses k none) ↔
      ∀ j ≠ k, uses j ≠ some line := by
  constructor
  · intro hclr j hjk hj
    have hnone := (hclr line).2 ⟨j, by rwa [update_of_ne hjk]⟩
    simp at hnone
  intro halone other
  by_cases hoth : other = line
  · subst hoth
    simp only [update_self, Bool.false_eq_true, false_iff]
    rintro ⟨j, hj⟩
    by_cases hjk : j = k
    · simp [hjk] at hj
    · exact halone j hjk (by rwa [update_of_ne hjk] at hj)
  · rw [update_of_ne hoth, h other]
    constructor
    · rintro ⟨j, hj⟩
      have hjk : j ≠ k := by
        rintro rfl
        exact hoth (Option.some.inj (hj.symm.trans hk))
      exact ⟨j, by rwa [update_of_ne hjk]⟩
    · rintro ⟨j, hj⟩
      have hjk : j ≠ k := by
        rintro rfl
        simp at hj
      exact ⟨j, by rwa [update_of_ne hjk] at hj⟩

omit [DecidableEq κ] in
theorem Shows.clear_unused (h : Shows bit uses) (hline : ∀ k, uses k ≠ some line) (before : Bool) :
    Shows (update (update bit line before) line false) uses := by
  have hclea : bit line = false := by
    rw [Bool.eq_false_iff, Ne, h line]
    rintro ⟨k, hk⟩
    exact hline k hk
  rw [update_idem, ← hclea, update_eq_self]
  exact h

end

end Holding
