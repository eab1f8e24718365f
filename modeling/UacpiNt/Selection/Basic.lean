import Mathlib.Data.List.Pairwise
import Mathlib.Data.List.Perm.Basic

/-!
# Selecting the best element

A scan that keeps the best element so far, and the order in which repeated scans take the
elements of a list. The comparison is strict, so of equally good elements the first one is taken.
-/

namespace Selection

open List

variable {α : Type} (better : α → α → Bool)

def keepBetter (best : Option α) (a : α) : Option α :=
  match best with
  | none => some a
  | some b => if better a b then some a else some b

def best (l : List α) : Option α :=
  l.foldl (keepBetter better) none

def order [DecidableEq α] : Nat → List α → List α
  | 0, _ => []
  | fuel + 1, l =>
    match best better l with
    | none => []
    | some a => a :: order fuel (l.erase a)

variable {better}

variable (hirrefl : ∀ a, better a a = false)
  (htrans : ∀ a b c, better a b = true → better b c = true → better a c = true)

include hirrefl htrans

/-- From a first candidate on, a scan ends with the candidate or something better, and none is
better than that. -/
theorem foldl_keepBetter (l : List α) (b : α) : ∃ a, l.foldl (keepBetter better) (some b) = some a ∧
      (a = b ∨ a ∈ l ∧ better a b = true) ∧ ∀ x ∈ b :: l, better x a = false := by
  induction l generalizing b with
  | nil => exact ⟨b, rfl, .inl rfl, forall_mem_singleton.mpr (hirrefl b)⟩
  | cons c l ih =>
    rw [foldl_cons, keepBetter]
    by_cases hbet : better c b = true
    · rw [if_pos hbet]
      obtain ⟨a, hfold, hmem, hbest⟩ := ih c
      have hab : better a b = true := by
        rcases hmem with rfl | ⟨-, hac⟩
        · exact hbet
        · exact htrans a c b hac hbet
      refine ⟨a, hfold, .inr ⟨?_, hab⟩, forall_mem_cons.mpr ⟨?_, hbest⟩⟩
      · rcases hmem with rfl | ⟨hmem, -⟩
        · exact mem_cons_self
        · exact mem_cons_of_mem _ hmem
      · rw [Bool.eq_false_iff]
        intro hba
        exact Bool.false_ne_true ((hirrefl b).symm.trans (htrans b a b hba hab))
    · rw [if_neg hbet]
      obtain ⟨a, hfold, hmem, hbest⟩ := ih b
      rw [forall_mem_cons] at hbest
      refine ⟨a, hfold, hmem.imp_right (And.imp_left (mem_cons_of_mem _)),
        forall_mem_cons.mpr ⟨hbest.1, forall_mem_cons.mpr ⟨?_, hbest.2⟩⟩⟩
      rcases hmem with rfl | ⟨-, hab⟩
      · exact Bool.eq_false_iff.mpr hbet
      · rw [Bool.eq_false_iff]
        intro hca
        exact hbet (htrans c a b hca hab)

theorem best_cons (b : α) (l : List α) :
    ∃ a ∈ b :: l, best better (b :: l) = some a ∧ ∀ x ∈ b :: l, better x a = false := by
  obtain ⟨a, hfold, hmem, hbest⟩ := foldl_keepBetter hirrefl htrans l b
  refine ⟨a, ?_, hfold, hbest⟩
  rcases hmem with rfl | ⟨hmem, -⟩
  · exact mem_cons_self
  · exact mem_cons_of_mem _ hmem

variable [DecidableEq α]

theorem order_spec {fuel : Nat} {l : List α} (hfuel : l.length ≤ fuel) :
    (order better fuel l).Perm l ∧
      (order better fuel l).Pairwise fun a b => better b a = false := by
  induction fuel generalizing l with
  | zero =>
    obtain rfl := length_eq_zero_iff.mp (Nat.le_zero.mp hfuel)
    exact ⟨.refl _, .nil⟩
  | succ fuel ih =>
    cases l with
    | nil => exact ⟨.refl _, .nil⟩
    | cons b l =>
      obtain ⟨a, hmem, hfd, hbest⟩ := best_cons hirrefl htrans b l
      have hlen : ((b :: l).erase a).length ≤ fuel := by
        rw [length_erase_of_mem hmem]
        omega
      obtain ⟨hperm, hpw⟩ := ih hlen
      rw [order, hfd]
      refine ⟨(hperm.cons a).trans (perm_cons_erase hmem).symm, ?_⟩
      refine pairwise_cons.mpr ⟨fun x hx => ?_, hpw⟩
      exact hbest x (mem_of_mem_erase (hperm.mem_iff.mp hx))

omit [DecidableEq α] hirrefl htrans in
theorem rel_or_rel {r : α → α → Prop} {l : List α} (h : l.Pairwise r) {a b : α} (ha : a ∈ l)
    (hb : b ∈ l) (hne : a ≠ b) : r a b ∨ r b a := by
  have : Std.Symm fun x y => r x y ∨ r y x := ⟨fun _ _ => Or.symm⟩
  have hsymm : l.Pairwise fun x y => r x y ∨ r y x := h.imp .inl
  exact hsymm.forall ha hb hne

end Selection
