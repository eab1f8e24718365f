import Mathlib.Init
import Mathlib.Order.Basic

/-!
# Machines that run until they return

A step either moves to another state or returns a result. `run` iterates it with
bounded fuel, and `Along` says that a condition holds of every state the run passes
through. An invariant that each step preserves under the condition holds in the state
from which the run returns. `Leads` says that a run comes to an end.
-/

namespace Machine

variable {S R : Type}

/-- Iterate a step until it returns, at most `fuel` times. -/
def run (step : S → S ⊕ R) : Nat → S → Option R
  | 0, _ => none
  | fuel + 1, s =>
    match step s with
    | .inl s' => run step fuel s'
    | .inr r => some r

/-- The condition holds in every state the run passes through. -/
def Along (step : S → S ⊕ R) (cond : S → Prop) : Nat → S → Prop
  | 0, _ => True
  | fuel + 1, s => cond s ∧
      match step s with
      | .inl s' => Along step cond fuel s'
      | .inr _ => True

instance (step : S → S ⊕ R) (cond : S → Prop) [DecidablePred cond] (fuel : Nat) (s : S) :
    Decidable (Along step cond fuel s) :=
  decideAlong fuel s
where
  decideAlong : (fuel : Nat) → (s : S) → Decidable (Along step cond fuel s)
    | 0, _ => .isTrue trivial
    | fuel + 1, s => by
      have : Decidable (match step s with
          | .inl s' => Along step cond fuel s'
          | .inr _ => True) :=
        match step s with
        | .inl s' => decideAlong fuel s'
        | .inr _ => .isTrue trivial
      exact inferInstanceAs (Decidable (_ ∧ _))

variable {step : S → S ⊕ R} {cond Inv : S → Prop} {fuel : Nat} {s : S}

theorem along_of_forall (h : ∀ s, cond s) (fuel : Nat) (s : S) : Along step cond fuel s := by
  induction fuel generalizing s with
  | zero => trivial
  | succ fuel ih =>
    refine ⟨h s, ?_⟩
    cases step s with
    | inl s' => exact ih s'
    | inr r => trivial

theorem Along.mono {cond' : S → Prop} (h : ∀ s, cond s → cond' s)
    (halong : Along step cond fuel s) : Along step cond' fuel s := by
  induction fuel generalizing s with
  | zero => trivial
  | succ fuel ih =>
    refine ⟨h s halong.1, ?_⟩
    have hrest := halong.2
    cases hs : step s with
    | inl s' =>
      rw [hs] at hrest
      exact ih hrest
    | inr r => trivial

theorem along_of_invariant (hstep : ∀ s s', Inv s → step s = .inl s' → Inv s') (fuel : Nat)
    (hs : Inv s) : Along step Inv fuel s := by
  induction fuel generalizing s with
  | zero => trivial
  | succ fuel ih =>
    refine ⟨hs, ?_⟩
    cases h : step s with
    | inl s' => exact ih (hstep s s' hs h)
    | inr r => trivial

theorem Along.and {cond' : S → Prop} (h : Along step cond fuel s) (h' : Along step cond' fuel s) :
    Along step (fun s => cond s ∧ cond' s) fuel s := by
  induction fuel generalizing s with
  | zero => trivial
  | succ fuel ih =>
    obtain ⟨hs, hrest⟩ := h
    obtain ⟨hs', hrest'⟩ := h'
    refine ⟨⟨hs, hs'⟩, ?_⟩
    cases hnext : step s with
    | inl t =>
      rw [hnext] at hrest hrest'
      exact ih hrest hrest'
    | inr r => trivial

inductive Reaches (step : S → S ⊕ R) (s₀ : S) : S → Prop where
  | refl : Reaches step s₀ s₀
  | tail {s s' : S} (h : Reaches step s₀ s) (hstep : step s = .inl s') : Reaches step s₀ s'

theorem along_reaches (step : S → S ⊕ R) (fuel : Nat) (s₀ : S) :
    Along step (Reaches step s₀) fuel s₀ :=
  along_of_invariant (fun _ _ h hstep => h.tail hstep) fuel .refl

theorem run_invariant (hstep : ∀ s s', Inv s → cond s → step s = .inl s' → Inv s') {r : R}
    (hrun : run step fuel s = some r) (hs : Inv s) (hcond : Along step cond fuel s) :
    ∃ s', Inv s' ∧ cond s' ∧ step s' = .inr r := by
  induction fuel generalizing s with
  | zero => cases hrun
  | succ fuel ih =>
    rw [run] at hrun
    obtain ⟨hc, hrest⟩ := hcond
    cases h : step s with
    | inl s' =>
      rw [h] at hrun hrest
      exact ih hrun (hstep s s' hs hc h) hrest
    | inr r' =>
      rw [h] at hrun
      exact ⟨s, hs, hc, h.trans (congrArg Sum.inr (Option.some.inj hrun))⟩

/-- A flag that each step sets exactly where it leaves the condition tells at the end of a run
whether the run kept to the condition. -/
theorem run_flag {ι : Type} {Flag cond : ι → S → Prop}
    (hstep : ∀ s s', Inv s → step s = .inl s' → Inv s' ∧ ∀ i, Flag i s' ↔ Flag i s ∨ ¬ cond i s)
    {r : R} (hret : ∀ s, Inv s → step s = .inr r → ∀ i, cond i s)
    (hrun : run step fuel s = some r) (hs : Inv s) : ∃ s', Inv s' ∧ step s' = .inr r ∧
      ∀ i, Flag i s' ↔ Flag i s ∨ ¬ Along step (cond i) fuel s := by
  induction fuel generalizing s with
  | zero => cases hrun
  | succ fuel ih =>
    rw [run] at hrun
    cases h : step s with
    | inl s₁ =>
      rw [h] at hrun
      obtain ⟨hs₁, hflag₁⟩ := hstep s s₁ hs h
      obtain ⟨s', hs', hr, hflag⟩ := ih hrun hs₁
      refine ⟨s', hs', hr, fun i => ?_⟩
      rw [hflag i, hflag₁ i, Along, h, or_assoc, Classical.not_and_iff_not_or_not]
    | inr r' =>
      rw [h] at hrun
      obtain rfl := Option.some.inj hrun
      refine ⟨s, hs, h, fun i => ?_⟩
      have hcond := hret s hs h i
      simp [Along, h, hcond]

/-! ### Runs that come to an end -/

theorem run_mono {fuel' : Nat} {r : R} (h : run step fuel s = some r) (hle : fuel ≤ fuel') :
    run step fuel' s = some r := by
  induction fuel generalizing fuel' s with
  | zero => cases h
  | succ fuel ih =>
    obtain ⟨fuel', rfl⟩ := Nat.exists_eq_add_of_le' (Nat.le_of_add_left_le hle)
    rw [run] at h ⊢
    cases hs : step s with
    | inl s' =>
      rw [hs] at h
      exact ih h (Nat.le_of_succ_le_succ hle)
    | inr r' =>
      rw [hs] at h
      exact h

theorem run_of_decreasing {μ : S → Nat}
    (hstep : ∀ s s', Inv s → step s = .inl s' → Inv s' ∧ μ s' < μ s) (hs : Inv s)
    (hfuel : μ s < fuel) : ∃ r, run step fuel s = some r := by
  induction fuel generalizing s with
  | zero => exact absurd hfuel (Nat.not_lt_zero _)
  | succ fuel ih =>
    rw [run]
    cases h : step s with
    | inl s' =>
      obtain ⟨hs', hless⟩ := hstep s s' hs h
      exact ih hs' (Nat.lt_of_lt_of_le hless (Nat.le_of_lt_succ hfuel))
    | inr r => exact ⟨r, rfl⟩

/-- A run from the state returns a result with `G`, or comes to a state with `Q`. -/
inductive Leads (step : S → S ⊕ R) (G : R → Prop) (Q : S → Prop) : S → Prop where
  | here {s : S} (h : Q s) : Leads step G Q s
  | returns {s : S} (r : R) (hstep : step s = .inr r) (h : G r) : Leads step G Q s
  | move {s : S} (s' : S) (hstep : step s = .inl s') (h : Leads step G Q s') : Leads step G Q s

namespace Leads

variable {G : R → Prop} {Q Q' : S → Prop}

theorem trans (h : Leads step G Q s) (hQ : ∀ s, Q s → Leads step G Q' s) : Leads step G Q' s := by
  induction h with
  | here h => exact hQ _ h
  | returns r hstep h => exact .returns r hstep h
  | move s' hstep _ ih => exact .move s' hstep ih

theorem exists_run (h : Leads step G (fun _ => False) s) :
    ∃ fuel r, run step fuel s = some r ∧ G r := by
  induction h with
  | here h => exact h.elim
  | returns r hstep h => exact ⟨1, r, by rw [run, hstep], h⟩
  | move s' hstep _ ih =>
    obtain ⟨fuel, r, hrun, h⟩ := ih
    exact ⟨fuel + 1, r, by rw [run, hstep]; exact hrun, h⟩

end Leads

/-! ### Observations that a run never lowers -/

variable {O : Type} [PartialOrder O] {view : S → O} {result : R → O}

theorem run_observe_le (hmono : ∀ s, view s ≤ Sum.elim view result (step s)) {fuel : Nat} {s : S}
    {r : R} (hrun : run step fuel s = some r) : view s ≤ result r := by
  induction fuel generalizing s with
  | zero => cases hrun
  | succ fuel ih =>
    have hle := hmono s
    rw [run] at hrun
    cases h : step s with
    | inl s' =>
      rw [h] at hle hrun
      exact le_trans hle (ih hrun)
    | inr r' =>
      rw [h] at hle hrun
      cases hrun
      exact hle

theorem run_observe_eq_iff (hmono : ∀ s, view s ≤ Sum.elim view result (step s)) {cond : S → Prop}
    (hcond : ∀ s, cond s ↔ Sum.elim view result (step s) = view s) {fuel : Nat} {s : S} {r : R}
    (hrun : run step fuel s = some r) : result r = view s ↔ Along step cond fuel s := by
  induction fuel generalizing s with
  | zero => cases hrun
  | succ fuel ih =>
    have hle := hmono s
    rw [run] at hrun
    rw [Along, hcond]
    cases h : step s with
    | inl s' =>
      rw [h] at hle hrun
      have hrest : view s' ≤ result r := run_observe_le hmono hrun
      simp only [Sum.elim_inl] at hle ⊢
      rw [← ih hrun]
      constructor
      · intro hend
        -- The observation of the next state lies between two equal ones.
        have hnext : view s' = view s := le_antisymm (hend ▸ hrest) hle
        exact ⟨hnext, hend.trans hnext.symm⟩
      · rintro ⟨hnext, hend⟩
        exact hend.trans hnext
    | inr r' =>
      rw [h] at hrun
      cases hrun
      simp

end Machine
