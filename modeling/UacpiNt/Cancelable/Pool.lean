import Mathlib.Data.List.Nodup
import Mathlib.Data.List.Perm.Basic
import Mathlib.Logic.Function.Basic

/-!
# Requests that can be cancelled

Requests wait in a queue until somebody takes them off to complete them. A request that waits may
have a cancel routine, and whoever takes the routine owns the request: a cancellation, which then
has the routine run, or the owner of the queue, who then claims the request. A claimed request is
completed later, with a result that is known when it is claimed.

In a sound pool every request that was submitted is in one place: it waits, it is claimed, or it
was completed once. `free` says which requests wait without a cancel routine.
-/

namespace Cancelable

open List Function

/-- A request: whether it was submitted, whether it was asked to be cancelled, whether its cancel
routine is set, whether the routine was taken by a cancellation and has not run yet, and the results
it was completed with. -/
structure Request (ρ : Type*) where
  submitted : Bool
  cancel : Bool
  routine : Bool
  cancelling : Bool
  completions : List ρ

/-- The requests, the queue of those that wait, and those that are claimed with their results. -/
structure Pool (ι ρ : Type*) where
  requests : ι → Request ρ
  queue : List ι
  claimed : List (ι × ρ)

namespace Pool

variable {ι ρ : Type*} [DecidableEq ι]

section

variable (p : Pool ι ρ) (i : ι) (result : ρ)

def set (request : Request ρ) : Pool ι ρ :=
  { p with requests := Function.update p.requests i request }

def requestCancel : Pool ι ρ :=
  if (p.requests i).routine then
    p.set i { p.requests i with cancel := true, routine := false, cancelling := true }
  else p.set i { p.requests i with cancel := true }

def reject : Pool ι ρ :=
  p.set i { p.requests i with
    submitted := true, completions := result :: (p.requests i).completions }

def pend (routine : Bool) : Pool ι ρ :=
  { p.set i { p.requests i with submitted := true, routine := routine } with
    queue := p.queue ++ [i] }

def claim : Pool ι ρ :=
  { p.set i { p.requests i with routine := false } with
    queue := p.queue.erase i, claimed := p.claimed ++ [(i, result)] }

def unlink : Pool ι ρ := { p with queue := p.queue.erase i }

def runRoutine : Pool ι ρ :=
  { p.set i { p.requests i with
      cancelling := false, completions := result :: (p.requests i).completions } with
    queue := p.queue.erase i }

def finish (k : Nat) : Option (Pool ι ρ) :=
  p.claimed[k]?.map fun c =>
    { p.set c.1 { p.requests c.1 with completions := c.2 :: (p.requests c.1).completions } with
      claimed := p.claimed.eraseIdx k }

/-- Go over requests in the queue and claim those that are free of a cancel routine or whose routine
is still set. The others are left to their routines, and taken off the queue if `unlinks`. -/
def sweep (free : ι → Bool) (unlinks : Bool) (result : ι → ρ) : List ι → Pool ι ρ → Pool ι ρ
  | [], p => p
  | i :: rest, p =>
    sweep free unlinks result rest <|
      if free i || (p.requests i).routine then p.claim i (result i)
      else if unlinks then p.unlink i else p

/-- Somebody has the request wait: it is in the queue, or its cancel routine is about to run. -/
def waits : Bool := p.queue.contains i || (p.requests i).cancelling

def claims : Nat := p.claimed.countP fun c => decide (c.1 = i)

/-- Every request that was submitted waits, is claimed or was completed, one of these and once; a
cancel routine that is set belongs to a request in the queue; and a request in the queue has its
routine set, or about to run, unless it is free of one. -/
structure Sound (free : ι → Bool) (p : Pool ι ρ) : Prop where
  nodup : p.queue.Nodup
  counted : ∀ i, (p.requests i).completions.length + p.claims i + (p.waits i).toNat =
    (p.requests i).submitted.toNat
  routine : ∀ i, (p.requests i).routine = true → i ∈ p.queue ∧ (p.requests i).cancelling = false
  guarded : ∀ i ∈ p.queue, ((p.requests i).routine || (p.requests i).cancelling) = !free i

def Owned : Prop := ∀ i ∈ p.queue, (p.requests i).cancelling = true

end

structure Fresh (p : Pool ι ρ) : Prop where
  queue : p.queue = []
  claimed : p.claimed = []
  requests : ∀ i, (p.requests i).submitted = false ∧ (p.requests i).routine = false ∧
    (p.requests i).cancelling = false ∧ (p.requests i).completions = []

variable {free : ι → Bool} {p p' : Pool ι ρ} {i : ι}

theorem sound_of_fresh (hp : p.Fresh) (free : ι → Bool) : p.Sound free where
  nodup := by simp [hp.queue]
  counted := fun i => by
    obtain ⟨hsubm, -, hcan, hcomps⟩ := hp.requests i
    simp [claims, waits, hp.queue, hp.claimed, hsubm, hcan, hcomps]
  routine := fun i h => by simp [(hp.requests i).2.1] at h
  guarded := fun i h => by simp [hp.queue] at h

namespace Sound

variable (hp : p.Sound free)

include hp

theorem update (i : ι) (hnd : p'.queue.Nodup)
    (hoth : ∀ j ≠ i, p'.requests j = p.requests j ∧ (j ∈ p'.queue ↔ j ∈ p.queue) ∧
      p'.claims j = p.claims j)
    (hcount : (p'.requests i).completions.length + p'.claims i + (p'.waits i).toNat =
      (p'.requests i).submitted.toNat)
    (hrout : (p'.requests i).routine = true → i ∈ p'.queue ∧ (p'.requests i).cancelling = false)
    (hgd : i ∈ p'.queue → ((p'.requests i).routine || (p'.requests i).cancelling) = !free i) :
    p'.Sound free where
  nodup := hnd
  counted := fun j => by
    by_cases hj : j = i
    · subst hj
      exact hcount
    obtain ⟨hreq, hqueue, hcl⟩ := hoth j hj
    have hwaits : p'.waits j = p.waits j := by
      rw [waits, waits, hreq, contains_eq_mem, contains_eq_mem,
        decide_eq_decide.2 hqueue]
    rw [hreq, hcl, hwaits]
    exact hp.counted j
  routine := fun j h => by
    by_cases hj : j = i
    · subst hj
      exact hrout h
    obtain ⟨hreq, hqueue, -⟩ := hoth j hj
    rw [hreq] at h ⊢
    rw [hqueue]
    exact hp.routine j h
  guarded := fun j h => by
    by_cases hj : j = i
    · subst hj
      exact hgd h
    · obtain ⟨hreq, hqueue, -⟩ := hoth j hj
      rw [hreq]
      exact hp.guarded j (hqueue.1 h)

theorem not_waits (h : (p.requests i).submitted = false) :
    (p.requests i).completions = [] ∧ p.claims i = 0 ∧ p.waits i = false := by
  have hcount := hp.counted i
  rw [h, Bool.toNat_false] at hcount
  refine ⟨length_eq_zero_iff.1 (by omega), by omega, Bool.toNat_eq_zero.1 (by omega)⟩

theorem of_waits (h : p.waits i = true) :
    (p.requests i).completions = [] ∧ p.claims i = 0 ∧ (p.requests i).submitted = true := by
  have hcount := hp.counted i
  have hle := Bool.toNat_le (p.requests i).submitted
  rw [h, Bool.toNat_true] at hcount
  exact ⟨length_eq_zero_iff.1 (by omega), by omega, Bool.toNat_eq_one.1 (by omega)⟩

theorem requestCancel (i : ι) : (p.requestCancel i).Sound free := by
  have hcount := hp.counted i
  rw [Pool.requestCancel]
  split <;> rename_i hrout
  · have hqueue := (hp.routine i hrout).1
    have hgd := hp.guarded i hqueue
    refine hp.update i hp.nodup (fun j hj => ?_) ?_ ?_ ?_
    · exact ⟨update_of_ne hj _ _, Iff.rfl, rfl⟩
    · simpa [set, waits, claims, hqueue] using hcount
    · simp [set]
    · simpa [set, hrout] using fun _ => hgd
  · refine hp.update i hp.nodup (fun j hj => ?_) ?_ ?_ ?_
    · exact ⟨update_of_ne hj _ _, Iff.rfl, rfl⟩
    · simpa [set, waits, claims] using hcount
    · simp [set, hrout]
    · simpa [set] using hp.guarded i

theorem reject (h : (p.requests i).submitted = false) (result : ρ) :
    (p.reject i result).Sound free := by
  obtain ⟨hcomps, hcl, hwaits⟩ := hp.not_waits h
  have hrout := hp.routine i
  have hsame : (p.reject i result).claims i = p.claims i ∧
      (p.reject i result).waits i = p.waits i := by simp [Pool.reject, set, waits, claims]
  refine hp.update i hp.nodup (fun j hj => ?_) ?_ ?_ ?_
  · exact ⟨update_of_ne hj _ _, Iff.rfl, rfl⟩
  · rw [hsame.1, hsame.2, hcl, hwaits]
    simp [Pool.reject, set, hcomps]
  · simpa [Pool.reject, set] using hrout
  · simpa [Pool.reject, set] using hp.guarded i

theorem pend (h : (p.requests i).submitted = false) : (p.pend i !free i).Sound free := by
  obtain ⟨hcomps, hcl, hwaits⟩ := hp.not_waits h
  simp only [waits, Bool.or_eq_false_iff, contains_eq_mem, decide_eq_false_iff_not] at hwaits
  refine hp.update i ?_ (fun j hj => ?_) ?_ ?_ ?_
  · rw [Pool.pend, ← concat_eq_append]
    exact hp.nodup.concat hwaits.1
  · exact ⟨update_of_ne hj _ _, by simp [Pool.pend, hj], rfl⟩
  · simpa [Pool.pend, set, waits, claims, hcomps] using hcl
  · simp [Pool.pend, set, hwaits.2]
  · simp [Pool.pend, set, hwaits.2]

theorem claim (hqueue : i ∈ p.queue) (hcan : (p.requests i).cancelling = false) (result : ρ) :
    (p.claim i result).Sound free := by
  obtain ⟨hcomps, hcl, hsubm⟩ := hp.of_waits (i := i) (by simp [waits, hqueue])
  have hgone : i ∉ p.queue.erase i := hp.nodup.not_mem_erase
  refine hp.update i (hp.nodup.erase i) (fun j hj => ?_) ?_ ?_ fun hi => absurd hi hgone
  · refine ⟨update_of_ne hj _ _, mem_erase_of_ne hj, ?_⟩
    simp [Pool.claim, claims, hj.symm]
  · rw [claims] at hcl
    simp [Pool.claim, set, waits, claims, hcomps, hcl, hsubm, hcan, hgone]
  · simp [Pool.claim, set]

theorem routine_eq_false (hcan : (p.requests i).cancelling = true) :
    (p.requests i).routine = false := by
  cases hrout : (p.requests i).routine with
  | false => rfl
  | true => exact absurd (hp.routine i hrout).2 (by simp [hcan])

theorem unlink (hcan : (p.requests i).cancelling = true) : (p.unlink i).Sound free := by
  have hcount := hp.counted i
  have hrout := hp.routine_eq_false hcan
  have hgone : i ∉ p.queue.erase i := hp.nodup.not_mem_erase
  refine hp.update i (hp.nodup.erase i) (fun j hj => ?_) ?_ ?_ fun hi => absurd hi hgone
  · exact ⟨rfl, mem_erase_of_ne hj, rfl⟩
  · simpa [Pool.unlink, waits, claims, hcan] using hcount
  · simp [Pool.unlink, hrout]

theorem runRoutine (hcan : (p.requests i).cancelling = true) (result : ρ) :
    (p.runRoutine i result).Sound free := by
  obtain ⟨hcomps, hcl, hsubm⟩ := hp.of_waits (i := i) (by simp [waits, hcan])
  have hrout := hp.routine_eq_false hcan
  have hgone : i ∉ p.queue.erase i := hp.nodup.not_mem_erase
  refine hp.update i (hp.nodup.erase i) (fun j hj => ?_) ?_ ?_ fun hi => absurd hi hgone
  · exact ⟨update_of_ne hj _ _, mem_erase_of_ne hj, rfl⟩
  · rw [claims] at hcl
    simp [Pool.runRoutine, set, waits, claims, hcomps, hcl, hsubm, hgone]
  · simp [Pool.runRoutine, set, hrout]

theorem finish {k : Nat} (h : p.finish k = some p') : p'.Sound free := by
  obtain ⟨c, hc, rfl⟩ := Option.map_eq_some_iff.1 h
  obtain ⟨hk, hget⟩ := List.getElem?_eq_some_iff.1 hc
  have hperm : (c :: p.claimed.eraseIdx k).Perm p.claimed :=
    hget ▸ getElem_cons_eraseIdx_perm hk
  have hcl : ∀ j, (p.claimed.eraseIdx k).countP (fun c => decide (c.1 = j)) +
      (if c.1 = j then 1 else 0) = p.claims j := by
    intro j
    rw [claims, ← hperm.countP_eq, countP_cons]
    simp
  have hcount := hp.counted c.1
  have hone := hcl c.1
  rw [if_pos rfl] at hone
  refine hp.update c.1 hp.nodup (fun j hj => ?_) ?_ ?_ ?_
  · refine ⟨update_of_ne hj _ _, Iff.rfl, ?_⟩
    have hj' := hcl j
    rwa [if_neg hj.symm] at hj'
  · simp only [set, waits, claims, update_self, length_cons] at hcount hone ⊢
    omega
  · simpa [set] using hp.routine c.1
  · simpa [set] using hp.guarded c.1

theorem cancelling_of_left (hqueue : i ∈ p.queue)
    (h : ¬ (free i || (p.requests i).routine) = true) : (p.requests i).cancelling = true := by
  have hgd := hp.guarded i hqueue
  rw [Bool.not_eq_true, Bool.or_eq_false_iff] at h
  simpa [h.1, h.2] using hgd

theorem not_cancelling_of_taken (hqueue : i ∈ p.queue)
    (h : (free i || (p.requests i).routine) = true) : (p.requests i).cancelling = false := by
  rcases Bool.or_eq_true_iff.1 h with hfree | hrout
  · have hgd := hp.guarded i hqueue
    rw [hfree, Bool.not_true, Bool.or_eq_false_iff] at hgd
    exact hgd.2
  · exact (hp.routine i hrout).2

end Sound

section

variable (free) (unlinks : Bool) (result : ι → ρ) (l : List ι)

theorem sweep_requests (p : Pool ι ρ) (j : ι) :
    ∃ routine, (sweep free unlinks result l p).requests j =
      { p.requests j with routine := routine } := by
  induction l generalizing p with
  | nil => exact ⟨_, rfl⟩
  | cons i rest ih =>
    obtain ⟨routine, hrest⟩ := ih (if free i || (p.requests i).routine then p.claim i (result i)
      else if unlinks then p.unlink i else p)
    refine ⟨routine, ?_⟩
    rw [sweep, hrest]
    split
    · by_cases hj : j = i
      · subst hj
        simp [claim, set]
      · simp [claim, set, hj]
    · split <;> rfl

theorem sweep_cancelling (p : Pool ι ρ) (j : ι) :
    ((sweep free unlinks result l p).requests j).cancelling = (p.requests j).cancelling := by
  obtain ⟨routine, hreq⟩ := sweep_requests free unlinks result l p j
  rw [hreq]

end

/-- A sweep keeps the pool sound, and of the requests it goes over it leaves only those in the
queue that their cancel routines own, and not even those if it unlinks them. -/
theorem Sound.sweep (hp : p.Sound free) (unlinks : Bool) (result : ι → ρ) {l : List ι}
    (hl : l.Nodup) (hqueue : ∀ i ∈ l, i ∈ p.queue) :
    (Pool.sweep free unlinks result l p).Sound free ∧
    ∀ i ∈ (Pool.sweep free unlinks result l p).queue, i ∈ p.queue ∧
      (i ∈ l → unlinks = false ∧ (p.requests i).cancelling = true) := by
  induction l generalizing p with
  | nil => exact ⟨hp, fun i hi => ⟨hi, fun h => by cases h⟩⟩
  | cons i rest ih =>
    have hi := hqueue i mem_cons_self
    have hrest : ∀ j ∈ rest, j ≠ i ∧ j ∈ p.queue := fun j hj =>
      ⟨fun h => (nodup_cons.1 hl).1 (h ▸ hj), hqueue j (mem_cons_of_mem i hj)⟩
    -- The rest of the sweep starts from a sound pool whose queue has the rest of the requests.
    have hgo : ∀ p' : Pool ι ρ, p'.Sound free → (∀ j, j ∈ p'.queue → j ∈ p.queue) →
        (∀ j ∈ rest, j ∈ p'.queue) →
        (∀ j, (p'.requests j).cancelling = (p.requests j).cancelling) →
        (i ∈ p'.queue → unlinks = false ∧ (p.requests i).cancelling = true) →
        (Pool.sweep free unlinks result rest p').Sound free ∧
        ∀ j ∈ (Pool.sweep free unlinks result rest p').queue, j ∈ p.queue ∧
          (j ∈ i :: rest → unlinks = false ∧ (p.requests j).cancelling = true) := by
      intro p' hp' hsub hrest' hsame hhead
      obtain ⟨hsound, hleft⟩ := ih hp' (nodup_cons.1 hl).2 hrest'
      refine ⟨hsound, fun j hj => ?_⟩
      obtain ⟨hj', hcanc⟩ := hleft j hj
      refine ⟨hsub j hj', fun hmem => ?_⟩
      rcases mem_cons.1 hmem with rfl | hmem
      · exact hhead hj'
      · rw [← hsame j]
        exact hcanc hmem
    have hgone : i ∉ p.queue.erase i := hp.nodup.not_mem_erase
    rw [Pool.sweep]
    split
    · rename_i htaken
      refine hgo _ (hp.claim hi (hp.not_cancelling_of_taken hi htaken) (result i))
        (fun j hj => mem_of_mem_erase hj)
        (fun j hj => (mem_erase_of_ne (hrest j hj).1).2 (hrest j hj).2)
        (fun j => ?_) fun h => absurd h hgone
      by_cases hj : j = i
      · subst hj
        simp [Pool.claim, set]
      · simp [Pool.claim, set, hj]
    · rename_i hleft
      have hcan := hp.cancelling_of_left hi hleft
      split
      · exact hgo _ (hp.unlink hcan) (fun j hj => mem_of_mem_erase hj)
          (fun j hj => (mem_erase_of_ne (hrest j hj).1).2 (hrest j hj).2)
          (fun _ => rfl) fun h => absurd h hgone
      · rename_i hunl
        exact hgo _ hp (fun _ hj => hj) (fun j hj => (hrest j hj).2) (fun _ => rfl)
          fun _ => ⟨Bool.eq_false_iff.2 hunl, hcan⟩

theorem Sound.owned_sweep (hp : p.Sound free) (unlinks : Bool) (result : ι → ρ) :
    (Pool.sweep free unlinks result p.queue p).Owned := by
  intro i hi
  obtain ⟨hqueue, hleft⟩ := (hp.sweep unlinks result hp.nodup fun _ hj => hj).2 i hi
  rw [sweep_cancelling]
  exact (hleft hqueue).2

namespace Owned

theorem reject (hp : p.Owned) (i : ι) (result : ρ) : (p.reject i result).Owned := by
  intro j hj
  by_cases hji : j = i
  · subst hji
    simpa [Pool.reject, set] using hp j hj
  · simpa [Pool.reject, set, hji] using hp j hj

theorem requestCancel (hp : p.Owned) (i : ι) : (p.requestCancel i).Owned := by
  rw [Pool.requestCancel]
  split <;> intro j hj
  · by_cases hji : j = i
    · subst hji
      simp [set]
    · simpa [set, hji] using hp j hj
  · by_cases hji : j = i
    · subst hji
      simpa [set] using hp j hj
    · simpa [set, hji] using hp j hj

theorem runRoutine (hp : p.Owned) (hnd : p.queue.Nodup) (i : ι) (result : ρ) :
    (p.runRoutine i result).Owned := by
  intro j hj
  obtain ⟨hji, hqueue⟩ := hnd.mem_erase_iff.1 hj
  simpa [Pool.runRoutine, set, hji] using hp j hqueue

theorem finish (hp : p.Owned) {k : Nat} (h : p.finish k = some p') : p'.Owned := by
  obtain ⟨c, -, rfl⟩ := Option.map_eq_some_iff.1 h
  intro j hj
  by_cases hjc : j = c.1
  · subst hjc
    simpa [set] using hp c.1 hj
  · simpa [set, hjc] using hp j hj

end Owned

/-! ### Where cancel routines are set -/

theorem routine_of_reject {j : ι} {result : ρ}
    (h : ((p.reject i result).requests j).routine = true) : (p.requests j).routine = true := by
  by_cases hj : j = i
  · subst hj
    simpa [reject, set] using h
  · simpa [reject, set, hj] using h

theorem routine_of_requestCancel {j : ι}
    (h : ((p.requestCancel i).requests j).routine = true) : (p.requests j).routine = true := by
  rw [requestCancel] at h
  by_cases hj : j = i
  · subst hj
    split at h
    · assumption
    · simpa [set] using h
  · split at h <;> simpa [set, hj] using h

theorem routine_of_runRoutine {j : ι} {result : ρ}
    (h : ((p.runRoutine i result).requests j).routine = true) : (p.requests j).routine = true := by
  by_cases hj : j = i
  · subst hj
    simpa [runRoutine, set] using h
  · simpa [runRoutine, set, hj] using h

section

variable (i) {k : Nat} (j : ι) (result result' : ρ)

theorem routine_of_finish {j : ι} (hfin : p.finish k = some p')
    (h : (p'.requests j).routine = true) :
    (p.requests j).routine = true := by
  obtain ⟨c, -, rfl⟩ := Option.map_eq_some_iff.1 hfin
  by_cases hj : j = c.1
  · subst hj
    simpa [set] using h
  · simpa [set, hj] using h

theorem Sound.routine_sweep (hp : p.Sound free) (unlinks : Bool) (result : ι → ρ) (j : ι) :
    ((Pool.sweep free unlinks result p.queue p).requests j).routine = false := by
  rw [Bool.eq_false_iff]
  intro hrout
  have hsound := (hp.sweep unlinks result hp.nodup fun _ hi => hi).1
  obtain ⟨hqueue, hcan⟩ := hsound.routine j hrout
  rw [hp.owned_sweep unlinks result j hqueue] at hcan
  cases hcan

/-! ### What a request returns -/

def Returns (p : Pool ι ρ) (i : ι) (result : ρ) : Prop :=
  (i, result) ∈ p.claimed ∨ result ∈ (p.requests i).completions

theorem returns_requestCancel : (p.requestCancel i).Returns j result ↔ p.Returns j result := by
  rw [requestCancel]
  by_cases hj : j = i
  · subst hj
    split <;> simp [Returns, set]
  · split <;> simp [Returns, set, hj]

theorem returns_pend (routine : Bool) (result : ρ) :
    (p.pend i routine).Returns j result ↔ p.Returns j result := by
  by_cases hj : j = i
  · subst hj
    simp [Returns, pend, set]
  · simp [Returns, pend, set, hj]

theorem returns_reject :
    (p.reject i result).Returns j result' ↔ p.Returns j result' ∨ j = i ∧ result' = result := by
  by_cases hj : j = i
  · subst hj
    simp only [Returns, reject, set, update_self, mem_cons]
    tauto
  · simp [Returns, reject, set, hj]

theorem returns_claim :
    (p.claim i result).Returns j result' ↔ p.Returns j result' ∨ j = i ∧ result' = result := by
  by_cases hj : j = i
  · subst hj
    simp only [Returns, claim, set, update_self, mem_append, mem_singleton,
      Prod.mk.injEq]
    tauto
  · simp [Returns, claim, set, hj]

theorem returns_runRoutine :
    (p.runRoutine i result).Returns j result' ↔ p.Returns j result' ∨ j = i ∧ result' = result := by
  by_cases hj : j = i
  · subst hj
    simp only [Returns, runRoutine, set, update_self, mem_cons]
    tauto
  · simp [Returns, runRoutine, set, hj]

theorem returns_finish (h : p.finish k = some p') (j : ι) (result : ρ) :
    p'.Returns j result ↔ p.Returns j result := by
  obtain ⟨c, hc, rfl⟩ := Option.map_eq_some_iff.1 h
  obtain ⟨hk, hget⟩ := List.getElem?_eq_some_iff.1 hc
  have hperm : (c :: p.claimed.eraseIdx k).Perm p.claimed :=
    hget ▸ getElem_cons_eraseIdx_perm hk
  have hmem : (j, result) ∈ p.claimed ↔ (j, result) = c ∨ (j, result) ∈ p.claimed.eraseIdx k := by
    rw [← hperm.mem_iff, mem_cons]
  rw [Returns, Returns, hmem]
  by_cases hj : j = c.1
  · subst hj
    simp only [set, update_self, mem_cons, Prod.ext_iff]
    tauto
  · simp [set, hj, Prod.ext_iff]

end

theorem returns_sweep (free : ι → Bool) (unlinks : Bool) (result : ι → ρ) (l : List ι)
    (p : Pool ι ρ) (j : ι) {result' : ρ} (hothe : result' ≠ result j) :
    (sweep free unlinks result l p).Returns j result' ↔ p.Returns j result' := by
  induction l generalizing p with
  | nil => rfl
  | cons i rest ih =>
    rw [sweep, ih]
    split
    · rw [returns_claim]
      constructor
      · rintro (h | ⟨rfl, h⟩)
        · exact h
        · exact absurd h hothe
      · exact .inl
    · split <;> exact Iff.rfl

end Pool

end Cancelable
