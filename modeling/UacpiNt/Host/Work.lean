import UacpiNt.Host.Semaphore
import Mathlib.Logic.Function.Basic

/-!
# Draining the work items

Work that is scheduled is counted in `UacpiNtHostWorkOutstanding` before it can run: it is queued at
once or, above DISPATCH_LEVEL, handed over to the DPC, and is not counted any more only after its
handler has returned. A waiter returns when it reads zero. The event that the last work item sets
only wakes the waiter up, and each round clears the event before it reads the count.

The count is a 32-bit integer, so it is also zero while 2³² work items are under way.
-/

namespace UacpiNt

open Machine

/-- Where scheduled work is: about to be queued, about to be pushed on the pending list, on that
list, popped by the DPC, in the work queue, in its handler, and past it. -/
inductive WorkStage where
  | queueing
  | deferring
  | pending
  | popped
  | queued
  | running
  | finishing
deriving DecidableEq, Repr

inductive WaitStage where
  | idle
  | flushing
  | clearing
  | reading
  | waiting
  | returned
deriving DecidableEq, Repr

/-- The work of the host. `signalling` counts the workers that are about to set the event,
`scheduled` the work that was counted and `finished` that whose handler has returned. -/
structure HostWork (κ : Type) where
  ready : Bool
  outstanding : UInt32
  drained : Bool
  inStage : WorkStage → Nat
  signalling : Nat
  scheduled : Nat
  finished : Nat
  waiters : κ → WaitStage

/-- What the processors do; `advance` moves one work item out of a stage, and `wait` is one step of
a waiter. -/
inductive WorkOp (κ : Type) where
  | schedule (irql : UInt8)
  | advance (stage : WorkStage)
  | setEvent
  | wait (waiter : κ)

namespace HostWork

variable {κ : Type}

def initialized : HostWork κ := ⟨true, 0, true, fun _ => 0, 0, 0, 0, fun _ => .idle⟩

def enter (s : HostWork κ) (stage : WorkStage) : HostWork κ :=
  { s with inStage := Function.update s.inStage stage (s.inStage stage + 1) }

def leave (s : HostWork κ) (stage : WorkStage) : HostWork κ :=
  { s with inStage := Function.update s.inStage stage (s.inStage stage - 1) }

def uacpiKernelScheduleWork (s : HostWork κ) (irql : UInt8) : HostWork κ :=
  { s.enter (if irql ≤ dispatchLevel then .queueing else .deferring) with
    outstanding := s.outstanding + 1
    scheduled := s.scheduled + 1 }

/-- What becomes of a work item next: `ExQueueWorkItem`, `UacpiNtHostDeferQueue`,
`UacpiNtHostDeferRoutine`, `UacpiNtHostWorkRoutine` and `UacpiNtHostWorkDone`. -/
def advance (s : HostWork κ) : WorkStage → HostWork κ
  | .queueing => (s.leave .queueing).enter .queued
  | .deferring => (s.leave .deferring).enter .pending
  | .pending => (s.leave .pending).enter .popped
  | .popped => (s.leave .popped).enter .queued
  | .queued => (s.leave .queued).enter .running
  | .running => { (s.leave .running).enter .finishing with finished := s.finished + 1 }
  | .finishing =>
    { s.leave .finishing with
      outstanding := s.outstanding - 1
      signalling := if s.outstanding - 1 = 0 then s.signalling + 1 else s.signalling }

variable [DecidableEq κ]

section

variable (s : HostWork κ) (k : κ)

def setWaiter (stage : WaitStage) : HostWork κ :=
  { s with waiters := Function.update s.waiters k stage }

/-- The next step of `uacpi_kernel_wait_for_work_completion`. The wait for the event may end at any
time, since it times out. -/
def uacpiKernelWaitForWorkCompletion : Option (HostWork κ) :=
  match s.waiters k with
  | .idle => some (s.setWaiter k .flushing)
  | .flushing => some (s.setWaiter k (if s.ready then .clearing else .returned))
  | .clearing => some { s.setWaiter k .reading with drained := false }
  | .reading => some (s.setWaiter k (if s.outstanding = 0 then .returned else .waiting))
  | .waiting => some (s.setWaiter k .clearing)
  | .returned => none

def step : WorkOp κ → Option (HostWork κ)
  | .schedule irql => some (s.uacpiKernelScheduleWork irql)
  | .advance stage => if s.inStage stage = 0 then none else some (s.advance stage)
  | .setEvent =>
    if s.signalling = 0 then none
    else some { s with signalling := s.signalling - 1, drained := true }
  | .wait k => s.uacpiKernelWaitForWorkCompletion k

def Countable : WorkOp κ → Prop
  | .schedule _ => s.outstanding ≠ 0xFFFFFFFF
  | .advance _ | .setEvent | .wait _ => True

instance : ∀ op, Decidable (s.Countable op)
  | .schedule _ => inferInstanceAs (Decidable (_ ≠ _))
  | .advance _ | .setEvent | .wait _ => inferInstanceAs (Decidable True)

def unfinished : Nat :=
  s.inStage .queueing + s.inStage .deferring + s.inStage .pending + s.inStage .popped +
    s.inStage .queued + s.inStage .running

end

/-- Work is counted until it is past its handler. -/
structure Counted (s : HostWork κ) : Prop where
  ready : s.ready = true
  outstanding : s.outstanding.toNat = s.unfinished + s.inStage .finishing
  scheduled : s.scheduled = s.unfinished + s.finished

variable {s s' : HostWork κ} {k : κ} {op : WorkOp κ}

omit [DecidableEq κ] in
theorem Counted.schedule (hs : s.Counted) (irql : UInt8) (h : s.outstanding ≠ 0xFFFFFFFF) :
    (s.uacpiKernelScheduleWork irql).Counted := by
  have hne : s.outstanding.toNat ≠ 0xFFFFFFFF := fun heq => h (UInt32.toNat_inj.mp heq)
  have hlt := s.outstanding.toNat_lt
  have hadd : (s.outstanding + 1).toNat = s.outstanding.toNat + 1 := by
    rw [UInt32.toNat_add, UInt32.toNat_one]
    omega
  obtain ⟨hready, houts, hsch⟩ := hs
  unfold uacpiKernelScheduleWork
  split
  all_goals
    refine ⟨hready, hadd.trans ?_, ?_⟩
    all_goals
      simp only [unfinished, enter] at *
      simp
      omega

omit [DecidableEq κ] in
theorem Counted.advance (hs : s.Counted) {stage : WorkStage} (h : s.inStage stage ≠ 0) :
    (s.advance stage).Counted := by
  obtain ⟨hready, houts, hsch⟩ := hs
  cases stage with
  | finishing =>
    have hsub : (s.outstanding - 1).toNat = s.outstanding.toNat - 1 := by
      rw [UInt32.toNat_sub_of_le, UInt32.toNat_one]
      rw [UInt32.le_iff_toNat_le, UInt32.toNat_one]
      omega
    refine ⟨hready, hsub.trans ?_, ?_⟩
    all_goals
      simp only [HostWork.advance, unfinished, leave] at *
      simp
      omega
  | queueing | deferring | pending | popped | queued | running =>
    refine ⟨hready, ?_, ?_⟩
    all_goals
      simp only [HostWork.advance, unfinished, enter, leave] at *
      simp
      omega

/-- Apart from scheduled work and from work that moves on, only the event and the waiters change,
and a waiter returns from the test of the count. -/
theorem step_cases (h : s.step op = some s') :
    (∃ irql, op = .schedule irql ∧ s' = s.uacpiKernelScheduleWork irql) ∨
    (∃ stage, s.inStage stage ≠ 0 ∧ s' = s.advance stage) ∨ ∃ drained signalling waiters,
      s' = { s with drained := drained, signalling := signalling, waiters := waiters } ∧
      ∀ k, waiters k = .returned → s.waiters k = .returned ∨
        s.waiters k = .flushing ∧ s.ready = false ∨ s.waiters k = .reading ∧ s.outstanding = 0 := by
  cases op with
  | schedule irql =>
    cases h
    exact .inl ⟨irql, rfl, rfl⟩
  | advance stage =>
    obtain ⟨hne, rfl⟩ : s.inStage stage ≠ 0 ∧ s.advance stage = s' := by simpa [step] using h
    exact .inr (.inl ⟨stage, hne, rfl⟩)
  | setEvent =>
    obtain ⟨-, rfl⟩ : s.signalling ≠ 0 ∧
        { s with signalling := s.signalling - 1, drained := true } = s' := by simpa [step] using h
    exact .inr (.inr ⟨_, _, _, rfl, fun _ => .inl⟩)
  | wait k' =>
    rw [step, uacpiKernelWaitForWorkCompletion] at h
    split at h <;> cases h
    all_goals
      refine .inr (.inr ⟨_, _, _, rfl, fun k hk => ?_⟩)
      by_cases heq : k = k'
      · simp_all [setWaiter]
      · exact .inl ((Function.update_of_ne heq _ _).symm.trans hk)

theorem Counted.step (hs : s.Counted) (h : s.step op = some s') (hop : s.Countable op) :
    s'.Counted := by
  rcases step_cases h with ⟨irql, rfl, rfl⟩ | ⟨stage, hne, rfl⟩ | ⟨-, -, -, rfl, -⟩
  · exact hs.schedule irql hop
  · exact hs.advance hne
  · exact ⟨hs.ready, hs.outstanding, hs.scheduled⟩

theorem outstanding_of_returned (hs : s.Counted) (h : s.step op = some s')
    (hwaits : s.waiters k ≠ .returned) (hret : s'.waiters k = .returned) :
    s.waiters k = .reading ∧ s.outstanding = 0 := by
  rcases step_cases h with ⟨irql, -, rfl⟩ | ⟨stage, -, rfl⟩ | ⟨_, _, waiters, rfl, hretu⟩
  · exact absurd hret hwaits
  · have hsame : (s.advance stage).waiters = s.waiters := by cases stage <;> rfl
    exact absurd (hsame ▸ hret) hwaits
  rcases hretu k hret with hdone | ⟨-, hready⟩ | hread
  · exact absurd hdone hwaits
  · exact absurd (hready.symm.trans hs.ready) Bool.false_ne_true
  · exact hread

/-- Over every interleaving in which the work fits the count, a waiter returns only after an
instant, later than its start, at which all the work that was scheduled up to then has finished. -/
theorem work_drained_before_return {ops : List (WorkOp κ)}
    (hexec : exec step ops initialized = some s')
    (hcountable : Throughout step (fun s op _ => s.Countable op) ops initialized)
    (hreturned : s'.waiters k = .returned) :
    ∃ before after s, ops = before ++ after ∧ exec step before initialized = some s ∧
      s.waiters k ≠ .idle ∧ s.waiters k ≠ .returned ∧
      s.unfinished = 0 ∧ s.finished = s.scheduled := by
  obtain ⟨before, op, after, s, t, rfl, hbefore, hstep, hwaits, hreturns⟩ :=
    exists_step (P := fun s => s.waiters k = .returned) hexec (fun h => by cases h) hreturned
  have hcounted : s.Counted := exec_invariant (fun _ _ _ hs h hop => hs.step h hop) hbefore
    ⟨rfl, rfl, rfl⟩ ((throughout_append hbefore).1 hcountable).1
  obtain ⟨hreading, hzero⟩ := outstanding_of_returned hcounted hstep hwaits hreturns
  have hnone : s.unfinished = 0 := by
    have houtstanding := hcounted.outstanding
    rw [hzero, UInt32.toNat_zero] at houtstanding
    omega
  refine ⟨before, op :: after, s, rfl, hbefore, ?_, hwaits, hnone, ?_⟩
  · rw [hreading]
    decide
  · rw [hcounted.scheduled, hnone, Nat.zero_add]

/-- Work that is scheduled at device level and schedules more before it finishes is drained by a
waiter that came before it. -/
theorem rescheduled_work_drained :
    ∃ ops : List (WorkOp Unit), ∃ s', exec step ops initialized = some s' ∧
      s'.waiters () = .returned ∧ s'.scheduled = 2 ∧
      ∃ before after s, ops = before ++ after ∧ exec step before initialized = some s ∧
        s.waiters () ≠ .idle ∧ s.waiters () ≠ .returned ∧
        s.unfinished = 0 ∧ s.finished = s.scheduled :=
  ⟨[.wait (), .schedule 5, .wait (), .wait (), .wait (), .advance .deferring, .advance .pending,
    .advance .popped, .advance .queued, .schedule 0, .advance .running, .advance .finishing,
    .wait (), .wait (), .wait (), .advance .queueing, .advance .queued, .advance .running,
    .advance .finishing, .setEvent, .wait (), .wait (), .wait ()], _, rfl, rfl, rfl,
    work_drained_before_return rfl (by decide) rfl⟩

theorem exec_schedules (n : Nat) (s : HostWork κ) :
    exec step (List.replicate n (.schedule 0)) s = some { s with
      inStage := Function.update s.inStage .queueing (s.inStage .queueing + n)
      outstanding := s.outstanding + .ofNat n
      scheduled := s.scheduled + n } := by
  induction n generalizing s with
  | zero => simp [exec]
  | succ n ih =>
    rw [List.replicate_succ, exec, HostWork.step, Option.bind_some, ih]
    simp only [uacpiKernelScheduleWork, enter, UInt32.ofNat_add, if_pos, UInt8.zero_le,
      Function.update_self, Function.update_idem, Option.some.injEq, HostWork.mk.injEq, true_and,
      and_true]
    refine ⟨?_, ?_, ?_⟩
    · rw [UInt32.add_assoc, UInt32.add_comm 1]
      rfl
    · rw [Nat.add_assoc, Nat.add_comm 1]
    · omega

/-- A waiter that comes while 2³² work items are queued returns before any of them has run. -/
theorem waiter_returns_before_work :
    ∃ s : HostWork Unit, exec step (List.replicate (2 ^ 32) (.schedule 0)) initialized = some s ∧
      s.waiters () = .idle ∧ s.scheduled = 2 ^ 32 ∧
      ∃ s', exec step (List.replicate 4 (.wait ())) s = some s' ∧
        s'.waiters () = .returned ∧ s'.scheduled = 2 ^ 32 ∧ s'.finished = 0 := by
  have hrun := exec_schedules (2 ^ 32) (initialized (κ := Unit))
  exact ⟨_, hrun, rfl, rfl, _, rfl, rfl, rfl, rfl⟩

end HostWork

end UacpiNt
