import UacpiNt.Machine.Operations

/-!
# Events of the embedded controller

The GPE handler sets `WorkQueued` and inserts the DPC if the flag was clear, the DPC queues the work
item, and the worker clears the flag before it drains the queries. As long as the flag is set one
handler, DPC, work item or worker is on its way to a drain. A firing after the flag was cleared
starts another one, whose worker may overlap with the first.
-/

namespace UacpiNt

open Machine

/-- How far the events have come. `inserting` counts the handlers about to insert the DPC,
`queueing` the DPCs about to queue the work item, `starting` the workers that have not cleared the
flag and `cleared` those about to drain. `drains` has the number of firings before each drain. -/
structure EcEvents where
  workQueued : Bool
  inserting : Nat
  dpcQueued : Bool
  queueing : Nat
  itemQueued : Bool
  starting : Nat
  cleared : Nat
  firings : Nat
  drains : List Nat
deriving DecidableEq, Repr

/-- The interlocked exchange and the insertion of `UacpiNtEcGpeHandler`, the start and the queueing
of `UacpiNtEcQueryDpc`, and the start, the interlocked exchange and the drain of
`UacpiNtEcQueryWorker`. -/
inductive EcEventOp where
  | fire
  | insertDpc
  | startDpc
  | queueItem
  | startWorker
  | clearFlag
  | drain
deriving DecidableEq, Repr

namespace EcEvents

def idle : EcEvents := ⟨false, 0, false, 0, false, 0, 0, 0, []⟩

def step (s : EcEvents) : EcEventOp → Option EcEvents
  | .fire =>
    some { s with
      workQueued := true
      inserting := if s.workQueued then s.inserting else s.inserting + 1
      firings := s.firings + 1 }
  | .insertDpc =>
    if s.inserting = 0 then none
    else some { s with inserting := s.inserting - 1, dpcQueued := true }
  | .startDpc =>
    if s.dpcQueued then some { s with dpcQueued := false, queueing := s.queueing + 1 } else none
  | .queueItem =>
    if s.queueing = 0 then none
    else some { s with queueing := s.queueing - 1, itemQueued := true }
  | .startWorker =>
    if s.itemQueued then some { s with itemQueued := false, starting := s.starting + 1 } else none
  | .clearFlag =>
    if s.starting = 0 then none
    else some { s with
      workQueued := false
      starting := s.starting - 1
      cleared := s.cleared + 1 }
  | .drain =>
    if s.cleared = 0 then none
    else some { s with cleared := s.cleared - 1, drains := s.firings :: s.drains }

def DpcPending (s : EcEvents) : Prop := s.inserting ≠ 0 ∨ s.dpcQueued = true ∨ s.queueing ≠ 0

/-- A worker has begun its drain, or is going to begin it, after the given firing. -/
def DrainedAfter (s : EcEvents) (firing : Nat) : Prop :=
  s.starting ≠ 0 ∨ s.cleared ≠ 0 ∨ ∃ drain ∈ s.drains, firing < drain

/-- One handler, DPC, work item or worker for the flag, and a drain for each firing without it. -/
structure Sound (s : EcEvents) : Prop where
  one : s.inserting + s.dpcQueued.toNat + s.queueing + s.itemQueued.toNat + s.starting =
    s.workQueued.toNat
  drained : s.workQueued = false → ∀ firing < s.firings,
    s.cleared ≠ 0 ∨ ∃ drain ∈ s.drains, firing < drain

variable {s s' : EcEvents} {op : EcEventOp}

theorem Sound.step (hs : s.Sound) (h : s.step op = some s') :
    s'.Sound ∧ (op = .insertDpc → s.dpcQueued = false) ∧
      (op = .queueItem → s.itemQueued = false) := by
  obtain ⟨hone, hdrain⟩ := hs
  have hflag := s.workQueued.toNat_le
  cases op with
  | fire =>
    cases h
    refine ⟨⟨?_, fun h => (by cases h)⟩, (by simp), by simp⟩
    cases hq : s.workQueued
    · rw [hq, Bool.toNat_false] at hone
      simp
      omega
    · rw [hq] at hone
      exact hone
  | insertDpc =>
    obtain ⟨hne, rfl⟩ := by simpa [EcEvents.step] using h
    cases hdpc : s.dpcQueued <;> simp [hdpc] at hone ⊢
    · exact ⟨by simp; omega, hdrain⟩
    · omega
  | startDpc =>
    obtain ⟨hdpc, rfl⟩ := by simpa [EcEvents.step] using h
    simp only [hdpc, Bool.toNat_true] at hone
    exact ⟨⟨by simp; omega, hdrain⟩, by simp⟩
  | queueItem =>
    obtain ⟨hne, rfl⟩ := by simpa [EcEvents.step] using h
    cases hitem : s.itemQueued <;> simp [hitem] at hone ⊢
    · exact ⟨by simp; omega, hdrain⟩
    · omega
  | startWorker =>
    obtain ⟨hitem, rfl⟩ := by simpa [EcEvents.step] using h
    simp only [hitem, Bool.toNat_true] at hone
    exact ⟨⟨by simp; omega, hdrain⟩, by simp⟩
  | clearFlag =>
    obtain ⟨hne, rfl⟩ := by simpa [EcEvents.step] using h
    refine ⟨⟨?_, fun _ _ _ => .inl (Nat.succ_ne_zero _)⟩, by simp⟩
    show s.inserting + s.dpcQueued.toNat + s.queueing + s.itemQueued.toNat + (s.starting - 1) = 0
    omega
  | drain =>
    obtain ⟨hne, rfl⟩ := by simpa [EcEvents.step] using h
    refine ⟨⟨hone, fun _ firing hfir => .inr ⟨_, List.mem_cons_self, hfir⟩⟩, by simp⟩

/-- In every interleaving the DPC is inserted and the work item queued only when they are not in
their queues, and for every firing the DPC is pending, the work item queued, or a worker drains the
queries after it. -/
theorem no_event_dropped {ops : List EcEventOp} (hexec : exec step ops idle = some s) :
    Throughout step (fun s op _ => (op = .insertDpc → s.dpcQueued = false) ∧
      (op = .queueItem → s.itemQueued = false)) ops idle ∧
    ∀ firing < s.firings, s.DpcPending ∨ s.itemQueued = true ∨ s.DrainedAfter firing := by
  have hidle : idle.Sound := ⟨rfl, fun _ _ h => (by cases h)⟩
  refine ⟨Throughout.imp (fun _ _ _ hs h _ => hs.step h) hidle
    (throughout_of_forall fun _ _ _ => trivial), fun firing hfiring => ?_⟩
  have hs : s.Sound := exec_preserves (fun _ _ _ hs h => (hs.step h).1) hexec hidle
  cases hqueued : s.workQueued with
  | false => exact .inr (.inr (.inr (hs.drained hqueued firing hfiring)))
  | true =>
    have hone := hs.one
    rw [hqueued] at hone
    refine Classical.byContradiction fun hnone => ?_
    simp only [DpcPending, DrainedAfter, not_or, Decidable.not_not] at hnone
    simp [hnone] at hone

theorem overlapping_workers :
    ∃ s, exec step [.fire, .insertDpc, .startDpc, .queueItem, .startWorker, .clearFlag, .drain,
        .fire, .insertDpc, .fire, .startDpc, .queueItem, .startWorker] idle = some s ∧
      s.firings = 3 ∧ s.drains = [1] ∧
      ∀ firing < 3, s.DpcPending ∨ s.itemQueued = true ∨ s.DrainedAfter firing :=
  have hexec : exec step [.fire, .insertDpc, .startDpc, .queueItem, .startWorker, .clearFlag,
      .drain, .fire, .insertDpc, .fire, .startDpc, .queueItem, .startWorker] idle = some _ := rfl
  ⟨_, hexec, rfl, rfl, (no_event_dropped hexec).2⟩

end EcEvents

end UacpiNt
