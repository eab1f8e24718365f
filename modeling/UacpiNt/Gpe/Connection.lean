import UacpiNt.Machine.Operations

/-!
# The life of a GPE connection

A GPE that fires is disabled by the library, and its handler marks the connection busy and queues a
DPC. The DPC calls the consumer and queues a work item, and the worker has the library enable the
GPE again and then clears the mark. `UacpiNtGpeDisconnectVector` takes the handler out, flushes the
DPCs and waits for the mark to be clear before it frees the connection. The GPE may fire between
the two steps of the worker, and then the worker clears the mark of the new firing.
-/

namespace UacpiNt

open Machine
open Bool (toNat_le toNat_true toNat_false)

inductive DisconnectStage where
  | connected
  | uninstalled
  | flushed
  | freed
deriving DecidableEq, Repr

/-- `UACPINT_GPE_CONNECTION`, with whether its GPE is enabled, its DPC and its work item queued, and
the number of workers that have the GPE to enable and that have the mark to clear. -/
structure GpeConnection where
  enabled : Bool
  busy : Bool
  dpcQueued : Bool
  finishQueued : Bool
  enabling : Nat
  clearing : Nat
  stage : DisconnectStage
deriving DecidableEq, Repr

inductive GpeOp where
  | fire
  | dpc
  | workerStart
  | workerEnable
  | workerClear
  | uninstall
  | flush
  | free
deriving DecidableEq, Repr

namespace GpeConnection

/-- `UacpiNtGpeHandler`, called by the library when the GPE fires. -/
def uacpiNtGpeHandler (s : GpeConnection) : GpeConnection :=
  { s with enabled := false, busy := true, dpcQueued := true }

def uacpiNtGpeDpc (s : GpeConnection) : GpeConnection :=
  { s with dpcQueued := false, finishQueued := true }

/-- One step. The worker is `UacpiNtGpeFinishWorker`, and the last three steps are
`UacpiNtGpeDisconnectVector`: the handler is called no more, all queued DPCs run, and the
connection is freed when the mark is clear. -/
def step (s : GpeConnection) : GpeOp → Option GpeConnection
  | .fire => if s.stage = .connected ∧ s.enabled then some s.uacpiNtGpeHandler else none
  | .dpc => if s.dpcQueued then some s.uacpiNtGpeDpc else none
  | .workerStart =>
    if s.finishQueued then some { s with finishQueued := false, enabling := s.enabling + 1 }
    else none
  | .workerEnable =>
    if 0 < s.enabling then
      some { s with enabled := true, enabling := s.enabling - 1, clearing := s.clearing + 1 }
    else none
  | .workerClear =>
    if 0 < s.clearing then some { s with busy := false, clearing := s.clearing - 1 } else none
  | .uninstall => if s.stage = .connected then some { s with stage := .uninstalled } else none
  | .flush =>
    if s.stage = .uninstalled then
      some { (if s.dpcQueued then s.uacpiNtGpeDpc else s) with stage := .flushed }
    else none
  | .free =>
    if s.stage = .flushed ∧ s.busy = false then some { s with stage := .freed } else none

structure Fresh (s : GpeConnection) : Prop where
  busy : s.busy = false
  dpcQueued : s.dpcQueued = false
  finishQueued : s.finishQueued = false
  enabling : s.enabling = 0
  clearing : s.clearing = 0

structure Drained (s : GpeConnection) : Prop where
  dpcQueued : s.dpcQueued = false
  finishQueued : s.finishQueued = false
  enabling : s.enabling = 0
  clearing : s.clearing = 0

/-- The GPE does not fire between the two steps of a worker. -/
def FiresClear (s : GpeConnection) (op : GpeOp) : Prop := op = .fire → s.clearing = 0
deriving Decidable

/-- A GPE that fired is in one place until it is enabled again, and the mark says whether there is
one that was not cleared. -/
structure OneFiring (s : GpeConnection) : Prop where
  place : s.enabled.toNat + s.dpcQueued.toNat + s.finishQueued.toNat + s.enabling ≤ 1
  busy : s.busy.toNat =
    s.dpcQueued.toNat + s.finishQueued.toNat + s.enabling + s.clearing

variable {s s' : GpeConnection}

theorem oneFiring_of_fresh (hs : s.Fresh) : s.OneFiring where
  place := by simpa [hs.dpcQueued, hs.finishQueued, hs.enabling] using toNat_le s.enabled
  busy := by simp [hs.busy, hs.dpcQueued, hs.finishQueued, hs.enabling, hs.clearing]

theorem OneFiring.dpc (hs : s.OneFiring) (hq : s.dpcQueued = true) : s.uacpiNtGpeDpc.OneFiring := by
  have hplace := hs.place
  have hbusy := hs.busy
  rw [hq, toNat_true] at hplace hbusy
  constructor
  all_goals
    simp only [uacpiNtGpeDpc, toNat_true, toNat_false]
    omega

theorem OneFiring.step {op : GpeOp} (hs : s.OneFiring) (h : step s op = some s')
    (hclr : s.FiresClear op) : s'.OneFiring := by
  have hplace := hs.place
  have hbusy := hs.busy
  cases op with
  | fire =>
    obtain ⟨⟨-, henab⟩, rfl⟩ : (s.stage = .connected ∧ s.enabled = true) ∧
        s.uacpiNtGpeHandler = s' := by simpa [GpeConnection.step] using h
    have hnone := hclr rfl
    rw [henab, toNat_true] at hplace
    constructor
    · simp only [uacpiNtGpeHandler, toNat_true, toNat_false]
      omega
    · simp only [uacpiNtGpeHandler, toNat_true]
      omega
  | dpc =>
    obtain ⟨hq, rfl⟩ : s.dpcQueued = true ∧ s.uacpiNtGpeDpc = s' := by
      simpa [GpeConnection.step] using h
    exact hs.dpc hq
  | workerStart =>
    obtain ⟨hq, rfl⟩ : s.finishQueued = true ∧
        { s with finishQueued := false, enabling := s.enabling + 1 } = s' := by
      simpa [GpeConnection.step] using h
    rw [hq, toNat_true] at hplace hbusy
    constructor
    · simp only [toNat_false]
      omega
    · simp only [toNat_false]
      omega
  | workerEnable =>
    obtain ⟨hrunn, rfl⟩ : 0 < s.enabling ∧ { s with
        enabled := true, enabling := s.enabling - 1, clearing := s.clearing + 1 } = s' := by
      simpa [GpeConnection.step] using h
    constructor
    · simp only [toNat_true]
      omega
    · dsimp only
      omega
  | workerClear =>
    obtain ⟨hrunn, rfl⟩ : 0 < s.clearing ∧
        { s with busy := false, clearing := s.clearing - 1 } = s' := by
      simpa [GpeConnection.step] using h
    -- The mark is set, so the worker that clears it is all there is.
    have hmark := toNat_le s.busy
    refine ⟨hplace, ?_⟩
    simp only [toNat_false]
    omega
  | uninstall =>
    obtain ⟨-, rfl⟩ : s.stage = .connected ∧ { s with stage := .uninstalled } = s' := by
      simpa [GpeConnection.step] using h
    exact ⟨hplace, hbusy⟩
  | flush =>
    obtain ⟨-, rfl⟩ : s.stage = .uninstalled ∧
        { (if s.dpcQueued then s.uacpiNtGpeDpc else s) with stage := .flushed } = s' := by
      simpa [GpeConnection.step] using h
    split
    · rename_i hq
      have hran := hs.dpc hq
      exact ⟨hran.place, hran.busy⟩
    · exact ⟨hplace, hbusy⟩
  | free =>
    obtain ⟨-, rfl⟩ : (s.stage = .flushed ∧ s.busy = false) ∧ { s with stage := .freed } = s' := by
      simpa [GpeConnection.step] using h
    exact ⟨hplace, hbusy⟩

theorem OneFiring.drained (hs : s.OneFiring) (hclr : s.busy = false) : s.Drained := by
  have hbusy := hs.busy
  rw [hclr, toNat_false] at hbusy
  refine ⟨Bool.toNat_eq_zero.1 ?_, Bool.toNat_eq_zero.1 ?_, ?_, ?_⟩
  all_goals omega

/-- The GPE fires between the two steps of a worker, and the connection is freed with the work item
of the new firing queued. -/
theorem fired_in_window (hstage : s.stage = .connected) (henab : s.enabled = true)
    (hclea : s.clearing ≠ 0) : ∃ s' ∈ exec step [.fire, .workerClear, .uninstall, .flush] s,
      (s'.step .free).isSome ∧ ¬s'.Drained := by
  have hrunn : 0 < s.clearing := Nat.pos_of_ne_zero hclea
  refine ⟨{ s with
    enabled := false, busy := false, dpcQueued := false, finishQueued := true
    clearing := s.clearing - 1, stage := .flushed }, ?_, by simp [step], ?_⟩
  · simp [exec, step, uacpiNtGpeHandler, uacpiNtGpeDpc, hstage, henab, hrunn]
  · intro hdrain
    cases hdrain.finishQueued

/-- In every run from a fresh connection in which the GPE never fires between the two steps of a
worker, no DPC and no work item is queued and no worker is running when the connection can be
freed. Where such a run comes to a state in which the GPE can fire between the two steps, it can
be continued with that firing to a state in which the connection can be freed and is in use. -/
theorem gpe_disconnect_drains (start s : GpeConnection) (hfresh : start.Fresh) (ops : List GpeOp)
    (hrun : exec step ops start = some s)
    (hclear : Throughout step (fun s op _ => s.FiresClear op) ops start) :
    ((s.step .free).isSome → s.Drained) ∧
      ((s.step .fire).isSome → ¬s.FiresClear .fire →
        ∃ more, ∃ s' ∈ exec step (.fire :: more) s, (s'.step .free).isSome ∧ ¬s'.Drained) := by
  have hs : s.OneFiring := exec_invariant (fun _ _ _ hinv h hc => hinv.step h hc) hrun
    (oneFiring_of_fresh hfresh) hclear
  constructor
  · intro hfree
    have hguard : s.stage = .flushed ∧ s.busy = false := by
      simpa [step] using hfree
    exact hs.drained hguard.2
  · intro hfire hwindow
    have hguard : s.stage = .connected ∧ s.enabled = true := by
      simpa [step] using hfire
    have hclearing : s.clearing ≠ 0 := by simpa [FiresClear] using hwindow
    exact ⟨_, fired_in_window hguard.1 hguard.2 hclearing⟩

def connected : GpeConnection := ⟨true, false, false, false, 0, 0, .connected⟩

theorem connected_fresh : connected.Fresh := ⟨rfl, rfl, rfl, rfl, rfl⟩

/-- The GPE fires twice, the second time after the worker has cleared the mark. -/
theorem drained_after_two_firings :
    ∃ s ∈ exec step [.fire, .dpc, .workerStart, .workerEnable, .workerClear, .fire, .uninstall,
        .flush, .workerStart, .workerEnable, .workerClear] connected,
      (s.step .free).isSome ∧ s.Drained := by
  have hfacts : ∃ s ∈ exec step [.fire, .dpc, .workerStart, .workerEnable, .workerClear, .fire,
      .uninstall, .flush, .workerStart, .workerEnable, .workerClear] connected,
      (s.step .free).isSome = true := by
    decide +kernel
  obtain ⟨s, hrun, hfree⟩ := hfacts
  exact ⟨s, hrun, hfree,
    (gpe_disconnect_drains connected s connected_fresh _ hrun (by decide +kernel)).1 hfree⟩

/-- The GPE fires again before the worker clears the mark, and the connection can be freed with its
work item queued. -/
theorem freed_with_work_queued :
    ∃ s ∈ exec step [.fire, .dpc, .workerStart, .workerEnable, .fire, .workerClear, .uninstall,
        .flush] connected,
      (s.step .free).isSome = true ∧ s.finishQueued = true := by
  decide +kernel

end GpeConnection

end UacpiNt
