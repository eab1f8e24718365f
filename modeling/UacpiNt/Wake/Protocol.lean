import UacpiNt.Machine.Operations
import UacpiNt.Wake.Basic
import Mathlib.Data.List.Perm.Basic

/-!
# The life of a WAIT_WAKE request

A request arms the block and is pended. It is completed by a wake, by the teardown of the block or
by its cancel routine. The routine may run at an IRQL at which the hardware cannot be touched, so
it leaves the block armed and queues a worker that disarms it, unless another request has been
pended by then. Such a request arms a block that is still armed.

The lock of the block is held while the pended request is looked at or replaced, and while the
worker tests and clears `Armed`. Everything else that a call does to the block and the hardware may
be interleaved with what other calls do.
-/

namespace UacpiNt

open Function Holding Machine

/-- A WAIT_WAKE request: whether it was sent to the block, whether it was cancelled, whether its
cancel routine is set, whether `IoCancelIrp` has taken the routine and it has not run yet, and with
which statuses it was completed. -/
structure WakeIrp where
  submitted : Bool
  cancel : Bool
  cancelRoutine : Bool
  cancelling : Bool
  completions : List NtStatus

/-- What a call of `UacpiNtWakeArm` that has passed its checks does next: it enables the line and
sets `Armed`, acquires the resources of `_PRW`, or pends its request. -/
inductive ArmPoint where
  | enabling
  | acquiring
  | pending
deriving DecidableEq

/-- What a call of `UacpiNtWakeDisarm` does next: it tests `Armed`, clears it, or releases the
hardware. -/
inductive DisarmPoint where
  | testing
  | clearing
  | releasing
deriving DecidableEq

structure ArmCall (ι : Type) where
  irp : ι
  point : ArmPoint

structure DisarmCall (ι : Type) where
  last : Option (ι × NtStatus)
  point : DisarmPoint

/-- A wake block with its requests and the calls that are in progress. `disarmQueued` says that the
disarm work item is queued, and `releasing` counts the workers that have cleared `armed` and not yet
released the hardware. -/
structure WakeSystem (ι ρ : Type) where
  block : WakeBlock ρ
  host : WakeHost ρ
  waitWakeIrp : Option ι
  irps : ι → WakeIrp
  disarmQueued : Bool
  releasing : Nat
  arms : List (ArmCall ι)
  disarms : List (DisarmCall ι)

/-- The steps of the calls on a wake block. `arm`, `complete` and `teardown` begin a call, and
`armNext` and `disarmNext` are the next steps of one that is in progress. The worker takes two
steps: it decides whether to disarm, and it releases the hardware. -/
inductive WakeOp (ι ρ : Type) where
  | arm (irp : ι) (requested : SystemPowerState) (env : ArmEnv ρ)
  | armNext (i : Nat) (env : ArmEnv ρ)
  | cancel (irp : ι)
  | cancelRoutine (irp : ι)
  | workerStart
  | workerRelease (off : ρ → Bool)
  | complete
  | teardown
  | disarmNext (i : Nat) (off : ρ → Bool)

namespace WakeSystem

variable {ι ρ : Type} [DecidableEq ι]

section

variable (s : WakeSystem ι ρ) (irp : ι)

def setIrp (state : WakeIrp) : WakeSystem ι ρ :=
  { s with irps := Function.update s.irps irp state }

def completeIrp (status : NtStatus) : WakeSystem ι ρ :=
  s.setIrp irp { s.irps irp with completions := status :: (s.irps irp).completions }

/-- `IoCancelIrp`: the request is marked, and its routine is taken if it is set. -/
def ioCancelIrp : WakeSystem ι ρ :=
  let state := { s.irps irp with cancel := true }
  s.setIrp irp <|
    if state.cancelRoutine then { state with cancelRoutine := false, cancelling := true } else state

/-- `UacpiNtWakeClaimIrp`, with the request that is now the caller's. -/
def uacpiNtWakeClaimIrp : WakeSystem ι ρ × Option ι :=
  match s.waitWakeIrp with
  | none => (s, none)
  | some irp =>
    if (s.irps irp).cancelRoutine then
      ({ s.setIrp irp { s.irps irp with cancelRoutine := false } with waitWakeIrp := none },
        some irp)
    else (s, none)

def uacpiNtWaitWakeCancel : WakeSystem ι ρ :=
  let s := s.setIrp irp { s.irps irp with cancelling := false }
  if s.waitWakeIrp = some irp then
    -- The block stays armed, the worker clears it.
    { ({ s with waitWakeIrp := none }).completeIrp irp (.error .cancelled) with
      disarmQueued := true }
  else s

def pushArm (call : ArmCall ι) : WakeSystem ι ρ := { s with arms := call :: s.arms }

def pushDisarm (call : DisarmCall ι) : WakeSystem ι ρ := { s with disarms := call :: s.disarms }

def takeArm (i : Nat) : WakeSystem ι ρ := { s with arms := s.arms.eraseIdx i }

def takeDisarm (i : Nat) : WakeSystem ι ρ := { s with disarms := s.disarms.eraseIdx i }

def uacpiNtWakeComplete : WakeSystem ι ρ :=
  match s.uacpiNtWakeClaimIrp with
  | (s, none) => s
  | (s, some irp) => s.pushDisarm ⟨some (irp, .ok ()), .testing⟩

def uacpiNtWakeTeardown : WakeSystem ι ρ :=
  match s.uacpiNtWakeClaimIrp with
  | (s, none) => s
  | (s, some irp) => s.completeIrp irp (.error .noSuchDevice)

def finish : Option (ι × NtStatus) → WakeSystem ι ρ
  | none => s
  | some (irp, status) => s.completeIrp irp status

/-- `UacpiNtWakeArm` for a request that is sent to the block, up to its checks. -/
def armStart (requested : SystemPowerState) (env : ArmEnv ρ) : WakeSystem ι ρ :=
  let (block, refused) := wakeArmPrepare env requested s.waitWakeIrp.isSome s.block
  let s := { s.setIrp irp { s.irps irp with submitted := true } with block := block }
  match refused with
  | some e => s.completeIrp irp (.error e)
  | none => s.pushArm ⟨irp, .enabling⟩

def workerStart : WakeSystem ι ρ :=
  let s := { s with disarmQueued := false }
  if s.waitWakeIrp.isNone ∧ s.block.armed then
    { s with block := { s.block with armed := false }, releasing := s.releasing + 1 }
  else s

end

variable [DecidableEq ρ]

section

variable (order : ρ → UInt16) (s : WakeSystem ι ρ)

def workerRelease (off : ρ → Bool) : WakeSystem ι ρ :=
  let (block, host) := uacpiNtWakeReleaseHardware off s.block s.host
  { s with block := block, host := host, releasing := s.releasing - 1 }

/-- The next step of a call of `UacpiNtWakeArm`, which has been taken from those in progress. -/
def armNext (env : ArmEnv ρ) (call : ArmCall ι) : WakeSystem ι ρ :=
  match call.point with
  | .enabling =>
    let line := s.block.gpeLine
    if env.enableForWake = false then s.completeIrp call.irp (.error .notSupported)
    else
      let host := s.host.enableGpeForWake line
      if env.enable = false then
        ({ s with host := host.disableGpeForWake line }).completeIrp call.irp (.error .notSupported)
      else
        { s with
          block := { s.block with armed := true }
          host := host.enableGpe line }.pushArm ⟨call.irp, .acquiring⟩
  | .acquiring =>
    let (resources, list) :=
      uacpiNtPowerResAcquireWake order env.on env.wakePrw s.host.resources
    { s with
      block := { s.block with wakeResources := list }
      host := { s.host with resources := resources } }.pushArm ⟨call.irp, .pending⟩
  | .pending =>
    if (s.irps call.irp).cancel then s.pushDisarm ⟨some (call.irp, .error .cancelled), .testing⟩
    else
      { s.setIrp call.irp { s.irps call.irp with cancelRoutine := true } with
        waitWakeIrp := some call.irp }

/-- The next step of a call of `UacpiNtWakeDisarm`, which has been taken from those in progress.
The lock is not held between the test and the clearing. -/
def disarmNext (off : ρ → Bool) (call : DisarmCall ι) : WakeSystem ι ρ :=
  match call.point with
  | .testing =>
    if s.block.armed then s.pushDisarm ⟨call.last, .clearing⟩
    else s.finish call.last
  | .clearing =>
    { s with block := { s.block with armed := false } }.pushDisarm ⟨call.last, .releasing⟩
  | .releasing =>
    let (block, host) := uacpiNtWakeReleaseHardware off s.block s.host
    ({ s with block := block, host := host }).finish call.last

/-- One step. A request is sent once, and the cancel routine and the worker run when they were asked
to. -/
def step : WakeOp ι ρ → Option (WakeSystem ι ρ)
  | .arm irp requested env =>
    if (s.irps irp).submitted then none else some (s.armStart irp requested env)
  | .armNext i env =>
    s.arms[i]?.map fun call => (s.takeArm i).armNext order env call
  | .cancel irp => some (s.ioCancelIrp irp)
  | .cancelRoutine irp =>
    if (s.irps irp).cancelling then some (s.uacpiNtWaitWakeCancel irp) else none
  | .workerStart => if s.disarmQueued then some s.workerStart else none
  | .workerRelease off => if 0 < s.releasing then some (s.workerRelease off) else none
  | .complete => some s.uacpiNtWakeComplete
  | .teardown => some (s.uacpiNtWakeTeardown.pushDisarm ⟨none, .testing⟩)
  | .disarmNext i off =>
    s.disarms[i]?.map fun call => (s.takeDisarm i).disarmNext off call

end

section

variable {order : ρ → UInt16} {s s' : WakeSystem ι ρ} {irp : ι} {requested : SystemPowerState}
  {env : ArmEnv ρ} {off : ρ → Bool} {i : Nat}

theorem step_arm : step order s (.arm irp requested env) = some s' ↔
    (s.irps irp).submitted = false ∧ s.armStart irp requested env = s' := by
  simp [step]

theorem step_armNext : step order s (.armNext i env) = some s' ↔ ∃ call, s.arms[i]? = some call ∧
    (s.takeArm i).armNext order env call = s' := by
  simp [step]

theorem step_cancelRoutine : step order s (.cancelRoutine irp) = some s' ↔
    (s.irps irp).cancelling = true ∧ s.uacpiNtWaitWakeCancel irp = s' := by
  simp [step]

theorem step_workerStart : step order s .workerStart = some s' ↔
    s.disarmQueued = true ∧ s.workerStart = s' := by
  simp [step]

theorem step_workerRelease : step order s (.workerRelease off) = some s' ↔
    0 < s.releasing ∧ s.workerRelease off = s' := by
  simp [step]

theorem step_disarmNext : step order s (.disarmNext i off) = some s' ↔
    ∃ call, s.disarms[i]? = some call ∧
      (s.takeDisarm i).disarmNext off call = s' := by
  simp [step]

end

structure Fresh (s : WakeSystem ι ρ) : Prop where
  armed : s.block.armed = false
  wakeResources : s.block.wakeResources.entries = []
  waitWakeIrp : s.waitWakeIrp = none
  irps : ∀ irp, (s.irps irp).submitted = false ∧ (s.irps irp).cancelRoutine = false ∧
    (s.irps irp).cancelling = false ∧ (s.irps irp).completions = []
  disarmQueued : s.disarmQueued = false
  releasing : s.releasing = 0
  arms : s.arms = []
  disarms : s.disarms = []

/-! ### The requests -/

end WakeSystem

/-- A request as the calls see it: `held` counts the calls in progress that it belongs to. -/
structure IrpView where
  irp : WakeIrp
  pended : Bool
  held : Nat

/-- What one step can do to a request. It is lost if another one is pended in its place, which
`overlap` allows. -/
inductive IrpStep (overlap : Prop) : IrpView → IrpView → Prop
  | same (v : IrpView) : IrpStep overlap v v
  | refused {irp : WakeIrp} {pended : Bool} {held : Nat} (status : NtStatus)
      (hnew : irp.submitted = false) : IrpStep overlap ⟨irp, pended, held⟩
        ⟨{ irp with submitted := true, completions := status :: irp.completions }, pended, held⟩
  | accepted {irp : WakeIrp} {pended : Bool} {held : Nat} (hnew : irp.submitted = false) :
      IrpStep overlap ⟨irp, pended, held⟩ ⟨{ irp with submitted := true }, pended, held + 1⟩
  | marked {irp : WakeIrp} {pended : Bool} {held : Nat} :
      IrpStep overlap ⟨irp, pended, held⟩ ⟨{ irp with cancel := true }, pended, held⟩
  | taken {irp : WakeIrp} {pended : Bool} {held : Nat} (hset : irp.cancelRoutine = true) :
      IrpStep overlap ⟨irp, pended, held⟩
        ⟨{ irp with cancel := true, cancelRoutine := false, cancelling := true }, pended, held⟩
  | cancelled {irp : WakeIrp} {held : Nat} (status : NtStatus) (htaken : irp.cancelling = true) :
      IrpStep overlap ⟨irp, true, held⟩
        ⟨{ irp with cancelling := false, completions := status :: irp.completions }, false, held⟩
  | ignored {irp : WakeIrp} {held : Nat} :
      IrpStep overlap ⟨irp, false, held⟩ ⟨{ irp with cancelling := false }, false, held⟩
  | claimed {irp : WakeIrp} {held : Nat} (hset : irp.cancelRoutine = true) :
      IrpStep overlap ⟨irp, true, held⟩ ⟨{ irp with cancelRoutine := false }, false, held + 1⟩
  | failed {irp : WakeIrp} {held : Nat} (status : NtStatus) (hset : irp.cancelRoutine = true) :
      IrpStep overlap ⟨irp, true, held⟩
        ⟨{ irp with cancelRoutine := false, completions := status :: irp.completions }, false, held⟩
  | finished {irp : WakeIrp} {pended : Bool} {held : Nat} (status : NtStatus) :
      IrpStep overlap ⟨irp, pended, held + 1⟩
        ⟨{ irp with completions := status :: irp.completions }, pended, held⟩
  | pended {irp : WakeIrp} {pended : Bool} {held : Nat} :
      IrpStep overlap ⟨irp, pended, held + 1⟩ ⟨{ irp with cancelRoutine := true }, true, held⟩
  | lost {irp : WakeIrp} {held : Nat} (h : overlap) :
      IrpStep overlap ⟨irp, true, held⟩ ⟨irp, false, held⟩

/-- A request is completed, pended or held by a call at most once, and not before it was sent. The
cancel routine of a pended request is set or about to run, and that of one that is held, or was not
sent, is neither. -/
structure IrpView.Ok (v : IrpView) : Prop where
  counted : v.irp.completions.length + v.pended.toNat + v.held ≤ v.irp.submitted.toNat
  routine : v.pended = true → v.irp.cancelRoutine.toNat + v.irp.cancelling.toNat = 1
  quiet : 0 < v.held ∨ v.irp.submitted = false →
    v.irp.cancelRoutine = false ∧ v.irp.cancelling = false

namespace IrpStep

variable {overlap : Prop} {v v' : IrpView}

theorem ok (h : IrpStep overlap v v') (hv : v.Ok) : v'.Ok := by
  obtain ⟨hcount, hrout, hquiet⟩ := hv
  cases h with
  | @pended irp pended held =>
    have hnone : irp.cancelling = false := (hquiet (.inl (Nat.succ_pos _))).2
    have hsent := Bool.toNat_le irp.submitted
    simp only at hcount
    refine ⟨?_, fun _ => by simp [hnone], ?_⟩
    · simp only [Bool.toNat_true]
      omega
    · -- It was held once and had been sent.
      rintro (hheld | hnew)
      · simp only at hheld
        omega
      · simp only at hnew
        simp [hnew] at hcount
  | _ => constructor <;> simp_all <;> grind

theorem balance (h : IrpStep overlap v v') (hv : v.Ok) (hover : ¬ overlap) :
    v'.irp.completions.length + v'.pended.toNat + v'.held + v.irp.submitted.toNat =
      v.irp.completions.length + v.pended.toNat + v.held + v'.irp.submitted.toNat := by
  have hcount := hv.counted
  have hsent := Bool.toNat_le v.irp.submitted
  cases h with
  | lost h => exact absurd h hover
  | pended =>
    simp only [Bool.toNat_true] at hcount hsent ⊢
    omega
  | _ => simp_all <;> omega

end IrpStep

def DisarmCall.completes {ι : Type} [DecidableEq ι] (call : DisarmCall ι) (irp : ι) : Bool :=
  call.last.any fun last => last.1 == irp

theorem perm_cons_eraseIdx {α : Type} {l : List α} {i : Nat} {a : α} (h : l[i]? = some a) :
    l.Perm (a :: l.eraseIdx i) := by
  obtain ⟨hi, rfl⟩ := List.getElem?_eq_some_iff.1 h
  exact (List.getElem_cons_eraseIdx_perm hi).symm

namespace WakeSystem

variable {ι ρ : Type} [DecidableEq ι]

def held (s : WakeSystem ι ρ) (irp : ι) : Nat :=
  s.arms.countP (fun call => call.irp == irp) + s.disarms.countP (fun call => call.completes irp)

def view (s : WakeSystem ι ρ) (irp : ι) : IrpView :=
  ⟨s.irps irp, s.waitWakeIrp == some irp, s.held irp⟩

/-- A request is pended while another one is being armed. -/
def Overlap (s : WakeSystem ι ρ) : Prop := s.waitWakeIrp ≠ none ∧ s.arms ≠ []

section

variable {overlap : Prop} {s : WakeSystem ι ρ} {irp : ι} {i : Nat}

theorem view_setIrp_of_ne {other : ι} (h : other ≠ irp) (state : WakeIrp) :
    (s.setIrp irp state).view other = s.view other := by
  simp [view, held, setIrp, update_of_ne h]

theorem held_pushArm (s : WakeSystem ι ρ) (call : ArmCall ι) (other : ι) :
    (s.pushArm call).held other = s.held other + (call.irp == other).toNat := by
  simp only [held, pushArm, List.countP_cons]
  cases call.irp == other <;> simp [Nat.add_right_comm]

theorem held_pushDisarm (s : WakeSystem ι ρ) (call : DisarmCall ι) (other : ι) :
    (s.pushDisarm call).held other = s.held other + (call.completes other).toNat := by
  simp only [held, pushDisarm, List.countP_cons]
  cases call.completes other <;> simp [Nat.add_assoc]

theorem view_pushArm (s : WakeSystem ι ρ) (call : ArmCall ι) (other : ι) :
    (s.pushArm call).view other = ⟨s.irps other, s.waitWakeIrp == some other,
      s.held other + (call.irp == other).toNat⟩ := by
  rw [view, held_pushArm]
  rfl

theorem view_pushDisarm (s : WakeSystem ι ρ) (call : DisarmCall ι) (other : ι) :
    (s.pushDisarm call).view other = ⟨s.irps other, s.waitWakeIrp == some other,
      s.held other + (call.completes other).toNat⟩ := by
  rw [view, held_pushDisarm]
  rfl

theorem held_takeArm {call : ArmCall ι} (h : s.arms[i]? = some call) (other : ι) :
    s.held other = (s.takeArm i).held other + (call.irp == other).toNat := by
  rw [← held_pushArm]
  simp only [held, pushArm, takeArm, (perm_cons_eraseIdx h).countP_eq]

theorem held_takeDisarm {call : DisarmCall ι} (h : s.disarms[i]? = some call) (other : ι) :
    s.held other = (s.takeDisarm i).held other + (call.completes other).toNat := by
  rw [← held_pushDisarm]
  simp only [held, pushDisarm, takeDisarm, (perm_cons_eraseIdx h).countP_eq]

theorem complete_view (s : WakeSystem ι ρ) (irp other : ι) (status : NtStatus) :
    IrpStep overlap ⟨s.irps other, s.waitWakeIrp == some other,
        s.held other + (irp == other).toNat⟩ ((s.completeIrp irp status).view other) := by
  by_cases hirp : irp = other
  · subst hirp
    simpa [view, held, completeIrp, setIrp] using IrpStep.finished status
  · rw [completeIrp, view_setIrp_of_ne (Ne.symm hirp), beq_false_of_ne hirp]
    exact .same (s.view other)

theorem finish_view (s : WakeSystem ι ρ) (call : DisarmCall ι) (other : ι) :
    IrpStep overlap ⟨s.irps other, s.waitWakeIrp == some other,
        s.held other + (call.completes other).toNat⟩ ((s.finish call.last).view other) := by
  rw [DisarmCall.completes]
  cases call.last with
  | none => exact .same (s.view other)
  | some last => exact complete_view s last.1 other last.2

theorem claimIrp_cases (s : WakeSystem ι ρ) : (s.uacpiNtWakeClaimIrp = (s, none) ∧
      ∀ irp, s.waitWakeIrp = some irp → (s.irps irp).cancelRoutine = false) ∨
    ∃ irp, s.waitWakeIrp = some irp ∧ (s.irps irp).cancelRoutine = true ∧ s.uacpiNtWakeClaimIrp =
        ({ s.setIrp irp { s.irps irp with cancelRoutine := false } with waitWakeIrp := none },
          some irp) := by
  rw [uacpiNtWakeClaimIrp]
  cases hpend : s.waitWakeIrp with
  | none => exact .inl ⟨rfl, fun irp h => by cases h⟩
  | some irp =>
    cases hrout : (s.irps irp).cancelRoutine with
    | false =>
      refine .inl ⟨by simp [hrout], fun other hoth => ?_⟩
      cases hoth
      exact hrout
    | true => exact .inr ⟨irp, rfl, hrout, by simp [hrout]⟩

theorem view_of_pended (h : s.waitWakeIrp = some irp) :
    s.view irp = ⟨s.irps irp, true, s.held irp⟩ := by
  simp [view, h]

theorem view_of_not_pended (h : s.waitWakeIrp ≠ some irp) :
    s.view irp = ⟨s.irps irp, false, s.held irp⟩ := by
  rw [view, beq_false_of_ne h]

/-- A step that replaces the pended request, or leaves it, does nothing to others. -/
theorem same_view {s' : WakeSystem ι ρ} {other : ι} (hirps : s'.irps other = s.irps other)
    (hpend : s'.waitWakeIrp = some other ↔ s.waitWakeIrp = some other)
    (hheld : s'.held other = s.held other) : IrpStep overlap (s.view other) (s'.view other) := by
  have hsame : (s'.waitWakeIrp == some other) = (s.waitWakeIrp == some other) := by
    rw [Bool.eq_iff_iff, beq_iff_eq, beq_iff_eq, hpend]
  rw [view, view, hirps, hsame, hheld]
  exact .same _

end

section

variable {overlap : Prop} {s s' : WakeSystem ι ρ}

theorem armStart_view {irp : ι} (hnew : (s.irps irp).submitted = false)
    (requested : SystemPowerState) (env : ArmEnv ρ) (other : ι) :
    IrpStep overlap (s.view other) ((s.armStart irp requested env).view other) := by
  rcases hprep : wakeArmPrepare env requested s.waitWakeIrp.isSome s.block with ⟨block, refused⟩
  simp only [armStart, hprep]
  by_cases hirp : other = irp
  · subst hirp
    cases refused with
    | some e => simpa [view, held, completeIrp, setIrp] using IrpStep.refused (.error e) hnew
    | none =>
      dsimp only
      rw [view_pushArm]
      simpa [view, held, setIrp] using IrpStep.accepted hnew
  · have hne := beq_false_of_ne (Ne.symm hirp)
    cases refused with
    | some e => exact same_view (by simp [completeIrp, setIrp, hirp]) Iff.rfl rfl
    | none =>
      dsimp only
      rw [view_pushArm, hne]
      exact same_view (by simp [setIrp, hirp]) Iff.rfl rfl

theorem ioCancelIrp_view (irp other : ι) :
    IrpStep overlap (s.view other) ((s.ioCancelIrp irp).view other) := by
  by_cases hirp : other = irp
  · subst hirp
    simp only [ioCancelIrp]
    split
    · rename_i hset
      simpa [view, held, setIrp] using IrpStep.taken hset
    · simpa [view, held, setIrp] using IrpStep.marked
  · rw [ioCancelIrp, view_setIrp_of_ne hirp]
    exact .same _

theorem waitWakeCancel_of_not_pended {irp : ι} (h : s.waitWakeIrp ≠ some irp) :
    s.uacpiNtWaitWakeCancel irp = s.setIrp irp { s.irps irp with cancelling := false } :=
  if_neg h

theorem waitWakeCancel_view {irp : ι} (htaken : (s.irps irp).cancelling = true) (other : ι) :
    IrpStep overlap (s.view other) ((s.uacpiNtWaitWakeCancel irp).view other) := by
  by_cases hpend : s.waitWakeIrp = some irp
  · by_cases hirp : other = irp
    · subst hirp
      rw [view_of_pended hpend]
      simpa [view, held, uacpiNtWaitWakeCancel, completeIrp, setIrp, hpend] using
        IrpStep.cancelled (.error .cancelled) htaken
    · refine same_view ?_ ?_ ?_ <;>
        simp [uacpiNtWaitWakeCancel, completeIrp, setIrp, held, hpend, hirp, Ne.symm hirp]
  · rw [waitWakeCancel_of_not_pended hpend]
    by_cases hirp : other = irp
    · subst hirp
      have hpend' : (s.setIrp other { s.irps other with cancelling := false }).waitWakeIrp ≠
          some other := hpend
      rw [view_of_not_pended hpend, view_of_not_pended hpend']
      simpa [held, setIrp] using IrpStep.ignored
    · rw [view_setIrp_of_ne hirp]
      exact .same _

theorem wakeComplete_view (other : ι) :
    IrpStep overlap (s.view other) (s.uacpiNtWakeComplete.view other) := by
  rw [uacpiNtWakeComplete]
  obtain ⟨hclaim, -⟩ | ⟨irp, hpend, hset, hclaim⟩ := s.claimIrp_cases
  · rw [hclaim]
    exact .same _
  rw [hclaim]
  by_cases hirp : other = irp
  · subst hirp
    dsimp only
    rw [view_of_pended hpend, view_pushDisarm]
    simpa [held, setIrp, DisarmCall.completes] using IrpStep.claimed hset
  · have hne : DisarmCall.completes ⟨some (irp, .ok ()), .testing⟩ other = false :=
      beq_false_of_ne (Ne.symm hirp)
    dsimp only
    rw [view_pushDisarm, hne]
    refine same_view ?_ ?_ rfl
    · simp [setIrp, hirp]
    · simp [hpend, Ne.symm hirp]

theorem teardown_view (other : ι) :
    IrpStep overlap (s.view other) (s.uacpiNtWakeTeardown.view other) := by
  rw [uacpiNtWakeTeardown]
  obtain ⟨hclaim, -⟩ | ⟨irp, hpend, hset, hclaim⟩ := s.claimIrp_cases
  · rw [hclaim]
    exact .same _
  rw [hclaim]
  by_cases hirp : other = irp
  · subst hirp
    rw [view_of_pended hpend]
    simpa [view, held, completeIrp, setIrp] using IrpStep.failed (.error .noSuchDevice) hset
  · refine same_view ?_ ?_ rfl
    · simp [completeIrp, setIrp, hirp]
    · simp [completeIrp, setIrp, hpend, Ne.symm hirp]

theorem workerStart_view (other : ι) : s.workerStart.view other = s.view other := by
  rw [workerStart]
  split <;> rfl

variable [DecidableEq ρ] {order : ρ → UInt16}

theorem armNext_view (s : WakeSystem ι ρ) (env : ArmEnv ρ) (call : ArmCall ι) (other : ι)
    (hover : s.waitWakeIrp ≠ none → overlap) :
    IrpStep overlap ⟨s.irps other, s.waitWakeIrp == some other,
      s.held other + (call.irp == other).toNat⟩ ((s.armNext order env call).view other) := by
  rw [armNext]
  split
  · dsimp only
    split
    · exact complete_view s call.irp other _
    split
    · exact complete_view { s with host := _ } call.irp other _
    · rw [view_pushArm]
      exact .same _
  · dsimp only
    rw [view_pushArm]
    exact .same _
  · split
    · rw [view_pushDisarm]
      exact .same _
    by_cases hirp : other = call.irp
    · subst hirp
      simpa [view, held, setIrp] using IrpStep.pended
    have hne := beq_false_of_ne (Ne.symm hirp)
    rw [hne]
    by_cases hpend : s.waitWakeIrp = some other
    · have hlost : IrpStep overlap ⟨s.irps other, true, s.held other⟩
          ⟨s.irps other, false, s.held other⟩ := .lost (hover (by simp [hpend]))
      simpa [view, held, setIrp, hpend, hirp, hne] using hlost
    · exact same_view (s := s) (by simp [setIrp, hirp]) (by simp [hpend, Ne.symm hirp]) rfl

theorem disarmNext_view (s : WakeSystem ι ρ) (off : ρ → Bool) (call : DisarmCall ι) (other : ι) :
    IrpStep overlap ⟨s.irps other, s.waitWakeIrp == some other,
      s.held other + (call.completes other).toNat⟩ ((s.disarmNext off call).view other) := by
  rw [disarmNext]
  split
  · split
    · rw [view_pushDisarm]
      exact .same _
    · exact finish_view s call other
  · rw [view_pushDisarm]
    exact .same _
  · rcases uacpiNtWakeReleaseHardware off s.block s.host with ⟨block, host⟩
    exact finish_view { s with block := block, host := host } call other

theorem step_view {op : WakeOp ι ρ} (h : step order s op = some s') (irp : ι) :
    IrpStep s.Overlap (s.view irp) (s'.view irp) := by
  cases op with
  | arm new requested env =>
    obtain ⟨hnew, rfl⟩ := step_arm.1 h
    exact armStart_view hnew requested env irp
  | armNext i env =>
    obtain ⟨call, hcall, rfl⟩ := step_armNext.1 h
    rw [view, held_takeArm hcall]
    exact armNext_view (s.takeArm i) env call irp fun hpend =>
      ⟨hpend, List.ne_nil_of_mem (List.mem_of_getElem? hcall)⟩
  | cancel other =>
    cases h
    exact ioCancelIrp_view other irp
  | cancelRoutine other =>
    obtain ⟨htaken, rfl⟩ := step_cancelRoutine.1 h
    exact waitWakeCancel_view htaken irp
  | workerStart =>
    obtain ⟨-, rfl⟩ := step_workerStart.1 h
    rw [workerStart_view]
    exact .same _
  | workerRelease off =>
    obtain ⟨-, rfl⟩ := step_workerRelease.1 h
    exact .same _
  | complete =>
    cases h
    exact wakeComplete_view irp
  | teardown =>
    cases h
    rw [view_pushDisarm]
    exact teardown_view irp
  | disarmNext i off =>
    obtain ⟨call, hcall, rfl⟩ := step_disarmNext.1 h
    rw [view, held_takeDisarm hcall]
    exact disarmNext_view (s.takeDisarm i) off call irp

end

def IrpsOk (s : WakeSystem ι ρ) : Prop := ∀ irp, (s.view irp).Ok

theorem irpsOk_of_fresh {s : WakeSystem ι ρ} (hs : s.Fresh) : s.IrpsOk := by
  intro irp
  obtain ⟨hsub, hrout, hcan, hcomps⟩ := hs.irps irp
  refine ⟨?_, ?_, fun _ => ⟨hrout, hcan⟩⟩
  · simp [view, held, hs.waitWakeIrp, hs.arms, hs.disarms, hcomps]
  · simp [view, hs.waitWakeIrp]

theorem irpsOk_step [DecidableEq ρ] {order : ρ → UInt16} {s s' : WakeSystem ι ρ} {op : WakeOp ι ρ}
    (hs : s.IrpsOk) (h : step order s op = some s') : s'.IrpsOk :=
  fun irp => (step_view h irp).ok (hs irp)

theorem irpsOk_run [DecidableEq ρ] {order : ρ → UInt16} {s start : WakeSystem ι ρ}
    {ops : List (WakeOp ι ρ)} (hfresh : start.Fresh) (hrun : exec (step order) ops start = some s) :
    s.IrpsOk :=
  exec_preserves (I := IrpsOk) (fun _ _ _ hs h => irpsOk_step hs h) hrun (irpsOk_of_fresh hfresh)

/-! ### A plain block -/

def unused : WakeSystem (Fin 2) (Fin 1) where
  block := .plain
  host := .plain
  waitWakeIrp := none
  irps := fun _ => ⟨false, false, false, false, []⟩
  disarmQueued := false
  releasing := 0
  arms := []
  disarms := []

theorem unused_fresh : unused.Fresh := ⟨rfl, rfl, rfl, by decide, rfl, rfl, rfl, rfl⟩

def armOps (irp : ι) (requested : SystemPowerState) (env : ArmEnv ρ) : List (WakeOp ι ρ) :=
  [.arm irp requested env, .armNext 0 env, .armNext 0 env, .armNext 0 env]

end WakeSystem

/-! ### The end of a wake block -/

namespace WakeOp

variable {ι ρ : Type}

def arms : WakeOp ι ρ → Bool
  | .arm .. | .armNext .. => true
  | _ => false

end WakeOp

namespace WakeSystem

variable {ι ρ : Type} [DecidableEq ι] [DecidableEq ρ]

/-- `UacpiNtFilterRemoveDevice`, up to the deletion of the device object. `during` is what happens
to the block before each step of the disarm, and at the end while the filter is unlinked, the
request forwarded and the device detached. -/
def uacpiNtFilterRemoveDevice (order : ρ → UInt16) (off : ρ → Bool)
    (during : Nat → List (WakeOp ι ρ)) (s : WakeSystem ι ρ) : Option (WakeSystem ι ρ) := do
  let s ← exec (step order) (during 0) s.uacpiNtWakeTeardown
  if s.block.armed then
    let s ← exec (step order) (during 1) s
    let s ← exec (step order) (during 2) { s with block := { s.block with armed := false } }
    let (block, host) := uacpiNtWakeReleaseHardware off s.block s.host
    exec (step order) (during 3) { s with block := block, host := host }
  else exec (step order) (during 3) s

/-- No disarm work item is queued, and none is running. -/
def NoDisarmWork (s : WakeSystem ι ρ) : Prop := s.disarmQueued = false ∧ s.releasing = 0

/-- The request that is pended, if there is one, is not being cancelled. -/
def NotCancelling (s : WakeSystem ι ρ) : Prop :=
  ∀ irp ∈ s.waitWakeIrp, (s.irps irp).cancelling = false

variable {order : ρ → UInt16} {s s' : WakeSystem ι ρ}

omit [DecidableEq ρ] in
theorem teardown_work (s : WakeSystem ι ρ) :
    s.uacpiNtWakeTeardown.disarmQueued = s.disarmQueued ∧
      s.uacpiNtWakeTeardown.releasing = s.releasing := by
  rw [uacpiNtWakeTeardown]
  obtain ⟨hclaim, -⟩ | ⟨irp, -, -, hclaim⟩ := s.claimIrp_cases
  all_goals
    rw [hclaim]
    exact ⟨rfl, rfl⟩

omit [DecidableEq ρ] in
theorem teardown_waitWakeIrp (hirps : s.IrpsOk) (hcan : s.NotCancelling) :
    s.uacpiNtWakeTeardown.waitWakeIrp = none := by
  rw [uacpiNtWakeTeardown]
  obtain ⟨hclaim, hlost⟩ | ⟨irp, -, -, hclaim⟩ := s.claimIrp_cases
  · rw [hclaim]
    by_contra hpend
    obtain ⟨irp, hpend⟩ := Option.ne_none_iff_exists'.1 hpend
    have hrout := (hirps irp).routine (by simpa [view] using hpend)
    simp [view, hlost irp hpend, hcan irp hpend] at hrout
  · rw [hclaim]
    rfl

omit [DecidableEq ρ] in
theorem teardown_of_cancelling {irp : ι} (hirps : s.IrpsOk) (hpend : s.waitWakeIrp = some irp)
    (hcan : (s.irps irp).cancelling = true) : s.uacpiNtWakeTeardown = s := by
  rw [uacpiNtWakeTeardown]
  obtain ⟨hclaim, -⟩ | ⟨other, hoth, hset, -⟩ := s.claimIrp_cases
  · rw [hclaim]
  · obtain rfl : irp = other := by simpa [hpend] using hoth
    have hrout := (hirps irp).routine (by simp [view, hpend])
    simp [view, hset, hcan] at hrout

/-- Nothing is pended and no work is outstanding. -/
structure Finished (s : WakeSystem ι ρ) : Prop where
  waitWakeIrp : s.waitWakeIrp = none
  work : s.NoDisarmWork

omit [DecidableEq ι] [DecidableEq ρ] in
theorem Finished.touch (hs : s.Finished) (block : WakeBlock ρ) (host : WakeHost ρ) :
    Finished { s with block := block, host := host } :=
  ⟨hs.waitWakeIrp, hs.work⟩

omit [DecidableEq ρ] in
theorem Finished.finish (hs : s.Finished) (last : Option (ι × NtStatus)) :
    (s.finish last).Finished := by
  cases last <;> exact ⟨hs.waitWakeIrp, hs.work⟩

theorem finished_step {op : WakeOp ι ρ} (hs : s.Finished) (h : step order s op = some s')
    (hop : op.arms = false) : s'.Finished := by
  have hclaim : s.uacpiNtWakeClaimIrp = (s, none) := by
    simp [uacpiNtWakeClaimIrp, hs.waitWakeIrp]
  cases op with
  | arm irp requested env => cases hop
  | armNext i env => cases hop
  | cancel irp =>
    cases h
    exact ⟨hs.waitWakeIrp, hs.work⟩
  | cancelRoutine irp =>
    obtain ⟨-, rfl⟩ := step_cancelRoutine.1 h
    -- The request is not the pended one, so nothing is queued.
    rw [waitWakeCancel_of_not_pended (by simp [hs.waitWakeIrp])]
    exact ⟨hs.waitWakeIrp, hs.work⟩
  | workerStart => simp [step_workerStart, hs.work.1] at h
  | workerRelease off => simp [step_workerRelease, hs.work.2] at h
  | complete =>
    cases h
    rw [uacpiNtWakeComplete, hclaim]
    exact hs
  | teardown =>
    cases h
    rw [uacpiNtWakeTeardown, hclaim]
    exact ⟨hs.waitWakeIrp, hs.work⟩
  | disarmNext i off =>
    obtain ⟨call, -, rfl⟩ := step_disarmNext.1 h
    have hs' : (s.takeDisarm i).Finished := ⟨hs.waitWakeIrp, hs.work⟩
    rw [disarmNext]
    split
    · split
      · exact ⟨hs.waitWakeIrp, hs.work⟩
      · exact hs'.finish call.last
    · exact ⟨hs.waitWakeIrp, hs.work⟩
    · exact (hs'.touch _ _).finish call.last

theorem finished_run {ops : List (WakeOp ι ρ)} (hs : s.Finished)
    (h : exec (step order) ops s = some s') (harms : ∀ op ∈ ops, op.arms = false) : s'.Finished :=
  exec_invariant (fun _ _ _ hs h hop => finished_step hs h hop) h hs
    (throughout_of_forall_mem harms)

theorem finished_removal {off : ρ → Bool} {during : Nat → List (WakeOp ι ρ)}
    (hs : s.uacpiNtWakeTeardown.Finished) (harms : ∀ n, ∀ op ∈ during n, op.arms = false)
    (h : s.uacpiNtFilterRemoveDevice order off during = some s') : s'.Finished := by
  simp only [uacpiNtFilterRemoveDevice, Option.bind_eq_bind, Option.bind_eq_some_iff] at h
  obtain ⟨t, ht, h⟩ := h
  have htes := finished_run hs ht (harms 0)
  split at h
  · obtain ⟨u, hu, v, hv, h⟩ := by simpa only [Option.bind_eq_some_iff] using h
    have hclr := finished_run ((finished_run htes hu (harms 1)).touch _ _) hv (harms 2)
    exact finished_run (hclr.touch _ _) h (harms 3)
  · exact finished_run htes h (harms 3)

theorem removal_undisturbed (order : ρ → UInt16) (off : ρ → Bool) (after : List (WakeOp ι ρ))
    (s : WakeSystem ι ρ) : ∃ block host,
      s.uacpiNtFilterRemoveDevice order off (fun n => if n = 3 then after else []) =
        exec (step order) after { s.uacpiNtWakeTeardown with block := block, host := host } := by
  simp only [uacpiNtFilterRemoveDevice, Option.bind_eq_bind]
  by_cases harme : s.uacpiNtWakeTeardown.block.armed = true
  · exact ⟨_, _, by simp [exec, harme]; rfl⟩
  · exact ⟨_, _, by simp [exec, harme]; rfl⟩

end WakeSystem

end UacpiNt
