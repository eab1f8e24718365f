import UacpiNt.Machine.Operations
import UacpiNt.Wake.Basic

/-!
# Many wake blocks

The wake blocks of all devices act on the same lines. On the way to sleep
`UacpiNtWakeSuspendShallow` masks the lines of the devices that asked for a shallower state, and
`UacpiNtWakeRestoreSuspended` unmasks them afterwards. Both look at a snapshot of at most 64 blocks
that are armed or masked.
-/

namespace UacpiNt

def uacpintWakeSnapshotMax : Nat := 64

/-- The wake blocks of all devices, and which of them have a request pended. -/
structure WakeTable (κ ρ : Type) where
  blocks : κ → WakeBlock ρ
  pended : κ → Bool
  host : WakeHost ρ

/-- What happens to the blocks. `cancel` says that the request was cancelled before it is
pended. -/
inductive TableOp (κ ρ : Type) where
  | arm (k : κ) (requested : SystemPowerState) (cancel : Bool) (env : ArmEnv ρ)
  | complete (k : κ) (off : ρ → Bool)
  | teardown (k : κ) (off : ρ → Bool)
  | suspendShallow (target : SystemPowerState)
  | restoreSuspended

/-- The block is armed for a state that is specified and shallower than the target. -/
def WakeBlock.Shallow {ρ : Type} (target : SystemPowerState) (b : WakeBlock ρ) : Prop :=
  b.armed = true ∧ b.requestedSystemState ≠ .unspecified ∧
    b.requestedSystemState.value < target.value
deriving Decidable

namespace WakeTable

variable {κ ρ : Type} [DecidableEq κ]

section

variable (devices : List κ) (target : SystemPowerState) (s : WakeTable κ ρ) (k : κ)

/-- `devices` are the children and then the filters of the FDO. -/
def uacpiNtWakeSnapshotActive : List κ :=
  (devices.filter fun k =>
    ((s.blocks k).armed || (s.blocks k).depthSuspended) && (s.blocks k).node).take
      uacpintWakeSnapshotMax

def setSuspended (depthSuspended : Bool) (host : WakeHost ρ) : WakeTable κ ρ :=
  ⟨Function.update s.blocks k { s.blocks k with depthSuspended := depthSuspended }, s.pended, host⟩

def suspendOne : WakeTable κ ρ :=
  if (s.blocks k).depthSuspended = false ∧ (s.blocks k).Shallow target then
    s.setSuspended k true (s.host.disableGpeForWake (s.blocks k).gpeLine)
  else s

def restoreOne : WakeTable κ ρ :=
  if (s.blocks k).depthSuspended then
    s.setSuspended k false (s.host.enableGpeForWake (s.blocks k).gpeLine)
  else s

def uacpiNtWakeSuspendShallow : WakeTable κ ρ :=
  (s.uacpiNtWakeSnapshotActive devices).foldl (suspendOne target) s

def uacpiNtWakeRestoreSuspended : WakeTable κ ρ :=
  (s.uacpiNtWakeSnapshotActive devices).foldl restoreOne s

end

variable [DecidableEq ρ]

def arm (order : ρ → UInt16) (s : WakeTable κ ρ) (k : κ) (requested : SystemPowerState)
    (cancel : Bool) (env : ArmEnv ρ) : WakeTable κ ρ × Option NtError :=
  let (block, host, refused) :=
    uacpiNtWakeArm order env requested (s.pended k) cancel (s.blocks k) s.host
  ({ blocks := Function.update s.blocks k block
     pended := if refused.isNone then Function.update s.pended k true else s.pended
     host := host }, refused)

/-- `UacpiNtWakeDisarm` on one of the blocks, whose request was claimed. -/
def disarm (s : WakeTable κ ρ) (k : κ) (off : ρ → Bool) : WakeTable κ ρ :=
  let (block, host) := uacpiNtWakeDisarm off (s.blocks k) s.host
  ⟨Function.update s.blocks k block, Function.update s.pended k false, host⟩

/-- One operation. `UacpiNtWakeComplete` does nothing without a pended request. -/
def step (order : ρ → UInt16) (devices : List κ) (s : WakeTable κ ρ) :
    TableOp κ ρ → Option (WakeTable κ ρ)
  | .arm k requested cancel env => some (s.arm order k requested cancel env).1
  | .complete k off => some (if s.pended k then s.disarm k off else s)
  | .teardown k off => some (s.disarm k off)
  | .suspendShallow target => some (s.uacpiNtWakeSuspendShallow devices target)
  | .restoreSuspended => some (s.uacpiNtWakeRestoreSuspended devices)

/-- Nothing is armed, pended, masked or enabled for wake. A block has no line that is not known to
be parsed, and only if it has a node. -/
structure Idle (s : WakeTable κ ρ) : Prop where
  armed : ∀ k, (s.blocks k).armed = false
  depthSuspended : ∀ k, (s.blocks k).depthSuspended = false
  pended : ∀ k, s.pended k = false
  forWake : ∀ line, s.host.forWake line = false
  valid : ∀ k, (s.blocks k).gpeValid = true →
    (s.blocks k).gpeParsed = true ∧ (s.blocks k).node = true

/-! ### Which blocks are in use -/

/-- The request of a block is pended exactly while the block is armed, and its line is known. -/
structure BlocksOk (s : WakeTable κ ρ) : Prop where
  pended : ∀ k, s.pended k = (s.blocks k).armed
  armed : ∀ k, (s.blocks k).armed = true → (s.blocks k).gpeValid = true
  valid : ∀ k, (s.blocks k).gpeValid = true →
    (s.blocks k).gpeParsed = true ∧ (s.blocks k).node = true

variable {s s' : WakeTable κ ρ}

omit [DecidableEq κ] [DecidableEq ρ] in
theorem blocksOk_of_idle (hs : s.Idle) : s.BlocksOk where
  pended k := (hs.pended k).trans (hs.armed k).symm
  armed k h := by simp [hs.armed k] at h
  valid := hs.valid

omit [DecidableEq ρ] in
theorem BlocksOk.update (hs : s.BlocksOk) (k : κ) {block : WakeBlock ρ} {pended : κ → Bool}
    {host : WakeHost ρ} (hpend : pended = Function.update s.pended k block.armed)
    (harme : block.armed = true → block.gpeValid = true)
    (hval : block.gpeValid = true → block.gpeParsed = true ∧ block.node = true) :
    BlocksOk ⟨Function.update s.blocks k block, pended, host⟩ := by
  subst hpend
  refine ⟨fun j => ?_, fun j => ?_, fun j => ?_⟩
  all_goals by_cases hj : j = k
  · subst hj
    simp
  · simpa [hj] using hs.pended j
  · subst hj
    simpa using harme
  · simpa [hj] using hs.armed j
  · subst hj
    simpa using hval
  · simpa [hj] using hs.valid j

theorem BlocksOk.arm (hs : s.BlocksOk) (order : ρ → UInt16) (k : κ) (requested : SystemPowerState)
    (cancel : Bool) (env : ArmEnv ρ) : (s.arm order k requested cancel env).1.BlocksOk := by
  rcases hres : uacpiNtWakeArm order env requested (s.pended k) cancel (s.blocks k) s.host with
    ⟨block, host, refused⟩
  obtain ⟨hpars, heff⟩ := wakeArm_effect (hs.pended k) hres
  have hval : block.gpeValid = true → block.gpeParsed = true ∧ block.node = true := by
    intro hval
    refine ⟨hpars.parsed, hpars.node.trans ?_⟩
    exact (hpars.valid hval).elim (fun h => (hs.valid k h).2) id
  simp only [WakeTable.arm, hres]
  cases heff with
  | refused e harme hbits =>
    refine hs.update k ?_ (fun harm => ?_) hval
    · rw [harme, ← hs.pended k, Function.update_eq_self]
      rfl
    · have hbef := hs.armed k (harme ▸ harm)
      rw [(hpars.gpe (hs.valid k hbef).1).1]
      exact hbef
  | undone e hidle hknown harme hbits =>
    refine hs.update k ?_ (fun _ => hknown) hval
    rw [harme, ← hidle, ← hs.pended k, Function.update_eq_self]
    rfl
  | pended hidle hknown harme hbits =>
    refine hs.update k ?_ (fun _ => hknown) hval
    rw [harme]
    rfl

theorem BlocksOk.disarm (hs : s.BlocksOk) (k : κ) (off : ρ → Bool) : (s.disarm k off).BlocksOk := by
  simp only [WakeTable.disarm]
  cases harme : (s.blocks k).armed with
  | false =>
    rw [disarm_of_not_armed off s.host harme]
    exact hs.update k (by rw [harme]) (hs.armed k) (hs.valid k)
  | true =>
    rw [(disarm_of_armed off s.host harme).1]
    exact hs.update k rfl (fun h => by cases h) (hs.valid k)

/-! ### Which lines are in use -/

def lineOf (p : WakeBlock ρ → Bool) (s : WakeTable κ ρ) (k : κ) : Option UInt8 :=
  if p (s.blocks k) then some (s.blocks k).gpeLine else none

omit [DecidableEq κ] [DecidableEq ρ] in
theorem lineOf_eq_some {p : WakeBlock ρ → Bool} {k : κ} {line : UInt8} :
    s.lineOf p k = some line ↔ p (s.blocks k) = true ∧ (s.blocks k).gpeLine = line := by
  simp [lineOf]

omit [DecidableEq ρ] in
theorem lineOf_update (p : WakeBlock ρ → Bool) (k : κ) (block : WakeBlock ρ) (pended : κ → Bool)
    (host : WakeHost ρ) : lineOf p ⟨Function.update s.blocks k block, pended, host⟩ =
      Function.update (s.lineOf p) k (if p block then some block.gpeLine else none) := by
  funext j
  by_cases hj : j = k
  · subst hj
    simp [lineOf]
  · simp [lineOf, hj]

def twoBlocks : WakeTable (Fin 2) (Fin 1) := ⟨fun _ => .plain, fun _ => false, .plain⟩

theorem twoBlocks_idle : twoBlocks.Idle :=
  ⟨fun _ => rfl, fun _ => rfl, fun _ => rfl, fun _ => rfl, fun _ h => by cases h⟩

end WakeTable

/-! ### Lines that devices share -/

open Holding Machine

namespace WakeTable

variable {κ ρ : Type} [DecidableEq κ] [DecidableEq ρ]

section

variable (order : ρ → UInt16) (s : WakeTable κ ρ) (op : TableOp κ ρ)

/-- A line is enabled for wake exactly if an armed block uses it. -/
def LinesMatch : Prop :=
  ∀ line, s.host.forWake line = true ↔
    ∃ k, (s.blocks k).armed = true ∧ (s.blocks k).gpeLine = line

/-- The operation arms a block with success or disarms one. -/
def ArmsOrDisarms : TableOp κ ρ → Prop
  | .arm k requested cancel env => (s.arm order k requested cancel env).2 = none
  | .complete .. | .teardown .. => True
  | .suspendShallow _ | .restoreSuspended => False

/-- A block that is disarmed shares its line with no other armed block. -/
def LineAlone : TableOp κ ρ → Prop
  | .complete k _ | .teardown k _ => (s.blocks k).armed = true →
      ∀ j ≠ k, (s.blocks j).armed = true → (s.blocks j).gpeLine ≠ (s.blocks k).gpeLine
  | _ => True

instance : Decidable (s.ArmsOrDisarms order op) :=
  match op with
  | .arm .. => inferInstanceAs (Decidable (_ = none))
  | .complete .. | .teardown .. => .isTrue trivial
  | .suspendShallow _ | .restoreSuspended => .isFalse id

instance [Fintype κ] : Decidable (s.LineAlone op) :=
  match op with
  | .complete k _ | .teardown k _ => inferInstanceAs (Decidable (_ → ∀ j ≠ k, _ → _ ≠ _))
  | .arm .. | .suspendShallow _ | .restoreSuspended => .isTrue trivial

end

variable {s s' : WakeTable κ ρ} {order : ρ → UInt16} {devices : List κ}

omit [DecidableEq κ] [DecidableEq ρ] in
theorem linesMatch_iff : s.LinesMatch ↔ Shows s.host.forWake (s.lineOf (·.armed)) := by
  simp only [LinesMatch, Shows, lineOf_eq_some]

theorem linesMatch_arm (hs : s.BlocksOk) (hlines : s.LinesMatch) {k : κ}
    {requested : SystemPowerState} {cancel : Bool} {env : ArmEnv ρ}
    (hpends : (s.arm order k requested cancel env).2 = none) :
    (s.arm order k requested cancel env).1.LinesMatch := by
  rw [linesMatch_iff] at hlines ⊢
  rcases hres : uacpiNtWakeArm order env requested (s.pended k) cancel (s.blocks k) s.host with
    ⟨block, host, refused⟩
  simp only [arm, hres] at hpends ⊢
  subst hpends
  obtain ⟨-, heff⟩ := wakeArm_effect (hs.pended k) hres
  cases heff with
  | pended hidle hval harm hbits =>
    rw [lineOf_update, harm, hbits]
    exact hlines.set (by simp [lineOf, hidle]) block.gpeLine

theorem linesMatch_disarm_iff (hlines : s.LinesMatch) (k : κ) (off : ρ → Bool) :
    (s.disarm k off).LinesMatch ↔ ((s.blocks k).armed = true →
      ∀ j ≠ k, (s.blocks j).armed = true → (s.blocks j).gpeLine ≠ (s.blocks k).gpeLine) := by
  rw [linesMatch_iff] at hlines ⊢
  simp only [disarm]
  cases harm : (s.blocks k).armed with
  | false =>
    have hsame : s.lineOf (·.armed) k = none := by simp [lineOf, harm]
    rw [disarm_of_not_armed off s.host harm, lineOf_update, harm, ← hsame]
    simpa using hlines
  | true =>
    obtain ⟨hblock, hbits⟩ := disarm_of_armed off s.host harm
    have hline : s.lineOf (·.armed) k = some (s.blocks k).gpeLine := by simp [lineOf, harm]
    rw [lineOf_update, hblock, hbits, if_neg (by simp), hlines.clear_iff hline]
    simp [lineOf_eq_some]

/-- One arm or disarm keeps the lines right exactly if it leaves no other user of the line. -/
theorem linesMatch_step_iff {op : TableOp κ ρ} (hs : s.BlocksOk) (hlines : s.LinesMatch)
    (h : step order devices s op = some s') (hop : s.ArmsOrDisarms order op) :
    s'.BlocksOk ∧ (s'.LinesMatch ↔ s.LineAlone op) := by
  cases op with
  | arm k requested cancel env =>
    cases h
    exact ⟨hs.arm order k requested cancel env, iff_of_true (linesMatch_arm hs hlines hop) trivial⟩
  | complete k off =>
    cases h
    cases hpend : s.pended k with
    | false =>
      have hidle : (s.blocks k).armed = false := (hs.pended k).symm.trans hpend
      exact ⟨hs, iff_of_true hlines fun h => by simp [hidle] at h⟩
    | true =>
      exact ⟨hs.disarm k off, linesMatch_disarm_iff hlines k off⟩
  | teardown k off =>
    cases h
    exact ⟨hs.disarm k off, linesMatch_disarm_iff hlines k off⟩
  | suspendShallow | restoreSuspended => cases hop

/-- In every sequence of successful arms and of disarms from an idle table, each line is enabled
for wake exactly if an armed block uses it, after every operation, exactly if no block is disarmed
while another armed block uses its line. -/
theorem shared_wake_lines_iff (order : ρ → UInt16) (devices : List κ) (s : WakeTable κ ρ)
    (hidle : s.Idle) (ops : List (TableOp κ ρ))
    (hops : Throughout (step order devices) (fun s op _ => s.ArmsOrDisarms order op) ops s) :
    Throughout (step order devices) (fun _ _ s' => s'.LinesMatch) ops s ↔
      Throughout (step order devices) (fun s op _ => s.LineAlone op) ops s := by
  have hlines : s.LinesMatch := fun line => by simp [hidle.forWake, hidle.armed]
  exact throughout_iff (fun _ _ _ hs hlines h hop => linesMatch_step_iff hs hlines h hop)
    (blocksOk_of_idle hidle) hlines hops

theorem own_lines_match :
    Throughout (step (fun _ => 0) [0, 1]) (fun _ _ s' => s'.LinesMatch)
      [.arm 0 .sleeping3 false (.plain 9), .arm 1 .sleeping3 false (.plain 10),
        .complete 0 fun _ => true] twoBlocks :=
  (shared_wake_lines_iff _ _ twoBlocks twoBlocks_idle _ (by decide +kernel)).2 (by decide +kernel)

/-- Two blocks on one line: the wake of the first device takes the line from the second. -/
theorem shared_line_lost :
    Throughout (step (fun _ => 0) [0, 1]) (fun s op _ => s.ArmsOrDisarms (fun _ => 0) op)
      [.arm 0 .sleeping3 false (.plain 9), .arm 1 .sleeping3 false (.plain 9),
        .complete 0 fun _ => true] twoBlocks ∧
    ∃ s ∈ exec (step (fun _ => 0) [0, 1])
        [.arm 0 .sleeping3 false (.plain 9), .arm 1 .sleeping3 false (.plain 9),
          .complete 0 fun _ => true] twoBlocks,
      (s.blocks 1).armed = true ∧ (s.blocks 1).gpeLine = 9 ∧ s.host.forWake 9 = false := by
  decide +kernel

end WakeTable

end UacpiNt
