import Mathlib.Data.List.Induction
import UacpiNt.Wake.Table

/-!
# The depth of a sleep

`UacpiNtWakeSuspendShallow` masks the armed blocks that asked for a shallower state, and records
that in `DepthSuspended`. The flag is right only while nobody else touches a masked block: a disarm
leaves the flag set, so that the line is enabled again for a block that is not armed, and a block
that is armed with the flag set is not masked the next time. A second suspend masks further blocks
and unmasks none, and blocks beyond the snapshot are not seen at all.
-/

namespace UacpiNt

open Function Holding Machine

def WakeBlock.unmasked {ρ : Type} (b : WakeBlock ρ) : Bool := b.armed && !b.depthSuspended

namespace WakeTable

variable {κ ρ : Type} [DecidableEq κ] [DecidableEq ρ]

section

variable (devices : List κ) (s : WakeTable κ ρ)

def Distinct : Prop :=
  ∀ j k, (s.blocks j).gpeValid = true → (s.blocks k).gpeValid = true →
    (s.blocks j).gpeLine = (s.blocks k).gpeLine → j = k

/-- The snapshot has room for all blocks that are armed or masked. -/
def SnapshotFits : Prop :=
  (devices.filter fun k => ((s.blocks k).armed || (s.blocks k).depthSuspended) &&
    (s.blocks k).node).length ≤ uacpintWakeSnapshotMax
deriving Decidable

/-- Masked blocks are not armed or disarmed, all active blocks are in the snapshot, and a further
suspend has to mask what is masked. -/
def LeavesMasked : TableOp κ ρ → Prop
  | .arm k _ _ _ | .complete k _ | .teardown k _ => (s.blocks k).depthSuspended = false
  | .suspendShallow target => s.SnapshotFits devices ∧
      ∀ k, (s.blocks k).depthSuspended = true → (s.blocks k).Shallow target
  | .restoreSuspended => s.SnapshotFits devices

instance [Fintype κ] : Decidable s.Distinct :=
  inferInstanceAs (Decidable (∀ j k, _ → _ → _ → j = k))

instance [Fintype κ] (op : TableOp κ ρ) : Decidable (s.LeavesMasked devices op) :=
  match op with
  | .arm .. | .complete .. | .teardown .. => inferInstanceAs (Decidable (_ = false))
  | .suspendShallow target =>
    inferInstanceAs (Decidable (_ ∧ ∀ k, _ → (s.blocks k).Shallow target))
  | .restoreSuspended => inferInstanceAs (Decidable (s.SnapshotFits devices))

/-- After a suspend the lines of the blocks that are armed for an unspecified state or one that is
deep enough are enabled for wake, and after a restore those of all armed blocks. -/
def MaskedRight : TableOp κ ρ → Prop
  | .suspendShallow target => ∀ k, (s.blocks k).gpeValid = true →
      (s.host.forWake (s.blocks k).gpeLine = true ↔ (s.blocks k).armed = true ∧
        ((s.blocks k).requestedSystemState = .unspecified ∨
          target.value ≤ (s.blocks k).requestedSystemState.value))
  | .restoreSuspended => ∀ k, (s.blocks k).gpeValid = true →
      (s.host.forWake (s.blocks k).gpeLine = true ↔ (s.blocks k).armed = true)
  | _ => True

end

/-- The lines that are enabled for wake are those of the blocks that are armed and not masked. -/
structure DepthOk (s : WakeTable κ ρ) : Prop where
  blocks : s.BlocksOk
  distinct : s.Distinct
  shown : Shows s.host.forWake (s.lineOf (·.unmasked))
  masked : ∀ k, (s.blocks k).depthSuspended = true → (s.blocks k).armed = true

variable {s s' : WakeTable κ ρ} {order : ρ → UInt16} {devices : List κ}

omit [DecidableEq κ] [DecidableEq ρ] in
theorem depthOk_of_idle (hs : s.Idle) (hdist : s.Distinct) : s.DepthOk where
  blocks := blocksOk_of_idle hs
  distinct := hdist
  shown line := by simp [hs.forWake, lineOf_eq_some, WakeBlock.unmasked, hs.armed]
  masked k h := by simp [hs.depthSuspended k] at h

variable {k : κ} {host : WakeHost ρ}

omit [DecidableEq κ] [DecidableEq ρ] in
theorem DepthOk.eq_of_line (hs : s.DepthOk) {j : κ} (hval : (s.blocks k).gpeValid = true)
    (hj : s.lineOf (·.unmasked) j = some (s.blocks k).gpeLine) : j = k := by
  obtain ⟨hunm, hline⟩ := lineOf_eq_some.1 hj
  have harm : (s.blocks j).armed = true := by
    rw [WakeBlock.unmasked, Bool.and_eq_true] at hunm
    exact hunm.1
  exact hs.distinct j k (hs.blocks.armed j harm) hval hline

omit [DecidableEq κ] [DecidableEq ρ] in
theorem DepthOk.forWake_iff (hs : s.DepthOk) (hval : (s.blocks k).gpeValid = true) :
    s.host.forWake (s.blocks k).gpeLine = true ↔ (s.blocks k).unmasked = true := by
  rw [hs.shown]
  constructor
  · rintro ⟨j, hj⟩
    obtain rfl := hs.eq_of_line hval hj
    exact (lineOf_eq_some.1 hj).1
  · exact fun h => ⟨k, lineOf_eq_some.2 ⟨h, rfl⟩⟩

/-! ### Changes of one block -/

omit [DecidableEq ρ] in
theorem DepthOk.update (hs : s.DepthOk) {block : WakeBlock ρ} {pended : κ → Bool}
    (hblocks : BlocksOk ⟨Function.update s.blocks k block, pended, host⟩)
    (hdist : Distinct ⟨Function.update s.blocks k block, pended, host⟩)
    (hshown : Shows host.forWake (Function.update (s.lineOf (·.unmasked)) k
      (if block.unmasked then some block.gpeLine else none)))
    (hmask : block.depthSuspended = true → block.armed = true) :
    DepthOk ⟨Function.update s.blocks k block, pended, host⟩ := by
  refine ⟨hblocks, hdist, by rwa [lineOf_update], fun j hj => ?_⟩
  by_cases hjk : j = k
  · subst hjk
    simp only [update_self] at hj ⊢
    exact hmask hj
  · simp only [update_of_ne hjk] at hj ⊢
    exact hs.masked j hj

theorem depthOk_arm (hs : s.DepthOk) {requested : SystemPowerState} {cancel : Bool} {env : ArmEnv ρ}
    (hunm : (s.blocks k).depthSuspended = false)
    (hdist : (s.arm order k requested cancel env).1.Distinct) :
    (s.arm order k requested cancel env).1.DepthOk := by
  have hblocks := hs.blocks.arm order k requested cancel env
  rcases hres : uacpiNtWakeArm order env requested (s.pended k) cancel (s.blocks k) s.host with
    ⟨block, host, refused⟩
  obtain ⟨hpars, heff⟩ := wakeArm_effect (hs.blocks.pended k) hres
  have hsus : block.depthSuspended = false := hpars.depthSuspended.trans hunm
  simp only [arm, hres] at hdist hblocks ⊢
  refine hs.update hblocks hdist ?_ fun h => by simp [hsus] at h
  cases heff with
  | refused e harm hbits =>
    have hsame : (if block.unmasked then some block.gpeLine else none) =
        s.lineOf (·.unmasked) k := by
      cases hbef : (s.blocks k).armed with
      | false => simp [lineOf, WakeBlock.unmasked, harm, hbef]
      | true =>
        -- The line of an armed block was parsed before.
        have hpar := (hs.blocks.valid k (hs.blocks.armed k hbef)).1
        simp [lineOf, WakeBlock.unmasked, harm, hsus, hunm, (hpars.gpe hpar).2]
    rw [hbits, hsame, update_eq_self]
    exact hs.shown
  | undone e hidle hval harm hbits =>
    have hnone : s.lineOf (·.unmasked) k = none := by
      simp [lineOf, WakeBlock.unmasked, hidle]
    have hunu : ∀ j, s.lineOf (·.unmasked) j ≠ some block.gpeLine := by
      intro j hj
      have hjk : j ≠ k := by
        rintro rfl
        simp [hnone] at hj
      obtain ⟨hopen, hline⟩ := lineOf_eq_some.1 hj
      rw [WakeBlock.unmasked, Bool.and_eq_true] at hopen
      refine hjk (hdist j k ?_ ?_ ?_)
      · simpa [hjk] using hs.blocks.armed j hopen.1
      · simpa using hval
      · simpa [hjk] using hline
    rw [hbits, if_neg (by simp [WakeBlock.unmasked, harm]), ← hnone, update_eq_self]
    exact hs.shown.clear_unused hunu true
  | pended hidle hval harm hbits =>
    rw [hbits, if_pos (by simp [WakeBlock.unmasked, harm, hsus])]
    exact hs.shown.set (by simp [lineOf, WakeBlock.unmasked, hidle]) block.gpeLine

omit [DecidableEq ρ] in
theorem Distinct.update (hs : s.Distinct) {block : WakeBlock ρ} {pended : κ → Bool}
    (hval : block.gpeValid = (s.blocks k).gpeValid) (hline : block.gpeLine = (s.blocks k).gpeLine) :
    Distinct ⟨Function.update s.blocks k block, pended, host⟩ := by
  have hsame : ∀ j, (Function.update s.blocks k block j).gpeValid = (s.blocks j).gpeValid ∧
      (Function.update s.blocks k block j).gpeLine = (s.blocks j).gpeLine := by
    intro j
    by_cases hj : j = k
    · subst hj
      simp [hval, hline]
    · simp [hj]
  intro i j hi hj hlines
  simp only [hsame] at hi hj hlines
  exact hs i j hi hj hlines

omit [DecidableEq ρ] in
theorem DepthOk.shown_cleared (hs : s.DepthOk) (hopen : (s.blocks k).unmasked = true)
    (hval : (s.blocks k).gpeValid = true) :
    Shows (Function.update s.host.forWake (s.blocks k).gpeLine false)
      (Function.update (s.lineOf (·.unmasked)) k none) :=
  (hs.shown.clear_iff (lineOf_eq_some.2 ⟨hopen, rfl⟩)).2 fun _ hjk hj =>
    hjk (hs.eq_of_line hval hj)

theorem depthOk_disarm (hs : s.DepthOk) (off : ρ → Bool)
    (hunm : (s.blocks k).depthSuspended = false) : (s.disarm k off).DepthOk := by
  have hblocks := hs.blocks.disarm k off
  simp only [disarm] at hblocks ⊢
  cases harm : (s.blocks k).armed with
  | false =>
    rw [disarm_of_not_armed off s.host harm] at hblocks ⊢
    refine hs.update hblocks (hs.distinct.update rfl rfl) ?_ fun h => by simp [hunm] at h
    rw [← lineOf, update_eq_self]
    exact hs.shown
  | true =>
    obtain ⟨hblock, hbits⟩ := disarm_of_armed off s.host harm
    rw [hblock] at hblocks ⊢
    refine hs.update hblocks (hs.distinct.update rfl rfl) ?_ fun h => by simp [hunm] at h
    rw [hbits]
    exact hs.shown_cleared (by simp [WakeBlock.unmasked, harm, hunm]) (hs.blocks.armed k harm)

/-! ### The loops over the snapshot -/

omit [DecidableEq ρ] in
theorem DepthOk.setSuspended (hs : s.DepthOk) (harm : (s.blocks k).armed = true)
    (suspended : Bool) (hshown : Shows host.forWake (Function.update (s.lineOf (·.unmasked)) k
      (if suspended then none else some (s.blocks k).gpeLine))) :
    (s.setSuspended k suspended host).DepthOk := by
  refine hs.update ?_ (hs.distinct.update rfl rfl) ?_ fun _ => harm
  · exact hs.blocks.update k (by rw [← hs.blocks.pended k, update_eq_self])
      (hs.blocks.armed k) (hs.blocks.valid k)
  · cases suspended <;> simpa [WakeBlock.unmasked, harm] using hshown

omit [DecidableEq ρ] in
theorem depthOk_suspendOne (hs : s.DepthOk) (target : SystemPowerState) (k : κ) :
    (s.suspendOne target k).DepthOk := by
  rw [suspendOne]
  split
  · rename_i hmas
    obtain ⟨hunm, harm, -⟩ := hmas
    refine hs.setSuspended harm true ?_
    exact hs.shown_cleared (by simp [WakeBlock.unmasked, harm, hunm]) (hs.blocks.armed k harm)
  · exact hs

omit [DecidableEq ρ] in
theorem depthOk_restoreOne (hs : s.DepthOk) (k : κ) : (s.restoreOne k).DepthOk := by
  rw [restoreOne]
  split
  · rename_i hmask
    refine hs.setSuspended (hs.masked k hmask) false ?_
    exact hs.shown.set (by simp [lineOf, WakeBlock.unmasked, hmask]) _
  · exact hs

omit [DecidableEq ρ] in
theorem foldl_suspendOne_blocks (target : SystemPowerState) (list : List κ) (s : WakeTable κ ρ)
    (j : κ) : (list.foldl (suspendOne target) s).blocks j =
      if j ∈ list ∧ (s.blocks j).Shallow target then { s.blocks j with depthSuspended := true }
      else s.blocks j := by
  induction list generalizing s with
  | nil => simp
  | cons k list ih =>
    rw [List.foldl_cons, ih]
    by_cases hmas : (s.blocks k).depthSuspended = false ∧ (s.blocks k).Shallow target
    · rw [suspendOne, if_pos hmas]
      by_cases hj : j = k
      · subst hj
        simp [setSuspended, hmas.2]
      · simp [setSuspended, hj]
    · rw [suspendOne, if_neg hmas]
      by_cases hj : j = k
      · subst hj
        by_cases hshal : (s.blocks j).Shallow target
        · -- The block is masked already.
          have hmask : (s.blocks j).depthSuspended = true := by simpa [hshal] using hmas
          have hsame : { s.blocks j with depthSuspended := true } = s.blocks j := by
            rw [← hmask]
          simp [hsame]
        · simp [hshal]
      · simp [hj]

omit [DecidableEq ρ] in
theorem foldl_restoreOne_blocks (list : List κ) (s : WakeTable κ ρ) (j : κ) :
    (list.foldl restoreOne s).blocks j =
      if j ∈ list then { s.blocks j with depthSuspended := false } else s.blocks j := by
  induction list generalizing s with
  | nil => simp
  | cons k list ih =>
    rw [List.foldl_cons, ih]
    cases hmask : (s.blocks k).depthSuspended with
    | true =>
      rw [restoreOne, if_pos hmask]
      by_cases hj : j = k
      · subst hj
        simp [setSuspended]
      · simp [setSuspended, hj]
    | false =>
      have hstays : s.restoreOne k = s := if_neg (by simp [hmask])
      rw [hstays]
      by_cases hj : j = k
      · subst hj
        have hsame : { s.blocks j with depthSuspended := false } = s.blocks j := by
          rw [← hmask]
        simp [hsame]
      · simp [hj]

omit [DecidableEq κ] [DecidableEq ρ] in
theorem mem_snapshot (hs : s.DepthOk) (hdevs : ∀ k, k ∈ devices) (hfits : s.SnapshotFits devices)
    (harm : (s.blocks k).armed = true) : k ∈ s.uacpiNtWakeSnapshotActive devices := by
  have hnode := (hs.blocks.valid k (hs.blocks.armed k harm)).2
  rw [uacpiNtWakeSnapshotActive, List.take_of_length_le hfits]
  simp [hdevs k, harm, hnode]

omit [DecidableEq ρ] in
theorem depthOk_suspendShallow (hs : s.DepthOk) (devices : List κ) (target : SystemPowerState) :
    (s.uacpiNtWakeSuspendShallow devices target).DepthOk :=
  List.foldlRecOn _ _ hs fun _ hs k _ => depthOk_suspendOne hs target k

omit [DecidableEq ρ] in
theorem depthOk_restoreSuspended (hs : s.DepthOk) (devices : List κ) :
    (s.uacpiNtWakeRestoreSuspended devices).DepthOk :=
  List.foldlRecOn _ _ hs fun _ hs k _ => depthOk_restoreOne hs k

omit [DecidableEq ρ] in
theorem maskedRight_suspendShallow (hs : s.DepthOk) (hdevs : ∀ k, k ∈ devices)
    {target : SystemPowerState} (hfits : s.SnapshotFits devices)
    (hmask : ∀ k, (s.blocks k).depthSuspended = true → (s.blocks k).Shallow target) :
    MaskedRight (s.uacpiNtWakeSuspendShallow devices target) (.suspendShallow target) := by
  intro k hval
  rw [(depthOk_suspendShallow hs devices target).forWake_iff hval]
  simp only [uacpiNtWakeSuspendShallow, foldl_suspendOne_blocks]
  by_cases hshal : (s.blocks k).Shallow target
  · have hmem := mem_snapshot hs hdevs hfits hshal.1
    rw [if_pos ⟨hmem, hshal⟩]
    obtain ⟨-, hspec, hless⟩ := hshal
    simp [WakeBlock.unmasked, hspec, hless]
  · rw [if_neg fun h => hshal h.2]
    have hopen : (s.blocks k).depthSuspended = false := by
      simpa using mt (hmask k) hshal
    simp only [WakeBlock.Shallow, not_and, not_lt] at hshal
    simp only [WakeBlock.unmasked, hopen, Bool.not_false, Bool.and_true]
    refine ⟨fun harm => ⟨harm, ?_⟩, And.left⟩
    exact or_iff_not_imp_left.2 (hshal harm)

omit [DecidableEq ρ] in
theorem maskedRight_restoreSuspended (hs : s.DepthOk) (hdevs : ∀ k, k ∈ devices)
    (hfits : s.SnapshotFits devices) :
    MaskedRight (s.uacpiNtWakeRestoreSuspended devices) .restoreSuspended := by
  intro k hval
  rw [(depthOk_restoreSuspended hs devices).forWake_iff hval]
  simp only [uacpiNtWakeRestoreSuspended, foldl_restoreOne_blocks]
  cases hmask : (s.blocks k).depthSuspended with
  | true =>
    rw [if_pos (mem_snapshot hs hdevs hfits (hs.masked k hmask))]
    simp [WakeBlock.unmasked]
  | false => split <;> simp [WakeBlock.unmasked, hmask]

theorem depthOk_step {op : TableOp κ ρ} (hs : s.DepthOk) (hdevs : ∀ k, k ∈ devices)
    (h : step order devices s op = some s') (hdist : s'.Distinct)
    (hop : s.LeavesMasked devices op) : s'.DepthOk ∧ s'.MaskedRight op := by
  cases op with
  | arm k requested cancel env =>
    cases h
    exact ⟨depthOk_arm hs hop hdist, trivial⟩
  | complete k off =>
    cases h
    split
    · exact ⟨depthOk_disarm hs off hop, trivial⟩
    · exact ⟨hs, trivial⟩
  | teardown k off =>
    cases h
    exact ⟨depthOk_disarm hs off hop, trivial⟩
  | suspendShallow target =>
    cases h
    exact ⟨depthOk_suspendShallow hs devices target,
      maskedRight_suspendShallow hs hdevs hop.1 hop.2⟩
  | restoreSuspended =>
    cases h
    exact ⟨depthOk_restoreSuspended hs devices, maskedRight_restoreSuspended hs hdevs hop⟩

/-- In every sequence of arms, disarms, suspends and restores from an idle table of blocks on
distinct lines that leaves masked blocks alone, after each suspend a line is enabled for wake
exactly if its block is armed for an unspecified state or one that is deep enough, and after each
restore exactly if its block is armed. -/
theorem sleep_depth_masking (order : ρ → UInt16) (devices : List κ) (hdevices : ∀ k, k ∈ devices)
    (s : WakeTable κ ρ) (hidle : s.Idle) (hdistinct : s.Distinct) (ops : List (TableOp κ ρ))
    (hlines : Throughout (step order devices) (fun _ _ s' => s'.Distinct) ops s)
    (hmasked : Throughout (step order devices) (fun s op _ => s.LeavesMasked devices op) ops s) :
    Throughout (step order devices) (fun _ op s' => s'.MaskedRight op) ops s :=
  (hlines.and hmasked).imp
    (fun _ _ _ hs h hstep => depthOk_step hs hdevices h hstep.1 hstep.2)
    (depthOk_of_idle hidle hdistinct)

theorem shallow_block_masked :
    Throughout (step (fun _ => 0) [0, 1]) (fun _ op s' => s'.MaskedRight op)
      [.arm 0 .sleeping1 false (.plain 9), .arm 1 .sleeping3 false (.plain 10),
        .suspendShallow .sleeping3, .restoreSuspended, .complete 1 fun _ => true] twoBlocks :=
  sleep_depth_masking _ [0, 1] (by decide) twoBlocks twoBlocks_idle (by decide) _
    (by decide +kernel) (by decide +kernel)

/-- A masked block is disarmed before the restore, which enables its line again. -/
theorem disarmed_block_enabled :
    ∃ s ∈ exec (step (fun _ => 0) [0, 1])
        [.arm 0 .sleeping1 false (.plain 9), .suspendShallow .sleeping3, .complete 0 fun _ => true,
          .restoreSuspended] twoBlocks,
      (s.blocks 0).armed = false ∧ (s.blocks 0).gpeLine = 9 ∧ s.host.forWake 9 = true := by
  decide +kernel

end WakeTable

end UacpiNt
