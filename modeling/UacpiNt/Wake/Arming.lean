import UacpiNt.Wake.Protocol

/-!
# The hardware of a wake block

`Armed` is to say whether the line of the block is enabled at run time and its wake resources are
referenced. That takes that `Armed` is clear, and nothing about to be released, when a request sets
it, and that it is set, with no request that relies on it, when it is cleared. The lock sees to
neither. A request that comes between the cancel routine of the last one and the worker enables the
line and references the resources again, and the worker then finds a request pended and leaves the
block alone. And a teardown that tests `Armed` before the worker does releases the hardware after
the worker has released it.
-/

namespace UacpiNt

open Holding Machine

namespace WakeSystem

variable {ι ρ : Type}

def releases (s : WakeSystem ι ρ) : Nat :=
  s.releasing + s.disarms.countP (fun call => call.point == .releasing)

/-- No request relies on `Armed`: one that is pended is being cancelled, and none is on its way to
be pended with `Armed` set. -/
def Unneeded (s : WakeSystem ι ρ) : Prop :=
  (∀ irp ∈ s.waitWakeIrp, (s.irps irp).cancelling = true) ∧
    ∀ call ∈ s.arms, call.point = .enabling

/-- A call that sets `Armed` finds it clear and nothing about to be released, and one that clears it
finds it set and not needed. -/
def Orderly (s : WakeSystem ι ρ) : WakeOp ι ρ → Prop
  | .armNext i env => ∀ call ∈ s.arms[i]?, call.point = .enabling →
    env.enableForWake = true → env.enable = true → s.block.armed = false ∧ s.releases = 0
  | .disarmNext i _ => ∀ call ∈ s.disarms[i]?, call.point = .clearing →
    s.block.armed = true ∧ s.Unneeded
  | .workerStart => s.waitWakeIrp = none → s.block.armed = true → s.Unneeded
  | _ => True

instance (s : WakeSystem ι ρ) (op : WakeOp ι ρ) : Decidable (s.Orderly op) :=
  match op with
  | .armNext .. => inferInstanceAs (Decidable (∀ call ∈ _, _ → _ → _ → _ ∧ _))
  | .disarmNext .. =>
    inferInstanceAs (Decidable (∀ call ∈ _, _ → _ ∧ (∀ irp ∈ _, _) ∧ ∀ call ∈ _, _))
  | .workerStart => inferInstanceAs (Decidable (_ → _ → (∀ irp ∈ _, _) ∧ ∀ call ∈ _, _))
  | .arm .. | .cancel _ | .cancelRoutine _ | .workerRelease _ | .complete | .teardown =>
    .isTrue trivial

/-- No request is sent while another one is being armed. -/
def Successive (s : WakeSystem ι ρ) : WakeOp ι ρ → Prop
  | .arm .. => s.arms = []
  | _ => True

instance (s : WakeSystem ι ρ) (op : WakeOp ι ρ) : Decidable (s.Successive op) :=
  match op with
  | .arm .. => inferInstanceAs (Decidable (_ = []))
  | .armNext .. | .cancel _ | .cancelRoutine _ | .workerStart | .workerRelease _ | .complete
  | .teardown | .disarmNext .. => .isTrue trivial

structure Quiescent (s : WakeSystem ι ρ) : Prop where
  cancelling : ∀ irp, (s.irps irp).cancelling = false
  disarmQueued : s.disarmQueued = false
  releasing : s.releasing = 0
  arms : s.arms = []
  disarms : s.disarms = []

/-! ### Requests one after the other -/

variable [DecidableEq ι]

/-- At most one request is pended or being armed, and all requests are accounted for. -/
structure Accounted (s : WakeSystem ι ρ) : Prop where
  single : s.arms.length + s.waitWakeIrp.toList.length ≤ 1
  balance : ∀ irp, (s.irps irp).completions.length + (s.view irp).pended.toNat + s.held irp =
    (s.irps irp).submitted.toNat

theorem claim_length (s : WakeSystem ι ρ) :
    s.uacpiNtWakeClaimIrp.1.waitWakeIrp.toList.length ≤ s.waitWakeIrp.toList.length ∧
      s.uacpiNtWakeClaimIrp.1.arms = s.arms := by
  obtain ⟨hclaim, -⟩ | ⟨irp, -, -, hclaim⟩ := s.claimIrp_cases <;> rw [hclaim]
  · exact ⟨le_rfl, rfl⟩
  · exact ⟨Nat.zero_le _, rfl⟩

@[simp] theorem finish_arms (s : WakeSystem ι ρ) (last : Option (ι × NtStatus)) :
    (s.finish last).arms = s.arms := by
  cases last <;> rfl

@[simp] theorem finish_waitWakeIrp (s : WakeSystem ι ρ) (last : Option (ι × NtStatus)) :
    (s.finish last).waitWakeIrp = s.waitWakeIrp := by
  cases last <;> rfl

variable [DecidableEq ρ] {order : ρ → UInt16} {s s' : WakeSystem ι ρ}

theorem disarmNext_requests (s : WakeSystem ι ρ) (off : ρ → Bool) (call : DisarmCall ι) :
    (s.disarmNext off call).arms = s.arms ∧
      (s.disarmNext off call).waitWakeIrp = s.waitWakeIrp := by
  rw [disarmNext]
  split
  · split <;> simp [pushDisarm]
  · exact ⟨rfl, rfl⟩
  · simp

theorem armNext_requests (order : ρ → UInt16) (s : WakeSystem ι ρ) (env : ArmEnv ρ)
    (call : ArmCall ι) : ((s.armNext order env call).arms.length ≤ s.arms.length + 1 ∧
        (s.armNext order env call).waitWakeIrp = s.waitWakeIrp) ∨
      (s.armNext order env call).arms = s.arms ∧
        (s.armNext order env call).waitWakeIrp = some call.irp := by
  rw [armNext]
  split
  · dsimp only
    split
    · exact .inl ⟨Nat.le_succ _, rfl⟩
    split
    · exact .inl ⟨Nat.le_succ _, rfl⟩
    · exact .inl ⟨le_rfl, rfl⟩
  · exact .inl ⟨le_rfl, rfl⟩
  · split
    · exact .inl ⟨Nat.le_succ _, rfl⟩
    · exact .inr ⟨rfl, rfl⟩

theorem single_step {op : WakeOp ι ρ} (hs : s.arms.length + s.waitWakeIrp.toList.length ≤ 1)
    (h : step order s op = some s') (hsucc : s.Successive op) :
    s'.arms.length + s'.waitWakeIrp.toList.length ≤ 1 := by
  obtain ⟨hclaim, harms⟩ := s.claim_length
  cases op with
  | arm irp requested env =>
    obtain ⟨-, rfl⟩ := step_arm.1 h
    rcases hprep : wakeArmPrepare env requested s.waitWakeIrp.isSome s.block with ⟨block, refused⟩
    simp only [armStart, hprep]
    cases refused with
    | some e => exact hs
    | none =>
      have hidle := (wakeArmPrepare_accepts (congrArg Prod.snd hprep)).2
      rw [Option.isSome_eq_false_iff, Option.isNone_iff_eq_none] at hidle
      have hnone : s.arms = [] := hsucc
      simp [pushArm, setIrp, hnone, hidle]
  | armNext i env =>
    obtain ⟨call, hcall, rfl⟩ := step_armNext.1 h
    have hlen : s.arms.length = (s.takeArm i).arms.length + 1 :=
      (perm_cons_eraseIdx hcall).length_eq
    have hpend : (s.takeArm i).waitWakeIrp = s.waitWakeIrp := rfl
    rw [hlen, ← hpend] at hs
    rcases armNext_requests order (s.takeArm i) env call with ⟨harms, hsame⟩ | ⟨harms, hnew⟩
    · rw [hsame]
      omega
    · rw [harms, hnew, Option.toList_some, List.length_singleton]
      omega
  | cancel irp =>
    cases h
    exact hs
  | cancelRoutine irp =>
    obtain ⟨-, rfl⟩ := step_cancelRoutine.1 h
    simp only [uacpiNtWaitWakeCancel]
    split
    · exact (Nat.le_add_right _ _).trans hs
    · exact hs
  | workerStart =>
    obtain ⟨-, rfl⟩ := step_workerStart.1 h
    rw [workerStart]
    split <;> exact hs
  | workerRelease off =>
    obtain ⟨-, rfl⟩ := step_workerRelease.1 h
    exact hs
  | complete =>
    cases h
    rw [uacpiNtWakeComplete]
    rcases hc : s.uacpiNtWakeClaimIrp with ⟨t, irp | _⟩ <;> rw [hc] at hclaim harms <;>
      exact (Nat.add_le_add (congrArg List.length harms).le hclaim).trans hs
  | teardown =>
    cases h
    rw [uacpiNtWakeTeardown]
    rcases hc : s.uacpiNtWakeClaimIrp with ⟨t, irp | _⟩ <;> rw [hc] at hclaim harms <;>
      exact (Nat.add_le_add (congrArg List.length harms).le hclaim).trans hs
  | disarmNext i off =>
    obtain ⟨call, -, rfl⟩ := step_disarmNext.1 h
    obtain ⟨harms', hpend⟩ := disarmNext_requests (s.takeDisarm i) off call
    rw [harms', hpend]
    exact hs

theorem accounted_step {op : WakeOp ι ρ} (hirps : s.IrpsOk) (hs : s.Accounted)
    (h : step order s op = some s') (hsucc : s.Successive op) : s'.Accounted := by
  refine ⟨single_step hs.single h hsucc, fun irp => ?_⟩
  have hover : ¬ s.Overlap := by
    rintro ⟨hpend, harms⟩
    have hsingle := hs.single
    obtain ⟨other, hpend⟩ := Option.ne_none_iff_exists'.1 hpend
    have hpos := List.length_pos_iff.2 harms
    rw [hpend, Option.toList_some, List.length_singleton] at hsingle
    omega
  have hbal := (step_view h irp).balance (hirps irp) hover
  have hold := hs.balance irp
  simp only [view] at hbal hold ⊢
  omega

end WakeSystem

/-! ### Requests on their way to be pended -/

/-- A request that is past the enabling relies on `Armed`, there is only one, and before it acquires
its resources the block holds none. -/
structure ArmsOk {ι ρ : Type} (arms : List (ArmCall ι)) (b : WakeBlock ρ) : Prop where
  parsed : arms ≠ [] → b.gpeParsed = true
  armed : ∀ call ∈ arms, call.point ≠ .enabling → b.armed = true
  acquiring : ∀ call ∈ arms, call.point = .acquiring → b.wakeResources.entries = []
  single : arms.countP (fun call => call.point != .enabling) ≤ 1

namespace ArmsOk

variable {ι ρ : Type} {arms arms' : List (ArmCall ι)} {call : ArmCall ι} {irp : ι}
  {b b' : WakeBlock ρ}

theorem perm (h : ArmsOk arms b) (hperm : arms.Perm arms') : ArmsOk arms' b where
  parsed hne := h.parsed fun hnil => hne (List.nil_perm.1 (hnil ▸ hperm))
  armed call hcall := h.armed call (hperm.mem_iff.2 hcall)
  acquiring call hcall := h.acquiring call (hperm.mem_iff.2 hcall)
  single := hperm.countP_eq _ ▸ h.single

theorem tail (h : ArmsOk (call :: arms) b) : ArmsOk arms b where
  parsed _ := h.parsed (List.cons_ne_nil _ _)
  armed other hother := h.armed other (List.mem_cons_of_mem _ hother)
  acquiring other hother := h.acquiring other (List.mem_cons_of_mem _ hother)
  single := (List.sublist_cons_self call arms).countP_le.trans h.single

theorem prepare (h : ArmsOk arms b) (hprep : b.Prepares b') : ArmsOk arms b' where
  parsed _ := hprep.parsed
  armed call hcall := hprep.armed ▸ h.armed call hcall
  acquiring call hcall := hprep.wakeResources ▸ h.acquiring call hcall
  single := h.single

theorem push (h : ArmsOk arms b) (hparsed : b.gpeParsed = true) :
    ArmsOk (⟨irp, .enabling⟩ :: arms) b where
  parsed _ := hparsed
  armed := List.forall_mem_cons.2 ⟨fun hne => absurd rfl hne, h.armed⟩
  acquiring := List.forall_mem_cons.2 ⟨nofun, h.acquiring⟩
  single := by simpa using h.single

theorem enable (h : ArmsOk (⟨irp, .enabling⟩ :: arms) b) (harme : b.armed = false)
    (hemp : b.wakeResources.entries = []) :
    ArmsOk (⟨irp, .acquiring⟩ :: arms) { b with armed := true } where
  parsed _ := h.parsed (List.cons_ne_nil _ _)
  armed _ _ _ := rfl
  acquiring _ _ _ := hemp
  single := by
    have hnone : arms.countP (fun call => call.point != .enabling) = 0 := by
      refine List.countP_eq_zero.2 fun call hcall hne => ?_
      have harme' := h.armed call (List.mem_cons_of_mem _ hcall) (by simpa using hne)
      simp [harme] at harme'
    simp [hnone]

theorem acquire (h : ArmsOk (⟨irp, .acquiring⟩ :: arms) b) (list : ResourceList ρ) :
    ArmsOk (⟨irp, .pending⟩ :: arms) { b with wakeResources := list } where
  parsed _ := h.parsed (List.cons_ne_nil _ _)
  armed := List.forall_mem_cons.2
    ⟨fun _ => h.armed _ List.mem_cons_self (by simp), h.tail.armed⟩
  acquiring := by
    have hnone : arms.countP (fun call => call.point != .enabling) = 0 := by
      simpa using h.single
    refine List.forall_mem_cons.2 ⟨nofun, fun call hcall hpoint => ?_⟩
    have hother := List.countP_eq_zero.1 hnone call hcall
    simp [hpoint] at hother
  single := by simpa using h.single

theorem clear (h : ArmsOk arms b) (hnone : ∀ call ∈ arms, call.point = .enabling) :
    ArmsOk arms { b with armed := false } where
  parsed := h.parsed
  armed call hcall hne := absurd (hnone call hcall) hne
  acquiring := h.acquiring
  single := h.single

theorem release (h : ArmsOk arms b) :
    ArmsOk arms ({ b with wakeResources := ∅ } : WakeBlock ρ) where
  parsed := h.parsed
  armed := h.armed
  acquiring _ _ _ := rfl
  single := h.single

end ArmsOk

namespace WakeSystem

variable {ι ρ : Type} [DecidableEq ι] [DecidableEq ρ]

/-! ### The invariant -/

/-- The block has taken its hardware once if it is armed, or one of `n` calls is about to release
it, and a pended request has an armed block unless its cancel routine is about to run. -/
structure HardwareOk (base : WakeHost ρ) (n : Nat) (s : WakeSystem ι ρ) : Prop where
  engaged : Engaged base (s.block.armed.toNat + n) s.block s.host
  once : s.block.armed.toNat + n ≤ 1
  arms : ArmsOk s.arms s.block
  pended : ∀ irp ∈ s.waitWakeIrp, s.block.armed = true ∨ (s.irps irp).cancelling = true

namespace HardwareOk

variable {base : WakeHost ρ} {s s' : WakeSystem ι ρ} {order : ρ → UInt16} {n : Nat}

omit [DecidableEq ι] in
theorem of_fresh (hs : s.Fresh) : HardwareOk s.host 0 s where
  engaged := by
    rw [hs.armed]
    exact Engaged.of_idle _ _ hs.wakeResources
  once := by simp [hs.armed]
  arms := by
    rw [hs.arms]
    exact ⟨fun h => absurd rfl h, by simp, by simp, by simp⟩
  pended irp h := by simp [hs.waitWakeIrp] at h

omit [DecidableEq ι] in
theorem frame (hs : HardwareOk base n s) {forWake : UInt8 → Bool} (hblock : s'.block = s.block)
    (hhost : s'.host = { s.host with forWake := forWake }) (harms : ArmsOk s'.arms s.block)
    (hpend : ∀ irp ∈ s'.waitWakeIrp, irp ∈ s.waitWakeIrp ∧
      ((s.irps irp).cancelling = true → (s'.irps irp).cancelling = true)) :
    HardwareOk base n s' := by
  refine ⟨?_, ?_, ?_, fun irp hirp => ?_⟩
  · rw [hblock, hhost]
    exact hs.engaged.wakeBits forWake
  · rw [hblock]
    exact hs.once
  · rwa [hblock]
  · rw [hblock]
    exact (hs.pended irp (hpend irp hirp).1).imp_right (hpend irp hirp).2

end HardwareOk

section

variable {base : WakeHost ρ} {s s' : WakeSystem ι ρ} {order : ρ → UInt16} {i n : Nat}

omit [DecidableEq ρ] in
theorem cancelling_setIrp {irp : ι} {state : WakeIrp} (other : ι)
    (hother : (s.irps other).cancelling = true)
    (h : (s.irps irp).cancelling = true → state.cancelling = true) :
    ((s.setIrp irp state).irps other).cancelling = true := by
  by_cases hirp : other = irp
  · subst hirp
    simpa [setIrp] using h hother
  · simpa [setIrp, hirp] using hother

omit [DecidableEq ρ] in
theorem cancelling_completeIrp (irp : ι) (status : NtStatus) (other : ι)
    (hother : (s.irps other).cancelling = true) :
    ((s.completeIrp irp status).irps other).cancelling = true :=
  cancelling_setIrp other hother id

omit [DecidableEq ι] [DecidableEq ρ] in
theorem releases_pushDisarm (s : WakeSystem ι ρ) (call : DisarmCall ι) :
    (s.pushDisarm call).releases = s.releases + (call.point == .releasing).toNat := by
  simp only [releases, pushDisarm, List.countP_cons]
  cases call.point == .releasing <;> simp [Nat.add_assoc]

omit [DecidableEq ι] [DecidableEq ρ] in
theorem releases_takeDisarm {call : DisarmCall ι} (h : s.disarms[i]? = some call) :
    s.releases = (s.takeDisarm i).releases + (call.point == .releasing).toNat := by
  rw [← releases_pushDisarm]
  simp only [releases, pushDisarm, takeDisarm, (perm_cons_eraseIdx h).countP_eq]

theorem hardwareOk_armStart (hs : HardwareOk base n s) (irp : ι) (requested : SystemPowerState)
    (env : ArmEnv ρ) : HardwareOk base n (s.armStart irp requested env) := by
  have hprep := wakeArmPrepare_prepares env requested s.waitWakeIrp.isSome s.block
  rcases hres : wakeArmPrepare env requested s.waitWakeIrp.isSome s.block with ⟨block, refused⟩
  rw [hres] at hprep
  have hpre : HardwareOk base n { s with block := block } := by
    refine ⟨?_, ?_, hs.arms.prepare hprep, fun other hother => ?_⟩
    · rw [hprep.armed]
      exact hs.engaged.prepare hprep
    · rw [hprep.armed]
      exact hs.once
    · rw [hprep.armed]
      exact hs.pended other hother
  have hsent : HardwareOk base n { s.setIrp irp { s.irps irp with submitted := true } with
      block := block } :=
    hpre.frame rfl rfl hpre.arms fun other hother =>
      ⟨hother, fun h => cancelling_setIrp (s := s) other h id⟩
  simp only [armStart, hres]
  cases refused with
  | some e =>
    exact hsent.frame rfl rfl hsent.arms fun other hother =>
      ⟨hother, cancelling_completeIrp irp _ other⟩
  | none =>
    exact hsent.frame rfl rfl (hsent.arms.push hprep.parsed) fun other hother => ⟨hother, id⟩

theorem hardwareOk_armNext (hs : HardwareOk base n s) {env : ArmEnv ρ} {call : ArmCall ι}
    (hcall : s.arms[i]? = some call)
    (hord : call.point = .enabling → env.enableForWake = true → env.enable = true →
      s.block.armed = false ∧ n = 0) :
    HardwareOk base n ((s.takeArm i).armNext order env call) := by
  have harms : ArmsOk (call :: (s.takeArm i).arms) s.block :=
    hs.arms.perm (perm_cons_eraseIdx hcall)
  obtain ⟨irp, point⟩ := call
  have hrefused : ∀ forWake status, HardwareOk base n
      (({ s.takeArm i with host := { s.host with forWake := forWake } }).completeIrp irp status) :=
    fun forWake status => hs.frame rfl rfl harms.tail fun other hother =>
      ⟨hother, cancelling_completeIrp irp status other⟩
  cases point with
  | enabling =>
    simp only [armNext]
    split
    · exact hrefused s.host.forWake _
    rename_i hwake
    split
    · exact hrefused _ _
    rename_i henab
    obtain ⟨harme, rfl⟩ := hord rfl (by simpa using hwake) (by simpa using henab)
    have heng : Engaged base 0 s.block s.host := by simpa [harme] using hs.engaged
    exact ⟨(heng.wakeBits _).enable (harms.parsed (List.cons_ne_nil _ _)), le_rfl,
      harms.enable harme (heng.idle rfl), fun _ _ => .inl rfl⟩
  | acquiring =>
    have harme : s.block.armed = true := harms.armed _ List.mem_cons_self (by simp)
    have honce := hs.once
    rw [harme, Bool.toNat_true] at honce
    obtain rfl : n = 0 := by omega
    have heng : Engaged base 1 s.block s.host := by simpa [harme] using hs.engaged
    have hacq := heng.acquire order env (harms.acquiring _ List.mem_cons_self rfl)
    refine ⟨?_, ?_, harms.acquire _, fun _ _ => .inl harme⟩
    · simpa [armNext, pushArm, takeArm, harme] using hacq
    · simp [armNext, pushArm, takeArm, harme]
  | pending =>
    simp only [armNext]
    split
    · exact hs.frame rfl rfl harms.tail fun other hother => ⟨hother, id⟩
    · exact ⟨hs.engaged, hs.once, harms.tail, fun _ _ =>
        .inl (harms.armed _ List.mem_cons_self (by simp))⟩

theorem hardwareOk_claim (hs : HardwareOk base n s) :
    HardwareOk base n s.uacpiNtWakeClaimIrp.1 := by
  obtain ⟨hclaim, -⟩ | ⟨irp, -, -, hclaim⟩ := s.claimIrp_cases <;> rw [hclaim]
  · exact hs
  · exact hs.frame rfl rfl hs.arms fun other hother => (by cases hother)

theorem hardwareOk_finish (hs : HardwareOk base n s) (last : Option (ι × NtStatus)) :
    HardwareOk base n (s.finish last) := by
  cases last with
  | none => exact hs
  | some last =>
    exact hs.frame rfl rfl hs.arms fun other hother =>
      ⟨hother, cancelling_completeIrp last.1 last.2 other⟩

omit [DecidableEq ι] in
theorem hardwareOk_clear (hs : HardwareOk base n s) (harme : s.block.armed = true)
    (hfree : s.Unneeded) :
    HardwareOk base (n + 1) { s with block := { s.block with armed := false } } := by
  have hsame : (false : Bool).toNat + (n + 1) = s.block.armed.toNat + n := by
    simp [harme, Nat.add_comm]
  have heng := hs.engaged
  refine ⟨?_, hsame ▸ hs.once, hs.arms.clear hfree.2, fun irp hirp => .inr (hfree.1 irp hirp)⟩
  rw [hsame]
  exact ⟨heng.enables, heng.refCount, heng.ready, heng.collected, heng.idle, heng.parsed⟩

omit [DecidableEq ι] in
theorem hardwareOk_release (off : ρ → Bool) (hs : HardwareOk base (n + 1) s) :
    HardwareOk base n { s with
      block := (uacpiNtWakeReleaseHardware off s.block s.host).1
      host := (uacpiNtWakeReleaseHardware off s.block s.host).2 } := by
  have honce := hs.once
  obtain ⟨harme, rfl⟩ : s.block.armed = false ∧ n = 0 := by
    cases harme : s.block.armed with
    | false => exact ⟨rfl, by simpa [harme] using honce⟩
    | true =>
      simp only [harme, Bool.toNat_true] at honce
      omega
  have heng : Engaged base 1 s.block s.host := by simpa [harme] using hs.engaged
  have hrel := heng.release off
  have harme' : (uacpiNtWakeReleaseHardware off s.block s.host).1.armed = false := harme
  refine ⟨?_, ?_, hs.arms.release, fun irp hirp => ?_⟩
  · rw [harme']
    exact hrel
  · simp [harme']
  · exact (hs.pended irp hirp).imp_left fun h => by simp [harme] at h

theorem releases_armNext (order : ρ → UInt16) (s : WakeSystem ι ρ) (env : ArmEnv ρ)
    (call : ArmCall ι) : (s.armNext order env call).releases = s.releases := by
  rw [armNext]
  split
  · dsimp only
    split
    · rfl
    · split <;> rfl
  · rfl
  · split
    · exact releases_pushDisarm s _
    · rfl

omit [DecidableEq ρ] in
theorem releases_finish (s : WakeSystem ι ρ) (last : Option (ι × NtStatus)) :
    (s.finish last).releases = s.releases := by
  cases last <;> rfl

omit [DecidableEq ρ] in
theorem releases_claim (s : WakeSystem ι ρ) : s.uacpiNtWakeClaimIrp.1.releases = s.releases := by
  obtain ⟨hclaim, -⟩ | ⟨irp, -, -, hclaim⟩ := s.claimIrp_cases
  · rw [hclaim]
  · rw [hclaim]
    rfl

omit [DecidableEq ι] in
theorem hardwareOk_testing (hs : HardwareOk base s.releases s) (last : Option (ι × NtStatus)) :
    HardwareOk base (s.pushDisarm ⟨last, .testing⟩).releases (s.pushDisarm ⟨last, .testing⟩) := by
  rw [releases_pushDisarm]
  exact hs.frame rfl rfl hs.arms fun other hother => ⟨hother, id⟩

theorem hardwareOk_disarmNext (hs : HardwareOk base s.releases s) {off : ρ → Bool}
    {call : DisarmCall ι} (hcall : s.disarms[i]? = some call)
    (hord : call.point = .clearing → s.block.armed = true ∧ s.Unneeded) :
    HardwareOk base ((s.takeDisarm i).disarmNext off call).releases
      ((s.takeDisarm i).disarmNext off call) := by
  have hcount := releases_takeDisarm hcall
  obtain ⟨last, point⟩ := call
  have htake : HardwareOk base s.releases (s.takeDisarm i) :=
    hs.frame rfl rfl hs.arms fun other hother => ⟨hother, id⟩
  cases point with
  | testing =>
    have hsame : s.releases = (s.takeDisarm i).releases := hcount
    rw [hsame] at htake
    simp only [disarmNext]
    split
    · exact htake.frame rfl rfl htake.arms fun other hother => ⟨hother, id⟩
    · rw [releases_finish]
      exact hardwareOk_finish htake last
  | clearing =>
    have hsame : s.releases = (s.takeDisarm i).releases := hcount
    rw [hsame] at htake
    obtain ⟨harme, hfree⟩ := hord rfl
    have hclr := hardwareOk_clear htake harme hfree
    simp only [disarmNext]
    rw [releases_pushDisarm]
    exact hclr.frame rfl rfl hclr.arms fun other hother => ⟨hother, id⟩
  | releasing =>
    have hmore : s.releases = (s.takeDisarm i).releases + 1 := hcount
    rw [hmore] at htake
    simp only [disarmNext]
    rw [releases_finish]
    exact hardwareOk_finish (hardwareOk_release off htake) last

theorem hardwareOk_step {op : WakeOp ι ρ} (hs : HardwareOk base s.releases s)
    (h : step order s op = some s') (hord : s.Orderly op) : HardwareOk base s'.releases s' := by
  have hclaim := hardwareOk_claim hs
  rw [← releases_claim s] at hclaim
  cases op with
  | arm irp requested env =>
    obtain ⟨-, rfl⟩ := step_arm.1 h
    have hsame : (s.armStart irp requested env).releases = s.releases := by
      simp only [armStart]
      split <;> rfl
    rw [hsame]
    exact hardwareOk_armStart hs irp requested env
  | armNext i env =>
    obtain ⟨call, hcall, rfl⟩ := step_armNext.1 h
    rw [releases_armNext]
    exact hardwareOk_armNext hs hcall (hord call hcall)
  | cancel irp =>
    cases h
    refine hs.frame rfl rfl hs.arms fun other hother =>
      ⟨hother, fun htaken => cancelling_setIrp other htaken fun h => ?_⟩
    split
    · rfl
    · exact h
  | cancelRoutine irp =>
    obtain ⟨htaken, rfl⟩ := step_cancelRoutine.1 h
    by_cases hpend : s.waitWakeIrp = some irp
    · simp only [uacpiNtWaitWakeCancel, setIrp, hpend]
      exact hs.frame rfl rfl hs.arms fun other hother => (by cases hother)
    · rw [waitWakeCancel_of_not_pended hpend]
      refine hs.frame rfl rfl hs.arms fun other hother => ⟨hother, fun htaken => ?_⟩
      have hirp : other ≠ irp := fun heq => hpend (heq ▸ hother)
      simpa [setIrp, hirp] using htaken
  | workerStart =>
    obtain ⟨-, rfl⟩ := step_workerStart.1 h
    rw [workerStart]
    split
    · rename_i hclr
      have hidle : s.waitWakeIrp = none := Option.isNone_iff_eq_none.1 hclr.1
      have hok := hardwareOk_clear hs hclr.2 (hord hidle hclr.2)
      have hmore : s.releasing + 1 + s.disarms.countP (fun call => call.point == .releasing) =
        s.releases + 1 := Nat.add_right_comm ..
      rw [releases, hmore]
      exact hok.frame rfl rfl hok.arms fun other hother => ⟨hother, id⟩
    · exact hs.frame rfl rfl hs.arms fun other hother => ⟨hother, id⟩
  | workerRelease off =>
    obtain ⟨hpos, rfl⟩ := step_workerRelease.1 h
    have hmore : s.releases = (s.workerRelease off).releases + 1 := by
      simp only [releases, workerRelease]
      omega
    rw [hmore] at hs
    have hok := hardwareOk_release off hs
    exact hok.frame rfl rfl hok.arms fun other hother => ⟨hother, id⟩
  | complete =>
    cases h
    rw [uacpiNtWakeComplete]
    rcases hc : s.uacpiNtWakeClaimIrp with ⟨t, _ | irp⟩ <;> rw [hc] at hclaim
    · exact hclaim
    · exact hardwareOk_testing hclaim _
  | teardown =>
    cases h
    rw [uacpiNtWakeTeardown]
    rcases hc : s.uacpiNtWakeClaimIrp with ⟨t, _ | irp⟩ <;> rw [hc] at hclaim
    · exact hardwareOk_testing hclaim none
    · exact hardwareOk_testing (hardwareOk_finish hclaim (some (irp, _))) none
  | disarmNext i off =>
    obtain ⟨call, hcall, rfl⟩ := step_disarmNext.1 h
    exact hardwareOk_disarmNext hs hcall (hord call hcall)

end

end WakeSystem

end UacpiNt
