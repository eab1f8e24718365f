import UacpiNt.Wake.Protocol

/-!
# Refused WAIT_WAKE requests

`UacpiNtWakeArm` records the state that a request asks for before it finds the request one too
many, and undoes what it did to the line by a disarm. For a block that is still armed, because its
disarm is queued, that takes away what an earlier request took.
-/

namespace UacpiNt

open Machine

section

variable {ρ : Type}

section

variable (env : ArmEnv ρ) (requested : SystemPowerState) (busy : Bool) (b : WakeBlock ρ)

/-- The request is refused before the state it asks for is recorded. -/
def RefusedEarly : Prop :=
  let parsed := uacpiNtWakeParsePrw env b
  parsed.gpeValid = false ∨
    parsed.systemWake ≠ .unspecified ∧ parsed.systemWake.value < requested.value

/-- The request is one too many, or the setup of the line or its enable for wake fails. -/
def RefusedUntouched : Prop :=
  busy = true ∨ b.setupDone = false ∧ env.setup = false ∨ env.enableForWake = false

def WakeBlock.recorded (setupDone : Bool) (b : WakeBlock ρ) : WakeBlock ρ :=
  { uacpiNtWakeParsePrw env b with requestedSystemState := requested, setupDone := setupDone }

theorem parsePrw_frame : (uacpiNtWakeParsePrw env b).requestedSystemState = b.requestedSystemState ∧
      (uacpiNtWakeParsePrw env b).setupDone = b.setupDone ∧
      (uacpiNtWakeParsePrw env b).armed = b.armed ∧
      (uacpiNtWakeParsePrw env b).wakeResources = b.wakeResources := by
  rw [uacpiNtWakeParsePrw]
  split
  · exact ⟨rfl, rfl, rfl, rfl⟩
  · split <;> exact ⟨rfl, rfl, rfl, rfl⟩

/-- The first part of an arming refuses early, or records the request and then refuses or accepts
it. -/
theorem wakeArmPrepare_cases : (RefusedEarly env requested b ∧
      ∃ e, wakeArmPrepare env requested busy b = (uacpiNtWakeParsePrw env b, some e)) ∨
    ¬ RefusedEarly env requested b ∧ ∃ setupDone,
      ((busy = true ∨ b.setupDone = false ∧ env.setup = false) ∧
        ∃ e, wakeArmPrepare env requested busy b = (b.recorded env requested setupDone, some e)) ∨
      ¬ (busy = true ∨ b.setupDone = false ∧ env.setup = false) ∧
        wakeArmPrepare env requested busy b = (b.recorded env requested setupDone, none) := by
  have hset := (parsePrw_frame env b).2.1
  rw [wakeArmPrepare]
  dsimp only
  split <;> rename_i hval
  · exact .inl ⟨.inl hval, _, rfl⟩
  split <;> rename_i hdeep
  · exact .inl ⟨.inr hdeep, _, rfl⟩
  refine .inr ⟨not_or.2 ⟨hval, hdeep⟩, ?_⟩
  rw [hset]
  split <;> rename_i hbusy
  · exact ⟨b.setupDone, .inl ⟨.inl hbusy, _, by rw [← hset]; rfl⟩⟩
  split <;> rename_i hdone
  · exact ⟨true, .inr ⟨by simp [hbusy, hdone], by rw [← hdone, ← hset]; rfl⟩⟩
  split
  · rename_i hworks
    exact ⟨true, .inr ⟨by simp [hbusy, hworks], rfl⟩⟩
  · rename_i hfail
    exact ⟨b.setupDone, .inl ⟨.inr ⟨by simpa using hdone, by simpa using hfail⟩, _,
      by rw [← hset]; rfl⟩⟩

end

theorem enable_disable_forWake_iff (h : WakeHost ρ) (line : UInt8) :
    ((h.enableGpeForWake line).disableGpeForWake line).forWake = h.forWake ↔
      h.forWake line = false := by
  have hclr : ((h.enableGpeForWake line).disableGpeForWake line).forWake =
      Function.update h.forWake line false := Function.update_idem ..
  rw [hclr, Function.update_eq_self_iff, eq_comm]

variable [DecidableEq ρ]

inductive Refusal (order : ρ → UInt16) (env : ArmEnv ρ) (requested : SystemPowerState)
    (busy cancel : Bool) (b : WakeBlock ρ) (h : WakeHost ρ) : WakeBlock ρ → WakeHost ρ → Prop
  | early (hearly : RefusedEarly env requested b) :
      Refusal order env requested busy cancel b h (uacpiNtWakeParsePrw env b) h
  | untouched (hearly : ¬ RefusedEarly env requested b) (hstop : RefusedUntouched env busy b)
      (setupDone : Bool) :
      Refusal order env requested busy cancel b h (b.recorded env requested setupDone) h
  | notEnabled (hearly : ¬ RefusedEarly env requested b) (hgo : ¬ RefusedUntouched env busy b)
      (henable : env.enable = false) {line : UInt8}
      (hline : line = (uacpiNtWakeParsePrw env b).gpeLine) (setupDone : Bool) :
      Refusal order env requested busy cancel b h (b.recorded env requested setupDone)
        ((h.enableGpeForWake line).disableGpeForWake line)
  | cancelled (hearly : ¬ RefusedEarly env requested b) (hgo : ¬ RefusedUntouched env busy b)
      (henable : env.enable = true) {line : UInt8}
      (hline : line = (uacpiNtWakeParsePrw env b).gpeLine) (setupDone : Bool)
      {armed : WakeBlock ρ} {host : WakeHost ρ}
      (hengage : wakeArmEngage order env (b.recorded env requested setupDone)
        (h.enableGpeForWake line) = (armed, host)) :
      Refusal order env requested busy cancel b h (uacpiNtWakeDisarm env.off armed host).1
        (uacpiNtWakeDisarm env.off armed host).2

theorem wakeArm_refusal {order : ρ → UInt16} {env : ArmEnv ρ} {requested : SystemPowerState}
    {busy cancel : Bool} {b b' : WakeBlock ρ} {h h' : WakeHost ρ} {e : NtError}
    (hres : uacpiNtWakeArm order env requested busy cancel b h = (b', h', some e)) :
    Refusal order env requested busy cancel b h b' h' := by
  rw [uacpiNtWakeArm] at hres
  rcases wakeArmPrepare_cases env requested busy b with
    ⟨hearly, e', hprep⟩ | ⟨hearly, setupDone, ⟨hstop, e', hprep⟩ | ⟨hgo, hprep⟩⟩
    <;> rw [hprep] at hres
  · cases hres
    exact .early hearly
  · cases hres
    refine .untouched hearly ?_ setupDone
    exact hstop.imp id .inl
  dsimp only at hres
  split at hres <;> rename_i hwake
  · cases hres
    exact .untouched hearly (.inr (.inr hwake)) setupDone
  have hgo' : ¬ RefusedUntouched env busy b := by
    rw [RefusedUntouched, ← or_assoc]
    exact not_or.2 ⟨hgo, hwake⟩
  split at hres <;> rename_i henab
  · cases hres
    exact .notEnabled hearly hgo' henab rfl setupDone
  split at hres
  · cases hres
    exact .cancelled hearly hgo' (by simpa using henab) rfl setupDone rfl
  · cases hres

/-- A disarm right after an arming clears the wake bit and restores the counts, and the block holds
nothing, whatever it held. -/
theorem disarm_engaged (order : ρ → UInt16) (env : ArmEnv ρ) {b : WakeBlock ρ} (h : WakeHost ρ)
    (hpars : b.gpeParsed = true) {armed : WakeBlock ρ} {host : WakeHost ρ}
    (heng : wakeArmEngage order env b h = (armed, host)) :
    (uacpiNtWakeDisarm env.off armed host).1 = { b with armed := false, wakeResources := ∅ } ∧
      (uacpiNtWakeDisarm env.off armed host).2.forWake = (h.disableGpeForWake b.gpeLine).forWake ∧
      (uacpiNtWakeDisarm env.off armed host).2.enables = h.enables ∧
      (uacpiNtWakeDisarm env.off armed host).2.resources.refCount = h.resources.refCount := by
  -- The arming overwrites what the block held, so the block might as well have held nothing.
  have hidle : Engaged h 0 { b with wakeResources := ∅ } h := .of_idle _ h rfl
  have henga := hidle.engage order env hpars
  have hsame : wakeArmEngage order env { b with wakeResources := ∅ } h = (armed, host) := heng
  rw [hsame] at henga
  have hblock : ({ armed with armed := false, wakeResources := ∅ } : WakeBlock ρ) =
      { b with armed := false, wakeResources := ∅ } := by
    cases heng
    rfl
  obtain ⟨harme, hline, hbits⟩ : armed.armed = true ∧ armed.gpeLine = b.gpeLine ∧
      host.forWake = h.forWake := by
    cases heng
    exact ⟨rfl, rfl, rfl⟩
  obtain ⟨hclr, hdisa⟩ := disarm_of_armed env.off host harme
  have hdis := Engaged.disarm env.off (b := armed) (h := host) (by rwa [harme])
  refine ⟨hclr.trans hblock, ?_, funext fun line => ?_, funext fun r => ?_⟩
  · rw [hdisa, hbits, hline]
    rfl
  · simpa using hdis.enables line
  · rw [hdis.refCount r, hdis.idle rfl]
    simp [Holding.held]

end

namespace WakeSystem

variable {ι ρ : Type}

structure Untouched (s s' : WakeSystem ι ρ) : Prop where
  requestedSystemState : s'.block.requestedSystemState = s.block.requestedSystemState
  armed : s'.block.armed = s.block.armed
  waitWakeIrp : s'.waitWakeIrp = s.waitWakeIrp
  enables : s'.host.enables = s.host.enables
  forWake : s'.host.forWake = s.host.forWake
  wakeResources : s'.block.wakeResources = s.block.wakeResources
  refCount : s'.host.resources.refCount = s.host.resources.refCount

/-- The request is refused before anything is recorded; or it asks for the state that is recorded
already, and it is refused before the line is touched, or the wake bit of the line is clear and the
run time enable fails, or the block is not armed and holds no wake resources either. -/
def RefusedCleanly (s : WakeSystem ι ρ) (requested : SystemPowerState) (env : ArmEnv ρ) : Prop :=
  RefusedEarly env requested s.block ∨
    requested = s.block.requestedSystemState ∧
      (RefusedUntouched env s.waitWakeIrp.isSome s.block ∨
        s.host.forWake (uacpiNtWakeParsePrw env s.block).gpeLine = false ∧
          (env.enable = false ∨ s.block.armed = false ∧ s.block.wakeResources = ∅))

variable [DecidableEq ι] [DecidableEq ρ] {order : ρ → UInt16} {s : WakeSystem ι ρ} {irp : ι}
  {requested : SystemPowerState} {env : ArmEnv ρ} {e : NtError}

/-- `UacpiNtWakeArm` for a request that is sent to the block, if nothing else happens meanwhile. -/
def submit (order : ρ → UInt16) (s : WakeSystem ι ρ) (irp : ι) (requested : SystemPowerState)
    (env : ArmEnv ρ) : WakeSystem ι ρ :=
  let (block, host, refused) := uacpiNtWakeArm order env requested s.waitWakeIrp.isSome
    (s.irps irp).cancel s.block s.host
  let s := { s.setIrp irp { s.irps irp with submitted := true } with block := block, host := host }
  match refused with
  | some e => s.completeIrp irp (.error e)
  | none =>
    { s.setIrp irp { s.irps irp with cancelRoutine := true } with waitWakeIrp := some irp }

theorem step_armNext_push (call : ArmCall ι) :
    step order (s.pushArm call) (.armNext 0 env) = some (s.armNext order env call) := rfl

theorem step_disarmNext_push (off : ρ → Bool) (call : DisarmCall ι) :
    step order (s.pushDisarm call) (.disarmNext 0 off) = some (s.disarmNext off call) := rfl

theorem exec_submit (hnew : (s.irps irp).submitted = false) :
    ∃ ops, exec (step order) (.arm irp requested env :: ops) s =
      some (submit order s irp requested env) := by
  have harm : step order s (.arm irp requested env) = some (s.armStart irp requested env) :=
    step_arm.2 ⟨hnew, rfl⟩
  simp only [exec, harm, Option.bind_some]
  rw [submit, uacpiNtWakeArm]
  rcases hprep : wakeArmPrepare env requested s.waitWakeIrp.isSome s.block with ⟨block, refused⟩
  simp only [armStart, hprep]
  cases refused with
  | some e => exact ⟨[], rfl⟩
  | none =>
    by_cases hwake : env.enableForWake = false
    · refine ⟨[.armNext 0 env], ?_⟩
      simp only [exec, step_armNext_push, Option.bind_some, armNext, if_pos hwake]
      rfl
    by_cases henab : env.enable = false
    · refine ⟨[.armNext 0 env], ?_⟩
      simp only [exec, step_armNext_push, Option.bind_some, armNext, if_neg hwake, if_pos henab]
      rfl
    by_cases hcan : (s.irps irp).cancel = true
    · refine ⟨[.armNext 0 env, .armNext 0 env, .armNext 0 env, .disarmNext 0 env.off,
        .disarmNext 0 env.off, .disarmNext 0 env.off], ?_⟩
      have hcan' : (Function.update s.irps irp { s.irps irp with submitted := true } irp).cancel =
          true := by rwa [Function.update_self]
      simp only [exec, step_armNext_push, Option.bind_some, armNext, if_neg hwake, if_neg henab,
        setIrp, if_pos hcan, if_pos hcan', step_disarmNext_push]
      rfl
    · refine ⟨[.armNext 0 env, .armNext 0 env, .armNext 0 env], ?_⟩
      have hcan' : ¬ (Function.update s.irps irp { s.irps irp with submitted := true } irp).cancel =
          true := by rwa [Function.update_self]
      simp only [exec, step_armNext_push, Option.bind_some, armNext, if_neg hwake, if_neg henab,
        setIrp, if_neg hcan, if_neg hcan']
      rfl

theorem submit_refused (h : ((s.submit order irp requested env).irps irp).completions =
      .error e :: (s.irps irp).completions) :
    ∃ b' h', uacpiNtWakeArm order env requested s.waitWakeIrp.isSome (s.irps irp).cancel s.block
        s.host = (b', h', some e) ∧ (s.submit order irp requested env).block = b' ∧
      (s.submit order irp requested env).host = h' ∧
      (s.submit order irp requested env).waitWakeIrp = s.waitWakeIrp := by
  rw [submit] at h ⊢
  generalize harm : uacpiNtWakeArm order env requested s.waitWakeIrp.isSome (s.irps irp).cancel
    s.block s.host = result at h ⊢
  obtain ⟨b', h', refused⟩ := result
  cases refused with
  | none => simp [setIrp] at h
  | some e' =>
    obtain rfl : e' = e := by simpa [completeIrp, setIrp] using h
    exact ⟨b', h', rfl, rfl, rfl, rfl⟩

/-- A request that is completed at once with an error leaves the block and its hardware as they were
exactly if it is refused cleanly. -/
theorem refused_request_untouched_iff
    (h : ((s.submit order irp requested env).irps irp).completions =
      .error e :: (s.irps irp).completions) :
    s.Untouched (s.submit order irp requested env) ↔ s.RefusedCleanly requested env := by
  obtain ⟨b', h', harm, hblock, hhost, hirp⟩ := submit_refused h
  obtain ⟨hstate, -, harmed, hheld⟩ := parsePrw_frame env s.block
  have hrefusal := wakeArm_refusal harm
  have hiff : s.Untouched (s.submit order irp requested env) ↔
      b'.requestedSystemState = s.block.requestedSystemState ∧ b'.armed = s.block.armed ∧
        h'.enables = s.host.enables ∧ h'.forWake = s.host.forWake ∧
        b'.wakeResources = s.block.wakeResources ∧
        h'.resources.refCount = s.host.resources.refCount := by
    subst hblock hhost
    constructor
    · intro hsame
      exact ⟨hsame.requestedSystemState, hsame.armed, hsame.enables, hsame.forWake,
        hsame.wakeResources, hsame.refCount⟩
    · rintro ⟨hstate, harmed, henables, hbits, hheld, hcounts⟩
      exact ⟨hstate, harmed, hirp, henables, hbits, hheld, hcounts⟩
  rw [hiff, RefusedCleanly]
  cases hrefusal with
  | early hearly => simp [hearly, hstate, harmed, hheld]
  | untouched hearly hstop setupDone =>
    simp [hearly, hstop, WakeBlock.recorded, harmed, hheld]
  | notEnabled hearly hgo henable hline setupDone =>
    subst hline
    simp [hearly, hgo, henable, WakeBlock.recorded, harmed, hheld, WakeHost.enableGpeForWake,
      WakeHost.disableGpeForWake]
  | cancelled hearly hgo henable hline setupDone hengage =>
    subst hline
    have hparsed : (s.block.recorded env requested setupDone).gpeParsed = true :=
      (parsePrw_prepares env s.block).parsed
    obtain ⟨hblock', hbits, henables, hcounts⟩ := disarm_engaged order env _ hparsed hengage
    have hline : (s.block.recorded env requested setupDone).gpeLine =
      (uacpiNtWakeParsePrw env s.block).gpeLine := rfl
    rw [hblock', hbits, hcounts, hline, enable_disable_forWake_iff]
    simp only [WakeBlock.recorded, WakeHost.enableGpeForWake, henable, eq_comm]
    tauto

theorem second_request_same_state :
    ∃ s ∈ exec (step fun _ => 0) (armOps 0 .sleeping3 (.plain 9)) unused,
      s.Untouched (s.submit (fun _ => 0) 1 .sleeping3 (.plain 9)) := by
  refine ⟨_, rfl, (refused_request_untouched_iff (e := .deviceBusy) rfl).2 ?_⟩
  exact .inr ⟨rfl, .inl (.inl rfl)⟩

/-- A request for S1 is refused because one for S3 is pended, which from then on counts as one for
S1. And while the disarm of a cancelled request is queued, a request for the same state whose run
time enable fails clears the wake bit of the line, with the block still armed. -/
theorem refused_request_leaves_traces :
    (∃ s ∈ exec (step fun _ => 0) (armOps 0 .sleeping3 (.plain 9)) unused,
      let s' := s.submit (fun _ => 0) 1 .sleeping1 (.plain 9)
      (s'.irps 1).completions = [.error .deviceBusy] ∧
        s.block.requestedSystemState = .sleeping3 ∧
        s'.block.requestedSystemState = .sleeping1) ∧
    ∃ s ∈ exec (step fun _ => 0) (armOps 0 .sleeping3 (.plain 9) ++ [.cancel 0, .cancelRoutine 0])
        unused,
      let s' := s.submit (fun _ => 0) 1 .sleeping3 { ArmEnv.plain 9 with enable := false }
      (s'.irps 1).completions = [.error .notSupported] ∧ s.disarmQueued = true ∧
        s'.block.armed = true ∧ s.host.forWake 9 = true ∧ s'.host.forWake 9 = false :=
  ⟨⟨_, rfl, rfl, rfl, rfl⟩, _, rfl, rfl, rfl, rfl, rfl, rfl⟩

end WakeSystem

end UacpiNt
