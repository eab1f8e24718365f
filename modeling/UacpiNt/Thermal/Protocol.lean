import UacpiNt.Thermal.Basic

/-!
# The requests and the worker of a thermal zone

`Running` is a token: while it is set, one caller is about to queue the worker, one work item is
queued, or one worker runs. The requests are kept by the rules of the pool. A stop that has
finished leaves in the queue only requests that their cancel routines own, and no request comes in
until the zone is started again.
-/

namespace UacpiNt

open Cancelable Machine

namespace ThermalSystem

variable {ι : Type} [DecidableEq ι] {build : ThermalBuild} {irps : ι → ThermalIrp}
  {s s' : ThermalSystem ι} {op : ThermalOp ι}

structure Fresh (s : ThermalSystem ι) : Prop where
  irps : s.irps.Fresh
  running : s.running = false
  worker : s.queueing = 0 ∧ s.queued = 0 ∧ s.workers = []

omit [DecidableEq ι] in
theorem fresh_created : (created : ThermalSystem ι).Fresh :=
  ⟨⟨rfl, rfl, fun _ => ⟨rfl, rfl, rfl, rfl⟩⟩, rfl, rfl, rfl, rfl⟩

/-! ### What a step changes -/

variable (build irps) in
/-- What the steps do: a request is completed as it is sent or accepted, new work that completes the
requests is added or not, and the others are as they are written. -/
inductive Change (s : ThermalSystem ι) : ThermalOp ι → ThermalSystem ι → Prop
  | reject (irp : ι) (hnew : (s.irps.requests irp).submitted = false) (result : ThermalResult) :
    Change s (.deviceControl irp) { s with irps := s.irps.reject irp result }
  | accept (irp : ι) (hnew : (s.irps.requests irp).submitted = false) (hactive : s.active = true) :
    Change s (.deviceControl irp) ({ s.record (irps irp).request with
      irps := s.irps.pend irp !(free irps irp) }.uacpiNtThermalAddWork
        (s.requestWork (irps irp).request))
  | cancel (irp : ι) : Change s (.cancel irp) { s with irps := s.irps.requestCancel irp }
  | cancelRoutine (irp : ι) (hcancelling : (s.irps.requests irp).cancelling = true) :
    Change s (.cancelRoutine irp) { s with irps := s.irps.runRoutine irp .cancelled }
  | kick (value : UInt32) (more : ThermalWork) (hmore : more.complete = true) :
    Change s (.notify value) (s.uacpiNtThermalAddWork more)
  | ignore (value : UInt32) : Change s (.notify value) s
  | queue (hqueueing : s.queueing ≠ 0) : Change s (.queueWorker true)
      { s with queueing := s.queueing - 1, queued := s.queued + 1 }
  | keep (hqueueing : s.queueing ≠ 0) : Change s (.queueWorker false)
      { s with queueing := s.queueing - 1, running := false }
  | workerStart (hqueued : s.queued ≠ 0) : Change s .workerStart
      { s with queued := s.queued - 1, workers := .looking :: s.workers }
  | worker (k : Nat) (aml : ThermalAml) {stage : WorkerStage}
    (hstage : s.workers[k]? = some stage) :
    Change s (.worker k aml) (s.uacpiNtThermalWorker build irps k aml stage)
  | start : Change s .start
      ({ s with active := true, coolingPolicy := 1, fanLevel := 0, throttleLimit := 100
        }.uacpiNtThermalAddWork .all)
  | started : Change s .start s
  | stop : Change s .stop { s with active := false, work := .nothing, stopping := s.stopping + 1 }
  | stopComplete : Change s .stopComplete
      { s.uacpiNtThermalCompleteIrps build irps with stopping := s.stopping - 1 }
  | complete (k : Nat) {pool : Pool ι ThermalResult} (hfinish : s.irps.finish k = some pool) :
    Change s (.complete k) { s with irps := pool }

theorem change_of_deviceControl {irp : ι} (hnew : (s.irps.requests irp).submitted = false)
    (h : s.uacpiNtThermalDeviceControl build irps irp = some s') :
    Change build irps s (.deviceControl irp) s' := by
  obtain ⟨sizes, -, rfl⟩ := Option.map_eq_some_iff.1 h
  split
  · exact .reject irp hnew _
  split
  · exact .reject irp hnew _
  simp only [acceptRequest]
  split
  · exact .reject irp hnew _
  split
  · exact .reject irp hnew _
  · have hchan : Change build irps s (.deviceControl irp) _ :=
      .accept irp hnew (by simpa using ‹¬(!s.active) = true›)
    simpa only [free, Bool.not_not] using hchan

theorem change_of_step (h : step build irps s op = some s') : Change build irps s op s' := by
  cases op with
  | deviceControl irp =>
    obtain ⟨hnew, h⟩ : (s.irps.requests irp).submitted = false ∧
        s.uacpiNtThermalDeviceControl build irps irp = some s' := by simpa [step] using h
    exact change_of_deviceControl hnew h
  | cancel irp =>
    cases h
    exact .cancel irp
  | cancelRoutine irp =>
    obtain ⟨hcan, rfl⟩ : (s.irps.requests irp).cancelling = true ∧
        { s with irps := s.irps.runRoutine irp .cancelled } = s' := by simpa [step] using h
    exact .cancelRoutine irp hcan
  | notify value =>
    cases h
    simp only [uacpiNtThermalNotify, uacpiNtThermalKick]
    repeat' split
    all_goals first | exact .ignore value | exact .kick value _ rfl
  | queueWorker allocated =>
    obtain ⟨hqu, h⟩ : s.queueing ≠ 0 ∧ _ := by simpa [step] using h
    cases allocated with
    | true =>
      cases h
      exact .queue hqu
    | false =>
      cases h
      exact .keep hqu
  | workerStart =>
    obtain ⟨hq, rfl⟩ : s.queued ≠ 0 ∧
        { s with queued := s.queued - 1, workers := .looking :: s.workers } = s' := by
      simpa [step] using h
    exact .workerStart hq
  | worker k aml =>
    obtain ⟨stage, hstage, rfl⟩ := Option.map_eq_some_iff.1 h
    exact .worker k aml hstage
  | start =>
    cases h
    rw [uacpiNtThermalZoneStart]
    split
    · exact .started
    · exact .start
  | stop =>
    cases h
    exact .stop
  | stopComplete =>
    obtain ⟨-, rfl⟩ : s.stopping ≠ 0 ∧
        { s.uacpiNtThermalCompleteIrps build irps with stopping := s.stopping - 1 } = s' := by
      simpa [step] using h
    exact .stopComplete
  | complete k =>
    obtain ⟨pool, hfin, rfl⟩ := Option.map_eq_some_iff.1 h
    exact .complete k hfin

omit [DecidableEq ι] in
@[simp]
theorem addWork_irps (more : ThermalWork) : (s.uacpiNtThermalAddWork more).irps = s.irps := by
  rw [uacpiNtThermalAddWork]
  split <;> rfl

omit [DecidableEq ι] in
@[simp]
theorem addWork_active (more : ThermalWork) : (s.uacpiNtThermalAddWork more).active = s.active := by
  rw [uacpiNtThermalAddWork]
  split <;> rfl

omit [DecidableEq ι] in
@[simp]
theorem record_active (request : ThermalRequest) : (s.record request).active = s.active := by
  cases request <;> rfl

variable (build irps) in
theorem worker_irps (k : Nat) (aml : ThermalAml) (stage : WorkerStage) :
    ((s.uacpiNtThermalWorker build irps k aml stage).irps = s.irps ∨
      (s.uacpiNtThermalWorker build irps k aml stage).irps =
        s.irps.sweep (free irps) false (completion build irps s.info) s.irps.queue) ∧
    (s.uacpiNtThermalWorker build irps k aml stage).active = s.active := by
  cases stage with
  | looking =>
    rw [uacpiNtThermalWorker]
    split <;> exact ⟨.inl rfl, rfl⟩
  | taken | read | stamped => exact ⟨.inl rfl, rfl⟩
  | measured work =>
    rw [uacpiNtThermalWorker]
    by_cases hcomp : work.complete = true
    · rw [if_pos hcomp]
      exact ⟨.inr rfl, rfl⟩
    · rw [if_neg hcomp]
      exact ⟨.inl rfl, rfl⟩

theorem step_irps (h : step build irps s op = some s') :
    (∃ irp result, (s.irps.requests irp).submitted = false ∧ s'.irps = s.irps.reject irp result) ∨
    (∃ irp, (s.irps.requests irp).submitted = false ∧ s.active = true ∧
      s'.irps = s.irps.pend irp !(free irps irp)) ∨ (∃ irp, s'.irps = s.irps.requestCancel irp) ∨
    (∃ irp, (s.irps.requests irp).cancelling = true ∧ s'.irps = s.irps.runRoutine irp .cancelled) ∨
    s'.irps = s.irps.sweep (free irps) false (completion build irps s.info) s.irps.queue ∨
    (∃ k, s.irps.finish k = some s'.irps) ∨ s'.irps = s.irps := by
  cases change_of_step h with
  | reject irp hnew result => exact .inl ⟨irp, result, hnew, rfl⟩
  | accept irp hnew hact => exact .inr (.inl ⟨irp, hnew, hact, addWork_irps _⟩)
  | cancel irp => exact .inr (.inr (.inl ⟨irp, rfl⟩))
  | cancelRoutine irp hcan => exact .inr (.inr (.inr (.inl ⟨irp, hcan, rfl⟩)))
  | @worker k aml stage hstage =>
    rcases (worker_irps (s := s) build irps k aml stage).1 with heq | heq
    · exact .inr (.inr (.inr (.inr (.inr (.inr heq)))))
    · exact .inr (.inr (.inr (.inr (.inl heq))))
  | stopComplete => exact .inr (.inr (.inr (.inr (.inl rfl))))
  | complete k hfin => exact .inr (.inr (.inr (.inr (.inr (.inl ⟨k, hfin⟩)))))
  | kick | ignore | queue | keep | workerStart | start | started | stop => simp

theorem sound_step (hs : s.irps.Sound (free irps)) (h : step build irps s op = some s') :
    s'.irps.Sound (free irps) := by
  obtain ⟨irp, result, hnew, heq⟩ | ⟨irp, hnew, -, heq⟩ | ⟨irp, heq⟩ | ⟨irp, hcan, heq⟩ | heq |
    ⟨k, hfin⟩ | heq := step_irps h
  · exact heq ▸ hs.reject hnew result
  · exact heq ▸ hs.pend hnew
  · exact heq ▸ hs.requestCancel irp
  · exact heq ▸ hs.runRoutine hcan .cancelled
  · exact heq ▸ (hs.sweep false _ hs.nodup fun _ hirp => hirp).1
  · exact hs.finish hfin
  · exact heq ▸ hs

/-! ### One worker -/

/-- The token is in one place exactly while `Running` is set. -/
def OneWorker (s : ThermalSystem ι) : Prop :=
  s.queueing + s.queued + s.workers.length = s.running.toNat

omit [DecidableEq ι] in
theorem OneWorker.addWork (hs : s.OneWorker) (more : ThermalWork) :
    (s.uacpiNtThermalAddWork more).OneWorker := by
  rw [uacpiNtThermalAddWork]
  split
  · exact hs
  rename_i hidle
  have hrunn : s.running = false := by
    rw [not_or] at hidle
    simpa using hidle.2
  rw [OneWorker, hrunn] at hs
  simp only [Bool.toNat_false] at hs
  simp only [OneWorker, Bool.toNat_true]
  omega

omit [DecidableEq ι] in
theorem OneWorker.congr (hs : s.OneWorker) (hqu : s'.queueing = s.queueing)
    (hq : s'.queued = s.queued) (hwork : s'.workers = s.workers)
    (hrunn : s'.running = s.running) : s'.OneWorker := by
  rw [OneWorker, hqu, hq, hwork, hrunn]
  exact hs

theorem OneWorker.worker (hs : s.OneWorker) {k : Nat} {stage : WorkerStage}
    (h : s.workers[k]? = some stage) (aml : ThermalAml) :
    (s.uacpiNtThermalWorker build irps k aml stage).OneWorker := by
  have hlen : ∀ stage', (s.workers.set k stage').length = s.workers.length :=
    fun stage' => List.length_set
  cases stage with
  | looking =>
    rw [uacpiNtThermalWorker]
    split
    · -- The worker ends, and it was the only one.
      have hk := (List.getElem?_eq_some_iff.1 h).1
      have hle : s.running.toNat ≤ 1 := Bool.toNat_le s.running
      rw [OneWorker] at hs
      simp only [OneWorker, List.length_eraseIdx_of_lt hk, Bool.toNat_false]
      omega
    · simpa only [OneWorker, hlen] using hs
  | taken | read | stamped =>
    simpa only [OneWorker, uacpiNtThermalWorker, hlen] using hs
  | measured work =>
    simp only [OneWorker, uacpiNtThermalWorker, hlen]
    split <;> exact hs

theorem OneWorker.step (hs : s.OneWorker) (h : step build irps s op = some s') : s'.OneWorker := by
  have hle : s.running.toNat ≤ 1 := Bool.toNat_le s.running
  cases change_of_step h with
  | accept irp hnew hact =>
    refine addWork (hs.congr ?_ ?_ ?_ ?_) _ <;> cases (irps irp).request <;> rfl
  | kick value more => exact hs.addWork more
  | queue hqu =>
    rw [OneWorker] at hs ⊢
    simp only
    omega
  | keep hqu =>
    rw [OneWorker] at hs ⊢
    simp only [Bool.toNat_false]
    omega
  | workerStart hq =>
    rw [OneWorker] at hs ⊢
    simp only [List.length_cons]
    omega
  | worker k aml hstage => exact hs.worker hstage aml
  | start =>
    refine addWork (hs.congr ?_ ?_ ?_ ?_) _ <;> rfl
  | reject | cancel | cancelRoutine | ignore | started | stop | stopComplete | complete => exact hs

/-! ### The stop -/

/-- The zone is stopped, and only cancel routines own requests in the queue. -/
structure Swept (s : ThermalSystem ι) : Prop where
  inactive : s.active = false
  owned : s.irps.Owned

theorem inactive_step (hs : s.active = false) (h : step build irps s op = some s')
    (hop : op ≠ .start) : s'.active = false := by
  cases change_of_step h with
  | accept | kick => simpa using hs
  | worker k aml hstage => rw [(worker_irps build irps k aml _).2, hs]
  | start | started => exact absurd rfl hop
  | stop => rfl
  | reject | cancel | cancelRoutine | ignore | queue | keep | workerStart | stopComplete
  | complete => exact hs

theorem owned_of_stopComplete (hs : s.irps.Sound (free irps))
    (h : step build irps s .stopComplete = some s') : s'.irps.Owned := by
  cases change_of_step h with
  | stopComplete => exact hs.owned_sweep false _

theorem Swept.step (hsound : s.irps.Sound (free irps)) (hs : s.Swept)
    (h : step build irps s op = some s') (hop : op ≠ .start) : s'.Swept := by
  refine ⟨inactive_step hs.inactive h hop, ?_⟩
  obtain ⟨irp, result, -, heq⟩ | ⟨irp, -, hact, -⟩ | ⟨irp, heq⟩ | ⟨irp, -, heq⟩ | heq |
    ⟨k, hfin⟩ | heq := step_irps h
  · exact heq ▸ hs.owned.reject irp result
  · rw [hs.inactive] at hact
    cases hact
  · exact heq ▸ hs.owned.requestCancel irp
  · exact heq ▸ hs.owned.runRoutine hsound.nodup irp .cancelled
  · exact heq ▸ hsound.owned_sweep false _
  · exact hs.owned.finish hfin
  · exact heq ▸ hs.owned

/-! ### Whole runs -/

theorem sound_exec {ops : List (ThermalOp ι)} (hs : s.irps.Sound (free irps))
    (hexec : exec (step build irps) ops s = some s') : s'.irps.Sound (free irps) :=
  exec_preserves (I := fun s => s.irps.Sound (free irps)) (fun _ _ _ hs h => sound_step hs h)
    hexec hs

omit [DecidableEq ι] in
theorem oneWorker_of_fresh (hs : s.Fresh) : s.OneWorker := by
  obtain ⟨hqu, hq, hwork⟩ := hs.worker
  simp [OneWorker, hqu, hq, hwork, hs.running]

theorem swept_exec {ops : List (ThermalOp ι)} (hsound : s.irps.Sound (free irps)) (hs : s.Swept)
    (hexec : exec (step build irps) ops s = some s') (hops : ∀ op ∈ ops, op ≠ .start) :
    s'.Swept := by
  have hkept : s'.irps.Sound (free irps) ∧ s'.Swept :=
    exec_invariant (I := fun s => s.irps.Sound (free irps) ∧ s.Swept)
      (fun _ _ _ hs h hop => ⟨sound_step hs.1 h, hs.2.step hs.1 h hop⟩) hexec ⟨hsound, hs⟩
      (throughout_of_forall_mem hops)
  exact hkept.2

theorem inactive_exec {ops : List (ThermalOp ι)} (hs : s.active = false)
    (hexec : exec (step build irps) ops s = some s') (hops : ∀ op ∈ ops, op ≠ .start) :
    s'.active = false :=
  exec_invariant (I := fun s => s.active = false) (fun _ _ _ hs h hop => inactive_step hs h hop)
    hexec hs (throughout_of_forall_mem hops)

/-- After any sequence of requests, notifications, cancellations, worker steps, failed allocations,
starts and stops: a request that was sent waits, is about to be completed or was completed, one of
these and once; at most one worker runs or is queued; and when a stop has finished, the queue has
only requests that their cancel routines own, at once and until the zone is started again. -/
theorem thermal_requests {ops : List (ThermalOp ι)} (hs : s.Fresh)
    (hexec : exec (step build irps) ops s = some s') :
    (∀ irp, (s'.irps.requests irp).completions.length + s'.irps.claims irp +
      (s'.irps.waits irp).toNat = (s'.irps.requests irp).submitted.toNat) ∧
    s'.queued + s'.workers.length ≤ 1 ∧
    (∀ before, ops = before ++ [.stopComplete] → s'.irps.Owned) ∧
    (∀ before between after, ops = before ++ .stop :: between ++ .stopComplete :: after →
      (∀ op ∈ between ++ after, op ≠ .start) → s'.irps.Owned) := by
  have hfresh := Pool.sound_of_fresh hs.irps (free irps)
  refine ⟨(sound_exec hfresh hexec).counted, ?_, ?_, ?_⟩
  · have hone : s'.OneWorker :=
      exec_preserves (fun _ _ _ hs h => hs.step h) hexec (oneWorker_of_fresh hs)
    have hle : s'.running.toNat ≤ 1 := Bool.toNat_le s'.running
    rw [OneWorker] at hone
    omega
  · rintro before rfl
    rw [exec_append] at hexec
    obtain ⟨t, ht, hlast⟩ := Option.bind_eq_some_iff.1 hexec
    obtain ⟨t', hstop, hnil⟩ := exec_cons_eq_some.1 hlast
    cases hnil
    exact owned_of_stopComplete (sound_exec hfresh ht) hstop
  · rintro before between after rfl hstart
    rw [exec_append, exec_append] at hexec
    obtain ⟨t₂, htwo, hexec⟩ := Option.bind_eq_some_iff.1 hexec
    obtain ⟨t, ht, htwo⟩ := Option.bind_eq_some_iff.1 htwo
    obtain ⟨t₁, hstop, hbetween⟩ := exec_cons_eq_some.1 htwo
    obtain ⟨t₃, hcomplete, hafter⟩ := exec_cons_eq_some.1 hexec
    have hsound₁ := sound_step (sound_exec hfresh ht) hstop
    have hsound₂ := sound_exec hsound₁ hbetween
    have hinactive : t₁.active = false := by
      cases hstop
      rfl
    have hswept : t₃.Swept :=
      ⟨inactive_step (inactive_exec hinactive hbetween fun op hop =>
        hstart op (List.mem_append_left after hop)) hcomplete (by simp),
        owned_of_stopComplete hsound₂ hcomplete⟩
    exact (swept_exec (sound_step hsound₂ hcomplete) hswept hafter fun op hop =>
      hstart op (List.mem_append_right between hop)).owned

def cancelThenStop : List (ThermalOp Unit) :=
  [.start, .queueWorker true, .deviceControl (), .cancel (), .stop] ++
    .stopComplete :: [.workerStart]

def stampZeroQuery : ThermalIrp := ⟨.queryInformation 0, true, true, 4, 88⟩

theorem stopped_while_cancelled :
    ∃ s', exec (step ⟨.vista, true⟩ fun _ => stampZeroQuery) cancelThenStop created = some s' ∧
      s'.irps.queue = [()] ∧ s'.irps.Owned ∧ s'.queued + s'.workers.length = 1 ∧
      ∀ irp, (s'.irps.requests irp).completions.length + s'.irps.claims irp +
        (s'.irps.waits irp).toNat = (s'.irps.requests irp).submitted.toNat := by
  have hrun := (Option.some_get (show (exec (step ⟨.vista, true⟩ fun _ => stampZeroQuery)
    cancelThenStop created).isSome = true from rfl)).symm
  obtain ⟨hcounted, -, -, howned⟩ := thermal_requests fresh_created hrun
  refine ⟨_, hrun, rfl, ?_, rfl, hcounted⟩
  refine howned [.start, .queueWorker true, .deviceControl (), .cancel ()] [] [.workerStart] rfl
    fun op hop => ?_
  obtain rfl := List.mem_singleton.1 hop
  simp

end ThermalSystem

end UacpiNt
