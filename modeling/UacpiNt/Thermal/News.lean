import UacpiNt.Thermal.Protocol

/-!
# What a query that waits has missed

A query with the current stamp waits if `Delivered` is set. A pass that completes a query sets the
flag, also if work was added since the pass took its own; the next pass then reads the trip points
or the temperature again and completes no query, and the flag stays. If nothing that is read again
is pending whenever a pass completes a query, then a query that is left waiting has missed nothing:
the last query was filled with what the zone knows.
-/

namespace UacpiNt

open Cancelable List Machine

def ThermalWork.rereads (work : ThermalWork) : Bool := work.trips || work.temperature

def WorkerStage.rereads : WorkerStage → Bool
  | .taken work _ _ => work.rereads
  | .read work | .stamped work => work.temperature
  | .looking | .measured _ => false

def WorkerStage.completes : WorkerStage → Bool
  | .taken work _ _ | .read work | .stamped work | .measured work => work.complete
  | .looking => false

def WorkerStage.finishes : WorkerStage → Bool
  | .measured work => work.complete
  | .looking | .taken _ _ _ | .read _ | .stamped _ => false

namespace ThermalWork

theorem add_nothing (work : ThermalWork) : work.add nothing = work := by
  simp [add, nothing]

@[simp]
theorem rereads_widen_nothing (build : ThermalBuild) : (nothing.widen build).rereads = false := by
  simp [rereads, widen, nothing]

end ThermalWork

namespace ThermalSystem

variable {ι : Type} [DecidableEq ι] {build : ThermalBuild} {irps : ι → ThermalIrp}
  {s s' : ThermalSystem ι} {op : ThermalOp ι}

section

variable (build) (irps) (s)

/-- While `Delivered` is set, the last query was filled with what the zone knows, and nothing is
going to change that. -/
def Settled : Prop :=
  s.delivered = true → s.lastFilled = some (uacpiNtThermalFillQuery build s.info) ∧
    (s.work.widen build).rereads = false ∧ ∀ stage ∈ s.workers, stage.rereads = false

/-- A query that waits waits for news, or is going to be completed. -/
def Awaited : Prop :=
  ∀ irp, (irps irp).request.isQuery = true → (s.irps.requests irp).routine = true →
    s.delivered = true ∨ s.work.complete = true ∨ ∃ stage ∈ s.workers, stage.completes = true

/-- A pass that completes a query has no work pending that reads again what the query is filled
with, and the zone is not stopped. -/
def NothingPending :
    ThermalOp ι → Prop
  | .worker k _ => ∀ stage ∈ s.workers[k]?, stage.finishes = true → s.hadQuery irps = true →
      (s.work.widen build).rereads = false
  | .stop | .stopComplete => False
  | .deviceControl _ | .cancel _ | .cancelRoutine _ | .notify _ | .queueWorker _ | .workerStart
  | .start | .complete _ => True

end

omit [DecidableEq ι] in
instance (build : ThermalBuild) (irps : ι → ThermalIrp) (s : ThermalSystem ι) :
    DecidablePred (s.NothingPending build irps)
  | .worker k _ => inferInstanceAs (Decidable (∀ stage ∈ s.workers[k]?, _ → _ → _ = false))
  | .stop | .stopComplete => .isFalse id
  | .deviceControl _ | .cancel _ | .cancelRoutine _ | .notify _ | .queueWorker _ | .workerStart
  | .start | .complete _ => .isTrue trivial

/-! ### New work -/

omit [DecidableEq ι] in
theorem addWork_delivered (more : ThermalWork) :
    (s.uacpiNtThermalAddWork more).delivered = (s.delivered && !more.complete) := by
  rw [uacpiNtThermalAddWork]
  split <;> rfl

omit [DecidableEq ι] in
theorem addWork_work (more : ThermalWork) :
    (s.uacpiNtThermalAddWork more).work = s.work.add more := by
  rw [uacpiNtThermalAddWork]
  split <;> rfl

omit [DecidableEq ι] in
theorem addWork_rest (more : ThermalWork) : (s.uacpiNtThermalAddWork more).workers = s.workers ∧
    (s.uacpiNtThermalAddWork more).info = s.info ∧
    (s.uacpiNtThermalAddWork more).lastFilled = s.lastFilled := by
  rw [uacpiNtThermalAddWork]
  split <;> exact ⟨rfl, rfl, rfl⟩

omit [DecidableEq ι] in
theorem Settled.addWork (hs : s.Settled build) {more : ThermalWork}
    (hmore : more.complete = true ∨ more = .nothing) :
    (s.uacpiNtThermalAddWork more).Settled build := by
  obtain ⟨hwor, hinfo, hlast⟩ := addWork_rest (s := s) more
  intro hdel
  rw [addWork_delivered, Bool.and_eq_true] at hdel
  rcases hmore with hcomp | rfl
  · rw [hcomp] at hdel
    cases hdel.2
  · rw [addWork_work, ThermalWork.add_nothing, hwor, hinfo, hlast]
    exact hs hdel.1

omit [DecidableEq ι] in
theorem awaited_addWork {more : ThermalWork}
    (hmore : more.complete = true ∨ more = .nothing ∧ s.Awaited irps) :
    (s.uacpiNtThermalAddWork more).Awaited irps := by
  obtain ⟨hwor, -, -⟩ := addWork_rest (s := s) more
  intro irp hquery hrout
  rw [addWork_irps] at hrout
  rw [addWork_delivered, addWork_work, hwor]
  rcases hmore with hcomp | ⟨rfl, hs⟩
  · exact .inr (.inl (by simp [ThermalWork.add, hcomp]))
  · rw [ThermalWork.add_nothing]
    simpa [ThermalWork.nothing] using hs irp hquery hrout

omit [DecidableEq ι] in
/-- A request asks for the completion of the requests, or it is a query that waits for news. -/
theorem requestWork_cases (request : ThermalRequest) : (s.requestWork request).complete = true ∨
      s.requestWork request = .nothing ∧ request.isQuery = true ∧ s.delivered = true := by
  cases request with
  | queryInformation stamp =>
    rw [requestWork]
    split
    · exact .inl rfl
    split
    · rename_i hdel
      exact .inr ⟨rfl, rfl, hdel⟩
    · exact .inl rfl
  | setCoolingPolicy | runActiveCooling | setPassiveLimit | description => exact .inl rfl

/-! ### One step -/

omit [DecidableEq ι] in
theorem Settled.congr (hs : s.Settled build) (hdel : s'.delivered = s.delivered)
    (hlast : s'.lastFilled = s.lastFilled) (hinfo : s'.info = s.info) (hwork : s'.work = s.work)
    (hwor : s'.workers = s.workers) : s'.Settled build := by
  rw [Settled, hdel, hlast, hinfo, hwork, hwor]
  exact hs

omit [DecidableEq ι] in
theorem Awaited.congr (hs : s.Awaited irps)
    (hrout : ∀ irp, (s'.irps.requests irp).routine = true → (s.irps.requests irp).routine = true)
    (hdel : s'.delivered = s.delivered) (hwork : s'.work = s.work)
    (hwor : s'.workers = s.workers) : s'.Awaited irps := by
  intro irp hquery h
  rw [hdel, hwork, hwor]
  exact hs irp hquery (hrout irp h)

omit [DecidableEq ι] in
theorem OneWorker.eq_singleton (hs : s.OneWorker) {k : Nat} {stage : WorkerStage}
    (h : s.workers[k]? = some stage) : k = 0 ∧ s.workers = [stage] := by
  have hle : s.running.toNat ≤ 1 := Bool.toNat_le s.running
  have hk := (List.getElem?_eq_some_iff.1 h).1
  rw [OneWorker] at hs
  obtain ⟨only, honly⟩ := length_eq_one_iff.1 (by omega : s.workers.length = 1)
  rw [honly] at h hk
  have hzero : k = 0 := by simpa using hk
  subst hzero
  exact ⟨rfl, by simpa [honly] using h⟩

theorem settled_worker (hone : s.OneWorker) (hs : s.Settled build) {k : Nat} {stage : WorkerStage}
    (h : s.workers[k]? = some stage) (aml : ThermalAml)
    (hpend : s.NothingPending build irps (.worker k aml)) :
    (s.uacpiNtThermalWorker build irps k aml stage).Settled build := by
  obtain ⟨rfl, hwor⟩ := hone.eq_singleton h
  have hstage : s.delivered = true → stage.rereads = false := fun hdel =>
    (hs hdel).2.2 stage (hwor ▸ mem_singleton_self stage)
  cases stage with
  | looking =>
    rw [uacpiNtThermalWorker]
    split <;> intro hdel <;> obtain ⟨hlast, hwork, -⟩ := hs hdel
    · exact ⟨hlast, hwork, by simp [hwor]⟩
    · exact ⟨hlast, ThermalWork.rereads_widen_nothing build,
        by simpa [hwor, WorkerStage.rereads] using hwork⟩
  | taken work coolingPolicy fanLevel =>
    intro hdel
    obtain ⟨hlast, hwork, -⟩ := hs hdel
    obtain ⟨htrips, htemp⟩ := Bool.or_eq_false_iff.1 (hstage hdel)
    exact ⟨by simpa [uacpiNtThermalWorker, htrips] using hlast, hwork,
      by simpa [uacpiNtThermalWorker, hwor, WorkerStage.rereads] using htemp⟩
  | read work | stamped work =>
    intro hdel
    obtain ⟨hlast, hwork, -⟩ := hs hdel
    have htemp : work.temperature = false := hstage hdel
    exact ⟨by simpa [uacpiNtThermalWorker, htemp] using hlast, hwork,
      by simp [uacpiNtThermalWorker, hwor, WorkerStage.rereads, htemp]⟩
  | measured work =>
    rw [uacpiNtThermalWorker]
    by_cases hcomp : work.complete = true
    · rw [if_pos hcomp]
      intro hdel
      by_cases hquery : s.hadQuery irps = true
      · -- The query is filled with what the zone knows, and nothing else is to be read.
        exact ⟨by simp [uacpiNtThermalCompleteIrps, hquery], hpend _ h hcomp hquery,
          by simp [hwor, WorkerStage.rereads]⟩
      have hbef : s.delivered = true := by
        simpa [uacpiNtThermalCompleteIrps, hquery] using hdel
      obtain ⟨hlast, hwork, -⟩ := hs hbef
      exact ⟨by simpa [uacpiNtThermalCompleteIrps, hquery] using hlast, hwork,
        by simp [hwor, WorkerStage.rereads]⟩
    · rw [if_neg hcomp]
      intro hdel
      obtain ⟨hlast, hwork, -⟩ := hs hdel
      exact ⟨hlast, hwork, by simp [hwor, WorkerStage.rereads]⟩

theorem awaited_worker (hsound : s.irps.Sound (free irps)) (hone : s.OneWorker)
    (hs : s.Awaited irps) {k : Nat} {stage : WorkerStage} (h : s.workers[k]? = some stage)
    (aml : ThermalAml) : (s.uacpiNtThermalWorker build irps k aml stage).Awaited irps := by
  obtain ⟨rfl, hwor⟩ := hone.eq_singleton h
  have hcases : ∀ irp, (irps irp).request.isQuery = true → (s.irps.requests irp).routine = true →
      s.delivered = true ∨ s.work.complete = true ∨ stage.completes = true := by
    intro irp hquery hrout
    simpa [hwor] using hs irp hquery hrout
  cases stage with
  | looking =>
    rw [uacpiNtThermalWorker]
    split
    · intro irp hquery hrout
      simpa [hwor, WorkerStage.completes] using hcases irp hquery hrout
    · intro irp hquery hrout
      simpa [hwor, WorkerStage.completes, ThermalWork.widen, ThermalWork.nothing] using
        hcases irp hquery hrout
  | taken | read | stamped =>
    intro irp hquery hrout
    simpa [uacpiNtThermalWorker, hwor, WorkerStage.completes] using hcases irp hquery hrout
  | measured work =>
    rw [uacpiNtThermalWorker]
    by_cases hcomp : work.complete = true
    · rw [if_pos hcomp]
      intro irp hquery hrout
      rw [uacpiNtThermalCompleteIrps] at hrout
      rw [hsound.routine_sweep] at hrout
      cases hrout
    · rw [if_neg hcomp]
      intro irp hquery hrout
      simpa [hwor, WorkerStage.completes, hcomp] using hcases irp hquery hrout

structure Informed (build : ThermalBuild) (irps : ι → ThermalIrp) (s : ThermalSystem ι) : Prop where
  sound : s.irps.Sound (free irps)
  oneWorker : s.OneWorker
  settled : s.Settled build
  awaited : s.Awaited irps

theorem Informed.step (hs : s.Informed build irps) (h : step build irps s op = some s')
    (hpend : s.NothingPending build irps op) : s'.Informed build irps := by
  suffices hrest : s'.Settled build ∧ s'.Awaited irps from
    ⟨sound_step hs.sound h, hs.oneWorker.step h, hrest.1, hrest.2⟩
  have hsett := hs.settled
  have hawai := hs.awaited
  cases change_of_step h with
  | reject irp hnew result =>
    exact ⟨hsett, hawai.congr (fun _ h => Pool.routine_of_reject h) rfl rfl rfl⟩
  | accept irp hnew hact =>
    constructor
    · refine Settled.addWork ?_ ((requestWork_cases _).imp_right And.left)
      refine hsett.congr ?_ ?_ ?_ ?_ ?_ <;> cases (irps irp).request <;> rfl
    refine awaited_addWork ((requestWork_cases _).imp_right ?_)
    rintro ⟨hnth, -, hdel⟩
    refine ⟨hnth, fun irp' hquery hrout => .inl ?_⟩
    rw [← hdel]
    cases (irps irp).request <;> rfl
  | cancel irp =>
    exact ⟨hsett, hawai.congr (fun _ h => Pool.routine_of_requestCancel h) rfl rfl rfl⟩
  | cancelRoutine irp hcanc =>
    exact ⟨hsett, hawai.congr (fun _ h => Pool.routine_of_runRoutine h) rfl rfl rfl⟩
  | kick value more hmore => exact ⟨hsett.addWork (.inl hmore), awaited_addWork (.inl hmore)⟩
  | workerStart hq =>
    refine ⟨fun hdel => ?_, fun irp hquery hrout => ?_⟩
    · simpa [WorkerStage.rereads] using hsett hdel
    · simpa [WorkerStage.completes] using hawai irp hquery hrout
  | worker k aml hstage =>
    exact ⟨settled_worker hs.oneWorker hsett hstage aml hpend,
      awaited_worker hs.sound hs.oneWorker hawai hstage aml⟩
  | start =>
    refine ⟨Settled.addWork ?_ (.inl rfl), awaited_addWork (.inl rfl)⟩
    exact hsett.congr rfl rfl rfl rfl rfl
  | complete k hfini =>
    exact ⟨hsett, hawai.congr (fun _ h => Pool.routine_of_finish hfini h) rfl rfl rfl⟩
  | stop | stopComplete => exact hpend.elim
  | ignore | queue | keep | started => exact ⟨hsett, hawai⟩

/-! ### A query that misses something -/

def passInfo (build : ThermalBuild) (aml : ThermalAml) (work : ThermalWork) (info : ThermalInfo) :
    ThermalInfo :=
  let read := if work.trips then uacpiNtThermalReadTrips build aml info else info
  if work.temperature then
    { read with
      thermalStamp := read.thermalStamp + 1
      currentTemperature := (aml.evalInteger .tmp).getD read.currentTemperature }
  else read

def twoMethods (passive temperature : UInt32) : ThermalAml where
  integer := fun method =>
    if method = .psv then some passive.toUInt64
    else if method = .tmp then some temperature.toUInt64 else none
  dsm := fun _ => none
  processors := 0

@[simp]
theorem evalInteger_twoMethods_psv (passive temperature : UInt32) :
    (twoMethods passive temperature).evalInteger .psv = some passive :=
  congrArg some (UInt32.toUInt32_toUInt64 passive)

@[simp]
theorem evalInteger_twoMethods_tmp (passive temperature : UInt32) :
    (twoMethods passive temperature).evalInteger .tmp = some temperature :=
  congrArg some (UInt32.toUInt32_toUInt64 temperature)

theorem fillQuery_passInfo_ne (info : ThermalInfo) {work : ThermalWork} (h : work.rereads = true) :
    uacpiNtThermalFillQuery build (passInfo build
      (twoMethods (info.passiveTripPoint + 1) (info.currentTemperature + 1)) work info) ≠
        uacpiNtThermalFillQuery build info := by
  intro heq
  by_cases htrips : work.trips = true
  · have hpas := congrArg ThermalQuery.passiveTripPoint heq
    rw [passInfo] at hpas
    split at hpas <;>
      simp [uacpiNtThermalFillQuery, uacpiNtThermalReadTrips, ThermalAml.evalDefault] at hpas
  · have htemp : work.temperature = true := by
      simpa [ThermalWork.rereads, htrips] using h
    have hcur := congrArg ThermalQuery.currentTemperature heq
    simp [passInfo, htemp, uacpiNtThermalFillQuery] at hcur

variable (build irps) in
theorem exec_pass (hwor : s.workers = [.looking]) (hwork : s.work ≠ .nothing) (aml : ThermalAml) :
    exec (step build irps) (replicate 4 (.worker 0 aml)) s = some { s with
        work := .nothing
        info := passInfo build aml (s.work.widen build) s.info
        workers := [.measured (s.work.widen build)] } := by
  simp only [replicate, exec, step, hwor, getElem?_cons_zero, Option.map_some,
    Option.bind_some, uacpiNtThermalWorker, if_neg hwork, set_cons_zero, passInfo]
  split <;> rfl

variable (build irps) in
theorem step_measured {work : ThermalWork} (hwor : s.workers = [.measured work])
    (hrout : ∀ irp, (s.irps.requests irp).routine = false) (aml : ThermalAml) :
    ∃ pool : Pool ι ThermalResult, step build irps s (.worker 0 aml) =
        some { s with irps := pool, workers := [.looking] } ∧
      ∀ irp, (pool.requests irp).submitted = (s.irps.requests irp).submitted ∧
        (pool.requests irp).cancel = (s.irps.requests irp).cancel := by
  have hquery : s.hadQuery irps = false := by
    simp [hadQuery, hrout]
  by_cases hcomp : work.complete = true
  · refine ⟨s.irps.sweep (free irps) false (completion build irps s.info) s.irps.queue, ?_, ?_⟩
    · simp [step, hwor, uacpiNtThermalWorker, hcomp, uacpiNtThermalCompleteIrps, hquery]
    intro irp
    obtain ⟨routine, hreq⟩ := Pool.sweep_requests (free irps) false
      (completion build irps s.info) s.irps.queue s.irps irp
    rw [hreq]
    exact ⟨rfl, rfl⟩
  · refine ⟨s.irps, ?_, fun irp => ⟨rfl, rfl⟩⟩
    simp [step, hwor, uacpiNtThermalWorker, hcomp]

variable (build irps) in
theorem exec_last_pass (hwor : s.workers = [.looking]) (hwork : s.work ≠ .nothing)
    (hrout : ∀ irp, (s.irps.requests irp).routine = false) (aml : ThermalAml) :
    ∃ t, exec (step build irps)
        (replicate 4 (.worker 0 aml) ++ [.worker 0 aml, .worker 0 aml]) s = some t ∧
      t.info = passInfo build aml (s.work.widen build) s.info ∧ t.work = .nothing ∧
      t.running = false ∧ t.active = s.active ∧ t.delivered = s.delivered ∧
      t.lastFilled = s.lastFilled ∧
      ∀ irp, (t.irps.requests irp).submitted = (s.irps.requests irp).submitted ∧
        (t.irps.requests irp).cancel = (s.irps.requests irp).cancel := by
  obtain ⟨pool, hcom, hsame⟩ := step_measured build irps (s := { s with
      work := .nothing
      info := passInfo build aml (s.work.widen build) s.info
      workers := [.measured (s.work.widen build)] }) rfl hrout aml
  refine ⟨{ s with
    irps := pool
    work := .nothing
    info := passInfo build aml (s.work.widen build) s.info
    workers := []
    running := false }, ?_, rfl, rfl, rfl, rfl, rfl, rfl, hsame⟩
  rw [exec_append, exec_pass build irps hwor hwork aml, Option.bind_some, exec, hcom]
  simp [exec, step, uacpiNtThermalWorker]

def HasQueries (build : ThermalBuild) (irps : ι → ThermalIrp) (s : ThermalSystem ι) : Prop :=
  ∀ stamp, ∃ irp, (s.irps.requests irp).submitted = false ∧ (s.irps.requests irp).cancel = false ∧
    irps irp = ⟨.queryInformation stamp, true, true, 4, build.querySize⟩

theorem step_query {irp : ι} (hact : s.active = true) (hdel : s.delivered = true)
    (hwork : s.work = .nothing) (hnew : (s.irps.requests irp).submitted = false)
    (hcan : (s.irps.requests irp).cancel = false)
    (hirp : irps irp = ⟨.queryInformation s.info.thermalStamp, true, true, 4, build.querySize⟩) :
    step build irps s (.deviceControl irp) = some { s with irps := s.irps.pend irp true } := by
  simp [step, hnew, uacpiNtThermalDeviceControl, hirp, uacpiNtThermalRequestSizes, acceptRequest,
    hact, hcan, ThermalRequest.isQuery, requestWork, hdel, record,
    uacpiNtThermalAddWork, hwork, ThermalWork.add_nothing]
  simp [ThermalWork.nothing]

/-- The completion of a query while something is to be read again can be continued to a zone without
work in which a query with the current stamp waits and has missed something. -/
theorem exists_missed (hsound : s.irps.Sound (free irps)) (hone : s.OneWorker) {k : Nat}
    {stage : WorkerStage} (hstage : s.workers[k]? = some stage) (hfin : stage.finishes = true)
    (hquery : s.hadQuery irps = true) (hrer : (s.work.widen build).rereads = true)
    (hact : s.active = true) (hclie : s.HasQueries build irps) (aml : ThermalAml)
    {aml' : ThermalAml}
    (hchan : uacpiNtThermalFillQuery build (passInfo build aml' (s.work.widen build) s.info) ≠
      uacpiNtThermalFillQuery build s.info) :
    ∃ ops t irp, (∀ op ∈ ops, (∃ aml, op = .worker 0 aml) ∨ op = .deviceControl irp) ∧
      exec (step build irps) (.worker k aml :: ops) s = some t ∧ t.active = true ∧
      t.work = .nothing ∧ t.running = false ∧
      (irps irp).request = .queryInformation t.info.thermalStamp ∧
      irp ∈ t.irps.queue ∧ (t.irps.requests irp).routine = true ∧
      t.lastFilled ≠ some (uacpiNtThermalFillQuery build t.info) := by
  obtain ⟨rfl, hwor⟩ := hone.eq_singleton hstage
  have hwork : s.work ≠ .nothing := by
    intro hnth
    rw [hnth, ThermalWork.rereads_widen_nothing] at hrer
    cases hrer
  obtain ⟨work, rfl, hcomp⟩ : ∃ work, stage = .measured work ∧ work.complete = true := by
    cases stage with
    | measured work => exact ⟨work, rfl, hfin⟩
    | looking | taken _ _ _ | read _ | stamped _ => cases hfin
  -- The query is completed and the flag set.
  have hfst : step build irps s (.worker 0 aml) =
      some { s.uacpiNtThermalCompleteIrps build irps with workers := [.looking] } := by
    simp [step, hwor, uacpiNtThermalWorker, hcomp]
  -- The next pass reads something again and completes no query.
  obtain ⟨t, hpass, hinfo, hnth, hrunn, hact', hdel, hlast, hsame⟩ := exec_last_pass build irps
      (s := { s.uacpiNtThermalCompleteIrps build irps with workers := [.looking] }) rfl hwork
      (fun irp => hsound.routine_sweep false _ irp) aml'
  -- A query with the stamp of that pass waits.
  obtain ⟨irp, hnew, hcan, hirp⟩ := hclie t.info.thermalStamp
  obtain ⟨routine, hreq⟩ := Pool.sweep_requests (free irps) false
    (completion build irps s.info) s.irps.queue s.irps irp
  have hwaits : step build irps t (.deviceControl irp) =
      some { t with irps := t.irps.pend irp true } := by
    refine step_query (hact'.trans hact) (hdel.trans ?_) hnth
      ((hsame irp).1.trans ?_) ((hsame irp).2.trans ?_) hirp
    · simp [uacpiNtThermalCompleteIrps, hquery]
    · simp [uacpiNtThermalCompleteIrps, hreq, hnew]
    · simp [uacpiNtThermalCompleteIrps, hreq, hcan]
  have hexec : exec (step build irps) (replicate 4 (.worker 0 aml') ++
      [.worker 0 aml', .worker 0 aml'] ++ [.deviceControl irp])
      { s.uacpiNtThermalCompleteIrps build irps with workers := [.looking] } =
        some { t with irps := t.irps.pend irp true } := by
    rw [exec_append, hpass, Option.bind_some, exec, hwaits, Option.bind_some, exec]
  refine ⟨_, { t with irps := t.irps.pend irp true }, irp, ?_,
    exec_cons_eq_some.2 ⟨_, hfst, hexec⟩, hact'.trans hact, hnth, hrunn,
    by rw [hirp],
    ?_, ?_, ?_⟩
  · simp only [mem_append, mem_replicate, mem_cons]
    rintro op ((⟨-, rfl⟩ | rfl | rfl | h) | rfl | h)
    all_goals simp_all
  · simp [Pool.pend]
  · simp [Pool.pend, Pool.set]
  have hfil : t.lastFilled = some (uacpiNtThermalFillQuery build s.info) := by
    rw [hlast]
    simp [uacpiNtThermalCompleteIrps, hquery]
  rw [hfil, hinfo]
  exact fun h => hchan (Option.some.inj h).symm

/-! ### Whole runs -/

theorem informed_of_fresh (hs : s.Fresh) (hdel : s.delivered = false) : s.Informed build irps where
  sound := Pool.sound_of_fresh hs.irps _
  oneWorker := oneWorker_of_fresh hs
  settled := fun h => by
    rw [hdel] at h
    cases h
  awaited := fun irp _ hrout => by
    rw [(hs.irps.requests irp).2.1] at hrout
    cases hrout

/-- If nothing that is read again is pending whenever a pass completes a query, then a query that
waits in a zone without work and without a worker has missed nothing. The first completion of a
query that breaks this can be continued to a query that waits and has missed something. -/
theorem thermal_news {ops : List (ThermalOp ι)} (hs : s.Fresh) (hdelivered : s.delivered = false)
    (hexec : exec (step build irps) ops s = some s')
    (hpending : Throughout (step build irps) (fun s op _ => s.NothingPending build irps op) ops s) :
    (s'.work = .nothing → s'.running = false →
      ∀ irp, (irps irp).request.isQuery = true → irp ∈ s'.irps.queue →
        (s'.irps.requests irp).routine = true →
        s'.lastFilled = some (uacpiNtThermalFillQuery build s'.info)) ∧
    (∀ k stage aml, s'.workers[k]? = some stage → stage.finishes = true →
      s'.hadQuery irps = true → (s'.work.widen build).rereads = true → s'.active = true →
      s'.HasQueries build irps →
      ∃ ops' t irp, (∀ op ∈ ops', (∃ aml, op = .worker 0 aml) ∨ op = .deviceControl irp) ∧
        exec (step build irps) (.worker k aml :: ops') s' = some t ∧ t.active = true ∧
        t.work = .nothing ∧ t.running = false ∧
        (irps irp).request = .queryInformation t.info.thermalStamp ∧
        irp ∈ t.irps.queue ∧ (t.irps.requests irp).routine = true ∧
        t.lastFilled ≠ some (uacpiNtThermalFillQuery build t.info)) := by
  have hinformed : s'.Informed build irps :=
    exec_invariant (fun _ _ _ hs h hpending => hs.step h hpending) hexec
      (informed_of_fresh hs hdelivered) hpending
  refine ⟨fun hwork hrunning irp hquery _ hroutine => ?_,
    fun k stage aml hstage hfinishes hquery hrereads hactive hclient =>
      exists_missed hinformed.sound hinformed.oneWorker hstage hfinishes hquery hrereads hactive
        hclient aml
        (fillQuery_passInfo_ne s'.info hrereads)⟩
  -- No worker is left that could complete the query, so it waits for news.
  have hworkers : s'.workers = [] := by
    have hone := hinformed.oneWorker
    rw [OneWorker, hrunning, Bool.toNat_false] at hone
    exact List.length_eq_zero_iff.1 (by omega)
  rcases hinformed.awaited irp hquery hroutine with hdelivered | hcomplete | ⟨stage, hstage, -⟩
  · exact (hinformed.settled hdelivered).1
  · rw [hwork] at hcomplete
    cases hcomplete
  · rw [hworkers] at hstage
    cases hstage

def clientIrps : Option Bool → ThermalIrp
  | none => ⟨.setCoolingPolicy 0, true, true, 1, 0⟩
  | some false => ⟨.queryInformation 0, true, true, 4, 88⟩
  | some true => ⟨.queryInformation 1, true, true, 4, 88⟩

def firstPass : List (ThermalOp (Option Bool)) :=
  [.start, .queueWorker true, .workerStart, .deviceControl (some false)] ++
    List.replicate 4 (.worker 0 (twoMethods 3500 3000))

theorem second_query_waits :
    ∃ s', exec (step ⟨.vista, true⟩ clientIrps) (firstPass ++ [.worker 0 (twoMethods 3500 3000),
        .complete 0, .worker 0 (twoMethods 3500 3000), .deviceControl (some true)]) created =
        some s' ∧
      s'.irps.queue = [some true] ∧
      s'.lastFilled = some (uacpiNtThermalFillQuery ⟨.vista, true⟩ s'.info) := by
  have hrun := (Option.some_get (show (exec (step ⟨.vista, true⟩ clientIrps) (firstPass ++
    [.worker 0 (twoMethods 3500 3000), .complete 0, .worker 0 (twoMethods 3500 3000),
      .deviceControl (some true)]) created).isSome = true from rfl)).symm
  refine ⟨_, hrun, rfl, (thermal_news fresh_created rfl hrun (by decide)).1 rfl rfl (some true) rfl
    (by decide) rfl⟩

/-- Before Windows 8: a cooling policy that is set while a pass is about to complete a query. The
next pass reads other trip points and no query is completed, and a query with the stamp of the first
one waits. -/
theorem policy_during_pass_missed :
    ∃ s', exec (step ⟨.vista, true⟩ clientIrps) (firstPass ++ [.deviceControl none,
        .worker 0 (twoMethods 3500 3000), .complete 0, .complete 0] ++
        List.replicate 6 (.worker 0 (twoMethods 3400 3000)) ++ [.deviceControl (some true)])
        created = some s' ∧
      s'.active = true ∧ s'.work = .nothing ∧ s'.running = false ∧
      (clientIrps (some true)).request = .queryInformation s'.info.thermalStamp ∧
      s'.irps.queue = [some true] ∧ (s'.irps.requests (some true)).routine = true ∧
      s'.lastFilled.map ThermalQuery.passiveTripPoint = some 3500 ∧
      s'.info.passiveTripPoint = 3400 :=
  ⟨_, rfl, rfl, rfl, rfl, rfl, rfl, rfl, rfl, rfl⟩

end ThermalSystem

end UacpiNt
