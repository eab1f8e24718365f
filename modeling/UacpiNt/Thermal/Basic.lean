import UacpiNt.Cancelable.Pool
import UacpiNt.Machine.Operations

/-!
# Thermal zones

A thermal zone has a queue of requests, a set of work that is to be done, and a worker that does it.
Whoever adds work to a zone without a worker sets `Running` and queues the worker. The worker takes
the work that is there, evaluates the methods of the zone, completes the requests in the queue, and
begins again until no work is left.

The lock of the zone guards the queue, the work, the flags and the stamp, so that each critical
section is one step. What the methods of the zone return is given with the step that evaluates
them. The zone remembers what the last query that was completed was filled with.
-/

namespace UacpiNt

open Cancelable Machine

inductive ThermalRelease where
  | vista
  | win8
  | win10
deriving DecidableEq, Repr

structure ThermalBuild where
  release : ThermalRelease
  is64Bit : Bool
deriving DecidableEq, Repr

namespace ThermalBuild

def fromWin8 (build : ThermalBuild) : Bool :=
  match build.release with
  | .vista => false
  | .win8 | .win10 => true

def fromWin10 (build : ThermalBuild) : Bool :=
  match build.release with
  | .vista | .win8 => false
  | .win10 => true

def querySize (build : ThermalBuild) : UInt32 :=
  match build.release with
  | .vista => if build.is64Bit then 88 else 76
  | .win8 => 76
  | .win10 => 88

def stringSize (build : ThermalBuild) : UInt32 := if build.is64Bit then 16 else 8

end ThermalBuild

/-! ### What a zone knows -/

structure ThermalInfo where
  thermalStamp : UInt32
  thermalConstant1 : UInt32
  thermalConstant2 : UInt32
  samplingPeriod : UInt32
  currentTemperature : UInt32
  passiveTripPoint : UInt32
  standbyTripPoint : UInt32
  criticalTripPoint : UInt32
  s4TripPoint : UInt32
  activeTripPointCount : UInt32
  activeTripPoint : List UInt32
  minimumThrottle : UInt32
  overThrottleThreshold : UInt32
  processors : UInt64
deriving DecidableEq, Repr

inductive ThermalMethod where
  | tc1 | tc2 | psv | crt | tfp | tsp | cr3 | hot | mtl | tmp
  | ac (level : Nat)
deriving DecidableEq, Repr

/-- What the methods of a zone return; `none` if a method is missing or fails. `processors` is the
result of `UacpiNtThermalPassiveProcessors`, and `dsm` that of an advertised `_DSM` function. -/
structure ThermalAml where
  integer : ThermalMethod → Option UInt64
  dsm : Nat → Option UInt64
  processors : UInt64

namespace ThermalAml

def evalInteger (aml : ThermalAml) (method : ThermalMethod) : Option UInt32 :=
  (aml.integer method).map UInt64.toUInt32

def evalDefault (aml : ThermalAml) (method : ThermalMethod) : UInt32 :=
  (aml.evalInteger method).getD 0

def dsmPercent (aml : ThermalAml) (function : Nat) : Option UInt32 :=
  (aml.dsm function).map fun value => if 100 < value then 100 else value.toUInt32

def readActiveTrips (aml : ThermalAml) (level : Nat) : Nat → List UInt32
  | 0 => []
  | left + 1 =>
    match aml.evalInteger (.ac level) with
    | none => []
    | some trip => trip :: aml.readActiveTrips (level + 1) left

def minimumThrottle (aml : ThermalAml) : UInt32 :=
  match aml.evalInteger .mtl with
  | some value => if 100 < value then 100 else value
  | none => (aml.dsmPercent 1).getD 0

end ThermalAml

def maxActiveCoolingLevels : Nat := 10

def uacpiNtThermalReadTrips (build : ThermalBuild) (aml : ThermalAml) (info : ThermalInfo) :
    ThermalInfo :=
  let trips := aml.readActiveTrips 0 maxActiveCoolingLevels
  { info with
    thermalConstant1 := aml.evalDefault .tc1
    thermalConstant2 := aml.evalDefault .tc2
    passiveTripPoint := aml.evalDefault .psv
    criticalTripPoint := aml.evalDefault .crt
    -- In milliseconds from Windows 10 on, where `_TSP` is in tenths of a second.
    samplingPeriod :=
      if build.fromWin10 then (aml.evalInteger .tfp).getD (aml.evalDefault .tsp * 100)
      else aml.evalDefault .tsp
    standbyTripPoint :=
      if build.fromWin10 then aml.evalDefault .cr3 else info.standbyTripPoint
    s4TripPoint := if build.fromWin8 then aml.evalDefault .hot else info.s4TripPoint
    activeTripPoint := trips ++ List.replicate (maxActiveCoolingLevels - trips.length) 0
    activeTripPointCount := .ofNat trips.length
    minimumThrottle := if build.fromWin10 then aml.minimumThrottle else info.minimumThrottle
    overThrottleThreshold :=
      if build.fromWin10 then (aml.dsmPercent 3).getD 0 else info.overThrottleThreshold
    processors := if build.fromWin8 then info.processors else aml.processors }

/-- `UACPINT_THERMAL_QUERY`; the fields that a build does not have are `none`. -/
structure ThermalQuery where
  thermalStamp : UInt32
  thermalConstant1 : UInt32
  thermalConstant2 : UInt32
  samplingPeriod : UInt32
  currentTemperature : UInt32
  passiveTripPoint : UInt32
  criticalTripPoint : UInt32
  activeTripPointCount : UInt8
  activeTripPoint : List UInt32
  s4TransitionTripPoint : Option UInt32
  processors : Option UInt64
  thermalStandbyTripPoint : Option UInt32
  minimumThrottle : Option UInt32
  overThrottleThreshold : Option UInt32
deriving DecidableEq, Repr

def uacpiNtThermalFillQuery (build : ThermalBuild) (info : ThermalInfo) : ThermalQuery where
  thermalStamp := info.thermalStamp
  thermalConstant1 := info.thermalConstant1
  thermalConstant2 := info.thermalConstant2
  samplingPeriod := info.samplingPeriod
  currentTemperature := info.currentTemperature
  passiveTripPoint := info.passiveTripPoint
  criticalTripPoint := info.criticalTripPoint
  activeTripPointCount := info.activeTripPointCount.toUInt8
  activeTripPoint := info.activeTripPoint
  s4TransitionTripPoint := if build.fromWin8 then some info.s4TripPoint else none
  processors := if build.fromWin8 then none else some info.processors
  thermalStandbyTripPoint := if build.fromWin10 then some info.standbyTripPoint else none
  minimumThrottle := if build.fromWin10 then some info.minimumThrottle else none
  overThrottleThreshold := if build.fromWin10 then some info.overThrottleThreshold else none

/-! ### Requests and work -/

/-- The thermal IOCTLs, with what their input buffers hold. -/
inductive ThermalRequest where
  | queryInformation (stamp : UInt32)
  | setCoolingPolicy (policy : UInt8)
  | runActiveCooling (level : UInt8)
  | setPassiveLimit (limit : UInt8)
  | description
deriving DecidableEq, Repr

def ThermalRequest.isQuery : ThermalRequest → Bool
  | .queryInformation _ => true
  | .setCoolingPolicy _ | .runActiveCooling _ | .setPassiveLimit _ | .description => false

structure ThermalIrp where
  request : ThermalRequest
  kernelMode : Bool
  hasBuffer : Bool
  inputLength : UInt32
  outputLength : UInt32
deriving DecidableEq, Repr

/-- The input and output size, `none` if the build does not have the IOCTL. -/
def uacpiNtThermalRequestSizes (build : ThermalBuild) : ThermalRequest → Option (UInt32 × UInt32)
  | .queryInformation _ => some (4, build.querySize)
  | .setCoolingPolicy _ | .runActiveCooling _ => some (1, 0)
  | .setPassiveLimit _ => if build.fromWin8 then some (1, 0) else none
  | .description => if build.fromWin10 then some (0, build.stringSize) else none

inductive ThermalResult where
  | information (query : ThermalQuery)
  | described
  | done
  | notImplemented
  | bufferTooSmall
  | noSuchDevice
  | cancelled
deriving DecidableEq, Repr

structure ThermalWork where
  init : Bool
  policy : Bool
  trips : Bool
  active : Bool
  temperature : Bool
  complete : Bool
deriving DecidableEq, Repr

namespace ThermalWork

def nothing : ThermalWork := ⟨false, false, false, false, false, false⟩

def all : ThermalWork := ⟨true, true, true, true, true, true⟩

def add (work more : ThermalWork) : ThermalWork where
  init := work.init || more.init
  policy := work.policy || more.policy
  trips := work.trips || more.trips
  active := work.active || more.active
  temperature := work.temperature || more.temperature
  complete := work.complete || more.complete

/-- The work of a pass: from Windows 8 on, any step other than the reading itself is followed by a
fresh reading. -/
def widen (build : ThermalBuild) (work : ThermalWork) : ThermalWork :=
  { work with
    temperature := work.temperature ||
      build.fromWin8 && (work.init || work.trips || work.active) }

end ThermalWork

/-- How far a pass of `UacpiNtThermalWorker` has come: it is about to take its work, or it has taken
work, read the trip points, counted the stamp up, or measured the temperature. -/
inductive WorkerStage where
  | looking
  | taken (work : ThermalWork) (coolingPolicy fanLevel : UInt8)
  | read (work : ThermalWork)
  | stamped (work : ThermalWork)
  | measured (work : ThermalWork)
deriving DecidableEq, Repr

/-- The `UACPINT_THERMAL_ZONE` of a PDO, with the number of callers that are about to queue the
worker, of work items that are queued and of stops that are between their two sections, with the
workers that run, and with what the last query was filled with. -/
structure ThermalSystem (ι : Type) where
  irps : Pool ι ThermalResult
  work : ThermalWork
  active : Bool
  running : Bool
  delivered : Bool
  coolingPolicy : UInt8
  fanLevel : UInt8
  throttleLimit : UInt8
  info : ThermalInfo
  queueing : Nat
  queued : Nat
  workers : List WorkerStage
  stopping : Nat
  lastFilled : Option ThermalQuery

/-- What happens to a zone. `queueWorker` is `UacpiNtThermalQueueWorker` with or without a work
item, `worker` a step of a worker, `stop` and `stopComplete` are the two sections of a stop, and
`complete` is the completion of a request after the lock was released. -/
inductive ThermalOp (ι : Type) where
  | deviceControl (irp : ι)
  | cancel (irp : ι)
  | cancelRoutine (irp : ι)
  | notify (value : UInt32)
  | queueWorker (allocated : Bool)
  | workerStart
  | worker (k : Nat) (aml : ThermalAml)
  | start
  | stop
  | stopComplete
  | complete (k : Nat)

namespace ThermalSystem

variable {ι : Type} [DecidableEq ι] (build : ThermalBuild) (irps : ι → ThermalIrp)

section

variable (s : ThermalSystem ι) (irp : ι) (more : ThermalWork)

def created : ThermalSystem ι where
  irps :=
    { requests := fun _ =>
        { submitted := false, cancel := false, routine := false, cancelling := false,
          completions := [] }
      queue := []
      claimed := [] }
  work := .nothing
  active := false
  running := false
  delivered := false
  coolingPolicy := 0
  fanLevel := 0
  throttleLimit := 0
  info := ⟨0, 0, 0, 0, 0, 0, 0, 0, 0, 0, List.replicate maxActiveCoolingLevels 0, 0, 0, 0⟩
  queueing := 0
  queued := 0
  workers := []
  stopping := 0
  lastFilled := none

/-- `UacpiNtThermalAddWork`; a caller that has to queue the worker is counted. -/
def uacpiNtThermalAddWork : ThermalSystem ι :=
  let work := s.work.add more
  let delivered := s.delivered && !more.complete
  if work = .nothing ∨ s.running then { s with work := work, delivered := delivered }
  else
    { s with work := work, delivered := delivered, running := true, queueing := s.queueing + 1 }

def free : Bool := !(irps irp).request.isQuery

def completion (info : ThermalInfo) (irp : ι) : ThermalResult :=
  match (irps irp).request with
  | .queryInformation _ => .information (uacpiNtThermalFillQuery build info)
  | .description => .described
  | .setCoolingPolicy _ | .runActiveCooling _ | .setPassiveLimit _ => .done

def hadQuery : Bool :=
  s.irps.queue.any fun irp => (irps irp).request.isQuery && (s.irps.requests irp).routine

def uacpiNtThermalCompleteIrps : ThermalSystem ι :=
  { s with
    irps := s.irps.sweep (free irps) false (completion build irps s.info) s.irps.queue
    delivered := s.delivered || s.hadQuery irps
    lastFilled :=
      if s.hadQuery irps then some (uacpiNtThermalFillQuery build s.info) else s.lastFilled }

def uacpiNtThermalWorker (k : Nat) (aml : ThermalAml) :
    WorkerStage → ThermalSystem ι
  | .looking =>
    if s.work = .nothing then { s with running := false, workers := s.workers.eraseIdx k }
    else
      { s with
        work := .nothing
        workers := s.workers.set k (.taken (s.work.widen build) s.coolingPolicy s.fanLevel) }
  | .taken work _ _ =>
    { s with
      info := if work.trips then uacpiNtThermalReadTrips build aml s.info else s.info
      workers := s.workers.set k (.read work) }
  | .read work =>
    { s with
      info :=
        if work.temperature then { s.info with thermalStamp := s.info.thermalStamp + 1 }
        else s.info
      workers := s.workers.set k (.stamped work) }
  | .stamped work =>
    { s with
      info :=
        if work.temperature then
          { s.info with
            currentTemperature := (aml.evalInteger .tmp).getD s.info.currentTemperature }
        else s.info
      workers := s.workers.set k (.measured work) }
  | .measured work =>
    let s' := if work.complete then s.uacpiNtThermalCompleteIrps build irps else s
    { s' with workers := s.workers.set k .looking }

def requestWork : ThermalRequest → ThermalWork
  | .queryInformation stamp =>
    if stamp ≠ s.info.thermalStamp then
      { ThermalWork.nothing with temperature := true, complete := true }
    else if s.delivered then .nothing else { ThermalWork.nothing with complete := true }
  | .setCoolingPolicy _ =>
    { ThermalWork.nothing with policy := true, trips := true, complete := true }
  | .runActiveCooling _ => { ThermalWork.nothing with active := true, complete := true }
  | .setPassiveLimit _ => { ThermalWork.nothing with temperature := true, complete := true }
  | .description => { ThermalWork.nothing with complete := true }

def record : ThermalRequest → ThermalSystem ι
  | .setCoolingPolicy policy => { s with coolingPolicy := policy }
  | .runActiveCooling level => { s with fanLevel := level }
  | .setPassiveLimit limit => { s with throttleLimit := limit }
  | .queryInformation _ | .description => s

def acceptRequest : ThermalSystem ι :=
  let request := (irps irp).request
  if !s.active then { s with irps := s.irps.reject irp .noSuchDevice }
  else if request.isQuery && (s.irps.requests irp).cancel then
    { s with irps := s.irps.reject irp .cancelled }
  else
    { s.record request with irps := s.irps.pend irp request.isQuery }.uacpiNtThermalAddWork
      (s.requestWork request)

def uacpiNtThermalDeviceControl : Option (ThermalSystem ι) :=
  (uacpiNtThermalRequestSizes build (irps irp).request).map fun sizes =>
    if !(irps irp).kernelMode then { s with irps := s.irps.reject irp .notImplemented }
    else if (!(irps irp).hasBuffer && (sizes.1 != 0 || sizes.2 != 0)) ||
        (irps irp).inputLength < sizes.1 || (irps irp).outputLength < sizes.2 then
      { s with irps := s.irps.reject irp .bufferTooSmall }
    else s.acceptRequest irps irp

def uacpiNtThermalKick : ThermalSystem ι :=
  if s.active then s.uacpiNtThermalAddWork more else s

def uacpiNtThermalNotify (value : UInt32) : ThermalSystem ι :=
  if value = 0x80 then
    s.uacpiNtThermalKick { ThermalWork.nothing with temperature := true, complete := true }
  else if value = 0x81 then
    s.uacpiNtThermalKick
      { ThermalWork.nothing with trips := true, temperature := true, complete := true }
  else s

/-- `UacpiNtThermalZoneStart`; `PASSIVE_COOLING` is 1. -/
def uacpiNtThermalZoneStart : ThermalSystem ι :=
  if s.active then s
  else
    { s with active := true, coolingPolicy := 1, fanLevel := 0, throttleLimit := 100
      }.uacpiNtThermalAddWork .all

/-- One step. A request is sent once, and `UacpiNtThermalCancel` runs when a cancellation has taken
it. -/
def step : ThermalOp ι → Option (ThermalSystem ι)
  | .deviceControl irp =>
    if (s.irps.requests irp).submitted then none
    else s.uacpiNtThermalDeviceControl build irps irp
  | .cancel irp => some { s with irps := s.irps.requestCancel irp }
  | .cancelRoutine irp =>
    if (s.irps.requests irp).cancelling then
      some { s with irps := s.irps.runRoutine irp .cancelled }
    else none
  | .notify value => some (s.uacpiNtThermalNotify value)
  | .queueWorker allocated =>
    if s.queueing = 0 then none
    else if allocated then
      some { s with queueing := s.queueing - 1, queued := s.queued + 1 }
    -- The work stays and the next request queues the worker.
    else some { s with queueing := s.queueing - 1, running := false }
  | .workerStart =>
    if s.queued = 0 then none
    else some { s with queued := s.queued - 1, workers := .looking :: s.workers }
  | .worker k aml => s.workers[k]?.map (s.uacpiNtThermalWorker build irps k aml)
  | .start => some s.uacpiNtThermalZoneStart
  | .stop => some { s with active := false, work := .nothing, stopping := s.stopping + 1 }
  | .stopComplete =>
    if s.stopping = 0 then none
    else some { s.uacpiNtThermalCompleteIrps build irps with stopping := s.stopping - 1 }
  | .complete k => (s.irps.finish k).map fun pool => { s with irps := pool }

end

end ThermalSystem

end UacpiNt
