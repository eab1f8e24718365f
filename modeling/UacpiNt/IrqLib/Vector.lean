import Mathlib.Data.Nat.Notation
import UacpiNt.Nt.Basic
import UacpiNt.RangeList.Unchecked
import UacpiNt.Selection.Basic
import Mathlib.Data.UInt
import Mathlib.Logic.Function.Basic

/-!
# Interrupt vectors

With I/O APICs the driver owns the interrupt vectors of devices. It keeps the used vectors of
each processor in a range list, the vector of each lower line in a table, and the runs of
vectors that were given to message interrupts in another. A vector is handed out when it is
free on every processor that is tracked. Lines of secondary controllers get numbers past the
end of the interrupt table.
-/

namespace UacpiNt

/-! ### Trigger modes -/

def uacpiNtMaxGsiv : Nat := 256

abbrev GsivMap := BitVec uacpiNtMaxGsiv

def GsivMap.set (map : GsivMap) (gsiv : Nat) : GsivMap :=
  map ||| BitVec.twoPow uacpiNtMaxGsiv gsiv

inductive KInterruptPolarity where
  | activeHigh
  | activeLow
deriving DecidableEq, Repr

inductive KInterruptMode where
  | levelSensitive
  | latched
deriving DecidableEq, Repr

structure GsivTriggers where
  level : GsivMap
  forcedEdge : GsivMap
  forcedHigh : GsivMap
  forcedLow : GsivMap
deriving DecidableEq, Repr

namespace GsivTriggers

section

variable (t : GsivTriggers) (gsiv : UInt32)

def zero : GsivTriggers :=
  ⟨0, 0, 0, 0⟩

def noteLevelGsiv : GsivTriggers :=
  if gsiv.toNat < uacpiNtMaxGsiv then { t with level := t.level.set gsiv.toNat } else t

def noteEdgeGsiv : GsivTriggers :=
  if gsiv.toNat < uacpiNtMaxGsiv then { t with forcedEdge := t.forcedEdge.set gsiv.toNat } else t

def gsivForcedEdge : Bool :=
  decide (gsiv.toNat < uacpiNtMaxGsiv) && t.forcedEdge.getLsbD gsiv.toNat

def gsivIsLevel : Bool :=
  decide (gsiv.toNat < uacpiNtMaxGsiv) && t.level.getLsbD gsiv.toNat

/-- `UacpiNtGsivIsActiveLow`: a polarity from the MADT wins over the trigger mode. -/
def gsivIsActiveLow : Bool :=
  if gsiv.toNat < uacpiNtMaxGsiv ∧ t.forcedHigh.getLsbD gsiv.toNat then false
  else if gsiv.toNat < uacpiNtMaxGsiv ∧ t.forcedLow.getLsbD gsiv.toNat then true
  else t.gsivIsLevel gsiv

def gsivPolarity : KInterruptPolarity :=
  if t.gsivIsActiveLow gsiv then .activeLow else .activeHigh

def gsivMode : KInterruptMode :=
  if t.gsivIsLevel gsiv then .levelSensitive else .latched

end

end GsivTriggers

/-- A range list of used vectors. A line vector is owned by the line, counted from one. -/
abbrev IdtApi := RangeList.Api UInt64 UInt32 NtError

abbrev IdtEntries := List (RangeList.Range UInt64 UInt32)

def maxIdtVector : UInt32 := 0xFF

def deviceVectorFirst : UInt32 := 0x50

def deviceVectorLast : UInt32 := 0xBF

def secondaryVectorBase : UInt32 := 256

def secondaryVectorCount : Nat := 256

def maxProcessors : Nat := 256

def maxMessageRuns : Nat := 128

def msiRangeOwner : Option UInt32 := some 0xACB1A5E1

/-- The owner of the vector of a line; the pointer is null for the last line. -/
def lineRangeOwner (gsiv : UInt32) : Option UInt32 :=
  if gsiv + 1 = 0 then none else some (gsiv + 1)

/-! ### The vectors the HAL granted -/

/-- `UacpiNtHalGrantedVectors` and `UacpiNtHalGrantedCount`. -/
structure HalGrant where
  vectors : BitVec 256
  count : Nat
deriving DecidableEq, Repr

def HalGrant.grantedVector (grant : HalGrant) (vector : UInt32) : Bool :=
  decide (vector ≤ maxIdtVector) && grant.vectors.getLsbD vector.toNat

def HalGrant.add (grant : HalGrant) (d : CmPartialResourceDescriptor) : HalGrant :=
  match d.u with
  | .interrupt _ vector _ =>
    if vector > maxIdtVector ∨ grant.grantedVector vector = true then grant
    else ⟨grant.vectors ||| BitVec.twoPow 256 vector.toNat, grant.count + 1⟩
  | _ => grant

/-- Only the first list of the resources is read. -/
def uacpiNtIrqLibSetHalVectors (resources : List (List CmPartialResourceDescriptor)) : HalGrant :=
  (resources.head?.getD []).foldl HalGrant.add ⟨0, 0⟩

/-! ### State -/

/-- `UACPINT_MESSAGE_RUN`: consecutive vectors for the messages of one device. A run that the
arbiter placed has a nonzero line number. -/
structure MessageRun where
  owner : Option DeviceObject
  messageGsiv : UInt32
  base : UInt32
  count : UInt32
  claimed : Bool
deriving DecidableEq, Repr

def MessageRun.zero : MessageRun :=
  ⟨none, 0, 0, 0, false⟩

/-- What the library keeps: the used vectors of the processors up to
`UacpiNtProcessorIdtCount`, `none` where a processor is not tracked, and its tables. -/
structure VectorState where
  processorIdt : List (Option IdtEntries)
  gsivVector : Fin uacpiNtMaxGsiv → UInt32
  messageRuns : Fin maxMessageRuns → MessageRun
  secondaryVectorGsiv : List UInt32

namespace VectorState

section

variable (s : VectorState) (gsiv : UInt32)

def zero : VectorState :=
  ⟨[], fun _ => 0, fun _ => .zero, []⟩

def assignedVector : UInt32 :=
  if h : gsiv.toNat < uacpiNtMaxGsiv then s.gsivVector ⟨gsiv.toNat, h⟩ else 0

def assignVector (vector : UInt32) : VectorState :=
  if h : gsiv.toNat < uacpiNtMaxGsiv then
    { s with gsivVector := Function.update s.gsivVector ⟨gsiv.toNat, h⟩ vector }
  else s

def setRun (i : Fin maxMessageRuns) (run : MessageRun) : VectorState :=
  { s with messageRuns := Function.update s.messageRuns i run }

def findRun (p : MessageRun → Bool) : Option (Fin maxMessageRuns) :=
  Fin.find? fun i => p (s.messageRuns i)

def freeRun : Option (Fin maxMessageRuns) :=
  s.findRun fun run => run.owner.isNone

end

end VectorState

/-- What the library asks the HAL and the kernel. `primary` is the line of the controller behind
a secondary line, `none` where the HAL does not know; `picVector` is the answer of
`HalGetInterruptVector`, zero where there is none. -/
structure IrqLibHost where
  interruptModel : UInt32
  isSecondary : UInt32 → Bool
  primary : UInt32 → Option UInt32
  convertIdtToIrql : Option (UInt32 → UInt8)
  picVector : UInt32 → UInt32 × UInt8 × UInt64
  picVectorBase : Option UInt32
  activeProcessors : UInt64

def acpiNtApic : UInt32 := 1

def uacpiNtVectorToIrql (host : IrqLibHost) (vector : UInt32) : UInt8 :=
  match host.convertIdtToIrql with
  | some convert => convert vector
  | none => (vector >>> 4).toUInt8

def uacpiNtLowestProcessor (affinity : UInt64) : UInt64 :=
  let lowest := affinity &&& (~~~affinity + 1)
  if lowest = 0 then 1 else lowest

section

variable (api : IdtApi)

/-! ### Processors -/

section

variable (grant : HalGrant) (processor : Nat) (s : VectorState) (count : UInt32)

/-- The end of the run of vectors from `vector` on that were not granted. -/
def ungrantedEnd (vector : Nat) : Nat :=
  ((List.range' vector (256 - vector)).find? fun v => grant.grantedVector (.ofNat v)).getD 256

/-- The loop of `UacpiNtSeedIdtState`; `fuel` counts the vectors. -/
def seedUngranted (grant : HalGrant) : Nat → Nat → IdtEntries → IdtEntries
  | 0, _, used => used
  | fuel + 1, vector, used =>
    if 255 < vector then used
    else if grant.grantedVector (.ofNat vector) then seedUngranted grant fuel (vector + 1) used
    else seedUngranted grant fuel (ungrantedEnd grant vector)
      (api.addRange' used
        ⟨.ofNat vector, .ofNat (ungrantedEnd grant vector - 1), 0, false, none⟩ false)

/-- Every vector that was not granted is in use; without a grant, every one outside the device band.
-/
def uacpiNtSeedIdtState : IdtEntries :=
  if grant.count = 0 then
    api.addRange'
      (api.addRange' [] ⟨0, deviceVectorFirst.toUInt64 - 1, 0, false, none⟩ false)
      ⟨deviceVectorLast.toUInt64 + 1, maxIdtVector.toUInt64, 0, false, none⟩ false
  else seedUngranted api grant 256 0 []

def uacpiNtSeedProcessor : VectorState :=
  if ((s.processorIdt[processor]?).join).isSome then s
  else
    { s with
      processorIdt := (s.processorIdt ++
        List.replicate (processor + 1 - s.processorIdt.length) none).set processor
          (some (uacpiNtSeedIdtState api grant)) }

/-- `UacpiNtProcessorChangeCallback`, for a processor whose addition is complete. -/
def uacpiNtProcessorChangeCallback : VectorState :=
  if processor < maxProcessors then uacpiNtSeedProcessor api grant processor s else s

def uacpiNtSeedExistingProcessors (numberProcessors : UInt8) (s : VectorState) : VectorState :=
  (List.range (min numberProcessors.toNat maxProcessors)).foldl
    (fun s processor => uacpiNtSeedProcessor api grant processor s) s

def uacpiNtVectorFreeEverywhere (vector : UInt32) : Bool :=
  s.processorIdt.all fun idt => idt.all fun used =>
    decide ((api.isRangeAvailable used vector.toUInt64 vector.toUInt64 .none).1 = .ok true)

/-- The result of each addition is ignored. -/
def uacpiNtClaimVectors (first last : UInt32) (owner : Option UInt32) (s : VectorState) :
    VectorState :=
  { s with
    processorIdt := s.processorIdt.map fun idt => idt.map fun used =>
      api.addRange' used ⟨first.toUInt64, last.toUInt64, 0, false, owner⟩ false }

/-! ### Allocation -/

/-- A line of the table keeps its vector. -/
def uacpiNtApicAllocateVector (gsiv : UInt32) (s : VectorState) :
    Except NtError UInt32 × VectorState :=
  if s.assignedVector gsiv ≠ 0 then (.ok (s.assignedVector gsiv), s)
  else if s.processorIdt = [] then (.error .unsuccessful, s)
  else
    match (List.range' 0x50 0x70).find? fun v => uacpiNtVectorFreeEverywhere api s (.ofNat v) with
    | none => (.error .insufficientResources, s)
    | some v =>
      (.ok (.ofNat v), (uacpiNtClaimVectors api (.ofNat v) (.ofNat v) (lineRangeOwner gsiv)
        s).assignVector gsiv (.ofNat v))

def defaultCount : UInt32 :=
  if count = 0 then 1 else count

theorem defaultCount_ne_zero : defaultCount count ≠ 0 := by
  rw [defaultCount]
  split
  · decide
  · assumption

theorem toNat_ne_zero {count : UInt32} (h : count ≠ 0) : count.toNat ≠ 0 :=
  fun hzero => h (UInt32.toNat_inj.mp hzero)

theorem defaultCount_of_ne_zero {count : UInt32} (h : count ≠ 0) : defaultCount count = count :=
  if_neg h

/-- A run is aligned to its length where that is a power of two. -/
def runAlignment : UInt32 :=
  if count &&& (count - 1) ≠ 0 then 1 else count

def runFirst (alignment : UInt32) : UInt32 :=
  (deviceVectorFirst + alignment - 1) &&& ~~~(alignment - 1)

def runFree (candidate count : UInt32) : Bool :=
  (List.range count.toNat).all fun offset =>
    uacpiNtVectorFreeEverywhere api s (candidate + .ofNat offset)

end

section

variable (host : IrqLibHost) (gsiv count : UInt32) (s : VectorState)

/-- The search of `UacpiNtApicAllocateVectorRange`. The end of a candidate may wrap around. -/
def searchRun (s : VectorState) (count alignment : UInt32) : Nat → UInt32 → Option UInt32
  | 0, _ => none
  | fuel + 1, candidate =>
    if candidate + count - 1 ≤ deviceVectorLast then
      if runFree api s candidate count then some candidate
      else searchRun s count alignment fuel (candidate + alignment)
    else none

def uacpiNtApicAllocateVectorRange : Except NtError UInt32 × VectorState :=
  let count := defaultCount count
  if s.processorIdt = [] then (.error .unsuccessful, s)
  else
    match searchRun api s count (runAlignment count) 256 (runFirst (runAlignment count)) with
    | none => (.error .insufficientResources, s)
    | some candidate =>
      (.ok candidate, uacpiNtClaimVectors api candidate (candidate + count - 1) msiRangeOwner s)

def uacpiNtApicFreeVectorRange (baseVector count : UInt32) (s : VectorState) : VectorState :=
  let count := defaultCount count
  { s with
    processorIdt := s.processorIdt.map fun idt => idt.map fun used =>
      api.deleteRange' used baseVector.toUInt64 (baseVector + count - 1).toUInt64 msiRangeOwner }

/-- The attempt for the full run and, where that fails, for a single vector. -/
def allocateRunOrSingle : Except NtError (UInt32 × UInt32) × VectorState :=
  match uacpiNtApicAllocateVectorRange api count s with
  | (.ok base, s') => (.ok (base, count), s')
  | (.error e, _) =>
    if 1 < count then
      match uacpiNtApicAllocateVectorRange api 1 s with
      | (.ok base, s') => (.ok (base, 1), s')
      | (.error _, _) => (.error e, s)
    else (.error e, s)

/-- The run of an owner at a placement with a count, which is allocated if there is none. -/
def uacpiNtIrqLibResolveMessageVector (owner : DeviceObject) (messageGsiv count : UInt32)
    (s : VectorState) : Except NtError (UInt32 × UInt8 × UInt64) × VectorState :=
  let count := defaultCount count
  let resolved base :=
    (base, uacpiNtVectorToIrql host base, uacpiNtLowestProcessor host.activeProcessors)
  if host.interruptModel ≠ acpiNtApic then (.error .notSupported, s)
  else
    match s.findRun fun run => decide (run.owner = some owner ∧ run.messageGsiv = messageGsiv ∧
        run.count = count) with
    | some i => (.ok (resolved (s.messageRuns i).base), s)
    | none =>
      match s.freeRun with
      | none => (.error .insufficientResources, s)
      | some i =>
        match allocateRunOrSingle api count s with
        | (.error e, s') => (.error e, s')
        | (.ok (base, count), s') =>
          (.ok (resolved base), s'.setRun i ⟨some owner, messageGsiv, base, count, false⟩)

/-! ### Lines -/

/-- One vector for each secondary line, forever. -/
def uacpiNtAllocateSecondaryVector : Except NtError UInt32 × VectorState :=
  match s.secondaryVectorGsiv.findIdx? (· = gsiv) with
  | some index => (.ok (secondaryVectorBase + .ofNat index), s)
  | none =>
    if s.secondaryVectorGsiv.length < secondaryVectorCount then
      (.ok (secondaryVectorBase + .ofNat s.secondaryVectorGsiv.length),
        { s with secondaryVectorGsiv := s.secondaryVectorGsiv ++ [gsiv] })
    else (.error .insufficientResources, s)

def highLevel : UInt8 := 15

/-- The level is that of the controller's own line, which gets a vector on the way. -/
def uacpiNtResolveSecondaryVector : Except NtError (UInt32 × UInt8) × VectorState :=
  match uacpiNtAllocateSecondaryVector gsiv s with
  | (.error e, s') => (.error e, s')
  | (.ok vector, s₁) =>
    match host.primary gsiv with
    | none => (.ok (vector, highLevel), s₁)
    | some primaryGsiv =>
      match uacpiNtApicAllocateVector api primaryGsiv s₁ with
      | (.error _, s₂) => (.ok (vector, highLevel), s₂)
      | (.ok primaryVector, s₂) =>
        (.ok (vector, host.convertIdtToIrql.elim highLevel fun convert =>
          convert primaryVector), s₂)

end

structure LineVector where
  vector : UInt32
  irql : UInt8
  affinity : UInt64
  polarity : KInterruptPolarity
  mode : KInterruptMode
deriving DecidableEq, Repr

def uacpiNtIrqLibResolveVector (host : IrqLibHost) (triggers : GsivTriggers) (gsiv : UInt32)
    (s : VectorState) : Except NtError LineVector × VectorState :=
  let line vector irql affinity : LineVector :=
    ⟨vector, irql, affinity, triggers.gsivPolarity gsiv, triggers.gsivMode gsiv⟩
  if host.isSecondary gsiv then
    match uacpiNtResolveSecondaryVector api host gsiv s with
    | (.error e, s') => (.error e, s')
    | (.ok (vector, irql), s') => (.ok (line vector irql host.activeProcessors), s')
  else if host.interruptModel = acpiNtApic then
    match uacpiNtApicAllocateVector api gsiv s with
    | (.error e, s') => (.error e, s')
    | (.ok vector, s') =>
      (.ok (line vector (uacpiNtVectorToIrql host vector)
        (uacpiNtLowestProcessor host.activeProcessors)), s')
  else
    let (halVector, halIrql, halAffinity) := host.picVector gsiv
    if halVector ≠ 0 then
      (.ok (line halVector halIrql (uacpiNtLowestProcessor
        (if halAffinity = 0 then host.activeProcessors else halAffinity))), s)
    else
      match host.picVectorBase with
      | none => (.error .notSupported, s)
      | some base =>
        (.ok (line (base + gsiv) (uacpiNtVectorToIrql host (base + gsiv))
          (uacpiNtLowestProcessor host.activeProcessors)), s)

/-! ### The routines of the HAL that the driver replaces -/

/-- The line and the polarity of a vector; the failure tells a message vector from an unknown one.
-/
def uacpiNtHalGetVectorInputOverride (triggers : GsivTriggers) (vector : UInt32)
    (s : VectorState) : Except NtError (UInt32 × KInterruptPolarity) :=
  if vector = 0 then .error .invalidParameter
  else
    match Fin.find? fun i => decide (s.gsivVector i = vector) with
    | some i => .ok (.ofNat i.val, triggers.gsivPolarity (.ofNat i.val))
    | none =>
      if (s.findRun fun run => decide (run.owner.isSome ∧ run.count ≠ 0 ∧ run.base ≤ vector ∧
          vector < run.base + run.count)).isSome then .error .invalidParameter
      else .error .notFound

/-- The slots of the runs of that length that the owner has not claimed. -/
def unclaimedRuns (s : VectorState) (owner : DeviceObject) (count : UInt32) :
    List (Fin maxMessageRuns) :=
  (List.finRange maxMessageRuns).filter fun i => decide ((s.messageRuns i).owner = some owner ∧
    (s.messageRuns i).count = count ∧ (s.messageRuns i).claimed = false)

def lowestUnclaimedRun (s : VectorState) (owner : DeviceObject) (count : UInt32) :
    Option (Fin maxMessageRuns) :=
  Selection.best (fun i j => decide ((s.messageRuns i).base < (s.messageRuns j).base))
    (unclaimedRuns s owner count)

/-- `UacpiNtHalAllocateMessageTargetOverride`, at passive level where `passive` holds. -/
def uacpiNtHalAllocateMessageTargetOverride (host : IrqLibHost) (passive : Bool)
    (owner : DeviceObject) (numberOfIdtEntries : UInt32) (s : VectorState) :
    Except NtError (UInt32 × UInt8) × VectorState :=
  let count := defaultCount numberOfIdtEntries
  if passive = false then (.error .notSupported, s)
  else if host.interruptModel ≠ acpiNtApic then (.error .notSupported, s)
  else
    match lowestUnclaimedRun s owner count with
    | some i =>
      (.ok ((s.messageRuns i).base, uacpiNtVectorToIrql host (s.messageRuns i).base),
        s.setRun i { s.messageRuns i with claimed := true })
    | none =>
      match s.freeRun with
      | none => (.error .insufficientResources, s)
      | some i =>
        match uacpiNtApicAllocateVectorRange api count s with
        | (.error e, s') => (.error e, s')
        | (.ok base, s') =>
          (.ok (base, uacpiNtVectorToIrql host base),
            s'.setRun i ⟨some owner, 0, base, count, true⟩)

/-- A run of the arbiter is only given back. -/
def uacpiNtHalFreeMessageTargetOverride (owner : DeviceObject) (vector : UInt32)
    (s : VectorState) : VectorState :=
  match s.findRun fun run => decide (run.owner = some owner ∧ run.base ≤ vector ∧
      vector < run.base + run.count) with
  | none => s
  | some i =>
    if (s.messageRuns i).messageGsiv = 0 then
      (uacpiNtApicFreeVectorRange api (s.messageRuns i).base (s.messageRuns i).count s).setRun i
        .zero
    else s.setRun i { s.messageRuns i with claimed := false }

end

/-! ### Connection data -/

def messageGsivBase : UInt32 := 0xFFF00000

/-- `INTERRUPT_VECTOR_DATA`: the element of a line has its number, that of a message none. -/
structure InterruptVectorData where
  controllerInput : Option UInt32
  vector : UInt32
  irql : UInt8
  polarity : KInterruptPolarity
  mode : KInterruptMode
  targetProcessors : UInt64
deriving DecidableEq, Repr

section

variable (host : IrqLibHost) (s : VectorState) (owner : DeviceObject)

abbrev InterruptConnectionData := List InterruptVectorData

structure ConnectionState where
  vectors : VectorState
  properties : DeviceObject → Option InterruptConnectionData

abbrev PropertyWriter := DeviceObject → InterruptConnectionData → NtStatus

/-- A write that fails leaves the property. -/
def uacpiNtSetConnectionData (write : PropertyWriter) (pdo : DeviceObject)
    (data : InterruptConnectionData) (c : ConnectionState) : NtStatus × ConnectionState :=
  match write pdo data with
  | .ok _ => (.ok (), { c with properties := Function.update c.properties pdo (some data) })
  | .error e => (.error e, c)

/-! ### Messages -/

def uacpiNtOwnerHasMessages : Bool :=
  (s.findRun fun run => decide (run.owner = some owner ∧ run.count ≠ 0)).isSome

/-- A higher placement comes first, runs of the HAL last. -/
def uacpiNtMessageRunPrecedes (run other : MessageRun) : Bool :=
  if run.messageGsiv ≠ other.messageGsiv then
    if run.messageGsiv = 0 ∨ other.messageGsiv = 0 then decide (run.messageGsiv ≠ 0)
    else decide (run.messageGsiv > other.messageGsiv)
  else decide (run.base < other.base)

def ownedRuns : List (Fin maxMessageRuns) :=
  (List.finRange maxMessageRuns).filter fun i =>
    decide ((s.messageRuns i).owner = some owner ∧ (s.messageRuns i).count ≠ 0)

/-- The slots of the runs of an owner in the order of their elements. -/
def publishedRuns : List (Fin maxMessageRuns) :=
  Selection.order (fun i j => uacpiNtMessageRunPrecedes (s.messageRuns i) (s.messageRuns j))
    (ownedRuns s owner).length (ownedRuns s owner)

def MessageRun.elements (target : UInt64) (run : MessageRun) : InterruptConnectionData :=
  (List.range run.count.toNat).map fun message =>
    ⟨none, run.base + .ofNat message, uacpiNtVectorToIrql host (run.base + .ofNat message),
      .activeHigh, .latched, target⟩

def totalMessages : UInt32 :=
  ((List.finRange maxMessageRuns).filter fun i =>
    decide ((s.messageRuns i).owner = some owner)).foldl
      (fun total i => total + (s.messageRuns i).count) 0

/-- The elements that are written for an owner: as many as there is room for. With no element at
all, zeroed ones are written. -/
def messageConnectionData (count : UInt32) (target : UInt64) : InterruptConnectionData :=
  let total := if totalMessages s owner = 0 then count else totalMessages s owner
  let written := ((publishedRuns s owner).flatMap fun i =>
    (s.messageRuns i).elements host target).take total.toNat
  if written = [] then List.replicate total.toNat ⟨none, 0, 0, .activeHigh, .levelSensitive, 0⟩
  else written

end

section

variable (api : IdtApi) (host : IrqLibHost) (write : PropertyWriter)

def uacpiNtWriteMessageConnectionData (pdo : DeviceObject) (messageGsiv count : UInt32)
    (c : ConnectionState) : NtStatus × ConnectionState :=
  let count := defaultCount count
  match uacpiNtIrqLibResolveMessageVector api host pdo messageGsiv count c.vectors with
  | (.error e, s) => (.error e, { c with vectors := s })
  | (.ok (_, _, processors), s) =>
    uacpiNtSetConnectionData write pdo
      (messageConnectionData host s pdo count (uacpiNtLowestProcessor processors))
      { c with vectors := s }

/-- A device that has messages keeps their elements. -/
def uacpiNtIrqLibWriteConnectionData (triggers : GsivTriggers) (pdo : DeviceObject)
    (gsiv count : UInt32) (c : ConnectionState) : NtStatus × ConnectionState :=
  if gsiv ≥ messageGsivBase then
    uacpiNtWriteMessageConnectionData api host write pdo gsiv count c
  else if uacpiNtOwnerHasMessages c.vectors pdo then (.ok (), c)
  else
    match uacpiNtIrqLibResolveVector api host triggers gsiv c.vectors with
    | (.error e, s) => (.error e, { c with vectors := s })
    | (.ok line, s) =>
      uacpiNtSetConnectionData write pdo
        [⟨some gsiv, line.vector, line.irql, line.polarity, line.mode, line.affinity⟩]
        { c with vectors := s }

/-! ### The translator -/

def CmPartialResourceDescriptor.isMessage (d : CmPartialResourceDescriptor) : Bool :=
  d.flags &&& 0x0002 != 0

def CmPartialResourceDescriptor.isLatched (d : CmPartialResourceDescriptor) : Bool :=
  d.flags &&& 0x0001 != 0

/-- The message count in the upper half of a level, 1 where it makes no sense. -/
def translatedCount (level : UInt32) : UInt32 :=
  if level >>> 16 = 0 ∨ level >>> 16 > 32 then 1 else level >>> 16

structure TranslatorState where
  triggers : GsivTriggers
  connection : ConnectionState

def TranslatorState.setVectors (t : TranslatorState) (s : VectorState) : TranslatorState :=
  { t with connection := { t.connection with vectors := s } }

/-- The end of `UacpiNtTranslateResources`: a line or message with a level is translated and its
connection data is written. -/
def finishTranslation (source : CmPartialResourceDescriptor) (pdo : DeviceObject)
    (gsiv count vector : UInt32) (irql : UInt8) (affinity : UInt64) (t : TranslatorState) :
    Bool × CmPartialResourceDescriptor × TranslatorState :=
  if irql = 0 then (false, source, t)
  else
    (true, { source with u := .interrupt irql.toUInt32 vector affinity },
      { t with connection := (uacpiNtIrqLibWriteConnectionData api host write t.triggers pdo gsiv
          count t.connection).2 })

/-- `UacpiNtTranslateResources`, for a device. The first component says that the translation is
complete. -/
def uacpiNtTranslateResources (childToParent : Bool) (source : CmPartialResourceDescriptor)
    (pdo : DeviceObject) (t : TranslatorState) :
    Bool × CmPartialResourceDescriptor × TranslatorState :=
  match childToParent, source.u with
  | true, .interrupt level gsiv _ =>
    if source.isMessage ∨ gsiv ≥ messageGsivBase then
      let count := translatedCount level
      match uacpiNtIrqLibResolveMessageVector api host pdo gsiv count t.connection.vectors with
      | (.error _, s) => (false, source, t.setVectors s)
      | (.ok (vector, irql, affinity), s) =>
        finishTranslation api host write source pdo gsiv count vector irql affinity
          (t.setVectors s)
    else
      -- A level descriptor makes the line level triggered.
      let t := { t with
        triggers := if source.isLatched then t.triggers else t.triggers.noteLevelGsiv gsiv }
      match uacpiNtIrqLibResolveVector api host t.triggers gsiv t.connection.vectors with
      | (.error _, s) => (false, source, t.setVectors s)
      | (.ok line, s) =>
        finishTranslation api host write source pdo gsiv 1 line.vector line.irql line.affinity
          (t.setVectors s)
  | _, _ => (false, source, t)

end

end UacpiNt
