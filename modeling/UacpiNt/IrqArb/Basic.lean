import UacpiNt.Arbiter.Transaction.Test
import UacpiNt.IrqLib.Vector

/-!
# The interrupt arbiter

The arbiter hands out interrupt lines by their global number, and a slot above all lines for
each request for message interrupts. The number of messages is not part of the placement: it
is packed into the assignment and kept in a table on the side. A PCI device that the firmware
routes to a line gets that line or none.
-/

namespace UacpiNt

/-- `UACPINT_MSI_GSIV_BASE` and `UACPINT_MSI_GSIV_LAST`: the bounds of the message window. -/
def msiGsivBase : UInt64 := 0xFFF00000

def msiGsivLast : UInt64 := 0xFFFFFFFE

def msiMaxCount : Nat := 32

def msiRecordMax : Nat := 64

def uacpiNtRangeLevel : UInt8 := 0x04

def uacpiNtRangeLatched : UInt8 := 0x08

def isaGsivCount : UInt32 := 16

def interruptMessage : UInt16 := 0x0002

namespace IoResourceDescriptor

def isMessage (d : IoResourceDescriptor) : Bool :=
  d.flags &&& interruptMessage != 0

def isLatched (d : IoResourceDescriptor) : Bool :=
  d.flags &&& 0x0001 != 0

end IoResourceDescriptor

/-- `UACPINT_MSI_RECORD`: how many messages the placement at a slot stands for. -/
structure MsiRecord where
  start : UInt64
  messageCount : UInt32
deriving DecidableEq, Repr

/-- `UACPINT_IRQ_LINK`: the line that was decided for an interrupt link. -/
structure IrqLink where
  node : Nat
  gsiv : UInt32
deriving DecidableEq, Repr

structure IrqWorld where
  msiRecords : List MsiRecord
  linkRotation : UInt32
  links : List IrqLink
  triggers : GsivTriggers
deriving DecidableEq, Repr

def IrqWorld.zero : IrqWorld :=
  ⟨[], 0, [], .zero⟩

/-- What the arbiter depends on: the interrupt model (1 is the APIC), the size of a pointer,
and the way from a device through its bridges to a routing table entry. The walk sees the
rotation and the decided links, and may decide a link. -/
structure IrqHost where
  interruptModel : UInt32
  pointerBits : Nat
  prtWalk : DeviceObject → UInt32 → List IrqLink → Option UInt32 × List IrqLink

section

variable (arb : ArbiterInstance) (host : IrqHost) (st : AllocationState) (world : IrqWorld)
  (workSpace : Nat) (d : IoResourceDescriptor)

/-! ### Message counts -/

/-- A full table keeps what it has. -/
def uacpiNtMsiCountRecord (start : UInt64) (count : UInt32) (records : List MsiRecord) :
    List MsiRecord :=
  match records.findIdx? fun r => r.start == start with
  | some i => records.modify i fun r => { r with messageCount := count }
  | none => if records.length ≥ msiRecordMax then records else records ++ [⟨start, count⟩]

/-- The span of the vectors, 1 where it makes no sense. -/
def uacpiNtMsiCountFromRequirement : UInt32 :=
  match d.u with
  | .interrupt minimum maximum _ =>
    if maximum < minimum then 1
    else
      let span := maximum.toNat - minimum.toNat + 1
      if span = 0 ∨ span > msiMaxCount then 1 else UInt32.ofNat span
  | _ => 1

/-! ### Descriptors -/

/-- A line or one slot of the message window. The PIC gets an empty window for messages. -/
def uacpiNtIrqUnpackRequirement : Except NtError Requirement :=
  match d.u with
  | .interrupt minimum maximum _ =>
    if !d.isMessage then .ok ⟨minimum.toUInt64, maximum.toUInt64, 1, 1⟩
    else if host.interruptModel ≠ 1 then .ok ⟨1, 0, 1, 1⟩
    else .ok ⟨msiGsivBase, msiGsivLast, 1, 1⟩
  | _ => .error .invalidParameter

def IoResourceDescriptor.targetedProcessors : UInt64 :=
  match d.u with
  | .interrupt _ _ targeted => targeted
  | _ => 0

/-- A line is in both the level and the vector; a message carries its count in the upper half of the
level. -/
def uacpiNtIrqPackResource (requirement : IoResourceDescriptor) (start : UInt64)
    (_descriptor : CmPartialResourceDescriptor) (world : IrqWorld) :
    NtStatus × CmPartialResourceDescriptor × IrqWorld :=
  if start < msiGsivBase then
    (.ok (), ⟨requirement.shareDisposition, requirement.flags,
      .interrupt start.toUInt32 start.toUInt32 0xFFFFFFFFFFFFFFFF⟩, world)
  else
    let count := uacpiNtMsiCountFromRequirement requirement
    let targeted := requirement.targetedProcessors
    (.ok (), ⟨requirement.shareDisposition, requirement.flags ||| interruptMessage,
      .interrupt (count <<< 16) start.toUInt32
        (if targeted = 0 then 0xFFFFFFFFFFFFFFFF else targeted)⟩,
      { world with msiRecords := uacpiNtMsiCountRecord start count world.msiRecords })

/-- A message placement is as long as its count. -/
def uacpiNtIrqUnpackResource (d : CmPartialResourceDescriptor) :
    Except NtError (UInt64 × UInt64) :=
  match d.u with
  | .interrupt level vector _ =>
    let count := level >>> 16
    if (d.flags &&& interruptMessage ≠ 0 ∨ vector.toUInt64 ≥ msiGsivBase) ∧
        count ≠ 0 ∧ count.toNat ≤ msiMaxCount then .ok (vector.toUInt64, count.toUInt64)
    else .ok (vector.toUInt64, 1)
  | _ => .error .invalidParameter

/-- Smaller ranges come first, and what reaches past the ISA lines pays 5. The span is computed in
32 bits. -/
def uacpiNtIrqScoreRequirement : Int :=
  match d.u with
  | .interrupt minimum maximum _ =>
    let score := maximum - minimum + 1
    let score := if maximum - minimum = 0xFFFFFFFF ∨ score > 0xFFFF then 0xFFFF else score
    (if maximum ≥ isaGsivCount then score + 5 else score).toNat
  | _ => 0xFFFF

/-! ### Routed devices

The work space of a state holds the cursor of its walk in its low byte, and above it the result
of the routing: 0 if it was not looked for, 1 if the device is not routed, the line plus 2
otherwise. -/

def wsPrtNone : Nat := 1

def wsPrtBias : Nat := 2

def wsCursor : Nat :=
  workSpace % 2 ^ 8

def wsPrt : Nat :=
  workSpace / 2 ^ 8 % 2 ^ 32

/-- `UACPINT_WS_SET_CURSOR`, for a cursor of 8 bits. -/
def wsSetCursor (cursor : Nat) : Nat :=
  workSpace / 2 ^ 8 * 2 ^ 8 + cursor

def wsSetPrt (bits workSpace value : Nat) : Nat :=
  workSpace % 2 ^ 8 + value * 2 ^ 8 % 2 ^ bits

def AllocationState.routedLine : UInt64 :=
  .ofNat (wsPrt st.workSpace - wsPrtBias)

/-- A routed line is level triggered. -/
def uacpiNtPrtResolveGsiv (device : DeviceObject) (world : IrqWorld) : Option UInt32 × IrqWorld :=
  match host.prtWalk device world.linkRotation world.links with
  | (none, links) => (none, { world with links := links })
  | (some gsiv, links) =>
    (some gsiv, { world with links := links, triggers := world.triggers.noteLevelGsiv gsiv })

/-- A shared level triggered line may be joined. -/
def uacpiNtIrqShareableRange (r : RtlRange) : Bool :=
  r.attributes &&& uacpiNtRangeLevel != 0 && r.shared

/-- Tag a state with the triggering of its first alternative. -/
def AllocationState.tagTriggering : AllocationState :=
  { st with
    rangeAttributes := (st.rangeAttributes &&& ~~~(uacpiNtRangeLevel ||| uacpiNtRangeLatched)) |||
      (if st.alternatives.head?.any (·.descriptor.isLatched) then uacpiNtRangeLatched
        else uacpiNtRangeLevel) }

/-- Tag the triggering and resolve the routed line, once. -/
def uacpiNtIrqPreprocessEntry : NtStatus × AllocationState × IrqWorld :=
  match st.entry.physicalDeviceObject with
  | none => (.ok (), st, world)
  | some device =>
    if st.boot ∨ wsPrt st.workSpace ≠ 0 then (.ok (), st.tagTriggering, world)
    else
      let (gsiv, world) := uacpiNtPrtResolveGsiv host device world
      let prt := gsiv.elim wsPrtNone fun gsiv => gsiv.toNat + wsPrtBias
      (.ok (), { st.tagTriggering with
        workSpace := wsSetPrt host.pointerBits st.workSpace prt }, world)

def uacpiNtFindBootConfig : Option UInt32 :=
  (arb.allocation.find? fun r => r.attributes &&& arbiterRangeBootAllocated != 0 &&
    r.owner == st.owner).map fun r => r.start.toUInt32

def uacpiNtFindIrqInAlternatives (irq : UInt32) : Option Nat :=
  st.alternatives.findIdx? fun alt =>
    decide (alt.minimum ≤ irq.toUInt64) && decide (irq.toUInt64 ≤ alt.maximum)

/-- What the cursor moves on to, and the line to try there. -/
def nextPreferred : Nat × Option UInt32 :=
  match wsCursor workSpace with
  | 0 => (1, none)
  | 1 => (3, some (UInt32.ofNat (wsPrt workSpace - wsPrtBias)))
  | _ => (4, uacpiNtFindBootConfig arb st)

/-- The rounds of the walk over the preferred lines, with the work space afterwards. -/
def preferredRounds (arb : ArbiterInstance) (st : AllocationState) : Nat → Nat →
    Nat × Option (UInt32 × Nat)
  | 0, workSpace => (workSpace, none)
  | fuel + 1, workSpace =>
    if wsCursor workSpace < 4 then
      let (cursor, preferred) := nextPreferred arb st workSpace
      let found := preferred.bind fun irq =>
        (uacpiNtFindIrqInAlternatives st irq).map fun i => (irq, i)
      match found with
      | some found => (wsSetCursor workSpace cursor, some found)
      | none => preferredRounds arb st fuel (wsSetCursor workSpace cursor)
    else (workSpace, none)

def IrqWorld.rotate : IrqWorld :=
  { world with linkRotation := world.linkRotation + 1 }

/-- The walk of a routed device: its line, then its boot line, then the library's windows. -/
def routedGetNext : Bool × AllocationState × IrqWorld :=
  -- The cursor grows in each round.
  match preferredRounds arb st 4 st.workSpace with
  | (workSpace, some (irq, i)) =>
    (true, { st with
      currentMinimum := irq.toUInt64
      currentMaximum := irq.toUInt64
      currentAlternative := some i
      workSpace := workSpace }, world.rotate)
  | (workSpace, none) =>
    let (offered, st', world) := libraryGetNext arb { st with workSpace := workSpace } world
    (offered, st', if offered then world.rotate else world)

def uacpiNtIrqGetNextAllocationRange : Bool × AllocationState × IrqWorld :=
  match st.current <|> st.alternatives.head? with
  | none => libraryGetNext arb st world
  | some alt =>
    if alt.descriptor.isMessage ∨ wsPrt st.workSpace < wsPrtBias then libraryGetNext arb st world
    else routedGetNext arb st world

/-- A placed line is level triggered, unless it is latched or was forced to be edge triggered. -/
def uacpiNtNotePlacedTriggering : IrqWorld :=
  match st.current with
  | none => world
  | some alt =>
    if st.start < msiGsivBase ∧ !alt.descriptor.isLatched ∧
        !world.triggers.gsivForcedEdge st.start.toUInt32 then
      { world with triggers := world.triggers.noteLevelGsiv st.start.toUInt32 }
    else world

/-- A routed device only fits on its line. -/
def uacpiNtIrqFindSuitableRange (env : Environment) (arb : ArbiterInstance)
    (st : AllocationState) (world : IrqWorld) : Suitable IrqWorld :=
  if st.currentMinimum ≥ msiGsivBase then libraryFindSuitable env arb st world
  else if wsPrt st.workSpace ≥ wsPrtBias then
    let gsiv := UInt64.ofNat (wsPrt st.workSpace - wsPrtBias)
    if gsiv < st.currentMinimum ∨ gsiv > st.currentMaximum then ⟨false, st, world, none⟩
    else
      let st := { st with start := gsiv, last := gsiv }
      ⟨true, st, uacpiNtNotePlacedTriggering st world, none⟩
  else
    let found := libraryFindSuitable env arb st world
    if found.granted then { found with world := uacpiNtNotePlacedTriggering found.state world }
    else found

def irqOps : ArbiterOps IrqWorld :=
  { libraryOps (uacpiNtIrqUnpackRequirement host) uacpiNtIrqPackResource
      uacpiNtIrqUnpackResource (some uacpiNtIrqScoreRequirement) with
    preprocessEntry := uacpiNtIrqPreprocessEntry host
    getNextAllocationRange := uacpiNtIrqGetNextAllocationRange
    findSuitableRange := uacpiNtIrqFindSuitableRange }

end

/-- The SCI is shared with the owner of the arbiter, and the PIC has no lines between the ISA lines
and the message window. -/
def uacpiNtIrqArbiterInitialize (rtl : RtlApi) (host : IrqHost) (self : DeviceObject)
    (sciGsiv : Option UInt32) (orderingList reservedList : ArbiterOrderingList) :
    ArbiterInstance :=
  let arb := ArbiterInstance.initial .interrupt orderingList reservedList
    (some uacpiNtIrqShareableRange)
  let l := sciGsiv.elim arb.allocation fun sci => rtl.addRange' arb.allocation
    ⟨sci.toUInt64, sci.toUInt64, uacpiNtRangeLevel, true, some self⟩ false
  { arb with
    allocation :=
      if host.interruptModel = 0 then
        rtl.addRange' l ⟨isaGsivCount.toUInt64, msiGsivBase - 1, 0, false, some self⟩ false
      else l }

end UacpiNt
