import UacpiNt.ResArb.Basic

/-!
# Firmware resources as descriptors

The current and the possible resources of a device become assignments (`CM` descriptors) and
requirements (`IO` descriptors). Each resource is emitted twice: once without a place to write to,
which only counts, and once into the list that was allocated from the counts.

A memory window whose length does not fit 32 bits is emitted in the large form, with its length
in units of 256 bytes. The arbiters read the length of both forms the same way.
-/

namespace UacpiNt

/-- `uacpi_resource`, with the fields that are emitted. -/
inductive UacpiResource where
  | irq (triggering sharing : UInt8) (irqs : List UInt8)
  | extendedIrq (triggering sharing : UInt8) (irqs : List UInt32)
  | io (minimum : UInt16) (length : UInt8)
  | fixedIo (address : UInt16) (length : UInt8)
  | memory32 (minimum length : UInt32)
  | fixedMemory32 (address length : UInt32)
  | address16 (type direction : UInt8) (minimum addressLength : UInt16)
  | address32 (type direction : UInt8) (minimum addressLength : UInt32)
  | address64 (type direction : UInt8) (minimum addressLength : UInt64)
  | address64Extended (type direction : UInt8) (minimum addressLength : UInt64)
  | other
deriving DecidableEq, Repr

structure AddressWindow where
  windowType : UInt8
  direction : UInt8
  start : UInt64
  length : UInt64
deriving DecidableEq, Repr

section

variable (window : AddressWindow) (start : UInt64) (length : UInt32) (resource : UacpiResource)
  (fill : Bool)

def uacpiRangeMemory : UInt8 := 0

def uacpiRangeIo : UInt8 := 1

def uacpiProducer : UInt8 := 0

def uacpiShared : UInt8 := 1

def uacpiTriggeringEdge : UInt8 := 1

def cmResourcePortIo : UInt16 := 0x0001

def cmResourceMemoryReadWrite : UInt16 := 0

def cmResourceMemoryLarge40 : UInt16 := 0x0200

def ioResourceAlternative : UInt8 := 0x08

def cmResourceTypeDevicePrivate : UInt8 := 129

def uacpiNtGetAddressWindow : UacpiResource → Option AddressWindow
  | .address16 type direction minimum addressLength =>
    some ⟨type, direction, minimum.toUInt64, addressLength.toUInt64⟩
  | .address32 type direction minimum addressLength =>
    some ⟨type, direction, minimum.toUInt64, addressLength.toUInt64⟩
  | .address64 type direction minimum addressLength
  | .address64Extended type direction minimum addressLength =>
    some ⟨type, direction, minimum, addressLength⟩
  | _ => none

/-- `UacpiNtGetInterrupts`: how many there are, their triggering and their sharing. -/
def uacpiNtGetInterrupts : UacpiResource → Nat × UInt8 × UInt8
  | .irq triggering sharing irqs => (irqs.length, triggering, sharing)
  | .extendedIrq triggering sharing irqs => (irqs.length, triggering, sharing)
  | _ => (0, 0, 0)

def uacpiNtGetInterrupt (index : Nat) : UacpiResource → UInt32
  | .irq _ _ irqs => (irqs.getD index 0).toUInt32
  | .extendedIrq _ _ irqs => irqs.getD index 0
  | _ => 0

def interruptDisposition (sharing : UInt8) : ShareDisposition :=
  if sharing = uacpiShared then .shared else .deviceExclusive

def interruptFlags (triggering : UInt8) : UInt16 :=
  if triggering = uacpiTriggeringEdge then 1 else 0

/-! ### Assignments -/

def emitWindowCm : CmPartialResourceDescriptor :=
  if window.windowType = uacpiRangeMemory then
    if window.length ≤ 0xFFFFFFFF then
      ⟨.deviceExclusive, cmResourceMemoryReadWrite,
        .memory false window.start window.length.toUInt32⟩
    else
      -- `Memory40` has its fields where `Memory` has them.
      ⟨.deviceExclusive, cmResourceMemoryReadWrite ||| cmResourceMemoryLarge40,
        .memory true window.start (window.length >>> 8).toUInt32⟩
  else if window.windowType = uacpiRangeIo then
    ⟨.deviceExclusive, cmResourcePortIo, .port window.start window.length.toUInt32⟩
  else ⟨.deviceExclusive, 0, .busNumber window.start.toUInt32 window.length.toUInt32⟩

def uacpiNtEmitCm : Nat × List CmPartialResourceDescriptor :=
  match resource with
  | .irq .. | .extendedIrq .. =>
    let (count, triggering, sharing) := uacpiNtGetInterrupts resource
    if !fill then (count, [])
    else (count, (List.range count).map fun i =>
      ⟨interruptDisposition sharing, interruptFlags triggering,
        .interrupt (uacpiNtGetInterrupt i resource) (uacpiNtGetInterrupt i resource)
          0xFFFFFFFFFFFFFFFF⟩)
  | .io minimum length =>
    if !fill then (1, [])
    else (1, [⟨.deviceExclusive, cmResourcePortIo, .port minimum.toUInt64 length.toUInt32⟩])
  | .fixedIo address length =>
    if !fill then (1, [])
    else (1, [⟨.deviceExclusive, cmResourcePortIo, .port address.toUInt64 length.toUInt32⟩])
  | .memory32 minimum length =>
    if !fill then (1, [])
    else (1, [⟨.deviceExclusive, cmResourceMemoryReadWrite,
      .memory false minimum.toUInt64 length⟩])
  | .fixedMemory32 address length =>
    if !fill then (1, [])
    else (1, [⟨.deviceExclusive, cmResourceMemoryReadWrite,
      .memory false address.toUInt64 length⟩])
  | .other => (0, [])
  | _ =>
    match uacpiNtGetAddressWindow resource with
    | none => (0, [])
    | some window =>
      if window.length = 0 then (0, [])
      else if !fill then (1, [])
      else (1, [emitWindowCm window])

/-! ### Requirements -/

def emitWindowIo : IoResourceDescriptor :=
  if window.windowType = uacpiRangeMemory ∧ window.length ≤ 0xFFFFFFFF then
    ⟨0, .deviceExclusive, cmResourceMemoryReadWrite,
      .memory false window.start (window.start + window.length - 1) window.length.toUInt32 1⟩
  else if window.windowType = uacpiRangeMemory then
    ⟨0, .deviceExclusive, cmResourceMemoryReadWrite ||| cmResourceMemoryLarge40,
      .memory true window.start (window.start + window.length - 1)
        (window.length >>> 8).toUInt32 1⟩
  else if window.windowType = uacpiRangeIo then
    ⟨0, .deviceExclusive, cmResourcePortIo,
      .port window.start (window.start + window.length - 1) window.length.toUInt32 1⟩
  else
    ⟨0, .deviceExclusive, 0,
      .busNumber window.start.toUInt32 (window.start + window.length - 1).toUInt32
        window.length.toUInt32⟩

def producerMarker : IoResourceDescriptor :=
  ⟨0, .undetermined, 1, .other cmResourceTypeDevicePrivate⟩

def emitPortIo : IoResourceDescriptor :=
  ⟨0, .deviceExclusive, cmResourcePortIo, .port start (start + length.toUInt64 - 1) length 1⟩

def emitMemoryIo : IoResourceDescriptor :=
  ⟨0, .deviceExclusive, cmResourceMemoryReadWrite,
    .memory false start (start + length.toUInt64 - 1) length 1⟩

def uacpiNtEmitIo : Nat × List IoResourceDescriptor :=
  match resource with
  | .irq .. | .extendedIrq .. =>
    let (count, triggering, sharing) := uacpiNtGetInterrupts resource
    if !fill then (count, [])
    else (count, (List.range count).map fun i =>
      ⟨if i = 0 then 0 else ioResourceAlternative, interruptDisposition sharing,
        interruptFlags triggering,
        .interrupt (uacpiNtGetInterrupt i resource) (uacpiNtGetInterrupt i resource) 0⟩)
  | .io minimum length =>
    if !fill then (1, []) else (1, [emitPortIo minimum.toUInt64 length.toUInt32])
  | .fixedIo address length =>
    if !fill then (1, []) else (1, [emitPortIo address.toUInt64 length.toUInt32])
  | .memory32 minimum length =>
    if !fill then (1, []) else (1, [emitMemoryIo minimum.toUInt64 length])
  | .fixedMemory32 address length =>
    if !fill then (1, []) else (1, [emitMemoryIo address.toUInt64 length])
  | .other => (0, [])
  | _ =>
    match uacpiNtGetAddressWindow resource with
    | none => (0, [])
    | some window =>
      if window.length = 0 then (0, [])
      else
        let count := if window.direction = uacpiProducer then 2 else 1
        if !fill then (count, [])
        else (count, emitWindowIo window :: (if count = 2 then [producerMarker] else []))

end

/-! ### Counting and writing -/

section

variable {resource : UacpiResource} {window : AddressWindow}

section

variable (hwindow : uacpiNtGetAddressWindow resource = some window)

include hwindow

theorem emitCm_window (fill : Bool) : uacpiNtEmitCm resource fill =
      if window.length = 0 then (0, [])
      else if !fill then (1, [])
      else (1, [emitWindowCm window]) := by
  cases resource <;> cases hwindow <;> rfl

theorem emitIo_window (fill : Bool) : uacpiNtEmitIo resource fill =
      if window.length = 0 then (0, [])
      else
        let count := if window.direction = uacpiProducer then 2 else 1
        if !fill then (count, [])
        else (count, emitWindowIo window :: (if count = 2 then [producerMarker] else [])) := by
  cases resource <;> cases hwindow <;> rfl

theorem emitCm_of_window (hlen : window.length ≠ 0) :
    uacpiNtEmitCm resource true = (1, [emitWindowCm window]) := by
  rw [emitCm_window hwindow, if_neg hlen]
  rfl

theorem emitIo_of_window (hlen : window.length ≠ 0) :
    ∃ count marker, uacpiNtEmitIo resource true = (count, emitWindowIo window :: marker) := by
  rw [emitIo_window hwindow, if_neg hlen]
  exact ⟨_, _, rfl⟩

end

end

theorem emit_count (resource : UacpiResource) (fill : Bool) :
    (uacpiNtEmitCm resource fill).1 = (uacpiNtEmitCm resource true).2.length ∧
      (uacpiNtEmitIo resource fill).1 = (uacpiNtEmitIo resource true).2.length := by
  cases hwindow : uacpiNtGetAddressWindow resource with
  | some window =>
    rw [emitCm_window hwindow, emitCm_window hwindow, emitIo_window hwindow, emitIo_window hwindow]
    constructor
    · split <;> cases fill <;> rfl
    · by_cases hprod : window.direction = uacpiProducer <;> split <;> cases fill <;>
        simp [hprod]
  | none =>
    cases resource with
    | irq | extendedIrq =>
      constructor <;> cases fill <;> exact ((List.length_map _).trans List.length_range).symm
    | io | fixedIo | memory32 | fixedMemory32 => constructor <;> cases fill <;> rfl
    | address16 | address32 | address64 | address64Extended => cases hwindow
    | other => exact ⟨rfl, rfl⟩

/-! ### Memory windows -/

def codedLength (length : UInt64) : UInt32 :=
  if length ≤ 0xFFFFFFFF then length.toUInt32 else (length >>> 8).toUInt32

theorem codedLength_eq_iff (length : UInt64) :
    (codedLength length).toUInt64 = length ↔ length.toNat < 2 ^ 32 := by
  have hmax : (0xFFFFFFFF : UInt64).toNat = 2 ^ 32 - 1 := rfl
  constructor
  · intro h
    rw [← h]
    exact (codedLength length).toNat_lt
  intro h
  rw [codedLength, if_pos (by rw [UInt64.le_iff_toNat_le]; omega), ← UInt64.toNat_inj,
    UInt32.toNat_toUInt64, UInt64.toNat_toUInt32]
  omega

section

variable {window : AddressWindow}

theorem unpackResource_emitWindowCm (hmem : window.windowType = uacpiRangeMemory) :
    uacpiNtResUnpackResource (emitWindowCm window) =
      .ok (window.start, (codedLength window.length).toUInt64) := by
  rw [emitWindowCm, if_pos hmem, codedLength]
  split <;> rfl

theorem unpackRequirement_emitWindowIo (hmem : window.windowType = uacpiRangeMemory) :
    uacpiNtResUnpackRequirement (emitWindowIo window) =
      .ok ⟨window.start, window.start + window.length - 1,
        (codedLength window.length).toUInt64, 1⟩ := by
  rw [emitWindowIo, codedLength]
  by_cases hsmall : window.length ≤ 0xFFFFFFFF
  · rw [if_pos ⟨hmem, hsmall⟩, if_pos hsmall]
    rfl
  · rw [if_neg fun h => hsmall h.2, if_pos hmem, if_neg hsmall]
    rfl

theorem toNat_window_last (hlen : 1 ≤ window.length.toNat)
    (hend : window.start.toNat + window.length.toNat ≤ 2 ^ 64) :
    (window.start + window.length - 1).toNat = window.start.toNat + window.length.toNat - 1 := by
  rw [UInt64.toNat_sub, UInt64.toNat_add, UInt64.toNat_one]
  omega

end

/-- A memory window keeps its start and its length through both descriptors and their decoding
exactly if its length fits 32 bits. -/
theorem memory_window_survives_iff {resource : UacpiResource} {window : AddressWindow}
    (hwindow : uacpiNtGetAddressWindow resource = some window)
    (hmemory : window.windowType = uacpiRangeMemory) (hlength : 1 ≤ window.length.toNat)
    (hend : window.start.toNat + window.length.toNat ≤ 2 ^ 64) :
    ((∃ cm, uacpiNtEmitCm resource true = (1, [cm]) ∧
        uacpiNtResUnpackResource cm = .ok (window.start, window.length)) ∧
      ∃ count io marker requirement alternative,
        uacpiNtEmitIo resource true = (count, io :: marker) ∧
        uacpiNtResUnpackRequirement io = .ok requirement ∧
        requirement.minimum = window.start ∧
        requirement.maximum.toNat = window.start.toNat + window.length.toNat - 1 ∧
        requirement.length = window.length ∧
        arbpBuildAlternative memoryOps io = .ok alternative ∧ alternative.fixed = true) ↔
      window.length.toNat < 2 ^ 32 := by
  have hne : window.length ≠ 0 := by
    rintro h
    rw [h] at hlength
    exact absurd hlength (by decide)
  have hcm := emitCm_of_window hwindow hne
  obtain ⟨count, marker, hio⟩ := emitIo_of_window hwindow hne
  have hcmUnpack := unpackResource_emitWindowCm hmemory
  have hioUnpack := unpackRequirement_emitWindowIo hmemory
  rw [← codedLength_eq_iff]
  constructor
  · rintro ⟨⟨cm, hemit, hunpack⟩, -⟩
    rw [hcm] at hemit
    cases hemit
    rw [hcmUnpack] at hunpack
    exact (Prod.mk.inj (Except.ok.inj hunpack)).2
  · intro h
    rw [h] at hcmUnpack hioUnpack
    refine ⟨⟨_, hcm, hcmUnpack⟩, count, _, marker, _, _, hio, hioUnpack, rfl,
      toNat_window_last hlength hend, rfl, congrArg (Except.map _) hioUnpack, ?_⟩
    have hspan : window.start + window.length - 1 - window.start + 1 = window.length := by
      grind
    exact beq_iff_eq.mpr hspan

theorem page_window_survives :
    ((∃ cm, uacpiNtEmitCm (.address64 0 0 0xFED00000 0x1000) true = (1, [cm]) ∧
        uacpiNtResUnpackResource cm = .ok (0xFED00000, 0x1000)) ∧
      ∃ count io marker requirement alternative,
        uacpiNtEmitIo (.address64 0 0 0xFED00000 0x1000) true = (count, io :: marker) ∧
        uacpiNtResUnpackRequirement io = .ok requirement ∧
        requirement.minimum = 0xFED00000 ∧ requirement.maximum.toNat = 0xFED00FFF ∧
        requirement.length = 0x1000 ∧
        arbpBuildAlternative memoryOps io = .ok alternative ∧ alternative.fixed = true) :=
  (memory_window_survives_iff (show uacpiNtGetAddressWindow (.address64 0 0 0xFED00000 0x1000) =
    some ⟨0, 0, 0xFED00000, 0x1000⟩ from rfl) rfl (by decide) (by decide)).mpr (by decide)

/-- A window of 4 GiB is read back with a length of 16 MiB. -/
theorem large_window_shrinks :
    ∃ cm io marker, uacpiNtEmitCm (.address64 0 0 0x100000000 0x100000000) true = (1, [cm]) ∧
      uacpiNtResUnpackResource cm = .ok (0x100000000, 0x1000000) ∧
      uacpiNtEmitIo (.address64 0 0 0x100000000 0x100000000) true = (2, io :: marker) ∧
      uacpiNtResUnpackRequirement io = .ok ⟨0x100000000, 0x1FFFFFFFF, 0x1000000, 1⟩ :=
  ⟨_, _, _, rfl, rfl, rfl, rfl⟩

end UacpiNt
