import Mathlib.Algebra.Group.Nat.Defs
import Mathlib.Logic.Basic
import Mathlib.Tactic.Common

/-!
# The registers of the sleep callbacks

The HAL calls back with interrupts off, so the driver describes the fixed registers of the FADT
beforehand, by a port or by a mapping of memory, and the callbacks touch them directly.

A register whose memory cannot be mapped keeps its length and is marked absent, with the port
number zero. The 32-bit accesses test the mark. The accesses to all bytes of the GPE registers do
not, and then touch the ports from zero on.
-/

namespace UacpiNt

open List

structure AcpiGas where
  address : UInt64
  memory : Bool

inductive FadtBlock where
  | pm1aEvt
  | pm1bEvt
  | pm1aCnt
  | pm1bCnt
  | gpe0
  | gpe1
deriving DecidableEq

/-- The FADT: the extended and the legacy address of each block, the lengths, and `SMI_CMD`. -/
structure AcpiFadt where
  gas : FadtBlock → AcpiGas
  legacy : FadtBlock → UInt32
  pm1EvtLen : UInt8
  pm1CntLen : UInt8
  gpe0BlkLen : UInt8
  gpe1BlkLen : UInt8
  smiCmd : UInt32

inductive PmRegIndex where
  | pm1aStatus
  | pm1bStatus
  | pm1aEnable
  | pm1bEnable
  | pm1aControl
  | pm1bControl
  | gpe0Enable
  | gpe1Enable
  | gpe0Status
  | gpe1Status
  | smiCommand
deriving DecidableEq

structure PmReg where
  present : Bool
  mmio : Bool
  mapped : UInt64
  port : UInt16
  length : Nat

structure HwByte where
  memory : Bool
  address : Nat
deriving DecidableEq

def uacpiNtPmRegDescribe (address : UInt64) (memory : Bool) (offset length : Nat) (maps : Bool) :
    PmReg :=
  if address = 0 ∨ length = 0 then ⟨false, false, 0, 0, 0⟩
  else if memory then
    if maps then ⟨true, true, address + .ofNat offset, 0, min length 32⟩
    else ⟨false, false, 0, 0, min length 32⟩
  else ⟨true, false, 0, (address + .ofNat offset).toUInt16, min length 32⟩

def uacpiNtPmRegFromFadt (gas : AcpiGas) (legacy : UInt32) (offset length : Nat) (maps : Bool) :
    PmReg :=
  if gas.address ≠ 0 then uacpiNtPmRegDescribe gas.address gas.memory offset length maps
  else uacpiNtPmRegDescribe legacy.toUInt64 false offset length maps

namespace AcpiFadt

variable (fadt : AcpiFadt)

def length : FadtBlock → Nat
  | .pm1aEvt | .pm1bEvt => fadt.pm1EvtLen.toNat
  | .pm1aCnt | .pm1bCnt => fadt.pm1CntLen.toNat
  | .gpe0 => fadt.gpe0BlkLen.toNat
  | .gpe1 => fadt.gpe1BlkLen.toNat

/-- The block, the offset and the length of a register. Status is in the low half of a block and
enable in the high half. -/
def place : PmRegIndex → Option (FadtBlock × Nat × Nat)
  | .pm1aStatus => some (.pm1aEvt, 0, fadt.length .pm1aEvt / 2)
  | .pm1bStatus => some (.pm1bEvt, 0, fadt.length .pm1bEvt / 2)
  | .pm1aEnable => some (.pm1aEvt, fadt.length .pm1aEvt / 2, fadt.length .pm1aEvt / 2)
  | .pm1bEnable => some (.pm1bEvt, fadt.length .pm1bEvt / 2, fadt.length .pm1bEvt / 2)
  | .pm1aControl => some (.pm1aCnt, 0, fadt.length .pm1aCnt)
  | .pm1bControl => some (.pm1bCnt, 0, fadt.length .pm1bCnt)
  | .gpe0Status => some (.gpe0, 0, fadt.length .gpe0 / 2)
  | .gpe0Enable => some (.gpe0, fadt.length .gpe0 / 2, fadt.length .gpe0 / 2)
  | .gpe1Status => some (.gpe1, 0, fadt.length .gpe1 / 2)
  | .gpe1Enable => some (.gpe1, fadt.length .gpe1 / 2, fadt.length .gpe1 / 2)
  | .smiCommand => none

/-- The registers, with what `MmMapIoSpace` does for each of them. -/
def uacpiNtHalResolveSleepRegisters (maps : PmRegIndex → Bool) (which : PmRegIndex) : PmReg :=
  match fadt.place which with
  | none => uacpiNtPmRegDescribe fadt.smiCmd.toUInt64 false 0 1 (maps which)
  | some (block, offset, length) =>
    uacpiNtPmRegFromFadt (fadt.gas block) (fadt.legacy block) offset length (maps which)

def base (block : FadtBlock) : Option (Bool × UInt64) :=
  if (fadt.gas block).address ≠ 0 then
    some ((fadt.gas block).memory, (fadt.gas block).address)
  else if fadt.legacy block ≠ 0 then some (false, (fadt.legacy block).toUInt64)
  else none

/-- The blocks lie inside their address space. -/
def Inside : Prop :=
  ∀ block memory address, fadt.base block = some (memory, address) →
    address.toNat + fadt.length block ≤ if memory then 2 ^ 64 else 2 ^ 16

inductive Described : HwByte → Prop
  | block {block : FadtBlock} {memory : Bool} {address : UInt64} {i : Nat}
      (hbase : fadt.base block = some (memory, address)) (hi : i < fadt.length block) :
      Described ⟨memory, address.toNat + i⟩
  | smiCommand (h : fadt.smiCmd ≠ 0) : Described ⟨false, fadt.smiCmd.toNat⟩

end AcpiFadt

/-! ### Callbacks -/

def PmReg.bytes (reg : PmReg) : List HwByte :=
  (List.range reg.length).map fun i =>
    if reg.mmio then ⟨true, reg.mapped.toNat + i⟩ else ⟨false, reg.port.toNat + i⟩

/-- An access to a register: `UacpiNtPmRegRead` and `UacpiNtPmRegWrite`, which do nothing if it is
absent, or `UacpiNtPmRegReadBytes` and `UacpiNtPmRegWriteBytes`. -/
inductive PmTouch where
  | word (which : PmRegIndex)
  | bytes (which : PmRegIndex)

def PmTouch.touched (regs : PmRegIndex → PmReg) : PmTouch → List HwByte
  | .word which => if (regs which).present then (regs which).bytes else []
  | .bytes which => (regs which).bytes

def pm1Control : List PmTouch := [.word .pm1aControl, .word .pm1bControl]

def pm1Status : List PmTouch := [.word .pm1aStatus, .word .pm1bStatus]

def pm1Enable : List PmTouch := [.word .pm1aEnable, .word .pm1bEnable]

def uacpiNtRestoreWakeGpes : List PmTouch := [.bytes .gpe0Enable, .bytes .gpe1Enable]

def uacpiNtClearGpeStatus (which : PmRegIndex) : List PmTouch := [.bytes which, .bytes which]

/-- The wait for ACPI mode, with what each read of `SCI_EN` finds, and whether it ends without a
bug check. -/
def waitSciEn (sciEn : Nat → Bool) : Nat → Nat → List PmTouch × Bool
  | 0, index => (pm1Control, sciEn index)
  | spins + 1, index =>
    if sciEn index then (pm1Control, true)
    else (pm1Control ++ (waitSciEn sciEn spins (index + 1)).1,
      (waitSciEn sciEn spins (index + 1)).2)

inductive HalCallback where
  | refreshWakeCache
  | enableDisableGpeEvents (enable : UInt32)
  | initEnableAcpi (flags : UInt32) (sciEn : Nat → Bool)
  | gpeEnableWakeEvents

def HalCallback.touches (regs : PmRegIndex → PmReg) : HalCallback → List PmTouch
  | .refreshWakeCache => [.bytes .gpe0Enable, .bytes .gpe1Enable] ++ pm1Enable
  | .enableDisableGpeEvents enable =>
    if enable = 0 then [.word .gpe0Enable, .word .gpe1Enable]
    else [.bytes .gpe0Status, .bytes .gpe1Status] ++ pm1Status ++ uacpiNtRestoreWakeGpes
  | .initEnableAcpi flags sciEn =>
    let wait := waitSciEn sciEn 200000 1
    let legacy := !sciEn 0 && (regs .smiCommand).present
    pm1Control ++ (if legacy then .word .smiCommand :: wait.1 else []) ++
      if legacy && !wait.2 then []
      else
        pm1Status ++ pm1Status ++ pm1Enable ++
          (if flags = 0 then []
          else uacpiNtClearGpeStatus .gpe0Status ++ uacpiNtClearGpeStatus .gpe1Status ++
            uacpiNtRestoreWakeGpes) ++
          pm1Control ++ pm1Control
  | .gpeEnableWakeEvents => uacpiNtRestoreWakeGpes

def HalCallback.touched (regs : PmRegIndex → PmReg) (callback : HalCallback) : List HwByte :=
  (callback.touches regs).flatMap (PmTouch.touched regs)

def gpeRegs : List PmRegIndex := [.gpe0Status, .gpe0Enable, .gpe1Status, .gpe1Enable]

theorem bytes_notMem_waitSciEn (sciEn : Nat → Bool) (spins index : Nat) (which : PmRegIndex) :
    .bytes which ∉ (waitSciEn sciEn spins index).1 := by
  induction spins generalizing index with
  | zero => simp [waitSciEn, pm1Control]
  | succ spins ih =>
    rw [waitSciEn]
    split <;> simp [pm1Control, ih]

theorem mem_gpeRegs_of_touches {regs : PmRegIndex → PmReg} {callback : HalCallback}
    {which : PmRegIndex} (h : .bytes which ∈ callback.touches regs) : which ∈ gpeRegs := by
  cases callback with
  | refreshWakeCache | gpeEnableWakeEvents =>
    simp [HalCallback.touches, pm1Enable, uacpiNtRestoreWakeGpes] at h
    rcases h with rfl | rfl <;> decide
  | enableDisableGpeEvents enable =>
    simp only [HalCallback.touches] at h
    split at h
    · simp at h
    · simp [pm1Status, uacpiNtRestoreWakeGpes] at h
      rcases h with rfl | rfl | rfl | rfl <;> decide
  | initEnableAcpi flags sciEn =>
    simp only [HalCallback.touches] at h
    generalize hwait : waitSciEn sciEn 200000 1 = wait at h
    have hnot := bytes_notMem_waitSciEn sciEn 200000 1 which
    rw [hwait] at hnot
    split_ifs at h <;>
      simp [pm1Control, pm1Status, pm1Enable, uacpiNtClearGpeStatus, uacpiNtRestoreWakeGpes, hnot]
        at h <;>
      rcases h with rfl | rfl | rfl | rfl <;> decide

namespace AcpiFadt

variable {fadt : AcpiFadt} {maps : PmRegIndex → Bool} {which : PmRegIndex}

def Unmapped (fadt : AcpiFadt) (maps : PmRegIndex → Bool) (which : PmRegIndex) : Prop :=
  ∃ block offset length address, fadt.place which = some (block, offset, length) ∧ length ≠ 0 ∧
    fadt.base block = some (true, address) ∧ maps which = false

theorem place_le {block : FadtBlock} {offset length : Nat}
    (h : fadt.place which = some (block, offset, length)) :
    offset + length ≤ fadt.length block := by
  cases which <;> cases h <;> omega

theorem base_ne_zero {block : FadtBlock} {memory : Bool} {address : UInt64}
    (h : fadt.base block = some (memory, address)) : address ≠ 0 := by
  rw [base] at h
  split_ifs at h with hgas hleg <;> cases h
  · exact hgas
  · exact fun hzero => hleg (UInt32.toUInt64_inj.1 hzero)

theorem fromFadt_eq (block : FadtBlock) (offset length : Nat) (maps : Bool) :
    uacpiNtPmRegFromFadt (fadt.gas block) (fadt.legacy block) offset length maps =
      (fadt.base block).elim ⟨false, false, 0, 0, 0⟩ fun base =>
        uacpiNtPmRegDescribe base.2 base.1 offset length maps := by
  rw [uacpiNtPmRegFromFadt, base]
  split_ifs with hgas hleg
  · rfl
  · rfl
  · rw [uacpiNtPmRegDescribe, if_pos (.inl (by rw [not_not.1 hleg]; rfl))]
    rfl

theorem not_described_zero : ¬ fadt.Described ⟨false, 0⟩ := by
  intro h
  generalize hbyte : (⟨false, 0⟩ : HwByte) = byte at h
  have haddr := congrArg HwByte.address hbyte
  cases h with
  | block hbase hi =>
    refine base_ne_zero hbase (UInt64.toNat_inj.1 ?_)
    rw [UInt64.toNat_zero]
    simp only at haddr
    omega
  | smiCommand h => exact h (UInt32.toNat_inj.1 haddr.symm)

theorem mem_bytes_describe {address : UInt64} {memory maps : Bool} {offset length : Nat}
    {byte : HwByte} (hmap : memory = true → length ≠ 0 → maps = true)
    (hend : address.toNat + offset + length ≤ if memory then 2 ^ 64 else 2 ^ 16)
    (hbyte : byte ∈ (uacpiNtPmRegDescribe address memory offset length maps).bytes) :
    ∃ i < length, byte = ⟨memory, address.toNat + offset + i⟩ := by
  rw [uacpiNtPmRegDescribe] at hbyte
  split at hbyte
  · cases hbyte
  rename_i hprs
  have hlen : length ≠ 0 := fun h => hprs (.inr h)
  have hadd : address.toNat + offset < 2 ^ 64 →
      (address + .ofNat offset).toNat = address.toNat + offset := fun hlt => by
    rw [UInt64.toNat_add, UInt64.toNat_ofNat', Nat.mod_eq_of_lt (show offset < 2 ^ 64 by omega)]
    exact Nat.mod_eq_of_lt hlt
  cases memory with
  | true =>
    simp only [hmap rfl hlen, if_true, PmReg.bytes, mem_map, mem_range] at hbyte
    obtain ⟨i, hi, rfl⟩ := hbyte
    rw [if_pos rfl] at hend
    exact ⟨i, by omega, by rw [hadd (by omega)]⟩
  | false =>
    simp only [Bool.false_eq_true, if_false, PmReg.bytes, mem_map, mem_range] at hbyte
    obtain ⟨i, hi, rfl⟩ := hbyte
    rw [if_neg Bool.false_ne_true] at hend
    refine ⟨i, by omega, ?_⟩
    rw [UInt64.toNat_toUInt16, hadd (by omega), Nat.mod_eq_of_lt (by omega)]

theorem described_of_mem_bytes (hins : fadt.Inside) (hmap : ¬ fadt.Unmapped maps which)
    (hsmi : fadt.smiCmd ≠ 0 → fadt.Described ⟨false, fadt.smiCmd.toNat % 2 ^ 16⟩) {byte : HwByte}
    (hbyte : byte ∈ (fadt.uacpiNtHalResolveSleepRegisters maps which).bytes) :
    fadt.Described byte := by
  rw [uacpiNtHalResolveSleepRegisters] at hbyte
  cases hplace : fadt.place which with
  | none =>
    simp only [hplace, uacpiNtPmRegDescribe] at hbyte
    split at hbyte
    · cases hbyte
    rename_i hprs
    obtain rfl : byte = ⟨false, fadt.smiCmd.toNat % 2 ^ 16⟩ := by
      simpa [PmReg.bytes] using hbyte
    exact hsmi fun hzero => hprs (.inl (by rw [hzero]; rfl))
  | some place =>
    obtain ⟨block, offset, length⟩ := place
    simp only [hplace, fromFadt_eq] at hbyte
    cases hbase : fadt.base block with
    | none =>
      simp only [hbase] at hbyte
      cases hbyte
    | some base =>
      obtain ⟨memory, address⟩ := base
      have hle := place_le hplace
      have hend := hins block memory address hbase
      simp only [hbase, Option.elim_some] at hbyte
      have hmaps : memory = true → length ≠ 0 → maps which = true := by
        rintro rfl hlen
        by_contra hfalse
        exact hmap ⟨block, offset, length, address, hplace, hlen, hbase, Bool.eq_false_iff.2 hfalse⟩
      obtain ⟨i, hi, rfl⟩ := mem_bytes_describe hmaps (Nat.le_trans (by omega) hend) hbyte
      rw [Nat.add_assoc]
      exact .block hbase (by omega)

theorem bytes_of_unmapped (h : fadt.Unmapped maps which) :
    (fadt.uacpiNtHalResolveSleepRegisters maps which).present = false ∧
      ⟨false, 0⟩ ∈ (fadt.uacpiNtHalResolveSleepRegisters maps which).bytes := by
  obtain ⟨block, offset, length, address, hplace, hlen, hbase, hmaps⟩ := h
  have hne := base_ne_zero hbase
  simp only [uacpiNtHalResolveSleepRegisters, hplace, fromFadt_eq, hbase, Option.elim_some,
    uacpiNtPmRegDescribe, hne, hlen, hmaps]
  refine ⟨rfl, mem_map.2 ⟨0, mem_range.2 ?_, rfl⟩⟩
  exact Nat.lt_min.2 ⟨Nat.pos_of_ne_zero hlen, by decide⟩

theorem exists_touch (regs : PmRegIndex → PmReg) (hwhich : which ∈ gpeRegs) :
    ∃ callback : HalCallback, .bytes which ∈ callback.touches regs := by
  simp only [gpeRegs, mem_cons, not_mem_nil, or_false] at hwhich
  rcases hwhich with rfl | rfl | rfl | rfl
  all_goals
    refine ⟨.enableDisableGpeEvents 1, ?_⟩
    simp [HalCallback.touches, uacpiNtRestoreWakeGpes]

theorem exists_touch_smiCommand (hsmi : fadt.smiCmd ≠ 0) :
    ∃ callback : HalCallback, ⟨false, fadt.smiCmd.toNat % 2 ^ 16⟩ ∈
      callback.touched (fadt.uacpiNtHalResolveSleepRegisters maps) := by
  have hne : fadt.smiCmd.toUInt64 ≠ 0 := fun h => hsmi (UInt32.toUInt64_inj.1 h)
  have hreg : fadt.uacpiNtHalResolveSleepRegisters maps .smiCommand =
      ⟨true, false, 0, (fadt.smiCmd.toUInt64 + .ofNat 0).toUInt16, 1⟩ := by
    simp [uacpiNtHalResolveSleepRegisters, place, uacpiNtPmRegDescribe, hne]
  refine ⟨.initEnableAcpi 0 fun _ => false, mem_flatMap.2 ⟨.word .smiCommand, ?_, ?_⟩⟩
  · simp [HalCallback.touches, hreg]
  · simp [PmTouch.touched, hreg, PmReg.bytes]

/-- The sleep callbacks touch only bytes that the FADT describes exactly if the memory of every GPE
register can be mapped, and the port of `SMI_CMD` in 16 bits is described. -/
theorem callbacks_touch_described_iff (hinside : fadt.Inside) :
    (∀ callback : HalCallback, ∀ byte ∈ callback.touched
      (fadt.uacpiNtHalResolveSleepRegisters maps), fadt.Described byte) ↔
      (∀ which ∈ gpeRegs, ¬ fadt.Unmapped maps which) ∧
        (fadt.smiCmd ≠ 0 → fadt.Described ⟨false, fadt.smiCmd.toNat % 2 ^ 16⟩) := by
  constructor
  · intro h
    refine ⟨fun which hwhich hunmapped => ?_, fun hsmi => ?_⟩
    · obtain ⟨callback, htouch⟩ :=
        exists_touch (fadt.uacpiNtHalResolveSleepRegisters maps) hwhich
      exact not_described_zero (h callback _
        (List.mem_flatMap.2 ⟨_, htouch, (bytes_of_unmapped hunmapped).2⟩))
    · obtain ⟨callback, hbyte⟩ := exists_touch_smiCommand hsmi
      exact h callback _ hbyte
  · rintro ⟨hmapped, hsmi⟩ callback byte hbyte
    obtain ⟨touch, htouch, hbyte⟩ := List.mem_flatMap.1 hbyte
    cases touch with
    | word which =>
      rw [PmTouch.touched] at hbyte
      split at hbyte
      · rename_i hpresent
        refine described_of_mem_bytes hinside (fun hunmapped => ?_) hsmi hbyte
        rw [(bytes_of_unmapped hunmapped).1] at hpresent
        cases hpresent
      · cases hbyte
    | bytes which =>
      exact described_of_mem_bytes hinside (hmapped which (mem_gpeRegs_of_touches htouch)) hsmi
        hbyte

def memoryGpeFadt : AcpiFadt where
  gas := fun block => if block = .gpe0 then ⟨0xFED80200, true⟩ else ⟨0, false⟩
  legacy := fun _ => 0
  pm1EvtLen := 0
  pm1CntLen := 0
  gpe0BlkLen := 8
  gpe1BlkLen := 0
  smiCmd := 0

theorem inside_memoryGpeFadt : memoryGpeFadt.Inside := by
  rintro (_ | _ | _ | _ | _ | _) memory address h <;> cases h
  decide

theorem mapped_block_described :
    ⟨true, 0xFED80204⟩ ∈ HalCallback.gpeEnableWakeEvents.touched
        (memoryGpeFadt.uacpiNtHalResolveSleepRegisters fun _ => true) ∧
      memoryGpeFadt.Described ⟨true, 0xFED80204⟩ := by
  have htouch : ⟨true, 0xFED80204⟩ ∈ HalCallback.gpeEnableWakeEvents.touched
      (memoryGpeFadt.uacpiNtHalResolveSleepRegisters fun _ => true) := by decide
  refine ⟨htouch, (callbacks_touch_described_iff inside_memoryGpeFadt).2
    ⟨fun _ _ h => ?_, fun h => absurd rfl h⟩ _ _ htouch⟩
  obtain ⟨_, _, _, _, -, -, -, hmaps⟩ := h
  cases hmaps

/-- Nothing of it is mapped, and the callback before sleep writes to the ports from zero on. -/
theorem unmapped_block_ports :
    HalCallback.gpeEnableWakeEvents.touched
        (memoryGpeFadt.uacpiNtHalResolveSleepRegisters fun _ => false) =
      [⟨false, 0⟩, ⟨false, 1⟩, ⟨false, 2⟩, ⟨false, 3⟩] := by
  decide

end AcpiFadt

end UacpiNt
