import Mathlib.Algebra.Group.Nat.Defs
import Mathlib.Logic.Function.Basic
import UacpiNt.Ec.Transactions

/-!
# The address space of the embedded controller

A region access reads or writes byte after byte, each in a transaction of its own. The controller
takes its time for each byte that is written to its ports, but takes it and answers it before the
driver stops waiting.

The end of the space is tested for each byte when its turn comes, so a write across the end fails
after it has written the bytes before the end.
-/

namespace UacpiNt

open UInt64

/-- A controller that answers: its bytes, the byte in its input buffer with the status reads that
still find it there, and the status reads it takes for each byte that will be written to it. -/
structure EcDevice where
  memory : UInt8 → UInt8
  input : Option (EcPort × UInt8 × Fin 1001)
  expects : EcExpect
  address : UInt8
  output : Option UInt8
  pace : Nat → Fin 1001
  written : Nat

namespace EcDevice

section

variable (s : EcDevice) (offset : UInt64) (byteWidth : UInt8) (value : UInt64) (address : UInt8)

def accept : EcDevice :=
  match s.input with
  | none => s
  | some (.control, command, _) =>
    { s with
      input := none
      expects := if command = ecCommandRead then .readAddress
        else if command = ecCommandWrite then .writeAddress else .nothing }
  | some (.data, byte, _) =>
    match s.expects with
    | .nothing => { s with input := none }
    | .readAddress =>
      { s with input := none, expects := .nothing, output := some (s.memory byte) }
    | .writeAddress => { s with input := none, expects := .writeValue, address := byte }
    | .writeValue =>
      { s with
        input := none
        expects := .nothing
        memory := Function.update s.memory s.address byte }

/-- What goes on in the controller until its status is read. -/
def tick : EcDevice :=
  match s.input with
  | some (port, byte, ⟨busy + 1, h⟩) =>
    { s with input := some (port, byte, ⟨busy, Nat.lt_of_succ_lt h⟩) }
  | _ => s.accept

def status : UInt8 :=
  (if s.input.isSome then 0x02 else 0) ||| (if s.output.isSome then 0x01 else 0)

def writePort (port : EcPort) (byte : UInt8) : EcDevice :=
  { s with input := some (port, byte, s.pace s.written), written := s.written + 1 }

/-- The rounds of `UacpiNtEcWaitStatus` before it times out. -/
def waitStatus (mask expected : UInt8) : Nat → EcDevice → Bool × EcDevice
  | 0, s => (s.tick.status &&& mask = expected, s.tick)
  | rounds + 1, s =>
    if s.tick.status &&& mask = expected then (true, s.tick)
    else waitStatus mask expected rounds s.tick

def uacpiNtEcWaitInputEmpty : Bool × EcDevice := waitStatus 0x02 0 1000 s

def uacpiNtEcWaitOutputFull : Bool × EcDevice := waitStatus 0x01 0x01 1000 s

def uacpiNtEcReadByte : Option UInt8 × EcDevice :=
  match s.uacpiNtEcWaitInputEmpty with
  | (false, s) => (none, s)
  | (true, s) =>
    match (s.writePort .control ecCommandRead).uacpiNtEcWaitInputEmpty with
    | (false, s) => (none, s)
    | (true, s) =>
      match (s.writePort .data address).uacpiNtEcWaitOutputFull with
      | (false, s) => (none, s)
      | (true, s) => (some (s.output.getD 0), { s with output := none })

def uacpiNtEcWriteByte (value : UInt8) : Bool × EcDevice :=
  match s.uacpiNtEcWaitInputEmpty with
  | (false, s) => (false, s)
  | (true, s) =>
    match (s.writePort .control ecCommandWrite).uacpiNtEcWaitInputEmpty with
    | (false, s) => (false, s)
    | (true, s) =>
      match (s.writePort .data address).uacpiNtEcWaitInputEmpty with
      | (false, s) => (false, s)
      | (true, s) => (true, s.writePort .data value)

/-- The rounds of `UacpiNtEcRegionRead` from an index on, with `Data->value`. -/
def regionReadFrom (offset : UInt64) : Nat → Nat → UInt64 → EcDevice → Bool × UInt64 × EcDevice
  | 0, _, value, s => (true, value, s)
  | left + 1, index, value, s =>
    if 256 ≤ offset + .ofNat index then (false, value, s)
    else
      match s.uacpiNtEcReadByte (offset + .ofNat index).toUInt8 with
      | (none, s) => (false, value, s)
      | (some byte, s) =>
        regionReadFrom offset left (index + 1) (value ||| byte.toUInt64 <<< .ofNat (index * 8)) s

def byteAt (index : Nat) : UInt8 := (value >>> .ofNat (index * 8)).toUInt8

def regionWriteFrom (offset value : UInt64) : Nat → Nat → EcDevice → Bool × EcDevice
  | 0, _, s => (true, s)
  | left + 1, index, s =>
    if 256 ≤ offset + .ofNat index then (false, s)
    else
      match s.uacpiNtEcWriteByte (offset + .ofNat index).toUInt8 (byteAt value index) with
      | (false, s) => (false, s)
      | (true, s) => regionWriteFrom offset value left (index + 1) s

def uacpiNtEcRegionRead : Bool × UInt64 × EcDevice :=
  regionReadFrom offset (if byteWidth = 0 then 1 else byteWidth).toNat 0 0 s

def uacpiNtEcRegionWrite : Bool × EcDevice :=
  regionWriteFrom offset value (if byteWidth = 0 then 1 else byteWidth).toNat 0 s

/-! ### Waiting -/

def contents : UInt8 → UInt8 := s.accept.memory

def Quiet : Prop := s.accept.output = none

theorem accept_input : s.accept.input = none := by
  unfold accept
  split
  · assumption
  · rfl
  · split <;> rfl

@[simp] theorem status_and_two : s.status &&& 0x02 = 0 ↔ s.input = none := by
  unfold status
  cases s.input <;> cases s.output <;> simp <;> decide

@[simp] theorem status_and_one : s.status &&& 0x01 = 0x01 ↔ s.output.isSome = true := by
  unfold status
  cases s.input <;> cases s.output <;> simp <;> decide

theorem waitStatus_eq {mask expected : UInt8} {s : EcDevice} {port : EcPort} {byte : UInt8}
    {busy rounds : Nat} {hlt : busy < 1001} (hinp : s.input = some (port, byte, ⟨busy, hlt⟩))
    (hbusy : busy ≤ rounds) (hbef : ¬ s.status &&& mask = expected)
    (hafter : s.accept.status &&& mask = expected) :
    waitStatus mask expected rounds s = (true, s.accept) := by
  induction busy generalizing s rounds with
  | zero =>
    have htick : s.tick = s.accept := by simp [tick, hinp]
    cases rounds <;> simp [waitStatus, htick, hafter]
  | succ busy ih =>
    have htick : s.tick =
        { s with input := some (port, byte, ⟨busy, Nat.lt_of_succ_lt hlt⟩) } := by
      simp [tick, hinp]
    have hacce : s.tick.accept = s.accept := by
      rw [htick]
      cases port <;> simp [accept, hinp]
    have hstat : s.tick.status = s.status := by simp [htick, status, hinp]
    cases rounds with
    | zero => cases hbusy
    | succ rounds =>
      rw [← hstat] at hbef
      rw [← hacce] at hafter
      rw [waitStatus, if_neg hbef,
        ih (congrArg input htick) (Nat.le_of_succ_le_succ hbusy) hbef hafter, hacce]

theorem waitInputEmpty_eq : s.uacpiNtEcWaitInputEmpty = (true, s.accept) := by
  have hafter : s.accept.status &&& 0x02 = 0 := s.accept.status_and_two.2 s.accept_input
  cases hinp : s.input with
  | none =>
    have htick : s.tick = s.accept := by simp [tick, hinp]
    rw [uacpiNtEcWaitInputEmpty, waitStatus, htick, if_pos hafter]
  | some pending =>
    exact waitStatus_eq hinp (Nat.le_of_lt_succ pending.2.2.isLt) (by simp [hinp]) hafter

end

theorem waitOutputFull_eq {s : EcDevice} (hnone : s.output = none)
    (hsome : s.accept.output.isSome = true) : s.uacpiNtEcWaitOutputFull = (true, s.accept) := by
  cases hinp : s.input with
  | none => simp [accept, hinp, hnone] at hsome
  | some pending =>
    exact waitStatus_eq hinp (Nat.le_of_lt_succ pending.2.2.isLt) (by simp [hnone])
      (s.accept.status_and_one.2 hsome)

/-! ### Bytes -/

theorem writeByte_spec {s : EcDevice} (hs : s.Quiet) (address value : UInt8) :
    ∃ t, s.uacpiNtEcWriteByte address value = (true, t) ∧ t.Quiet ∧
      t.contents = Function.update s.contents address value := by
  simp only [uacpiNtEcWriteByte, waitInputEmpty_eq]
  exact ⟨_, rfl, hs, rfl⟩

theorem readByte_spec {s : EcDevice} (hs : s.Quiet) (address : UInt8) :
    ∃ t, s.uacpiNtEcReadByte address = (some (s.contents address), t) ∧ t.Quiet ∧
      t.contents = s.contents := by
  have hfull := waitOutputFull_eq
    (s := (s.accept.writePort .control ecCommandRead).accept.writePort .data address) hs rfl
  simp only [uacpiNtEcReadByte, waitInputEmpty_eq, hfull]
  exact ⟨_, rfl, rfl, rfl⟩

/-! ### Bytes as transactions -/

/-- The transactions are where the controller is once it has taken the last byte written to it. -/
structure Shows (s : EcDevice) (t : EcSystem) : Prop where
  stage : t.stage = .idle
  input : t.input = none
  expects : t.expects = s.accept.expects
  owed : t.owed = []
  output : t.output = none

open EcSystem Machine

/-- `UacpiNtEcWriteByte` is a run of the transactions. -/
theorem Shows.writeByte {s : EcDevice} {t : EcSystem} (h : s.Shows t) (address value : UInt8) :
    ∃ t', exec step [.writeByte address value, .poll, .accept, .poll, .accept, .poll, .accept] t =
        some t' ∧ (s.uacpiNtEcWriteByte address value).2.Shows t' ∧ t'.reads = t.reads := by
  simp only [uacpiNtEcWriteByte, waitInputEmpty_eq]
  refine ⟨{ t with expects := .nothing, elapsed := 0, transactions := t.transactions + 1 }, ?_,
    ⟨h.stage, h.input, rfl, h.owed, h.output⟩, rfl⟩
  simp [exec, EcSystem.step, begin, poll, EcStage.awaits, uacpiNtEcWaitStatus, inputEmpty_iff,
    advance, send, acceptByte, ecCommandRead, ecCommandWrite, h.stage, h.input]

/-- `UacpiNtEcReadByte` is a run of the transactions, and returns what the read takes. -/
theorem Shows.readByte {s : EcDevice} {t : EcSystem} (h : s.Shows t) (hs : s.Quiet)
    (address : UInt8) :
    ∃ t', exec step [.readByte address, .poll, .accept, .poll, .accept,
        .answer (s.contents address), .poll] t = some t' ∧
      (s.uacpiNtEcReadByte address).2.Shows t' ∧ t'.reads = t.reads ++
        [⟨t.transactions + 1, address, t.transactions + 1, s.contents address⟩] := by
  have hfull := waitOutputFull_eq
    (s := (s.accept.writePort .control ecCommandRead).accept.writePort .data address) hs rfl
  simp only [uacpiNtEcReadByte, waitInputEmpty_eq, hfull]
  refine ⟨{ t with
      expects := .nothing
      elapsed := 0
      transactions := t.transactions + 1
      reads := t.reads ++ [_] }, ?_, ⟨h.stage, h.input, rfl, h.owed, h.output⟩, rfl⟩
  simp [exec, EcSystem.step, begin, poll, EcStage.awaits, uacpiNtEcWaitStatus, inputEmpty_iff,
    outputFull_iff, advance, send, acceptByte, h.stage, h.input, h.owed, h.output]

/-! ### Accesses -/

section

variable {offset value : UInt64} {left index : Nat} {s : EcDevice}

theorem toNat_offset (h : offset.toNat + index ≤ 256) :
    (offset + .ofNat index).toNat = offset.toNat + index := by
  rw [UInt64.toNat_add, toNat_ofNat']
  omega

/-- The bytes before the end of the space are written, and the write succeeds if these are all. -/
theorem regionWriteFrom_spec (hs : s.Quiet) (hidx : offset.toNat + index ≤ 256) :
    ∃ t, regionWriteFrom offset value left index s =
        (decide (offset.toNat + index + left ≤ 256), t) ∧ t.Quiet ∧ ∀ a : UInt8, t.contents a =
        if offset.toNat + index ≤ a.toNat ∧ a.toNat < offset.toNat + index + left then
          byteAt value (a.toNat - offset.toNat)
        else s.contents a := by
  induction left generalizing index s with
  | zero =>
    refine ⟨s, by simp [regionWriteFrom, hidx], hs, fun a => ?_⟩
    rw [if_neg (by omega)]
  | succ left ih =>
    have hofs := toNat_offset hidx
    rw [regionWriteFrom]
    simp only [le_iff_toNat_le]
    split
    case isTrue hend =>
      rw [show (256 : UInt64).toNat = 256 from rfl] at hend
      refine ⟨s, by simp; omega, hs, fun a => ?_⟩
      rw [if_neg (by have := a.toNat_lt; omega)]
    case isFalse hend =>
      rw [show (256 : UInt64).toNat = 256 from rfl] at hend
      obtain ⟨t, hwrite, ht, hcont⟩ :=
        writeByte_spec hs (offset + .ofNat index).toUInt8 (byteAt value index)
      obtain ⟨u, hrest, hu, hafter⟩ := ih ht (show offset.toNat + (index + 1) ≤ 256 by omega)
      rw [hwrite]
      refine ⟨u, hrest.trans (by congr 2; simp; omega), hu, fun a => ?_⟩
      have hadd : a = (offset + .ofNat index).toUInt8 ↔ a.toNat = offset.toNat + index := by
        rw [← UInt8.toNat_inj, toNat_toUInt8, hofs, Nat.mod_eq_of_lt (by omega)]
      rw [hafter, hcont, Function.update_apply]
      simp only [hadd]
      by_cases ha : a.toNat = offset.toNat + index
      · rw [if_neg (by omega), if_pos ha, if_pos (by omega), ha, Nat.add_sub_cancel_left]
      · rw [if_neg ha]
        exact if_congr (by omega) rfl rfl

/-- The bytes that are read before an index and those read from there on make up the value. -/
theorem toNat_or_byteAt {acc : UInt64} (hidx : index < 8)
    (hacc : acc.toNat = value.toNat % 2 ^ (8 * index)) :
    (acc ||| (byteAt value index).toUInt64 <<< .ofNat (index * 8)).toNat =
      value.toNat % 2 ^ (8 * (index + 1)) := by
  have hshift : (ofNat (index * 8)).toNat % 64 = 8 * index := by
    rw [toNat_ofNat']
    omega
  have hbyte : (byteAt value index).toNat = value.toNat / 2 ^ (8 * index) % 2 ^ 8 := by
    rw [byteAt, toNat_toUInt8, UInt64.toNat_shiftRight, hshift, Nat.shiftRight_eq_div_pow]
  have hfits : (byteAt value index).toNat <<< (8 * index) < 2 ^ 64 := by
    rw [Nat.shiftLeft_eq]
    calc (byteAt value index).toNat * 2 ^ (8 * index)
      _ < 2 ^ 8 * 2 ^ (8 * index) :=
        Nat.mul_lt_mul_of_pos_right (byteAt value index).toNat_lt (Nat.two_pow_pos _)
      _ = 2 ^ (8 + 8 * index) := (Nat.pow_add 2 8 _).symm
      _ ≤ 2 ^ 64 := Nat.pow_le_pow_right (by decide) (by omega)
  rw [UInt64.toNat_or, UInt64.toNat_shiftLeft, hshift, UInt8.toNat_toUInt64,
    Nat.mod_eq_of_lt hfits, Nat.or_comm, hacc,
    ← Nat.shiftLeft_add_eq_or_of_lt (Nat.mod_lt _ (Nat.two_pow_pos _)), Nat.mul_succ, Nat.pow_add,
    Nat.mod_mul, hbyte, Nat.shiftLeft_eq, Nat.mul_comm, Nat.add_comm]

theorem regionReadFrom_spec {acc : UInt64} (hs : s.Quiet) (hend : offset.toNat + index + left ≤ 256)
    (hwd : index + left ≤ 8) (hacc : acc.toNat = value.toNat % 2 ^ (8 * index))
    (hbs : ∀ a : UInt8, offset.toNat + index ≤ a.toNat → a.toNat < offset.toNat + index + left →
      s.contents a = byteAt value (a.toNat - offset.toNat)) :
    ∃ read t, regionReadFrom offset left index acc s = (true, read, t) ∧
      read.toNat = value.toNat % 2 ^ (8 * (index + left)) ∧ t.contents = s.contents := by
  induction left generalizing index acc s with
  | zero => exact ⟨acc, s, rfl, hacc, rfl⟩
  | succ left ih =>
    have hofs := toNat_offset (show offset.toNat + index ≤ 256 by omega)
    have hadd : (offset + .ofNat index).toUInt8.toNat = offset.toNat + index := by
      rw [toNat_toUInt8, hofs, Nat.mod_eq_of_lt (by omega)]
    obtain ⟨t, hread, ht, hcont⟩ := readByte_spec hs (offset + .ofNat index).toUInt8
    have hbyte := hbs _ (Nat.le_of_eq hadd.symm) (by omega)
    rw [hadd, Nat.add_sub_cancel_left] at hbyte
    rw [hbyte] at hread
    obtain ⟨read, u, hrest, hv, hsame⟩ := ih ht (by omega) (by omega)
      (toNat_or_byteAt (by omega) hacc) fun a hle hlt =>
        hcont ▸ hbs a (by omega) (by omega)
    refine ⟨read, u, ?_, hv.trans (by congr 3; omega), hsame.trans hcont⟩
    rw [regionReadFrom, if_neg, hread]
    · exact hrest
    · rw [le_iff_toNat_le, show (256 : UInt64).toNat = 256 from rfl]
      omega

theorem regionWriteFrom_past (hs : s.Quiet) (hleft : left ≠ 0) (hend : 256 < offset.toNat + left) :
    ∃ t, regionWriteFrom offset value left 0 s = (false, t) ∧ ∀ a : UInt8, t.contents a =
        if offset.toNat ≤ a.toNat then byteAt value (a.toNat - offset.toNat) else s.contents a := by
  by_cases hlow : offset.toNat + 0 ≤ 256
  · obtain ⟨t, hwrite, -, hcont⟩ := regionWriteFrom_spec hs hlow
    refine ⟨t, hwrite.trans (by simp; omega), fun a => ?_⟩
    rw [hcont]
    exact if_congr (by have := a.toNat_lt; omega) rfl rfl
  · obtain ⟨left, rfl⟩ := Nat.exists_eq_succ_of_ne_zero hleft
    refine ⟨s, ?_, fun a => ?_⟩
    · rw [regionWriteFrom, if_pos]
      rw [le_iff_toNat_le, show (256 : UInt64).toNat = 256 from rfl,
        show offset + .ofNat 0 = offset from UInt64.add_zero offset]
      omega
    · rw [if_neg (by have := a.toNat_lt; omega)]

/-- With a controller that answers, an access inside the space is read back as it was written and
leaves the other bytes alone. A write that ends past the space fails, and leaves the bytes alone
exactly if those before the end already have the values it writes. -/
theorem region_access_iff {width : UInt8} (hs : s.Quiet)
    (hwidth : 1 ≤ width.toNat ∧ width.toNat ≤ 8) :
    ((offset.toNat + width.toNat ≤ 256 →
        ∃ t read u, s.uacpiNtEcRegionWrite offset width value = (true, t) ∧
          t.uacpiNtEcRegionRead offset width = (true, read, u) ∧
          read.toNat = value.toNat % 2 ^ (8 * width.toNat) ∧
          ∀ a : UInt8, ¬ (offset.toNat ≤ a.toNat ∧ a.toNat < offset.toNat + width.toNat) →
            u.contents a = s.contents a) ∧
      (256 < offset.toNat + width.toNat →
        ∃ t, s.uacpiNtEcRegionWrite offset width value = (false, t) ∧
          t.contents = s.contents)) ↔
      (256 < offset.toNat + width.toNat → ∀ a : UInt8, offset.toNat ≤ a.toNat →
        s.contents a = byteAt value (a.toNat - offset.toNat)) := by
  have hne : width ≠ 0 := by
    rintro rfl
    exact absurd hwidth.1 (by decide)
  rw [uacpiNtEcRegionWrite]
  simp only [uacpiNtEcRegionRead, if_neg hne]
  rcases Nat.lt_or_ge 256 (offset.toNat + width.toNat) with hpast | hin
  · obtain ⟨t, hwrite, hcontents⟩ := regionWriteFrom_past hs (by omega) hpast
    rw [hwrite]
    constructor
    · rintro ⟨-, h⟩ - a ha
      obtain ⟨_, heq, hsame⟩ := h hpast
      cases heq
      rw [← hsame, hcontents, if_pos ha]
    · refine fun h => ⟨fun hin => absurd hpast (by omega), fun _ => ⟨t, rfl, funext fun a => ?_⟩⟩
      rw [hcontents]
      split
      · exact (h hpast a ‹_›).symm
      · rfl
  · refine iff_of_true ⟨fun _ => ?_, fun h => absurd hin (by omega)⟩ fun h => absurd hin (by omega)
    obtain ⟨t, hwrite, ht, hcontents⟩ := regionWriteFrom_spec hs
      (show offset.toNat + 0 ≤ 256 by omega)
    obtain ⟨read, u, hread, hvalue, hsame⟩ := regionReadFrom_spec ht
      (show offset.toNat + 0 + width.toNat ≤ 256 from hin) (by omega)
      (show (0 : UInt64).toNat = value.toNat % 2 ^ (8 * 0) from (Nat.mod_one _).symm)
      fun a hle hlt => by rw [hcontents, if_pos ⟨hle, hlt⟩]
    refine ⟨t, read, u, hwrite.trans (by simp [hin]), hread, hvalue.trans (by simp), fun a ha => ?_⟩
    rw [hsame, hcontents]
    exact if_neg ha

end

def cleared : EcDevice where
  memory := fun _ => 0
  input := none
  expects := .nothing
  address := 0
  output := none
  pace := fun _ => 0
  written := 0

theorem last_word_read_back :
    ∃ t read u, cleared.uacpiNtEcRegionWrite 254 2 0x1234 = (true, t) ∧
      t.uacpiNtEcRegionRead 254 2 = (true, read, u) ∧ read.toNat = 0x1234 % 2 ^ 16 ∧
      ∀ a : UInt8, ¬ (254 ≤ a.toNat ∧ a.toNat < 254 + 2) → u.contents a = cleared.contents a :=
  ((region_access_iff (show cleared.Quiet from rfl) (by decide)).2 fun h =>
    absurd h (by decide)).1 (by decide)

/-- A word at the last byte of the space: the write fails, and the byte is written. -/
theorem word_past_the_end :
    ∃ t, cleared.uacpiNtEcRegionWrite 255 2 0x1234 = (false, t) ∧ t.contents 255 = 0x34 ∧
      cleared.contents 255 = 0 :=
  ⟨_, rfl, rfl, rfl⟩

end EcDevice

end UacpiNt
