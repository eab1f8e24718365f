import UacpiNt.Bytes.Memory
import UacpiNt.Nt.Basic

/-!
# Control of a PCI root

The driver asks the firmware for control of PCI features in two evaluations of `_OSC`: a query for
everything it wants, and a commit of what the query returned, if that is not more than it asked for.
What the commit returns is recorded as it is.
-/

namespace UacpiNt

def pciOscSupport : UInt32 := 0x1F

def pciOscControl : UInt32 := 0x1D

def oscErrorMask : UInt32 := 0x0E

/-- What an evaluation of `_OSC` comes to: a failure, a buffer, or another object or none. -/
abbrev OscAnswer := Except NtError (Option (List UInt8))

def oscWord (bytes : List UInt8) (index : Nat) : UInt32 :=
  let byte (i : Nat) : UInt8 := bytes.getD (4 * index + i) 0
  Bytes.u32 (byte 0) (byte 1) (byte 2) (byte 3)

structure HostBridge where
  oscEvaluated : Bool
  oscControlGranted : UInt32
deriving DecidableEq, Repr

structure OscCapability where
  oscFeatureSupport : UInt32
  oscControlRequest : UInt32
  oscControlGranted : UInt32
deriving DecidableEq, Repr

/-- The control word of a buffer that is long enough and reports no error. -/
def uacpiNtPciRootOscPass (answer : OscAnswer) : Except NtError UInt32 :=
  match answer with
  | .error status => .error status
  | .ok none => .error .unsuccessful
  | .ok (some bytes) =>
    if 12 ≤ bytes.length ∧ oscWord bytes 0 &&& oscErrorMask = 0 then .ok (oscWord bytes 2)
    else .error .unsuccessful

/-- The root after a negotiation, and the control that was requested in the commit. -/
def uacpiNtPciRootOscNegotiate (query commit : OscAnswer) (bridge : HostBridge) :
    HostBridge × Option UInt32 :=
  if bridge.oscEvaluated then (bridge, none)
  else
    match uacpiNtPciRootOscPass query with
    | .error _ => (⟨true, 0⟩, none)
    | .ok control =>
      let request := if control ||| pciOscControl ≠ pciOscControl then 0 else control
      match uacpiNtPciRootOscPass commit with
      | .error _ => (⟨true, 0⟩, some request)
      | .ok granted => (⟨true, granted⟩, some request)

def uacpiNtPciRootBusCapability (query commit : OscAnswer) (bridge : HostBridge) :
    HostBridge × OscCapability :=
  let (bridge, _) := uacpiNtPciRootOscNegotiate query commit bridge
  (bridge, ⟨pciOscSupport, pciOscControl, bridge.oscControlGranted⟩)

/-- The firmware answers with a control word, in a buffer of twelve bytes at least and without an
error bit. -/
def OscAnswer.Returns (answer : OscAnswer) (control : UInt32) : Prop :=
  ∃ bytes, answer = .ok (some bytes) ∧ 12 ≤ bytes.length ∧ oscWord bytes 0 &&& oscErrorMask = 0 ∧
    control = oscWord bytes 2

theorem oscPass_eq_ok_iff {answer : OscAnswer} {control : UInt32} :
    uacpiNtPciRootOscPass answer = .ok control ↔ answer.Returns control := by
  constructor
  · intro h
    match answer, h with
    | .ok (some bytes), h =>
      rw [uacpiNtPciRootOscPass] at h
      split at h
      · next hbytes => exact ⟨bytes, rfl, hbytes.1, hbytes.2, (Except.ok.inj h).symm⟩
      · cases h
  · rintro ⟨bytes, rfl, hlength, hstatus, rfl⟩
    exact if_pos ⟨hlength, hstatus⟩

theorem or_eq_right_iff (a b : UInt32) : a ||| b = b ↔ a &&& ~~~ b = 0 := by
  rw [← UInt32.toBitVec_inj, ← UInt32.toBitVec_inj]
  simp only [UInt32.toBitVec_or, UInt32.toBitVec_and, UInt32.toBitVec_not, UInt32.toBitVec_zero,
    BitVec.eq_of_getElem_eq_iff]
  refine forall_congr' fun i => forall_congr' fun hi => ?_
  simp

/-- The control recorded for a root, which every later call reports and none changes, is a part of
what was requested in the commit exactly if the firmware fails one of the two evaluations, returns
no control for the commit, or returns a part of the control set for the query and a part of that
for the commit. -/
theorem osc_control_requested_iff (query commit : OscAnswer) (granted : UInt32) :
    let negotiated := uacpiNtPciRootOscNegotiate query commit ⟨false, granted⟩
    (negotiated.1.oscControlGranted &&& ~~~ negotiated.2.getD 0 = 0 ∧
      ∀ query' commit', uacpiNtPciRootBusCapability query' commit' negotiated.1 =
        (negotiated.1, ⟨pciOscSupport, pciOscControl, negotiated.1.oscControlGranted⟩)) ↔
      ∀ answered control, query.Returns answered → commit.Returns control → control ≠ 0 →
        answered &&& ~~~ pciOscControl = 0 ∧ control &&& ~~~ answered = 0 := by
  intro negotiated
  have hevaluated : negotiated.1.oscEvaluated = true := by
    simp only [negotiated, uacpiNtPciRootOscNegotiate]
    cases uacpiNtPciRootOscPass query with
    | error => rfl
    | ok => cases uacpiNtPciRootOscPass commit <;> rfl
  have hlater : ∀ query' commit', uacpiNtPciRootBusCapability query' commit' negotiated.1 =
      (negotiated.1, ⟨pciOscSupport, pciOscControl, negotiated.1.oscControlGranted⟩) := by
    intro query' commit'
    rw [uacpiNtPciRootBusCapability, uacpiNtPciRootOscNegotiate, if_pos hevaluated]
  rw [and_iff_left hlater]
  simp only [negotiated, uacpiNtPciRootOscNegotiate, ← oscPass_eq_ok_iff]
  cases uacpiNtPciRootOscPass query with
  | error => simp
  | ok answered =>
    cases uacpiNtPciRootOscPass commit with
    | error => simp
    | ok control =>
      -- A query answer beyond the control set requests nothing.
      by_cases hset : answered ||| pciOscControl = pciOscControl
      · have hwithin := (or_eq_right_iff _ _).1 hset
        have hnone : control = 0 → control &&& ~~~ answered = 0 := by
          rintro rfl
          exact UInt32.zero_and
        simpa [hset, hwithin] using imp_iff_not_or.1 hnone
      · have hbeyond := mt (or_eq_right_iff _ _).2 hset
        simp [hset, hbeyond]

/-- A commit that returns all of the low byte is recorded as it is. -/
theorem osc_control_over_granted :
    let query : OscAnswer := .ok (some [0, 0, 0, 0, 0x1F, 0, 0, 0, 0x1D, 0, 0, 0])
    let commit : OscAnswer := .ok (some [0, 0, 0, 0, 0x1F, 0, 0, 0, 0xFF, 0, 0, 0])
    uacpiNtPciRootOscNegotiate query commit ⟨false, 0⟩ = (⟨true, 0xFF⟩, some 0x1D) ∧
      (0xFF : UInt32) &&& ~~~ 0x1D ≠ 0 := by
  decide

end UacpiNt
