import UacpiNt.Resource.Emit

/-!
# Requirements the arbiters accept

A port, memory or bus number resource is emitted as one requirement and one assignment. The
arbiters reject a requirement whose maximum is below its minimum, and with it the whole test.

A fixed resource of length zero is emitted with the address before its start as its maximum. The
length of a port window and both ends of a bus number window are cut to 32 bits.
-/

namespace UacpiNt

section

variable (start : UInt64) (length : UInt32)

def emittedWindow (resource : UacpiResource) : Option AddressWindow :=
  match resource with
  | .io minimum length | .fixedIo minimum length =>
    some ⟨uacpiRangeIo, 1, minimum.toUInt64, length.toUInt32.toUInt64⟩
  | .memory32 minimum length | .fixedMemory32 minimum length =>
    some ⟨uacpiRangeMemory, 1, minimum.toUInt64, length.toUInt64⟩
  | _ => (uacpiNtGetAddressWindow resource).bind fun window =>
    if window.length = 0 then none else some window

/-- A port or bus number requirement, or a memory requirement in the small form. -/
def IoResource.isRange : IoResource → Bool
  | .memory large .. => !large
  | .port .. | .busNumber .. => true
  | _ => false

/-- The requirement has a length of at least one between its ends, the assignment is the same range,
and the requirement is not rejected. -/
def Usable (io : IoResourceDescriptor) (cm : CmPartialResourceDescriptor) : Prop :=
  ∃ requirement, uacpiNtResUnpackRequirement io = .ok requirement ∧
    requirement.minimum ≤ requirement.maximum ∧
    requirement.length.toNat = requirement.maximum.toNat - requirement.minimum.toNat + 1 ∧
    uacpiNtResUnpackResource cm = .ok (requirement.minimum, requirement.length) ∧
    0 ≤ uacpiNtResScoreRequirement io

/-- The window is not empty and keeps its length in 32 bits, a bus number window also its ends. -/
def AddressWindow.Fits (window : AddressWindow) : Prop :=
  if window.windowType = uacpiRangeMemory then window.length ≠ 0
  else if window.windowType = uacpiRangeIo then
    1 ≤ window.length.toNat ∧ window.length.toNat < 2 ^ 32
  else
    1 ≤ window.length.toNat % 2 ^ 32 ∧
      window.start.toNat % 2 ^ 32 + window.length.toNat % 2 ^ 32 ≤ 2 ^ 32

theorem emitWindowCm_port : emitWindowCm ⟨uacpiRangeIo, 1, start, length.toUInt64⟩ =
      ⟨.deviceExclusive, cmResourcePortIo, .port start length⟩ := by
  simp [emitWindowCm, uacpiRangeIo, uacpiRangeMemory]

theorem emitWindowIo_port :
    emitWindowIo ⟨uacpiRangeIo, 1, start, length.toUInt64⟩ = emitPortIo start length := by
  simp [emitWindowIo, emitPortIo, uacpiRangeIo, uacpiRangeMemory]

theorem toUInt64_le : length.toUInt64 ≤ 0xFFFFFFFF := by
  exact Nat.le_of_lt_succ length.toNat_lt

theorem emitWindowCm_memory : emitWindowCm ⟨uacpiRangeMemory, 1, start, length.toUInt64⟩ =
      ⟨.deviceExclusive, cmResourceMemoryReadWrite, .memory false start length⟩ := by
  simp [emitWindowCm, toUInt64_le]

theorem emitWindowIo_memory :
    emitWindowIo ⟨uacpiRangeMemory, 1, start, length.toUInt64⟩ = emitMemoryIo start length := by
  simp [emitWindowIo, emitMemoryIo, toUInt64_le]

end

section

variable {resource : UacpiResource} {window : AddressWindow}

theorem emittedWindow_of_window (hget : uacpiNtGetAddressWindow resource = some window) :
    emittedWindow resource = if window.length = 0 then none else some window := by
  cases resource <;> cases hget <;> rfl

theorem emit_of_emittedWindow (hwin : emittedWindow resource = some window) :
    (uacpiNtEmitCm resource true).2 = [emitWindowCm window] ∧
      ∃ marker, (uacpiNtEmitIo resource true).2 = emitWindowIo window :: marker ∧
        ∀ io ∈ marker, io.u.isRange = false := by
  cases hget : uacpiNtGetAddressWindow resource with
  | some w =>
    rw [emittedWindow_of_window hget, Option.ite_none_left_eq_some] at hwin
    obtain ⟨hne, rfl⟩ : w.length ≠ 0 ∧ w = window := ⟨hwin.1, Option.some.inj hwin.2⟩
    rw [emitCm_window hget, emitIo_window hget, if_neg hne, if_neg hne]
    refine ⟨rfl, _, rfl, fun io hio => ?_⟩
    split at hio
    · rw [List.mem_singleton.1 hio]
      rfl
    · cases hio
  | none =>
    cases resource with
    | io | fixedIo =>
      cases hwin
      rw [emitWindowCm_port, emitWindowIo_port]
      exact ⟨rfl, [], rfl, fun _ h => (by cases h)⟩
    | memory32 | fixedMemory32 =>
      cases hwin
      rw [emitWindowCm_memory, emitWindowIo_memory]
      exact ⟨rfl, [], rfl, fun _ h => (by cases h)⟩
    | irq | extendedIrq | other => cases hwin
    | address16 | address32 | address64 | address64Extended => cases hget

theorem not_isRange_of_emittedWindow (hnone : emittedWindow resource = none)
    {io : IoResourceDescriptor} (hio : io ∈ (uacpiNtEmitIo resource true).2) :
    io.u.isRange = false := by
  cases hget : uacpiNtGetAddressWindow resource with
  | some w =>
    rw [emittedWindow_of_window hget] at hnone
    rw [emitIo_window hget] at hio
    split at hio
    · cases hio
    · rw [if_neg ‹_›] at hnone
      cases hnone
  | none =>
    cases resource with
    | io | fixedIo | memory32 | fixedMemory32 => cases hnone
    | irq | extendedIrq =>
      obtain ⟨i, -, rfl⟩ := List.mem_map.1 hio
      rfl
    | other => cases hio
    | address16 | address32 | address64 | address64Extended => cases hget

end

theorem usable_iff {io : IoResourceDescriptor} {cm : CmPartialResourceDescriptor}
    {requirement : Requirement} (hio : uacpiNtResUnpackRequirement io = .ok requirement)
    (hcm : uacpiNtResUnpackResource cm = .ok (requirement.minimum, requirement.length)) :
    Usable io cm ↔ requirement.minimum.toNat ≤ requirement.maximum.toNat ∧
      requirement.length.toNat = requirement.maximum.toNat - requirement.minimum.toNat + 1 := by
  constructor
  · rintro ⟨_, hio', hle, hlen, -⟩
    cases hio.symm.trans hio'
    exact ⟨UInt64.le_iff_toNat_le.1 hle, hlen⟩
  rintro ⟨hle, hlen⟩
  refine ⟨requirement, hio, hle, hlen, hcm, ?_⟩
  rw [uacpiNtResScoreRequirement, hio]
  simp only
  rw [if_neg (UInt64.not_lt.2 hle)]
  split <;> omega

/-- A requirement of a window that is not in the large form is usable exactly if the window fits. -/
theorem usable_emitWindow_iff {window : AddressWindow}
    (hend : window.start.toNat + window.length.toNat ≤ 2 ^ 64)
    (hrng : (emitWindowIo window).u.isRange = true) :
    Usable (emitWindowIo window) (emitWindowCm window) ↔ window.Fits := by
  have hlast : 1 ≤ window.length.toNat → _ := fun h => toNat_window_last h hend
  have hcut : ∀ x : UInt64, x.toUInt32.toUInt64.toNat = x.toNat % 2 ^ 32 := fun x => by
    rw [UInt32.toNat_toUInt64, UInt64.toNat_toUInt32]
  have hzero : window.length ≠ 0 ↔ 1 ≤ window.length.toNat := by
    rw [Ne, ← UInt64.toNat_inj, UInt64.toNat_zero]
    omega
  rw [AddressWindow.Fits]
  split
  case isTrue hmemo =>
    have hsmall : window.length ≤ 0xFFFFFFFF := by
      by_contra hlarge
      rw [emitWindowIo, if_neg fun h => hlarge h.2, if_pos hmemo] at hrng
      cases hrng
    have hlt : window.length.toNat < 2 ^ 32 := Nat.lt_succ_of_le (UInt64.le_iff_toNat_le.1 hsmall)
    rw [emitWindowIo, emitWindowCm, if_pos ⟨hmemo, hsmall⟩, if_pos hmemo, if_pos hsmall, hzero,
      usable_iff rfl rfl]
    simp only [hcut]
    omega
  case isFalse hmemo =>
    rw [emitWindowIo, emitWindowCm, if_neg fun h => hmemo h.1, if_neg hmemo]
    split <;> rw [usable_iff rfl rfl]
    all_goals
      simp only [hcut]
      omega

theorem fits_of_large {window : AddressWindow} (hlarge : (emitWindowIo window).u.isRange = false) :
    window.Fits := by
  rw [emitWindowIo] at hlarge
  rw [AddressWindow.Fits]
  split_ifs at hlarge with hsmall hmemo hio
  · cases hlarge
  · rw [if_pos hmemo]
    intro hzero
    exact hsmall ⟨hmemo, hzero ▸ by decide⟩
  · cases hlarge
  · cases hlarge

/-- The port, bus number and small memory requirements of a resource list are usable, and are the
ranges that are assigned, exactly if the windows of all its resources fit. -/
theorem requirements_usable_iff {resources : List UacpiResource}
    (hend : ∀ resource ∈ resources, ∀ window, emittedWindow resource = some window →
      window.start.toNat + window.length.toNat ≤ 2 ^ 64) :
    (∀ resource ∈ resources, ∀ io ∈ (uacpiNtEmitIo resource true).2, io.u.isRange = true →
      ∃ cm, (uacpiNtEmitCm resource true).2 = [cm] ∧ Usable io cm) ↔
      ∀ resource ∈ resources, ∀ window, emittedWindow resource = some window → window.Fits := by
  refine forall₂_congr fun resource hresource =>
    ⟨fun h window hwindow => ?_, fun h io hio hrange => ?_⟩
  · obtain ⟨hcm, marker, hio, -⟩ := emit_of_emittedWindow hwindow
    cases hrange : (emitWindowIo window).u.isRange with
    | false => exact fits_of_large hrange
    | true =>
      obtain ⟨cm, hcm', husable⟩ := h _ (hio ▸ List.mem_cons_self) hrange
      cases hcm.symm.trans hcm'
      exact (usable_emitWindow_iff (hend resource hresource window hwindow) hrange).1 husable
  · cases hwindow : emittedWindow resource with
    | none =>
      rw [not_isRange_of_emittedWindow hwindow hio] at hrange
      cases hrange
    | some window =>
      obtain ⟨hcm, marker, hemit, hmarker⟩ := emit_of_emittedWindow hwindow
      rw [hemit] at hio
      rcases List.mem_cons.1 hio with rfl | hmem
      · exact ⟨_, hcm, (usable_emitWindow_iff (hend resource hresource window hwindow) hrange).2
          (h window hwindow)⟩
      · rw [hmarker io hmem] at hrange
        cases hrange

theorem port_and_page_usable :
    (∃ io cm, (uacpiNtEmitIo (.io 0x60 1) true).2 = [io] ∧
      (uacpiNtEmitCm (.io 0x60 1) true).2 = [cm] ∧ Usable io cm) ∧
    ∃ io cm, (uacpiNtEmitIo (.memory32 0xFED00000 0x1000) true).2 = [io] ∧
      (uacpiNtEmitCm (.memory32 0xFED00000 0x1000) true).2 = [cm] ∧ Usable io cm := by
  have husable : ∀ resource ∈ [UacpiResource.io 0x60 1, .memory32 0xFED00000 0x1000],
      ∀ io ∈ (uacpiNtEmitIo resource true).2, io.u.isRange = true →
        ∃ cm, (uacpiNtEmitCm resource true).2 = [cm] ∧ Usable io cm := by
    refine (requirements_usable_iff ?_).2 ?_
    all_goals
      rintro resource hresource window hwindow
      simp only [List.mem_cons, List.not_mem_nil, or_false] at hresource
      rcases hresource with rfl | rfl <;> cases hwindow <;> simp only [AddressWindow.Fits] <;>
        decide
  obtain ⟨port, hport⟩ := husable _ (.head _) _ (.head _) rfl
  obtain ⟨page, hpage⟩ := husable _ (.tail _ (.head _)) _ (.head _) rfl
  exact ⟨⟨_, port, rfl, hport⟩, _, page, rfl, hpage⟩

/-- A port resource of length zero is rejected, and with it every entry it is the alternative of. -/
theorem empty_port_rejected :
    ∃ io, (uacpiNtEmitIo (.io 0x60 0) true).2 = [io] ∧ io.u.isRange = true ∧
      uacpiNtResScoreRequirement io = -1 ∧
      ∀ env entry, entry.alternatives = [io] → (scoreEntry env resOps entry).1 = false := by
  refine ⟨_, rfl, rfl, rfl, fun env entry h => ?_⟩
  simp only [scoreEntry, h]
  rfl

end UacpiNt
