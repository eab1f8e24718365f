import Mathlib.Data.List.Forall2
import Mathlib.Init

/-!
# Status codes and resource descriptors

A status is either success or one of the failure codes the sources name, so a failure can never be
mistaken for success. A requirement (`IO_RESOURCE_DESCRIPTOR`) states what a device can be given,
an assignment (`CM_PARTIAL_RESOURCE_DESCRIPTOR`) what it was given. In both the type tag selects
the member of a union, so the two together are one inductive type and a descriptor cannot be read
through the wrong member.
-/

namespace UacpiNt

inductive NtError where
  | unsuccessful
  | notImplemented
  | invalidParameter
  | insufficientResources
  | deviceConfigurationError
  | badMcfgTable
  | notSupported
  | notFound
  | noSuchDevice
  | rangeNotFound
  | rangeListConflict
  | other (code : UInt32)
deriving DecidableEq, Repr

abbrev NtStatus := Except NtError Unit

namespace NtStatus

def success : NtStatus → Bool
  | .ok _ => true
  | .error _ => false

@[simp] theorem success_ok (u : Unit) : success (.ok u) = true := rfl

@[simp] theorem success_error (e : NtError) : success (.error e) = false := rfl

end NtStatus

section

variable {ε α β : Type}

theorem bind_eq_ok_iff {x : Except ε α} {f : α → Except ε β} {b : β} :
    (x >>= f) = .ok b ↔ ∃ a, x = .ok a ∧ f a = .ok b := by
  cases x <;> simp [bind, Except.bind]

theorem mapM_eq_ok_iff {f : α → Except ε β} {xs : List α} {ys : List β} :
    xs.mapM f = .ok ys ↔ List.Forall₂ (fun x y => f x = .ok y) xs ys := by
  induction xs generalizing ys with
  | nil => cases ys <;> simp [pure, Except.pure]
  | cons x xs ih =>
    rw [List.mapM_cons, bind_eq_ok_iff]
    constructor
    · rintro ⟨y, hy, h⟩
      obtain ⟨ys', hys, h⟩ := bind_eq_ok_iff.mp h
      cases h
      exact .cons hy (ih.mp hys)
    · intro h
      cases h with
      | cons hy hys => exact ⟨_, hy, bind_eq_ok_iff.mpr ⟨_, ih.mpr hys, rfl⟩⟩

end

/-- A device object. Arbitration only compares owners and asks the I/O manager
about them, so a device object is its identity. -/
structure DeviceObject where
  id : Nat
deriving DecidableEq, Repr

inductive ShareDisposition where
  | undetermined
  | deviceExclusive
  | driverExclusive
  | shared
deriving DecidableEq, Repr

inductive IoResource where
  | memory (large : Bool) (minimumAddress maximumAddress : UInt64) (length alignment : UInt32)
  | port (minimumAddress maximumAddress : UInt64) (length alignment : UInt32)
  | busNumber (minBusNumber maxBusNumber length : UInt32)
  | interrupt (minimumVector maximumVector : UInt32) (targetedProcessors : UInt64)
  | other (type : UInt8)
deriving DecidableEq, Repr

structure IoResourceDescriptor where
  option : UInt8
  shareDisposition : ShareDisposition
  flags : UInt16
  u : IoResource
deriving DecidableEq, Repr

inductive CmResource where
  | memory (large : Bool) (start : UInt64) (length : UInt32)
  | port (start : UInt64) (length : UInt32)
  | busNumber (start length : UInt32)
  | interrupt (level vector : UInt32) (affinity : UInt64)
  | other (type : UInt8)
deriving DecidableEq, Repr

structure CmPartialResourceDescriptor where
  shareDisposition : ShareDisposition
  flags : UInt16
  u : CmResource
deriving DecidableEq, Repr

/-- `CM_RESOURCE_TYPE`, as far as the arbiters tell the types apart. -/
inductive CmResourceType where
  | port
  | interrupt
  | memory
  | busNumber
  | memoryLarge
  | other (type : UInt8)
deriving DecidableEq, Repr

def IoResource.type : IoResource → CmResourceType
  | .memory large .. => if large then .memoryLarge else .memory
  | .port .. => .port
  | .busNumber .. => .busNumber
  | .interrupt .. => .interrupt
  | .other t => .other t

def CmResource.type : CmResource → CmResourceType
  | .memory large .. => if large then .memoryLarge else .memory
  | .port .. => .port
  | .busNumber .. => .busNumber
  | .interrupt .. => .interrupt
  | .other t => .other t

namespace IoResourceDescriptor

def preferred (d : IoResourceDescriptor) : Bool :=
  d.option &&& 0x01 != 0

def isMemory (d : IoResourceDescriptor) : Bool :=
  match d.u with
  | .memory .. => true
  | _ => false

def compatForInaccessibleRange (d : IoResourceDescriptor) : Bool :=
  d.flags &&& 0x0100 != 0

end IoResourceDescriptor

end UacpiNt
