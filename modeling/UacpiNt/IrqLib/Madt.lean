import UacpiNt.Bytes.Memory
import UacpiNt.IrqLib.Vector

/-!
# Writers of the trigger tables

The interrupt source overrides of the MADT and the resource hub say how a line is triggered.
Notes only add bits: a line that was noted as level triggered stays so, and a line that was forced
to be edge triggered stays so too.
-/

namespace UacpiNt

/-! ### Notes -/

theorem GsivMap.getLsbD_set (map : GsivMap) (n i : Nat) :
    (map.set n).getLsbD i = (map.getLsbD i || decide (n < uacpiNtMaxGsiv ∧ i = n)) := by
  simp [GsivMap.set, eq_comm]

namespace GsivTriggers

variable (t : GsivTriggers) (noted gsiv : UInt32)

theorem gsivIsLevel_noteLevelGsiv : (t.noteLevelGsiv noted).gsivIsLevel gsiv =
    (t.gsivIsLevel gsiv || decide (gsiv = noted ∧ gsiv.toNat < uacpiNtMaxGsiv)) := by
  rw [noteLevelGsiv]
  split
  · simp only [gsivIsLevel, GsivMap.getLsbD_set]
    grind [UInt32.toNat_inj]
  · grind

theorem gsivForcedEdge_noteEdgeGsiv : (t.noteEdgeGsiv noted).gsivForcedEdge gsiv =
    (t.gsivForcedEdge gsiv || decide (gsiv = noted ∧ gsiv.toNat < uacpiNtMaxGsiv)) := by
  rw [noteEdgeGsiv]
  split
  · simp only [gsivForcedEdge, GsivMap.getLsbD_set]
    grind [UInt32.toNat_inj]
  · grind

@[simp]
theorem gsivForcedEdge_noteLevelGsiv :
    (t.noteLevelGsiv noted).gsivForcedEdge gsiv = t.gsivForcedEdge gsiv := by
  rw [noteLevelGsiv]
  split <;> rfl

@[simp]
theorem gsivIsLevel_noteEdgeGsiv :
    (t.noteEdgeGsiv noted).gsivIsLevel gsiv = t.gsivIsLevel gsiv := by
  rw [noteEdgeGsiv]
  split <;> rfl

@[simp]
theorem gsivIsLevel_zero : zero.gsivIsLevel gsiv = false := by
  simp [zero, gsivIsLevel]

@[simp]
theorem gsivForcedEdge_zero : zero.gsivForcedEdge gsiv = false := by
  simp [zero, gsivForcedEdge]

theorem gsivMode_eq_latched : t.gsivMode gsiv = .latched ↔ t.gsivIsLevel gsiv = false := by
  rw [gsivMode]
  cases t.gsivIsLevel gsiv <;> simp

end GsivTriggers

/-! ### The MADT -/

/-- `struct acpi_madt_interrupt_source_override`, without its header. -/
structure MadtOverride where
  bus : UInt8
  source : UInt8
  gsi : UInt32
  flags : UInt16
deriving DecidableEq, Repr

namespace MadtOverride

section

variable (o : MadtOverride) (t : GsivTriggers)

/-- Only ISA sources below 16 remap. -/
def remaps : Bool :=
  o.bus == 0 && decide (o.source.toNat < 16)

def isLevel : Bool :=
  o.flags &&& 0b1100 == 0b1100

def isEdge : Bool :=
  o.flags &&& 0b1100 == 0b0100

def noteTriggering : GsivTriggers :=
  if o.isLevel then t.noteLevelGsiv o.gsi else if o.isEdge then t.noteEdgeGsiv o.gsi else t

def notePolarity : GsivTriggers :=
  if o.gsi.toNat < uacpiNtMaxGsiv then
    if o.flags &&& 0b11 = 0b01 then { t with forcedHigh := t.forcedHigh.set o.gsi.toNat }
    else if o.flags &&& 0b11 = 0b11 then { t with forcedLow := t.forcedLow.set o.gsi.toNat }
    else t
  else t

def note : GsivTriggers :=
  if o.remaps then o.notePolarity (o.noteTriggering t) else t

end

end MadtOverride

/-- The entries of a MADT, each with its header. An entry that is shorter than its header or
longer than the table ends the walk. -/
def madtEntries : Nat → List UInt8 → List (List UInt8)
  | fuel + 1, bytes@(_ :: length :: _) =>
    if length.toNat < 2 ∨ bytes.length < length.toNat then []
    else bytes.take length.toNat :: madtEntries fuel (bytes.drop length.toNat)
  | _, _ => []

/-- `ACPI_MADT_ENTRY_TYPE_INTERRUPT_SOURCE_OVERRIDE`, at its full length. -/
def madtOverride : List UInt8 → Option MadtOverride
  | type :: _ :: bus :: source :: g₀ :: g₁ :: g₂ :: g₃ :: f₀ :: f₁ :: _ =>
    if type = 2 then some ⟨bus, source, Bytes.u32 g₀ g₁ g₂ g₃, Bytes.u16 f₀ f₁⟩ else none
  | _ => none

/-- The overrides of a MADT; each entry takes a byte at least. -/
def madtOverrides (bytes : List UInt8) : List MadtOverride :=
  (madtEntries bytes.length bytes).filterMap madtOverride

/-- `UacpiNtParseMadt`, given the bytes after the header of the table. -/
def uacpiNtParseMadt (bytes : List UInt8) (t : GsivTriggers) : GsivTriggers :=
  (madtOverrides bytes).foldl (fun t o => o.note t) t

/-! ### The resource hub -/

def uacpiNtRhSetInterruptProperties (gsiv : UInt32) (mode : KInterruptMode) (t : GsivTriggers) :
    GsivTriggers :=
  if mode = .latched then t.noteEdgeGsiv gsiv else t.noteLevelGsiv gsiv

/-! ### What is noted -/

namespace MadtOverride

variable (o : MadtOverride) (t : GsivTriggers) {gsiv : UInt32}

theorem gsivIsLevel_notePolarity : (o.notePolarity t).gsivIsLevel gsiv = t.gsivIsLevel gsiv := by
  simp only [notePolarity]
  repeat' split
  all_goals rfl

theorem gsivForcedEdge_notePolarity :
    (o.notePolarity t).gsivForcedEdge gsiv = t.gsivForcedEdge gsiv := by
  simp only [notePolarity]
  repeat' split
  all_goals rfl

theorem not_isEdge_of_isLevel {o : MadtOverride} (h : o.isLevel = true) : o.isEdge = false := by
  rw [isLevel, beq_iff_eq] at h
  rw [isEdge, h]
  rfl

theorem gsivIsLevel_note (hgsiv : gsiv.toNat < uacpiNtMaxGsiv) :
    (o.note t).gsivIsLevel gsiv = true ↔
      t.gsivIsLevel gsiv = true ∨ (o.remaps ∧ o.isLevel ∧ o.gsi = gsiv) := by
  rw [note]
  split <;> rename_i hrem
  · rw [gsivIsLevel_notePolarity, noteTriggering]
    split <;> rename_i hlevel
    · rw [GsivTriggers.gsivIsLevel_noteLevelGsiv, Bool.or_eq_true, decide_eq_true_eq]
      exact or_congr_right ⟨fun h => ⟨hrem, hlevel, h.1.symm⟩, fun h => ⟨h.2.2.symm, hgsiv⟩⟩
    · split <;> simp [hlevel]
  · simp [hrem]

theorem gsivForcedEdge_note (hgsiv : gsiv.toNat < uacpiNtMaxGsiv) :
    (o.note t).gsivForcedEdge gsiv = true ↔
      t.gsivForcedEdge gsiv = true ∨ (o.remaps ∧ o.isEdge ∧ o.gsi = gsiv) := by
  rw [note]
  split <;> rename_i hrem
  · rw [gsivForcedEdge_notePolarity, noteTriggering]
    split
    · rename_i hlevel
      simp [not_isEdge_of_isLevel hlevel]
    split <;> rename_i hedge
    · rw [GsivTriggers.gsivForcedEdge_noteEdgeGsiv, Bool.or_eq_true, decide_eq_true_eq]
      exact or_congr_right ⟨fun h => ⟨hrem, hedge, h.1.symm⟩, fun h => ⟨h.2.2.symm, hgsiv⟩⟩
    · simp [hedge]
  · simp [hrem]

end MadtOverride

theorem parseMadt_iff {Q : GsivTriggers → Prop} {Notes : MadtOverride → Prop}
    (hnote : ∀ o t, Q (MadtOverride.note o t) ↔ Q t ∨ Notes o) (bytes : List UInt8)
    (t : GsivTriggers) :
    Q (uacpiNtParseMadt bytes t) ↔ Q t ∨ ∃ o ∈ madtOverrides bytes, Notes o := by
  rw [uacpiNtParseMadt]
  induction madtOverrides bytes generalizing t with
  | nil => simp
  | cons o rest ih => simp [ih, hnote, or_assoc]

end UacpiNt
