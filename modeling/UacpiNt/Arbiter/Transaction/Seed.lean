import UacpiNt.IrqArb.Basic
import UacpiNt.ResArb.Basic
import UacpiNt.Sorting.Insertion

/-!
# The windows of a bus are the gaps of the seeded list

A list that is seeded from the windows a bus decodes covers what lies in none of them. The
windows are sorted by their start, and one sweep from the bottom of the address space records
what lies between them; overlapping windows only move the sweep forward.
-/

namespace UacpiNt

open InsertionSort List RangeList UInt64

variable {σ : Type}

namespace ArbiterSeedWindow

def Contains (w : ArbiterSeedWindow) (x : UInt64) : Prop :=
  w.start ≤ x ∧ x ≤ w.last

end ArbiterSeedWindow

/-! ### The sweep -/

section

variable {rtl : RtlApi} (hrtl : rtl.Lawful)

include hrtl

theorem covers_blockedRange {l : RtlRangeList} {start last : UInt64} (h : start ≤ last)
    (x : UInt64) : RangeList.Covers (rtl.addRange' l (blockedRange start last) true) x ↔
      start ≤ x ∧ x ≤ last ∨ RangeList.Covers l x :=
  hrtl.covers_addRange' h x

theorem covers_below {l : RtlRangeList} (w : ArbiterSeedWindow) (next x : UInt64) :
    RangeList.Covers (if w.start > next then
        rtl.addRange' l (blockedRange next (w.start - 1)) true else l) x ↔
      RangeList.Covers l x ∨ next ≤ x ∧ x < w.start := by
  by_cases h : next < w.start
  · have hpred := toNat_sub_one_of_lt h
    have hlt := lt_iff_toNat_lt.mp h
    have hle : next ≤ w.start - 1 := by
      rw [le_iff_toNat_le]
      omega
    have hbelow : x ≤ w.start - 1 ↔ x < w.start := by
      rw [le_iff_toNat_le, lt_iff_toNat_lt]
      omega
    rw [if_pos h, covers_blockedRange hrtl hle, hbelow, or_comm]
  · rw [if_neg h]
    have hnone : ¬ (next ≤ x ∧ x < w.start) := fun hx => h (UInt64.lt_of_le_of_lt hx.1 hx.2)
    rw [or_iff_left hnone]

theorem covers_blockGaps {windows : List ArbiterSeedWindow}
    (hsor : Ascending (·.start.toNat) windows) (hval : ∀ w ∈ windows, w.start ≤ w.last)
    (next : UInt64) (l : RtlRangeList) (x : UInt64) :
    RangeList.Covers (blockGaps rtl windows next l) x ↔
      RangeList.Covers l x ∨ next ≤ x ∧ ∀ w ∈ windows, ¬ w.Contains x := by
  induction windows generalizing next l with
  | nil =>
    have htop : ∀ a : UInt64, a ≤ 0xFFFFFFFFFFFFFFFF := fun a =>
      le_iff_toNat_le.mpr (Nat.le_of_lt_succ a.toNat_lt)
    rw [blockGaps, covers_blockedRange hrtl (htop next)]
    simp [htop x, or_comm]
  | cons w rest ih =>
    obtain ⟨hfst, hrest⟩ := pairwise_cons.mp hsor
    obtain ⟨hw, hval⟩ := forall_mem_cons.mp hval
    have hbelow : x < w.start → ∀ v ∈ rest, ¬ v.Contains x := by
      intro hx v hv hin
      have hle : w.start.toNat ≤ v.start.toNat := hfst v hv
      have hst := le_iff_toNat_le.mp hin.1
      rw [lt_iff_toNat_lt] at hx
      omega
    rw [blockGaps, forall_mem_cons]
    by_cases htop : w.last = 0xFFFFFFFFFFFFFFFF
    · -- No address lies above the window.
      have habove : x ≤ w.last := by
        rw [htop]
        exact le_iff_toNat_le.mpr (Nat.le_of_lt_succ x.toNat_lt)
      rw [if_pos htop, covers_below hrtl]
      refine or_congr_right (and_congr_right fun _ => ⟨fun hx => ⟨?_, hbelow hx⟩, fun hx => ?_⟩)
      · exact fun hin => absurd hin.1 (UInt64.not_le.mpr hx)
      · exact UInt64.not_le.mp fun hle => hx.1 ⟨hle, habove⟩
    · rw [if_neg htop, ih hrest hval, covers_below hrtl, or_assoc]
      refine or_congr_right ?_
      -- The mark moves behind the window, or it is there already.
      have hmark : (if w.last ≥ next then w.last + 1 else next) ≤ x ↔ next ≤ x ∧ w.last < x := by
        have hlast : (w.last + 1).toNat = w.last.toNat + 1 := by
          have hne : w.last.toNat ≠ 0xFFFFFFFFFFFFFFFF := fun h =>
            htop (UInt64.toNat_inj.mp h)
          have hlt := w.last.toNat_lt
          rw [UInt64.toNat_add, toNat_one]
          omega
        split
        · rename_i hge
          rw [ge_iff_le, le_iff_toNat_le] at hge
          rw [le_iff_toNat_le, le_iff_toNat_le, lt_iff_toNat_lt]
          omega
        · rename_i hlt
          rw [UInt64.not_le, lt_iff_toNat_lt] at hlt
          rw [le_iff_toNat_le, lt_iff_toNat_lt]
          omega
      rw [hmark]
      constructor
      · rintro (⟨hnext, hx⟩ | ⟨⟨hnext, hx⟩, hnone⟩)
        · exact ⟨hnext, fun hin => absurd hin.1 (UInt64.not_le.mpr hx), hbelow hx⟩
        · exact ⟨hnext, fun hin => absurd hin.2 (UInt64.not_le.mpr hx), hnone⟩
      rintro ⟨hnext, hout, hnone⟩
      by_cases hx : x < w.start
      · exact .inl ⟨hnext, hx⟩
      · refine .inr ⟨⟨hnext, ?_⟩, hnone⟩
        exact UInt64.not_le.mp fun hle => hout ⟨UInt64.not_lt.mp hx, hle⟩

end

/-! ### The windows -/

section

variable (ops : ArbiterOps σ) (arb : ArbiterInstance) (d : CmPartialResourceDescriptor)

def IsWindow (start length : UInt64) : Prop :=
  matchesArbiter arb d.u.type = true ∧ ops.unpackResource d = .ok (start, length)

def seedWindow : Option ArbiterSeedWindow :=
  if matchesArbiter arb d.u.type then
    match ops.unpackResource d with
    | .ok (start, length) => if length = 0 then none else some ⟨start, start + length - 1⟩
    | .error _ => none
  else none

end

variable {ops : ArbiterOps σ} {arb : ArbiterInstance} {d : CmPartialResourceDescriptor}
  {resources : List CmPartialResourceDescriptor}

theorem seedWindow_eq_some {w : ArbiterSeedWindow} :
    seedWindow ops arb d = some w ↔ ∃ start length, IsWindow ops arb d start length ∧
      length ≠ 0 ∧ w = ⟨start, start + length - 1⟩ := by
  rw [seedWindow]
  constructor
  · intro h
    split at h
    · rename_i hmat
      split at h
      · rename_i start length hunpk
        split at h
        · cases h
        · rename_i hleng
          cases h
          exact ⟨start, length, ⟨hmat, hunpk⟩, hleng, rfl⟩
      · cases h
    · cases h
  · rintro ⟨start, length, ⟨hmat, hunpk⟩, hleng, rfl⟩
    rw [if_pos hmat, hunpk]
    exact if_neg hleng

theorem contains_seedWindow {start length x : UInt64} (hleng : length ≠ 0)
    (hwrap : start.toNat + length.toNat ≤ 2 ^ 64) :
    start ≤ start + length - 1 ∧ ((⟨start, start + length - 1⟩ : ArbiterSeedWindow).Contains x ↔
      start ≤ x ∧ x.toNat < start.toNat + length.toNat) := by
  have hpos := toNat_pos_of_ne_zero hleng
  have hlast : (start + length - 1).toNat = start.toNat + length.toNat - 1 := by
    simp only [UInt64.toNat_sub, UInt64.toNat_add, toNat_one]
    omega
  simp only [ArbiterSeedWindow.Contains, le_iff_toNat_le]
  omega

theorem insertWindow_eq (w : ArbiterSeedWindow) (windows : List ArbiterSeedWindow) :
    insertWindow w windows = insertBehind (·.start.toNat) w windows := by
  induction windows with
  | nil => rfl
  | cons v rest ih =>
    rw [insertWindow, insertBehind_cons, ih]
    by_cases h : v.start ≤ w.start
    · rw [if_pos h, if_neg (not_lt.mpr (le_iff_toNat_le.mp h))]
    · rw [if_neg h, if_pos (lt_iff_toNat_lt.mp (UInt64.not_le.mp h))]

theorem seedWindows_eq (ops : ArbiterOps σ) (arb : ArbiterInstance)
    (resources : List CmPartialResourceDescriptor) : seedWindows ops arb resources =
      sort (·.start.toNat) (resources.filterMap (seedWindow ops arb)) := by
  rw [seedWindows, sort, foldl_filterMap]
  congr 1
  funext windows d
  rw [seedWindow]
  split
  · cases ops.unpackResource d with
    | error e => rfl
    | ok window =>
      simp only
      split
      · rfl
      · exact insertWindow_eq _ windows
  · rfl

theorem mem_seedWindows {w : ArbiterSeedWindow} :
    w ∈ seedWindows ops arb resources ↔ ∃ d ∈ resources, ∃ start length,
      IsWindow ops arb d start length ∧ length ≠ 0 ∧ w = ⟨start, start + length - 1⟩ := by
  rw [seedWindows_eq, (perm_sort _ _).mem_iff, mem_filterMap]
  simp only [seedWindow_eq_some]

/-- The arbiters here decode every descriptor of their type, so a descriptor that the sweep
passes over for an error is none of theirs. -/
theorem exists_isWindow (arb : ArbiterInstance) (host : IrqHost)
    (h : matchesArbiter arb d.u.type = true) : (arb.resourceType ∈ [.memory, .port, .busNumber] →
      ∃ start length, IsWindow resOps arb d start length) ∧ (arb.resourceType = .interrupt →
      ∃ start length, IsWindow (irqOps host) arb d start length) := by
  have htype := h
  simp only [matchesArbiter, Bool.or_eq_true, Bool.and_eq_true, decide_eq_true_eq] at htype
  constructor
  · intro hkind
    suffices hok : ∃ window, uacpiNtResUnpackResource d = .ok window by
      obtain ⟨⟨start, length⟩, hunpk⟩ := hok
      exact ⟨start, length, h, hunpk⟩
    rw [uacpiNtResUnpackResource]
    cases hu : d.u with
    | memory | port | busNumber => exact ⟨_, rfl⟩
    | interrupt | other =>
      rw [hu, CmResource.type] at htype
      rcases htype with htype | ⟨htype, -⟩
      · rw [← htype] at hkind
        simp at hkind
      · cases htype
  · intro hkind
    suffices hok : ∃ window, uacpiNtIrqUnpackResource d = .ok window by
      obtain ⟨⟨start, length⟩, hunpk⟩ := hok
      exact ⟨start, length, h, hunpk⟩
    rw [hkind] at htype
    rw [uacpiNtIrqUnpackResource]
    cases hu : d.u with
    | interrupt level vector affinity =>
      simp only
      split <;> exact ⟨_, rfl⟩
    | memory large start length =>
      rw [hu, CmResource.type] at htype
      cases large <;> simp at htype
    | port | busNumber | other =>
      rw [hu, CmResource.type] at htype
      simp at htype

section

theorem seedWindows_ne_nil_iff : seedWindows ops arb resources ≠ [] ↔
    ∃ d ∈ resources, ∃ start length, IsWindow ops arb d start length ∧ length ≠ 0 := by
  constructor
  · intro hne
    obtain ⟨w, hw⟩ := exists_mem_of_ne_nil _ hne
    obtain ⟨d, hd, start, length, hwin, hleng, -⟩ := mem_seedWindows.mp hw
    exact ⟨d, hd, start, length, hwin, hleng⟩
  · rintro ⟨d, hd, start, length, hwin, hleng⟩
    exact ne_nil_of_mem (mem_seedWindows.mpr ⟨d, hd, start, length, hwin, hleng, rfl⟩)

variable (hwrap : ∀ d ∈ resources, ∀ start length, IsWindow ops arb d start length →
  start.toNat + length.toNat ≤ 2 ^ 64)

include hwrap

theorem start_le_last_of_mem_seedWindows {w : ArbiterSeedWindow}
    (hw : w ∈ seedWindows ops arb resources) : w.start ≤ w.last := by
  obtain ⟨d, hd, start, length, hwin, hleng, rfl⟩ := mem_seedWindows.mp hw
  exact (@contains_seedWindow start length 0 hleng (hwrap d hd start length hwin)).1

/-- An address is in none of the sorted windows if it is in none of the described ones; a window
of length zero holds no address. -/
theorem forall_seedWindows_iff (x : UInt64) :
    (∀ w ∈ seedWindows ops arb resources, ¬ w.Contains x) ↔
      ∀ d ∈ resources, ∀ start length, IsWindow ops arb d start length →
        ¬ (start ≤ x ∧ x.toNat < start.toNat + length.toNat) := by
  constructor
  · intro h d hd start length hwin hin
    have hleng : length ≠ 0 := by
      rintro rfl
      have hle := le_iff_toNat_le.mp hin.1
      have hlt : x.toNat < start.toNat := hin.2
      omega
    exact h _ (mem_seedWindows.mpr ⟨d, hd, start, length, hwin, hleng, rfl⟩)
      ((contains_seedWindow hleng (hwrap d hd start length hwin)).2.mpr hin)
  · intro h w hw hin
    obtain ⟨d, hd, start, length, hwin, hleng, rfl⟩ := mem_seedWindows.mp hw
    exact h d hd start length hwin
      ((contains_seedWindow hleng (hwrap d hd start length hwin)).2.mp hin)

end

theorem seedRangeList_cases {env : Environment} {l : RtlRangeList}
    (h : arbpSeedRangeList env ops arb resources = .ok l) :
    seedWindows ops arb resources = [] ∧ l = [] ∨ seedWindows ops arb resources ≠ [] ∧
        l = blockGaps env.rtl (seedWindows ops arb resources) 0 [] := by
  rw [arbpSeedRangeList] at h
  split at h
  · rename_i hemp
    cases h
    rw [hemp]
    exact .inl ⟨rfl, rfl⟩
  · split at h
    · cases h
    · split at h <;> rename_i hwind <;> cases h
      · exact .inl ⟨hwind, rfl⟩
      · exact .inr ⟨hwind, rfl⟩

/-- For every array of descriptors whose windows do not wrap, the list that
`ArbpSeedRangeList` leaves covers an address if and only if there is a window and the address
lies in none of them. The routine fails only if there is no memory to sort the windows in. -/
theorem seededList_covers_iff {env : Environment} (hrtl : env.rtl.Lawful) (ops : ArbiterOps σ)
    (arb : ArbiterInstance) (resources : List CmPartialResourceDescriptor)
    (hwrap : ∀ d ∈ resources, ∀ start length, IsWindow ops arb d start length →
      start.toNat + length.toNat ≤ 2 ^ 64) :
    (env.exAllocatePool 0 = true → ∃ l, arbpSeedRangeList env ops arb resources = .ok l) ∧
    ∀ l, arbpSeedRangeList env ops arb resources = .ok l → ∀ x, RangeList.Covers l x ↔
      (∃ d ∈ resources, ∃ start length, IsWindow ops arb d start length ∧ length ≠ 0) ∧
      ∀ d ∈ resources, ∀ start length, IsWindow ops arb d start length →
        ¬ (start ≤ x ∧ x.toNat < start.toNat + length.toNat) := by
  constructor
  · intro hpool
    rw [arbpSeedRangeList, hpool]
    by_cases hempty : resources = []
    · exact ⟨[], if_pos hempty⟩
    · rw [if_neg hempty]
      cases seedWindows ops arb resources with
      | nil | cons => exact ⟨_, rfl⟩
  · intro l hl x
    have huncovered : ¬ RangeList.Covers ([] : RtlRangeList) x := by
      rintro ⟨r, hr, -⟩
      cases hr
    rw [← seedWindows_ne_nil_iff, ← forall_seedWindows_iff hwrap]
    rcases seedRangeList_cases hl with ⟨hempty, rfl⟩ | ⟨hne, rfl⟩
    · exact iff_of_false huncovered fun h => h.1 hempty
    · have hsorted : Ascending (·.start.toNat) (seedWindows ops arb resources) := by
        rw [seedWindows_eq]
        exact ascending_sort _ _
      rw [covers_blockGaps hrtl hsorted fun w => start_le_last_of_mem_seedWindows hwrap,
        or_iff_right huncovered, and_iff_right UInt64.zero_le, and_iff_right hne]

def busWindows : List CmPartialResourceDescriptor :=
  [⟨.deviceExclusive, 0, .memory false 0xFFFFFFFFFFFFF000 0x1000⟩,
    ⟨.deviceExclusive, 0, .memory false 0x1800 0x1000⟩, ⟨.deviceExclusive, 0, .port 0 0x100⟩,
    ⟨.deviceExclusive, 0, .memory false 0x1000 0x1000⟩]

theorem busWindows_seeded :
    ∃ l, arbpSeedRangeList .reference resOps (.plainMemory []) busWindows = .ok l ∧
      l.map (fun r => (r.start, r.last)) =
        [(0, 0xFFF), (0x2800, 0xFFFFFFFFFFFFEFFF)] ∧
      RangeList.Covers l 0x10 ∧ ¬ RangeList.Covers l 0x2000 := by
  have hwrap : ∀ d ∈ busWindows, ∀ start length, IsWindow resOps (.plainMemory []) d start length →
      start.toNat + length.toNat ≤ 2 ^ 64 := by
    simp only [busWindows, List.forall_mem_cons]
    refine ⟨?_, ?_, ?_, ?_, fun _ h => (by cases h)⟩
    all_goals
      rintro start length ⟨-, hunpack⟩
      cases hunpack
      decide
  obtain ⟨hok, hcovers⟩ := seededList_covers_iff Environment.reference_lawful resOps
    (.plainMemory []) busWindows hwrap
  obtain ⟨l, hl⟩ := hok rfl
  refine ⟨l, hl, ?_, (hcovers l hl 0x10).mpr ⟨?_, ?_⟩, fun hblocked => ?_⟩
  · cases hl
    decide
  · exact ⟨_, List.mem_cons_self, 0xFFFFFFFFFFFFF000, 0x1000, ⟨rfl, rfl⟩, by decide⟩
  · simp only [busWindows, List.forall_mem_cons]
    refine ⟨?_, ?_, ?_, ?_, fun _ h => (by cases h)⟩
    all_goals
      rintro start length ⟨hmatches, hunpack⟩
      cases hunpack
      revert hmatches
      decide
  · exact ((hcovers l hl 0x2000).mp hblocked).2 _ (List.mem_of_getElem? (i := 1) rfl)
      0x1800 0x1000 ⟨rfl, rfl⟩ (by decide)

end UacpiNt
