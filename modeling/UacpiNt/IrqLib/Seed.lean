import UacpiNt.IrqLib.Vector

/-!
# The vectors that a processor starts with

A new processor is entered with every vector in use that devices must not have: those outside
the grant of the HAL or, without a grant, those outside the device band.
-/

namespace UacpiNt

open RangeList UInt64

def HalGrant.Admits (grant : HalGrant) (vector : UInt32) : Prop :=
  if grant.count = 0 then deviceVectorFirst ≤ vector ∧ vector ≤ deviceVectorLast
  else grant.grantedVector vector = true
deriving Decidable

/-! ### The loop over the vectors -/

theorem ungrantedEnd_spec (grant : HalGrant) {vector : Nat} (hvec : vector ≤ 255)
    (hnone : grant.grantedVector (.ofNat vector) = false) :
    vector < ungrantedEnd grant vector ∧ ungrantedEnd grant vector ≤ 256 ∧
      ∀ v, vector ≤ v → v < ungrantedEnd grant vector → grant.grantedVector (.ofNat v) = false := by
  rw [ungrantedEnd]
  cases hfind : (List.range' vector (256 - vector)).find?
      fun v => grant.grantedVector (.ofNat v) with
  | none =>
    rw [List.find?_range'_eq_none] at hfind
    refine ⟨by simp only [Option.getD_none]; omega, Nat.le_refl _, fun v hle hlt => ?_⟩
    rw [Option.getD_none] at hlt
    simpa using hfind v hle (by omega)
  | some e =>
    obtain ⟨hgr, hmem, hbelow⟩ := List.find?_range'_eq_some.mp hfind
    have hbds := List.mem_range'_1.mp hmem
    have hne : e ≠ vector := by
      rintro rfl
      rw [hnone] at hgr
      exact Bool.false_ne_true hgr
    refine ⟨by simp only [Option.getD_some]; omega, by simp only [Option.getD_some]; omega,
      fun v hle hlt => ?_⟩
    simpa using hbelow v hle hlt

/-- The records are disjoint and cover, of the vectors below `n`, those that were not granted. -/
structure SeededBelow (grant : HalGrant) (n : Nat) (used : IdtEntries) : Prop where
  apart : Apart used
  wide : ∀ x ∈ used, x.start ≤ x.last
  below : ∀ x ∈ used, x.last.toNat < n
  covers : ∀ v < n, RangeList.Covers used (.ofNat v) ↔ grant.grantedVector (.ofNat v) = false

section

variable {api : IdtApi} (hapi : api.Lawful) {grant : HalGrant} {n : Nat} {used : IdtEntries}

theorem SeededBelow.not_covers (h : SeededBelow grant n used) {v : Nat} (hle : n ≤ v)
    (hv : v < 2 ^ 64) : ¬ RangeList.Covers used (.ofNat v) := by
  rintro ⟨x, hx, hover⟩
  have hlast := h.below x hx
  have hvec := le_iff_toNat_le.mp hover.2
  rw [toNat_ofNat_of_lt' hv] at hvec
  omega

theorem SeededBelow.granted (h : SeededBelow grant n used) (hn : n ≤ 255)
    (hgr : grant.grantedVector (.ofNat n) = true) : SeededBelow grant (n + 1) used := by
  refine ⟨h.apart, h.wide, fun x hx => Nat.lt_succ_of_lt (h.below x hx), fun v hv => ?_⟩
  rcases Nat.lt_succ_iff_lt_or_eq.mp hv with hlt | rfl
  · exact h.covers v hlt
  · have hnone := h.not_covers (Nat.le_refl v) (by omega)
    simp [hnone, hgr]

include hapi in
theorem SeededBelow.ungranted (h : SeededBelow grant n used) {e : Nat} (hlt : n < e)
    (he : e ≤ 256) (hnone : ∀ v, n ≤ v → v < e → grant.grantedVector (.ofNat v) = false) :
    SeededBelow grant e (api.addRange' used ⟨.ofNat n, .ofNat (e - 1), 0, false, none⟩ false) := by
  have hst : (ofNat n).toNat = n := toNat_ofNat_of_lt' (by rw [size]; omega)
  have hlast : (ofNat (e - 1)).toNat = e - 1 :=
    toNat_ofNat_of_lt' (by rw [size]; omega)
  have hwide : ofNat n ≤ ofNat (e - 1) := by
    rw [le_iff_toNat_le]
    omega
  have hfree : ∀ x ∈ used, ¬ x.Overlaps (.ofNat n) (.ofNat (e - 1)) := by
    intro x hx hover
    have hbelow := h.below x hx
    have hle := le_iff_toNat_le.mp hover.2
    omega
  refine ⟨hapi.apart_addRange'_free hwide hfree h.apart,
    hapi.forall_addRange'_free hwide hfree hwide h.wide,
    hapi.forall_addRange'_free hwide hfree ?_ fun x hx => Nat.lt_trans (h.below x hx) hlt,
    fun v hv => ?_⟩
  · rw [hlast]
    omega
  have hvec : (ofNat v).toNat = v := toNat_ofNat_of_lt' (by rw [size]; omega)
  rw [hapi.covers_addRange'_free hwide hfree]
  simp only [Range.Overlaps, le_iff_toNat_le]
  by_cases hold : v < n
  · rw [h.covers v hold, or_iff_right (by omega)]
  · exact iff_of_true (.inl (by omega)) (hnone v (by omega) hv)

include hapi in
theorem seedUngranted_spec {fuel : Nat} (h : SeededBelow grant n used) (hn : n ≤ 256)
    (hfuel : 256 ≤ fuel + n) : SeededBelow grant 256 (seedUngranted api grant fuel n used) := by
  induction fuel generalizing n used with
  | zero =>
    obtain rfl : n = 256 := by omega
    exact h
  | succ fuel ih =>
    rw [seedUngranted]
    split
    · obtain rfl : n = 256 := by omega
      exact h
    split
    · exact ih (h.granted (by omega) ‹_›) (by omega) (by omega)
    · obtain ⟨hlt, hle, hnone⟩ := ungrantedEnd_spec grant (Nat.not_lt.mp ‹_›)
        (Bool.eq_false_iff.mpr ‹_›)
      exact ih (h.ungranted hapi hlt hle hnone) hle (by omega)

structure Seeded (grant : HalGrant) (used : IdtEntries) : Prop where
  apart : Apart used
  wide : ∀ x ∈ used, x.start ≤ x.last
  covers : ∀ vector ≤ maxIdtVector, RangeList.Covers used vector.toUInt64 ↔ ¬ grant.Admits vector

theorem SeededBelow.seeded (h : SeededBelow grant 256 used) (hcnt : grant.count ≠ 0) :
    Seeded grant used := by
  refine ⟨h.apart, h.wide, fun vector hvec => ?_⟩
  have hlt : vector.toNat < 256 := Nat.lt_succ_of_le (UInt32.le_iff_toNat_le.mp hvec)
  have hcov := h.covers vector.toNat hlt
  rw [UInt32.ofNat_toNat] at hcov
  have hword : ofNat vector.toNat = vector.toUInt64 := by
    rw [← UInt64.toNat_inj, toNat_ofNat_of_lt' (by rw [size]; omega),
      UInt32.toNat_toUInt64]
  rw [hword] at hcov
  rw [hcov, HalGrant.Admits, if_neg hcnt, Bool.not_eq_true]

include hapi in
theorem seeded_band (hcnt : grant.count = 0) : Seeded grant (api.addRange'
      (api.addRange' [] ⟨0, deviceVectorFirst.toUInt64 - 1, 0, false, none⟩ false)
      ⟨deviceVectorLast.toUInt64 + 1, maxIdtVector.toUInt64, 0, false, none⟩ false) := by
  have hnone : ∀ x ∈ ([] : IdtEntries), ¬ x.Overlaps 0 (deviceVectorFirst.toUInt64 - 1) := by simp
  have hfree : ∀ x ∈ api.addRange' [] ⟨0, deviceVectorFirst.toUInt64 - 1, 0, false, none⟩ false,
      ¬ x.Overlaps (deviceVectorLast.toUInt64 + 1) maxIdtVector.toUInt64 :=
    hapi.forall_addRange'_free (by decide) hnone (by decide) (by simp)
  refine ⟨hapi.apart_addRange'_free (by decide) hfree
      (hapi.apart_addRange'_free (by decide) hnone .nil),
    hapi.forall_addRange'_free (by decide) hfree (by decide)
      (hapi.forall_addRange'_free (by decide) hnone (by decide) (by simp)),
    fun vector hvec => ?_⟩
  rw [hapi.covers_addRange'_free (by decide) hfree, hapi.covers_addRange'_free (by decide) hnone,
    HalGrant.Admits, if_pos hcnt]
  have hle : vector.toNat ≤ 255 := UInt32.le_iff_toNat_le.mp hvec
  simp only [RangeList.Covers, List.not_mem_nil, false_and, exists_false, or_false]
  change 192 ≤ vector.toNat ∧ vector.toNat ≤ 255 ∨ 0 ≤ vector.toNat ∧ vector.toNat ≤ 79 ↔
    ¬ (80 ≤ vector.toNat ∧ vector.toNat ≤ 191)
  omega

include hapi in
theorem seedIdtState_seeded (grant : HalGrant) : Seeded grant (uacpiNtSeedIdtState api grant) := by
  rw [uacpiNtSeedIdtState]
  split
  · exact seeded_band hapi ‹_›
  · have hst : SeededBelow grant 0 [] :=
      ⟨List.Pairwise.nil, by simp, by simp, fun v hv => absurd hv (Nat.not_lt_zero v)⟩
    exact (seedUngranted_spec hapi hst (by omega) (by omega)).seeded ‹_›

end

end UacpiNt
