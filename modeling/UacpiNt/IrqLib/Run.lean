import UacpiNt.IrqLib.Vector

/-!
# The search for a run of vectors

A run is searched upwards from the first aligned vector of the device band. The end of a
candidate is computed with wrap-around, so a run of almost all 32-bit numbers can seem to end
in the band; such a run passes vector zero. Every other run that is found lies in the band.
-/

namespace UacpiNt

open UInt32
open UInt32 (toNat_inj toNat_zero toNat_sub toNat_add)

def RunInBand (base count : UInt32) : Prop :=
  0x50 ≤ base.toNat ∧ base.toNat + count.toNat ≤ 0xC0
deriving Decidable

variable {count base : UInt32} {api : IdtApi} {s : VectorState}

theorem and_pred_eq_zero_iff (hcnt : count ≠ 0) :
    count &&& (count - 1) = 0 ↔ count.toNat.isPowerOfTwo := by
  have hpos := toNat_ne_zero hcnt
  have hone : (1 : UInt32) ≤ count := by
    rw [le_iff_toNat_le, toNat_one]
    omega
  rw [← toNat_inj, UInt32.toNat_and, UInt32.toNat_sub_of_le _ _ hone, toNat_one,
    toNat_zero, Nat.and_sub_one_eq_zero_iff_isPowerOfTwo hpos]

theorem runAlignment_cases (hcnt : count ≠ 0) : runAlignment count = 1 ∨
      runAlignment count = count ∧ ∃ j : Fin 32, count = 1 <<< ofNat j.val := by
  rw [runAlignment]
  split
  · exact .inl rfl
  rename_i hzero
  refine .inr ⟨rfl, ?_⟩
  obtain ⟨j, hj⟩ := (and_pred_eq_zero_iff hcnt).mp (not_not.mp hzero)
  have hlt : j < 32 := by
    have hsize := count.toNat_lt
    rw [hj] at hsize
    exact (Nat.pow_lt_pow_iff_right (by omega)).mp hsize
  refine ⟨⟨j, hlt⟩, toNat_inj.mp ?_⟩
  rw [UInt32.toNat_shiftLeft, toNat_ofNat_of_lt' (by rw [size]; omega), hj,
    toNat_one, Nat.mod_eq_of_lt hlt, Nat.one_shiftLeft, Nat.mod_eq_of_lt]
  exact hj ▸ count.toNat_lt

/-- The alignment asks that a run whose length is a power of two start at a multiple of it. -/
theorem mod_runAlignment_iff (hcnt : count ≠ 0) (base : Nat) :
    base % (runAlignment count).toNat = 0 ↔ (count.toNat.isPowerOfTwo → count.toNat ∣ base) := by
  rw [runAlignment]
  split
  · rename_i hnz
    rw [Ne, and_pred_eq_zero_iff hcnt] at hnz
    simp [hnz, Nat.mod_one]
  · rename_i hzero
    have hpower := (and_pred_eq_zero_iff hcnt).mp (not_not.mp hzero)
    simp [hpower, Nat.dvd_iff_mod_eq_zero]

/-- The first candidate is in the band, and does not run past the largest number unless the run
is longer than what is left above it. -/
theorem runFirst_spec (hcnt : count ≠ 0) (hbound : count ≤ 0xFFFFFFB0) :
    0x50 ≤ (runFirst (runAlignment count)).toNat ∧
      (runFirst (runAlignment count)).toNat + count.toNat ≤ 2 ^ 32 ∧
      1 ≤ (runAlignment count).toNat ∧ (runAlignment count).toNat ≤ count.toNat := by
  have hpos := toNat_ne_zero hcnt
  rcases runAlignment_cases hcnt with hone | ⟨hsame, j, rfl⟩
  · have hfst : (runFirst 1).toNat = 0x50 := by decide
    have hbound' : count.toNat ≤ 0xFFFFFFB0 := le_iff_toNat_le.mp hbound
    rw [hone, toNat_one]
    omega
  · revert j
    decide

section

variable {alignment candidate : UInt32} {fuel : Nat}

theorem searchRun_some (h : searchRun api s count alignment fuel candidate = some base) :
    base + count - 1 ≤ deviceVectorLast ∧ runFree api s base count = true := by
  induction fuel generalizing candidate with
  | zero => cases h
  | succ fuel ih =>
    rw [searchRun] at h
    split at h
    · split at h
      · cases h
        exact ⟨‹_›, ‹_›⟩
      · exact ih h
    · cases h

theorem toNat_next (hal : 1 ≤ alignment.toNat ∧ alignment.toNat ≤ count.toNat)
    (hroom : candidate.toNat + count.toNat ≤ 2 ^ 32)
    (hend : candidate + count - 1 ≤ deviceVectorLast) : candidate.toNat + count.toNat ≤ 0xC0 ∧
      (candidate + alignment).toNat = candidate.toNat + alignment.toNat := by
  have hend' := le_iff_toNat_le.mp hend
  have hlast : deviceVectorLast.toNat = 0xBF := rfl
  rw [toNat_sub, toNat_add, toNat_one] at hend'
  rw [toNat_add]
  omega

theorem end_le_last (hcnt : 1 ≤ count.toNat) (hend : candidate.toNat + count.toNat ≤ 0xC0) :
    candidate + count - 1 ≤ deviceVectorLast := by
  have hlast : deviceVectorLast.toNat = 0xBF := rfl
  rw [le_iff_toNat_le, toNat_sub, toNat_add, toNat_one]
  omega

theorem searchRun_inBand (hal : 1 ≤ alignment.toNat ∧ alignment.toNat ≤ count.toNat)
    (hfst : 0x50 ≤ candidate.toNat) (hroom : candidate.toNat + count.toNat ≤ 2 ^ 32)
    (h : searchRun api s count alignment fuel candidate = some base) : RunInBand base count := by
  induction fuel generalizing candidate with
  | zero => cases h
  | succ fuel ih =>
    rw [searchRun] at h
    split at h
    · rename_i hend
      obtain ⟨hband, hnext⟩ := toNat_next hal hroom hend
      split at h
      · cases h
        exact ⟨hfst, hband⟩
      · exact ih (by omega) (by omega) h
    · cases h

theorem searchRun_ge (hfuel : candidate.toNat + fuel < 2 ^ 32)
    (h : searchRun api s count 1 fuel candidate = some base) : candidate.toNat ≤ base.toNat := by
  induction fuel generalizing candidate with
  | zero => cases h
  | succ fuel ih =>
    have hnext : (candidate + 1).toNat = candidate.toNat + 1 := by
      rw [toNat_add, toNat_one]
      omega
    rw [searchRun] at h
    split at h
    · split at h
      · cases h
        exact Nat.le_refl _
      · have hle := ih (by omega) h
        omega
    · cases h

theorem free_zero_of_wrapped (hfree : runFree api s base count = true) (hbase : 0 < base.toNat)
    (hwrap : 2 ^ 32 < base.toNat + count.toNat) : uacpiNtVectorFreeEverywhere api s 0 = true := by
  rw [runFree, List.all_eq_true] at hfree
  have hlt := base.toNat_lt
  have hofs := hfree (2 ^ 32 - base.toNat) (List.mem_range.mpr (by omega))
  have hsum : base + ofNat (2 ^ 32 - base.toNat) = 0 := by
    rw [← toNat_inj, toNat_add,
      toNat_ofNat_of_lt' (by rw [size]; omega), toNat_zero]
    omega
  rw [hsum] at hofs
  exact hofs

theorem searchRun_aligned (hal : 1 ≤ alignment.toNat ∧ alignment.toNat ≤ count.toNat)
    (hroom : candidate.toNat + count.toNat ≤ 2 ^ 32) (halig : candidate.toNat % alignment.toNat = 0)
    (h : searchRun api s count alignment fuel candidate = some base) :
    base.toNat % alignment.toNat = 0 := by
  induction fuel generalizing candidate with
  | zero => cases h
  | succ fuel ih =>
    rw [searchRun] at h
    split at h
    · obtain ⟨hband, hnext⟩ := toNat_next hal hroom ‹_›
      split at h
      · cases h
        exact halig
      · refine ih (by omega) ?_ h
        rw [hnext, Nat.add_mod_right, halig]
    · cases h

/-- A run that is free is found, unless a lower one is, if all runs up to it seem to end in the
band. -/
theorem searchRun_le {steps : Nat} (hsteps : candidate.toNat + steps * alignment.toNat = base.toNat)
    (hends : ∀ c : UInt32, candidate.toNat ≤ c.toNat → c.toNat ≤ base.toNat →
      c + count - 1 ≤ deviceVectorLast)
    (hfree : runFree api s base count = true) (hfuel : steps < fuel) :
    ∃ found, searchRun api s count alignment fuel candidate = some found ∧
      found.toNat ≤ base.toNat := by
  induction steps generalizing candidate fuel with
  | zero =>
    obtain ⟨fuel, rfl⟩ := Nat.exists_eq_add_one_of_ne_zero (Nat.ne_of_gt hfuel)
    obtain rfl : candidate = base := toNat_inj.mp (by omega)
    refine ⟨candidate, ?_, Nat.le_refl _⟩
    rw [searchRun, if_pos (hends candidate (Nat.le_refl _) (Nat.le_refl _)), if_pos hfree]
  | succ steps ih =>
    obtain ⟨fuel, rfl⟩ := Nat.exists_eq_add_one_of_ne_zero (Nat.ne_of_gt (Nat.zero_lt_of_lt hfuel))
    rw [Nat.add_one_mul] at hsteps
    have hlt := base.toNat_lt
    have hnext : (candidate + alignment).toNat = candidate.toNat + alignment.toNat := by
      rw [toNat_add]
      omega
    rw [searchRun, if_pos (hends candidate (Nat.le_refl _) (by omega))]
    split
    · exact ⟨candidate, rfl, by omega⟩
    · refine ih (by omega) (fun c hc => ?_) (Nat.lt_of_succ_lt_succ hfuel)
      exact hends c (by omega)

end

theorem runAlignment_of_gt (h : 0xFFFFFFB0 < count) : runAlignment count = 1 := by
  have hcnt : count ≠ 0 := by
    rintro rfl
    exact absurd h (by decide)
  rcases runAlignment_cases hcnt with hone | ⟨-, j, rfl⟩
  · exact hone
  · have hpow : ∀ j : Fin 32, (1 : UInt32) <<< ofNat j.val ≤ 0xFFFFFFB0 := by decide
    exact absurd (hpow j) (UInt32.not_le.mpr h)

def firstRun (api : IdtApi) (s : VectorState) (count : UInt32) : Option UInt32 :=
  searchRun api s count (runAlignment count) 256 (runFirst (runAlignment count))

theorem search_cases (hcnt : count ≠ 0) (h : firstRun api s count = some base) :
    RunInBand base count ∨ 0xFFFFFFB0 < count ∧ base + count - 1 < base ∧
      uacpiNtVectorFreeEverywhere api s 0 = true := by
  by_cases hsmall : count ≤ 0xFFFFFFB0
  · obtain ⟨hfst, hroom, hal⟩ := runFirst_spec hcnt hsmall
    exact .inl (searchRun_inBand hal hfst hroom h)
  have hlarge := UInt32.not_le.mp hsmall
  have hlarge' : 0xFFFFFFB0 < count.toNat := lt_iff_toNat_lt.mp hlarge
  rw [firstRun, runAlignment_of_gt hlarge] at h
  have hbase : 0x50 ≤ base.toNat := searchRun_ge (by decide) h
  obtain ⟨hend, hfree⟩ := searchRun_some h
  refine .inr ⟨hlarge, ?_, free_zero_of_wrapped hfree (by omega) (by omega)⟩
  have hlt' := count.toNat_lt
  rw [lt_iff_toNat_lt, toNat_sub, toNat_add, toNat_one]
  omega

/-! ### Runs that are available -/

/-- The run could be given out: it is in the band, aligned and free. -/
structure RunAt (api : IdtApi) (s : VectorState) (count base : UInt32) : Prop where
  inBand : RunInBand base count
  aligned : base.toNat % (runAlignment count).toNat = 0
  free : runFree api s base count = true

def RunAvailable (api : IdtApi) (s : VectorState) (count : UInt32) : Prop :=
  ∃ base, RunAt api s count base

theorem runAlignment_pow (hcnt : count ≠ 0) :
    ∃ j : Fin 32, runAlignment count = 1 <<< ofNat j.val := by
  rcases runAlignment_cases hcnt with hone | ⟨hsame, j, hj⟩
  · exact ⟨0, hone⟩
  · exact ⟨j, hsame.trans hj⟩

theorem runFirst_pow : ∀ j : Fin 32, (runFirst (1 <<< ofNat j.val)).toNat =
    (0x4F / (1 <<< ofNat j.val : UInt32).toNat + 1) *
      (1 <<< ofNat j.val : UInt32).toNat := by
  decide

theorem runFirst_aligned (hcnt : count ≠ 0) :
    (runFirst (runAlignment count)).toNat % (runAlignment count).toNat = 0 := by
  obtain ⟨j, hj⟩ := runAlignment_pow hcnt
  rw [hj, runFirst_pow, Nat.mul_mod_left]

theorem exists_steps (hcnt : count ≠ 0) (hband : RunInBand base count)
    (halig : base.toNat % (runAlignment count).toNat = 0) :
    ∃ steps < 256, (runFirst (runAlignment count)).toNat +
      steps * (runAlignment count).toNat = base.toNat := by
  have hpos : 1 ≤ (runAlignment count).toNat := by
    have hpow : ∀ j : Fin 32, 1 ≤ (1 <<< ofNat j.val : UInt32).toNat := by decide
    obtain ⟨j, hj⟩ := runAlignment_pow hcnt
    rw [hj]
    exact hpow j
  obtain ⟨j, hj⟩ := runAlignment_pow hcnt
  have hfst := runFirst_pow j
  rw [← hj] at hfst
  obtain ⟨q, hq⟩ := Nat.dvd_of_mod_eq_zero halig
  rw [Nat.mul_comm] at hq
  obtain ⟨hbegin, hend⟩ := hband
  have hlt : 0x4F / (runAlignment count).toNat < q := by
    rw [Nat.div_lt_iff_lt_mul hpos]
    omega
  have hle : q - (0x4F / (runAlignment count).toNat + 1) ≤ base.toNat := by
    rw [hq]
    exact (Nat.sub_le _ _).trans (Nat.le_mul_of_pos_right q hpos)
  refine ⟨q - (0x4F / (runAlignment count).toNat + 1), by omega, ?_⟩
  rw [hfst, ← Nat.add_mul, Nat.add_sub_cancel' hlt, hq]

theorem RunAt.search (hcnt : count ≠ 0) (h : RunAt api s count base) :
    ∃ found, firstRun api s count = some found ∧ found.toNat ≤ base.toNat := by
  obtain ⟨steps, hlt, hsteps⟩ := exists_steps hcnt h.inBand h.aligned
  have hpos := toNat_ne_zero hcnt
  refine searchRun_le hsteps (fun c _ hc => ?_) h.free hlt
  have hend := h.inBand.2
  exact end_le_last (Nat.one_le_iff_ne_zero.mpr hpos) (by omega)

theorem runAt_of_search {found : UInt32} (hcnt : count ≠ 0) (hbound : count ≤ 0xFFFFFFB0)
    (h : firstRun api s count = some found) : RunAt api s count found := by
  obtain ⟨hfst, hroom, hal⟩ := runFirst_spec hcnt hbound
  exact ⟨searchRun_inBand hal hfst hroom h,
    searchRun_aligned hal hroom (runFirst_aligned hcnt) h, (searchRun_some h).2⟩

theorem RunAt.mono {s' : VectorState} (h : RunAt api s count base)
    (hfree : ∀ v, uacpiNtVectorFreeEverywhere api s v = true →
      uacpiNtVectorFreeEverywhere api s' v = true) : RunAt api s' count base := by
  refine ⟨h.inBand, h.aligned, ?_⟩
  have hrun := h.free
  rw [runFree, List.all_eq_true] at hrun ⊢
  exact fun offset hofs => hfree _ (hrun offset hofs)

end UacpiNt
