import UacpiNt.IrqLib.Reachable

/-!
# First fit for runs of vectors

A run of vectors that was asked for is given at the lowest place where it fits, and its vectors are
in use from then on. There are three exceptions. Without a processor nothing is given; a run of no
vectors is taken for one of a single vector; and a run that wraps around is given where it does not
fit, without its vectors being in use afterwards.
-/

namespace UacpiNt

open List RangeList UInt32

variable {api : IdtApi} {s s' : VectorState} {count base : UInt32}

def InRun (base count : UInt32) (vector : Nat) : Prop :=
  base.toNat ≤ vector ∧ vector < base.toNat + count.toNat

structure FitsAt (s : VectorState) (count base : UInt32) : Prop where
  base_mem : 0x50 ≤ base.toNat ∧ base.toNat ≤ 0xBF
  aligned : count.toNat.isPowerOfTwo → count.toNat ∣ base.toNat
  inBand : base.toNat + count.toNat ≤ 0xC0
  free : ∀ vector : UInt32, InRun base count vector.toNat →
    ∀ used, some used ∈ s.processorIdt → ¬ RangeList.Covers used vector.toUInt64

def Marked (base count : UInt32) (idt idt' : Option IdtEntries) : Prop :=
  idt'.isSome = idt.isSome ∧ ∀ used ∈ idt, ∀ used' ∈ idt', ∀ vector : UInt64,
    RangeList.Covers used' vector ↔ RangeList.Covers used vector ∨ InRun base count vector.toNat

/-- The call succeeds where a run fits, with the lowest one, and marks that. -/
structure FirstFit (api : IdtApi) (s : VectorState) (count : UInt32) : Prop where
  succeeds_iff : (∃ base, (uacpiNtApicAllocateVectorRange api count s).1 = .ok base) ↔
    ∃ base, FitsAt s count base
  least : ∀ base, (uacpiNtApicAllocateVectorRange api count s).1 = .ok base →
    FitsAt s count base ∧ (∀ other, FitsAt s count other → base ≤ other) ∧
      List.Forall₂ (Marked base count) s.processorIdt
        (uacpiNtApicAllocateVectorRange api count s).2.processorIdt

/-- There are processors, unless the run is too long; the run has vectors, unless no processor has
them to itself; and no run that wraps around and seems to end in the band is free. -/
def AllocatesExactly (api : IdtApi) (s : VectorState) (count : UInt32) : Prop :=
  if s.processorIdt = [] then 0x70 < count
  else (count = 0 → ∀ idt ∈ s.processorIdt, idt = none) ∧
    (0xFFFFFFB0 < count → ∀ base : UInt32, 0x50 ≤ base → base + count - 1 ≤ deviceVectorLast →
      runFree api s base count = false)

theorem runFree_iff (hapi : api.Lawful) (hband : base.toNat + count.toNat ≤ 0xC0) :
    runFree api s base count = true ↔ ∀ vector : UInt32, InRun base count vector.toNat →
      ∀ used, some used ∈ s.processorIdt → ¬ RangeList.Covers used vector.toUInt64 := by
  rw [runFree, all_eq_true]
  constructor
  · rintro h vector ⟨hle, hlt⟩
    have hofs := h (vector.toNat - base.toNat) (mem_range.mpr (by omega))
    have hsum : base + ofNat (vector.toNat - base.toNat) = vector := by
      rw [← UInt32.toNat_inj, UInt32.toNat_add,
        toNat_ofNat_of_lt' (by rw [size]; omega)]
      omega
    rw [hsum] at hofs
    exact (vectorFreeEverywhere_iff hapi s vector).mp hofs
  · intro h offset hofs
    rw [mem_range] at hofs
    refine (vectorFreeEverywhere_iff hapi s _).mpr (h _ ?_)
    rw [InRun, UInt32.toNat_add, toNat_ofNat_of_lt' (by rw [size]; omega)]
    omega

theorem fitsAt_iff (hapi : api.Lawful) (hcnt : count ≠ 0) :
    FitsAt s count base ↔ RunAt api s count base := by
  have hpos := toNat_ne_zero hcnt
  constructor
  · rintro ⟨hbase, hal, hband, hfree⟩
    exact ⟨⟨hbase.1, hband⟩, (mod_runAlignment_iff hcnt _).mpr hal,
      (runFree_iff hapi hband).mpr hfree⟩
  · rintro ⟨⟨hbase, hband⟩, hal, hfree⟩
    exact ⟨⟨hbase, by omega⟩, (mod_runAlignment_iff hcnt _).mp hal, hband,
      (runFree_iff hapi hband).mp hfree⟩

theorem marked_claim (hapi : api.Lawful) (hwide : s.Wide) (hcnt : count ≠ 0)
    (hrun : RunAt api s count base) : Forall₂ (Marked base count) s.processorIdt
      (uacpiNtClaimVectors api base (base + count - 1) msiRangeOwner s).processorIdt := by
  have hpos := toNat_ne_zero hcnt
  have hband := hrun.inBand.2
  have hlast : (base + count - 1).toNat = base.toNat + count.toNat - 1 := by
    rw [UInt32.toNat_sub, UInt32.toNat_add, toNat_one]
    omega
  rw [uacpiNtClaimVectors, forall₂_map_right_iff, forall₂_same]
  intro idt hidt
  refine ⟨by simp, ?_⟩
  rintro used rfl used' hused' vector
  obtain rfl := Option.some.inj hused'
  have hfree := not_overlaps_of_runFree hapi hcnt hrun.inBand hrun.free hidt (hwide used hidt)
  rw [hapi.covers_addRange'_free (UInt32.toUInt64_le.mpr (by
    rw [le_iff_toNat_le]
    omega)) hfree, or_comm]
  simp only [RangeList.Range.Overlaps, UInt64.le_iff_toNat_le, toNat_toUInt64, InRun]
  refine or_congr_right ?_
  omega

theorem firstFit_of_le (hapi : api.Lawful) (hwide : s.Wide) (hcnt : count ≠ 0)
    (hbound : count ≤ 0xFFFFFFB0) (hprocs : s.processorIdt ≠ []) : FirstFit api s count := by
  have hdef := defaultCount_of_ne_zero hcnt
  rcases allocateVectorRange_cases api count s with
    ⟨hemp | hnone, e, heq⟩ | ⟨-, base, hsearch, heq⟩
  · exact absurd hemp hprocs
  · rw [hdef] at hnone
    constructor
    · rw [heq]
      refine iff_of_false (fun ⟨_, h⟩ => by cases h) ?_
      rintro ⟨base, hbase⟩
      obtain ⟨found, hfd, -⟩ := ((fitsAt_iff hapi hcnt).mp hbase).search hcnt
      cases hnone.symm.trans hfd
    · rw [heq]
      intro base h
      cases h
  · rw [hdef] at hsearch heq
    have hrun := runAt_of_search hcnt hbound hsearch
    have hfits := (fitsAt_iff hapi hcnt).mpr hrun
    constructor
    · rw [heq]
      exact iff_of_true ⟨base, rfl⟩ ⟨base, hfits⟩
    rw [heq]
    intro base' h
    cases h
    refine ⟨hfits, fun other hoth => ?_, marked_claim hapi hwide hcnt hrun⟩
    obtain ⟨found, hfd, hle⟩ := ((fitsAt_iff hapi hcnt).mp hoth).search hcnt
    cases hsearch.symm.trans hfd
    exact le_iff_toNat_le.mpr hle

theorem firstFit_iff_of_gt (hcnt : 0x70 < count) :
    FirstFit api s count ↔ ∀ base, (uacpiNtApicAllocateVectorRange api count s).1 ≠ .ok base := by
  have hlong : 0x70 < count.toNat := lt_iff_toNat_lt.mp hcnt
  have hnone : ∀ base, ¬ FitsAt s count base := by
    intro base h
    have hbase := h.base_mem.1
    have hband := h.inBand
    omega
  constructor
  · intro h base hok
    exact hnone base (h.least base hok).1
  · intro h
    exact ⟨iff_of_false (fun ⟨base, hok⟩ => h base hok) fun ⟨base, hfits⟩ => hnone base hfits,
      fun base hok => absurd hok (h base)⟩

theorem exists_fitsAt (hcnt : count ≤ 0x70) (hnone : ∀ idt ∈ s.processorIdt, idt = none) :
    ∃ base, FitsAt s count base := by
  have hshort : count.toNat ≤ 0x70 := le_iff_toNat_le.mp hcnt
  have hfree : ∀ vector : UInt64, ∀ used, some used ∈ s.processorIdt →
      ¬ RangeList.Covers used vector := by
    intro _ used hused
    cases hnone _ hused
  by_cases hhalf : count.toNat ≤ 0x40
  · refine ⟨0x80, by decide, ?_, ?_, fun _ _ => hfree _⟩
    · rintro ⟨j, hj⟩
      have hle : 2 ^ j ≤ 2 ^ 7 := by omega
      rw [hj]
      exact Nat.pow_dvd_pow 2 ((Nat.pow_le_pow_iff_right (by omega)).mp hle)
    · have hbase : (0x80 : UInt32).toNat = 0x80 := rfl
      omega
  · refine ⟨0x50, by decide, ?_, ?_, fun _ _ => hfree _⟩
    · rintro ⟨j, hj⟩
      -- There is no power of two above 0x40 and up to 0x70.
      have hlow : 2 ^ 6 < 2 ^ j := by omega
      have hhigh : 2 ^ j < 2 ^ 7 := by omega
      have h6 := (Nat.pow_lt_pow_iff_right (by omega)).mp hlow
      have h7 := (Nat.pow_lt_pow_iff_right (by omega)).mp hhigh
      omega
    · have hbase : (0x50 : UInt32).toNat = 0x50 := rfl
      omega

theorem fitsAt_zero (s : VectorState) (hbase : 0x50 ≤ base.toNat ∧ base.toNat ≤ 0xBF) :
    FitsAt s 0 base := by
  refine ⟨hbase, fun ⟨j, hj⟩ => ?_, by simp; omega, fun vector hvec => ?_⟩
  · exact absurd hj.symm (Nat.ne_of_gt (Nat.pow_pos (by omega)))
  · obtain ⟨hle, hlt⟩ := hvec
    simp at hlt
    omega

/-- A run of no vectors is taken for one vector, which makes no difference only without a
processor. -/
theorem firstFit_zero_iff (hapi : api.Lawful) (hwide : s.Wide) (hprocs : s.processorIdt ≠ []) :
    FirstFit api s 0 ↔ ∀ idt ∈ s.processorIdt, idt = none := by
  have hone : (1 : UInt32) ≠ 0 := by decide
  constructor
  · intro h
    obtain ⟨base, hok⟩ := h.succeeds_iff.mpr ⟨0x50, fitsAt_zero s (by decide)⟩
    obtain ⟨-, -, hmar⟩ := h.least base hok
    rcases allocateVectorRange_cases api 0 s with ⟨-, e, heq⟩ | ⟨-, found, hsearch, heq⟩
    · rw [heq] at hok
      cases hok
    rw [heq] at hok hmar
    cases hok
    have hrun : RunAt api s 1 base := runAt_of_search hone (by decide) hsearch
    have hclaim := marked_claim hapi hwide hone hrun
    rw [uacpiNtClaimVectors, forall₂_map_right_iff, forall₂_same] at hmar hclaim
    intro idt hidt
    cases idt with
    | none => rfl
    | some used =>
      have hfree := ((fitsAt_iff hapi hone).mpr hrun).free base (by simp [InRun]) used hidt
      have hsame := (hmar _ hidt).2 used rfl _ rfl base.toUInt64
      have hnew := (hclaim _ hidt).2 used rfl _ rfl base.toUInt64
      simp [defaultCount, InRun, hfree] at hsame hnew
      exact absurd hnew hsame
  · intro hnone
    have hfits : FitsAt s 1 0x50 :=
      ⟨by decide, fun _ => Nat.one_dvd _, by decide, fun _ _ used hused => by cases hnone _ hused⟩
    obtain ⟨found, hfd, hle⟩ := ((fitsAt_iff hapi hone).mp hfits).search hone
    have hfd' := (runAt_of_search hone (by decide) hfd).inBand
    rcases allocateVectorRange_cases api 0 s with ⟨hemp | hnone', -⟩ | ⟨-, base, hsearch, heq⟩
    · exact absurd hemp hprocs
    · cases hnone'.symm.trans hfd
    cases hsearch.symm.trans hfd
    have hzero : FitsAt s 0 found := fitsAt_zero s ⟨hfd'.1, hle.trans (by simp)⟩
    refine ⟨iff_of_true ⟨found, by rw [heq]⟩ ⟨found, hzero⟩, fun base' hok => ?_⟩
    rw [heq] at hok ⊢
    cases hok
    refine ⟨hzero, fun other hoth => ?_, ?_⟩
    · exact le_iff_toNat_le.mpr (hle.trans hoth.base_mem.1)
    rw [uacpiNtClaimVectors, forall₂_map_right_iff, forall₂_same]
    intro idt hidt
    obtain rfl := hnone idt hidt
    exact ⟨rfl, fun _ h => by cases h⟩

theorem firstFit_wrapped_iff (hcnt : 0xFFFFFFB0 < count) (hprocs : s.processorIdt ≠ []) :
    FirstFit api s count ↔ ∀ base : UInt32, 0x50 ≤ base → base + count - 1 ≤ deviceVectorLast →
      runFree api s base count = false := by
  have hlong : 0xFFFFFFB0 < count.toNat := lt_iff_toNat_lt.mp hcnt
  have hlt := count.toNat_lt
  have hne : count ≠ 0 := by
    rintro rfl
    exact absurd hcnt (by decide)
  rw [firstFit_iff_of_gt (UInt32.lt_trans (by decide) hcnt)]
  rcases allocateVectorRange_cases api count s with
    ⟨hemp | hnone, e, heq⟩ | ⟨-, found, hsearch, heq⟩
  · exact absurd hemp hprocs
  · rw [defaultCount_of_ne_zero hne, firstRun, runAlignment_of_gt hcnt] at hnone
    refine iff_of_true (fun base hok => by rw [heq] at hok; cases hok) fun base hbase hend => ?_
    by_contra hfree
    have hbase' := le_iff_toNat_le.mp hbase
    have hend' := le_iff_toNat_le.mp hend
    have hword := base.toNat_lt
    have hlast : deviceVectorLast.toNat = 0xBF := rfl
    have hst : (0x50 : UInt32).toNat = 0x50 := rfl
    rw [UInt32.toNat_sub, UInt32.toNat_add, toNat_one] at hend'
    -- All runs from the first one up to this one wrap around and end below its end.
    have hsteps : (0x50 : UInt32).toNat + (base.toNat - 0x50) * (1 : UInt32).toNat =
        base.toNat := by
      rw [toNat_one]
      omega
    have hends : ∀ c : UInt32, (0x50 : UInt32).toNat ≤ c.toNat → c.toNat ≤ base.toNat →
        c + count - 1 ≤ deviceVectorLast := by
      intro c hc hle
      rw [le_iff_toNat_le, UInt32.toNat_sub, UInt32.toNat_add, toNat_one]
      omega
    obtain ⟨found, hfd, -⟩ := searchRun_le hsteps hends (Bool.not_eq_false _ ▸ hfree)
      (show base.toNat - 0x50 < 256 by omega)
    cases hnone.symm.trans hfd
  · rw [defaultCount_of_ne_zero hne, firstRun, runAlignment_of_gt hcnt] at hsearch
    refine iff_of_false (fun h => h found (by rw [heq])) fun h => ?_
    obtain ⟨hend, hfree⟩ := searchRun_some hsearch
    have hge := searchRun_ge (by decide) hsearch
    exact absurd (hfree.symm.trans (h found (le_iff_toNat_le.mpr hge) hend)) (by decide)

/-- A run of vectors is given by first fit, and marked exactly, if and only if there are processors
(or the run is too long for the band), the run has vectors (or no processor is seeded), and no run
of that length that wraps around is free. -/
theorem vector_run_first_fit_iff (hapi : api.Lawful) (hwide : s.Wide) (count : UInt32) :
    FirstFit api s count ↔ AllocatesExactly api s count := by
  rw [AllocatesExactly]
  split
  · rename_i hempty
    have herror : ∀ base, (uacpiNtApicAllocateVectorRange api count s).1 ≠ .ok base := by
      simp [uacpiNtApicAllocateVectorRange, hempty]
    constructor
    · intro h
      rw [← UInt32.not_le]
      intro hcount
      obtain ⟨base, hok⟩ := h.succeeds_iff.mpr (exists_fitsAt hcount (by simp [hempty]))
      exact herror base hok
    · exact fun hcount => (firstFit_iff_of_gt hcount).mpr herror
  · rename_i hprocessors
    by_cases hzero : count = 0
    · subst hzero
      simp [firstFit_zero_iff hapi hwide hprocessors]
    · by_cases hbound : count ≤ 0xFFFFFFB0
      · simp [firstFit_of_le hapi hwide hzero hbound hprocessors, hzero, UInt32.not_lt.mpr hbound]
      · have hlarge := UInt32.not_le.mp hbound
        simp [firstFit_wrapped_iff hlarge hprocessors, hzero, hlarge]

theorem four_vectors_first_fit : FirstFit .reference .unused 4 :=
  (vector_run_first_fit_iff IdtApi.reference_lawful (by simp [VectorState.Wide, VectorState.unused])
    4).mpr ⟨by decide, fun h => absurd h (by decide)⟩

/-- A run that wraps around is given, although it fits nowhere, and is not marked. -/
theorem wrapped_run_given :
    uacpiNtApicAllocateVectorRange .reference 0xFFFFFFB1 .unused = (.ok 0x50, .unused) ∧
      (∀ base, ¬ FitsAt .unused 0xFFFFFFB1 base) ∧ ¬ FirstFit .reference .unused 0xFFFFFFB1 := by
  refine ⟨allocate_wrapped_run, fun base h => ?_, fun h => ?_⟩
  · exact absurd (Nat.le_trans (Nat.le_add_left _ _) h.inBand) (by decide)
  · refine (firstFit_iff_of_gt (by decide)).mp h 0x50 ?_
    rw [allocate_wrapped_run]

end UacpiNt
