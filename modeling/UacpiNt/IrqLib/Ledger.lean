import UacpiNt.IrqLib.Run
import UacpiNt.IrqLib.Seed

/-!
# The ledger of vectors

The first processor that is tracked has seen every vector that was ever handed out. Its list is
the ledger: the vectors that devices must not have, one vector for each line that got one, and
the runs in the table, all disjoint. Processors that come later miss what was handed out before,
but a vector has to be free on the first one too.
-/

namespace UacpiNt

open List RangeList UInt32

variable {api : IdtApi} {grant : HalGrant}

/-! ### Free vectors -/

theorem vectorFreeEverywhere_iff (hapi : api.Lawful) (s : VectorState) (vector : UInt32) :
    uacpiNtVectorFreeEverywhere api s vector = true ↔
      ∀ used, some used ∈ s.processorIdt → ¬ RangeList.Covers used vector.toUInt64 := by
  rw [uacpiNtVectorFreeEverywhere, all_eq_true]
  constructor
  · intro h used hused
    have hfree := h (some used) hused
    rw [Option.all_some, decide_eq_true_eq, hapi.available_spec] at hfree
    rintro ⟨x, hx, hover⟩
    have hper := hfree x hx hover
    rw [Terms.none_permits] at hper
    exact Bool.false_ne_true hper
  · intro h idt hidt
    cases idt with
    | none => rfl
    | some used =>
      rw [Option.all_some, decide_eq_true_eq, hapi.available_spec]
      intro x hx hover
      exact absurd ⟨x, hx, hover⟩ (h used hidt)

theorem not_overlaps_of_runFree (hapi : api.Lawful) {s : VectorState} {base count : UInt32}
    (hcnt : count ≠ 0) (hband : RunInBand base count)
    (hfree : runFree api s base count = true) {used : IdtEntries}
    (hused : some used ∈ s.processorIdt) (hwide : ∀ x ∈ used, x.start ≤ x.last) :
    ∀ x ∈ used, ¬ x.Overlaps base.toUInt64 (base + count - 1).toUInt64 := by
  intro x hx hover
  have hpoint : ∀ v : UInt64, base.toNat ≤ v.toNat → v.toNat < base.toNat + count.toNat →
      ¬ x.Overlaps v v := by
    intro v hle hlt hov
    rw [runFree, all_eq_true] at hfree
    have hofs := hfree (v.toNat - base.toNat) (mem_range.mpr (by omega))
    rw [vectorFreeEverywhere_iff hapi] at hofs
    have hband' := hband.2
    have hword : (base + ofNat (v.toNat - base.toNat)).toUInt64 = v := by
      rw [← UInt64.toNat_inj, toNat_toUInt64, UInt32.toNat_add,
        toNat_ofNat_of_lt' (by rw [size]; omega)]
      omega
    rw [hword] at hofs
    exact hofs used hused ⟨x, hx, hov⟩
  have hst := UInt64.le_iff_toNat_le.mp hover.1
  have hpos := toNat_ne_zero hcnt
  rw [toNat_toUInt64, UInt32.toNat_sub, UInt32.toNat_add, toNat_one] at hst
  by_cases hbase : x.start ≤ base.toUInt64
  · exact hpoint base.toUInt64 (by simp) (by simp; omega) ⟨hbase, hover.2⟩
  · rw [UInt64.le_iff_toNat_le, toNat_toUInt64] at hbase
    exact hpoint x.start (by omega) (by omega) ⟨UInt64.le_refl _, hwide x hx⟩

theorem claimVectors_perm (hapi : api.Lawful) {s : VectorState} {first last : UInt32}
    (owner : Option UInt32) (hle : first.toUInt64 ≤ last.toUInt64) {used : IdtEntries}
    (hused : some used ∈ s.processorIdt) (hapart : Apart used)
    (hfree : ∀ x ∈ used, ¬ x.Overlaps first.toUInt64 last.toUInt64) :
    ∃ used', some used' ∈ (uacpiNtClaimVectors api first last owner s).processorIdt ∧
      Apart used' ∧ used'.Perm (⟨first.toUInt64, last.toUInt64, 0, false, owner⟩ :: used) :=
  ⟨_, mem_map_of_mem hused, hapi.apart_addRange'_free hle hfree hapart,
    hapi.addRange'_free hle hfree⟩

/-! ### The table of runs as ranges -/

def lineRange (line : UInt32 × UInt32) : RangeList.Range UInt64 UInt32 :=
  ⟨line.2.toUInt64, line.2.toUInt64, 0, false, lineRangeOwner line.1⟩

def MessageRun.range (run : MessageRun) : RangeList.Range UInt64 UInt32 :=
  ⟨run.base.toUInt64, (run.base + run.count - 1).toUInt64, 0, false, msiRangeOwner⟩

/-- The run has vectors. A run that wraps around has none: its range is backwards, so that it
was not entered anywhere. -/
def MessageRun.Held (run : MessageRun) : Prop :=
  run.count ≠ 0 ∧ run.base ≤ run.base + run.count - 1
deriving Decidable

def MessageRun.ranges (run : MessageRun) : IdtEntries :=
  if run.Held then [run.range] else []

theorem MessageRun.ranges_of_count {run : MessageRun} (h : run.count = 0) : run.ranges = [] :=
  if_neg fun hheld => hheld.1 h

theorem MessageRun.range_wide_iff {run : MessageRun} :
    run.range.start ≤ run.range.last ↔ run.base ≤ run.base + run.count - 1 :=
  UInt32.toUInt64_le

theorem RunInBand.held {run : MessageRun} (hcnt : run.count ≠ 0)
    (h : RunInBand run.base run.count) : run.Held := by
  have hne := toNat_ne_zero hcnt
  obtain ⟨hfst, hend⟩ := h
  refine ⟨hcnt, ?_⟩
  rw [le_iff_toNat_le, UInt32.toNat_sub, UInt32.toNat_add, toNat_one]
  omega

namespace VectorState

section

variable (s : VectorState) (i : Fin maxMessageRuns) (run : MessageRun) (gsiv vector : UInt32)

def runRanges : IdtEntries :=
  (List.finRange maxMessageRuns).flatMap fun i => (s.messageRuns i).ranges

def otherRanges : IdtEntries :=
  ((List.finRange maxMessageRuns).erase i).flatMap fun j => (s.messageRuns j).ranges

theorem runRanges_perm : s.runRanges.Perm ((s.messageRuns i).ranges ++ s.otherRanges i) :=
  (perm_cons_erase (mem_finRange i)).flatMap_right _

@[simp] theorem setRun_self : (s.setRun i run).messageRuns i = run := Function.update_self _ _ _

theorem setRun_of_ne {i j : Fin maxMessageRuns} (h : j ≠ i) :
    (s.setRun i run).messageRuns j = s.messageRuns j :=
  Function.update_of_ne h _ _

theorem runRanges_setRun : (s.setRun i run).runRanges.Perm (run.ranges ++ s.otherRanges i) := by
  refine (runRanges_perm _ i).trans (.of_eq ?_)
  rw [setRun_self, otherRanges, flatMap_def]
  congr 2
  refine map_congr_left fun j hj => ?_
  rw [setRun_of_ne s run ((nodup_finRange _).mem_erase_iff.mp hj).1]

theorem forall_setRun {P : MessageRun → Prop} {s : VectorState} {i : Fin maxMessageRuns}
    {run : MessageRun} (h : ∀ j, P (s.messageRuns j)) (hrun : P run) (j : Fin maxMessageRuns) :
    P ((s.setRun i run).messageRuns j) := by
  by_cases hj : j = i
  · rw [hj, setRun_self]
    exact hrun
  · rw [setRun_of_ne s run hj]
    exact h j

theorem mem_runRanges {s : VectorState} {x : Range UInt64 UInt32} :
    x ∈ s.runRanges ↔ ∃ i, (s.messageRuns i).Held ∧ x = (s.messageRuns i).range := by
  rw [runRanges, mem_flatMap]
  constructor
  · rintro ⟨i, -, hx⟩
    rw [MessageRun.ranges] at hx
    split at hx
    · exact ⟨i, ‹_›, mem_singleton.mp hx⟩
    · cases hx
  · rintro ⟨i, hheld, rfl⟩
    refine ⟨i, mem_finRange i, ?_⟩
    rw [MessageRun.ranges, if_pos hheld]
    exact mem_singleton_self _

/-! ### The table of lines -/

theorem assignVector_processorIdt : (s.assignVector gsiv vector).processorIdt = s.processorIdt := by
  rw [assignVector]
  split <;> rfl

theorem assignVector_messageRuns : (s.assignVector gsiv vector).messageRuns = s.messageRuns := by
  rw [assignVector]
  split <;> rfl

theorem assignedVector_assignVector (other : UInt32) :
    (s.assignVector gsiv vector).assignedVector other =
      if other = gsiv ∧ gsiv.toNat < uacpiNtMaxGsiv then vector else s.assignedVector other := by
  rw [assignVector]
  split <;> rename_i hgsiv
  · by_cases heq : other = gsiv
    · subst heq
      simp [assignedVector, hgsiv]
    rw [if_neg (fun h => heq h.1), assignedVector, assignedVector]
    split
    · refine Function.update_of_ne ?_ _ _
      intro hfin
      exact heq (UInt32.toNat_inj.mp (Fin.mk.inj hfin))
    · rfl
  · rw [if_neg (fun h => hgsiv h.2)]

end

end VectorState

/-! ### The ledger -/

/-- The ledger, with the vectors that lines have got. -/
structure Ledger (api : IdtApi) (grant : HalGrant) (lines : List (UInt32 × UInt32))
    (s : VectorState) : Prop where
  tracked : ∃ used, some used ∈ s.processorIdt ∧ Apart used ∧
    used.Perm (uacpiNtSeedIdtState api grant ++ (lines.map lineRange ++ s.runRanges))
  lines_band : ∀ line ∈ lines, RunInBand line.2 1
  runs_band : ∀ i, (s.messageRuns i).Held →
    RunInBand (s.messageRuns i).base (s.messageRuns i).count
  assigned : ∀ gsiv, s.assignedVector gsiv ≠ 0 → (gsiv, s.assignedVector gsiv) ∈ lines
  unowned : ∀ i, (s.messageRuns i).owner = none → (s.messageRuns i).count = 0

namespace Ledger

variable {lines : List (UInt32 × UInt32)} {s : VectorState}

theorem wide (hapi : api.Lawful) {x : Range UInt64 UInt32}
    (hx : x ∈ uacpiNtSeedIdtState api grant ++ (lines.map lineRange ++ s.runRanges)) :
    x.start ≤ x.last := by
  rcases mem_append.mp hx with hx | hx
  · exact (seedIdtState_seeded hapi grant).wide x hx
  rcases mem_append.mp hx with hx | hx
  · obtain ⟨line, -, rfl⟩ := mem_map.mp hx
    exact UInt64.le_refl _
  · obtain ⟨i, hheld, rfl⟩ := VectorState.mem_runRanges.mp hx
    exact MessageRun.range_wide_iff.mpr hheld.2

theorem perm_insert {α : Type} {x : α} {as bs cs : List α} :
    (x :: (as ++ (bs ++ cs))).Perm (as ++ (bs ++ ([x] ++ cs))) := by
  rw [← append_assoc, ← append_assoc]
  exact perm_middle.symm

variable (h : Ledger api grant lines s)

include h

section

variable {i : Fin maxMessageRuns} {vector : UInt32} {run : MessageRun}

theorem admits_of_free (hapi : api.Lawful) (hvect : vector ≤ maxIdtVector)
    (hfree : uacpiNtVectorFreeEverywhere api s vector = true) : grant.Admits vector := by
  obtain ⟨used, hused, -, hperm⟩ := h.tracked
  by_contra hnone
  obtain ⟨x, hx, hover⟩ := ((seedIdtState_seeded hapi grant).covers vector hvect).mpr hnone
  refine (vectorFreeEverywhere_iff hapi s vector).mp hfree used hused ⟨x, ?_, hover⟩
  exact hperm.mem_iff.mpr (mem_append_left _ hx)

theorem processorIdt_ne_nil : s.processorIdt ≠ [] := by
  obtain ⟨used, hused, -⟩ := h.tracked
  exact ne_nil_of_mem hused

theorem not_free (hapi : api.Lawful) {x : Range UInt64 UInt32}
    (hx : x ∈ lines.map lineRange ++ s.runRanges)
    (hover : x.Overlaps vector.toUInt64 vector.toUInt64) :
    uacpiNtVectorFreeEverywhere api s vector = false := by
  obtain ⟨used, hused, -, hperm⟩ := h.tracked
  refine Bool.eq_false_iff.mpr fun hfree => ?_
  refine (vectorFreeEverywhere_iff hapi s vector).mp hfree used hused ⟨x, ?_, hover⟩
  exact hperm.mem_iff.mpr (mem_append_right _ hx)

theorem of_eq {s' : VectorState} (hprocs : s'.processorIdt = s.processorIdt)
    (hvec : s'.gsivVector = s.gsivVector) (hruns : s'.messageRuns = s.messageRuns) :
    Ledger api grant lines s' := by
  obtain ⟨processorIdt, gsivVector, messageRuns, secondary⟩ := s
  subst hprocs hvec hruns
  exact ⟨h.tracked, h.lines_band, h.runs_band, h.assigned, h.unowned⟩

theorem tracked_at (i : Fin maxMessageRuns) : ∃ used, some used ∈ s.processorIdt ∧ Apart used ∧
    used.Perm (uacpiNtSeedIdtState api grant ++
      (lines.map lineRange ++ ((s.messageRuns i).ranges ++ s.otherRanges i))) := by
  obtain ⟨used, hused, hapart, hperm⟩ := h.tracked
  exact ⟨used, hused, hapart, hperm.trans (((s.runRanges_perm i).append_left _).append_left _)⟩

theorem replaceRun {processorIdt : List (Option IdtEntries)} {used : IdtEntries}
    (hused : some used ∈ processorIdt) (hapart : Apart used)
    (hperm : used.Perm (uacpiNtSeedIdtState api grant ++ (lines.map lineRange ++ (run.ranges ++
      s.otherRanges i)))) (hband : run.Held → RunInBand run.base run.count)
    (hown : run.owner = none → run.count = 0) :
    Ledger api grant lines ({ s with processorIdt }.setRun i run) where
  tracked := ⟨used, hused, hapart,
    hperm.trans (((VectorState.runRanges_setRun _ i run).symm.append_left _).append_left _)⟩
  lines_band := h.lines_band
  runs_band := VectorState.forall_setRun (P := fun run => run.Held → RunInBand run.base run.count)
    h.runs_band hband
  assigned := h.assigned
  unowned := VectorState.forall_setRun (P := fun run => run.owner = none → run.count = 0)
    h.unowned hown

theorem setClaimed (i : Fin maxMessageRuns) (claimed : Bool) :
    Ledger api grant lines (s.setRun i { s.messageRuns i with claimed := claimed }) := by
  obtain ⟨used, hused, hapart, hperm⟩ := h.tracked_at i
  exact h.replaceRun hused hapart hperm (h.runs_band i) (h.unowned i)

theorem claimLine (hapi : api.Lawful) {gsiv : UInt32} (hband : RunInBand vector 1)
    (hfree : uacpiNtVectorFreeEverywhere api s vector = true) :
    Ledger api grant ((gsiv, vector) :: lines)
      ((uacpiNtClaimVectors api vector vector (lineRangeOwner gsiv) s).assignVector gsiv
        vector) := by
  obtain ⟨used, hused, hapart, hperm⟩ := h.tracked
  have hnone : ∀ x ∈ used, ¬ x.Overlaps vector.toUInt64 vector.toUInt64 := fun x hx hover =>
    (vectorFreeEverywhere_iff hapi s vector).mp hfree used hused ⟨x, hx, hover⟩
  obtain ⟨used', hused', hapart', hperm'⟩ := claimVectors_perm hapi (lineRangeOwner gsiv)
    (UInt64.le_refl _) hused hapart hnone
  have hruns : ((uacpiNtClaimVectors api vector vector (lineRangeOwner gsiv) s).assignVector gsiv
      vector).messageRuns = s.messageRuns := VectorState.assignVector_messageRuns _ _ _
  have hrngs : ((uacpiNtClaimVectors api vector vector (lineRangeOwner gsiv) s).assignVector
      gsiv vector).runRanges = s.runRanges := by
    rw [VectorState.runRanges, hruns]
    rfl
  refine ⟨⟨used', ?_, hapart', ?_⟩, forall_mem_cons.mpr ⟨hband, h.lines_band⟩, ?_, ?_, ?_⟩
  · rw [VectorState.assignVector_processorIdt]
    exact hused'
  · rw [hrngs]
    exact hperm'.trans ((hperm.cons _).trans perm_middle.symm)
  · rw [hruns]
    exact h.runs_band
  · intro other
    rw [VectorState.assignedVector_assignVector]
    split
    · rename_i heq
      intro _
      rw [heq.1]
      exact mem_cons_self
    · intro hne
      exact mem_cons_of_mem _ (h.assigned other hne)
  · rw [hruns]
    exact h.unowned

theorem claimRun (hapi : api.Lawful) (hslot : (s.messageRuns i).count = 0) (hown : run.owner ≠ none)
    (hcnt : run.count ≠ 0) (hband : RunInBand run.base run.count)
    (hfree : runFree api s run.base run.count = true) :
    Ledger api grant lines ((uacpiNtClaimVectors api run.base (run.base + run.count - 1)
      msiRangeOwner s).setRun i run) := by
  obtain ⟨used, hused, hapart, hperm⟩ := h.tracked
  have hheld := hband.held hcnt
  have hnone := not_overlaps_of_runFree hapi hcnt hband hfree hused fun x hx =>
    wide hapi (hperm.mem_iff.mp hx)
  obtain ⟨used', hused', hapart', hperm'⟩ := claimVectors_perm hapi msiRangeOwner
    (MessageRun.range_wide_iff.mpr hheld.2) hused hapart hnone
  have hoth := s.runRanges_perm i
  rw [MessageRun.ranges_of_count hslot] at hoth
  refine h.replaceRun hused' hapart' ?_ (fun _ => hband) fun hnone => absurd hnone hown
  rw [MessageRun.ranges, if_pos hheld]
  refine hperm'.trans (((hperm.trans ((hoth.append_left _).append_left _)).cons _).trans ?_)
  exact perm_insert

theorem setRun_unheld (hslot : (s.messageRuns i).ranges = []) (hrun : ¬ run.Held)
    (hown : run.owner = none → run.count = 0) : Ledger api grant lines (s.setRun i run) := by
  obtain ⟨used, hused, hapart, hperm⟩ := h.tracked_at i
  rw [hslot, ← show run.ranges = [] from if_neg hrun] at hperm
  exact h.replaceRun hused hapart hperm (fun hheld => absurd hheld hrun) hown

end

theorem freeBackwards (hapi : api.Lawful) {base count : UInt32}
    (hback : ¬ base ≤ base + defaultCount count - 1) :
    Ledger api grant lines (uacpiNtApicFreeVectorRange api base count s) := by
  obtain ⟨used, hused, hapart, hperm⟩ := h.tracked
  have habs : api.deleteRange' used base.toUInt64
      (base + defaultCount count - 1).toUInt64 msiRangeOwner = used := by
    refine hapi.deleteRange'_absent (c := ⟨_, _, 0, false, _⟩) fun x hx hkey => ?_
    have hwide := wide hapi (hperm.mem_iff.mp hx)
    obtain ⟨hst, hlast, -⟩ := Range.fields_of_key hkey
    rw [hst, hlast] at hwide
    exact hback (UInt32.toUInt64_le.mp hwide)
  refine ⟨⟨used, ?_, hapart, hperm⟩, h.lines_band, h.runs_band, h.assigned, h.unowned⟩
  refine mem_map.mpr ⟨some used, hused, ?_⟩
  rw [Option.map_some, habs]

end Ledger

theorem claimVectors_backwards (hapi : api.Lawful) (s : VectorState) {first last : UInt32}
    (owner : Option UInt32) (h : ¬ first ≤ last) :
    uacpiNtClaimVectors api first last owner s = s := by
  have hadd : ∀ used : IdtEntries, api.addRange' used
      ⟨first.toUInt64, last.toUInt64, 0, false, owner⟩ false = used := fun used =>
    hapi.addRange'_backwards used (fun hle => h (UInt32.toUInt64_le.mp hle)) false
  simp [uacpiNtClaimVectors, hadd]

end UacpiNt
