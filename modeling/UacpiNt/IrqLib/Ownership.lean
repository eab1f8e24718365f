import UacpiNt.IrqLib.Ledger
import UacpiNt.RangeList.Reference

/-!
# Who owns a vector

Over any sequence of calls the ledger is kept. So the vectors of the lines and of the runs in
the tables are disjoint, lie in the device band and were granted, and a vector can be traced
back to its line. The only calls that could break this are those for a run that wraps around.
-/

namespace UacpiNt

open List MessageRun RangeList UInt32 VectorState

variable {api : IdtApi} {grant : HalGrant}

/-! ### What each call does -/

theorem allocateVector_cases (api : IdtApi) (gsiv : UInt32) (s : VectorState) :
    (s.assignedVector gsiv ≠ 0 ∧
      uacpiNtApicAllocateVector api gsiv s = (.ok (s.assignedVector gsiv), s)) ∨
    (s.assignedVector gsiv = 0 ∧ (s.processorIdt = [] ∨
        ∀ v : Nat, 0x50 ≤ v → v < 0xC0 → uacpiNtVectorFreeEverywhere api s (.ofNat v) = false) ∧
      ∃ e, uacpiNtApicAllocateVector api gsiv s = (.error e, s)) ∨
    (s.assignedVector gsiv = 0 ∧ s.processorIdt ≠ [] ∧
      ∃ vector, RunInBand vector 1 ∧ uacpiNtVectorFreeEverywhere api s vector = true ∧
        uacpiNtApicAllocateVector api gsiv s = (.ok vector,
          (uacpiNtClaimVectors api vector vector (lineRangeOwner gsiv) s).assignVector gsiv
            vector)) := by
  rw [uacpiNtApicAllocateVector]
  split
  · exact .inl ⟨‹_›, rfl⟩
  rename_i hnone
  split
  · exact .inr (.inl ⟨not_not.mp hnone, .inl ‹_›, _, rfl⟩)
  rename_i hprocs
  split
  · rename_i hfind
    rw [find?_range'_eq_none] at hfind
    refine .inr (.inl ⟨not_not.mp hnone, .inr fun v hle hlt => ?_, _, rfl⟩)
    simpa using hfind v hle hlt
  · rename_i v hfind
    obtain ⟨hfree, hmem, -⟩ := find?_range'_eq_some.mp hfind
    obtain ⟨hle, hlt⟩ := mem_range'_1.mp hmem
    refine .inr (.inr ⟨not_not.mp hnone, hprocs, .ofNat v, ?_, hfree, rfl⟩)
    rw [RunInBand, toNat_ofNat_of_lt' (by rw [size]; omega), toNat_one]
    omega

theorem allocateVectorRange_cases (api : IdtApi) (count : UInt32) (s : VectorState) :
    ((s.processorIdt = [] ∨ firstRun api s (defaultCount count) = none) ∧
      ∃ e, uacpiNtApicAllocateVectorRange api count s = (.error e, s)) ∨
    (s.processorIdt ≠ [] ∧ ∃ base, firstRun api s (defaultCount count) = some base ∧
      uacpiNtApicAllocateVectorRange api count s =
        (.ok base, uacpiNtClaimVectors api base (base + defaultCount count - 1) msiRangeOwner
          s)) := by
  rw [uacpiNtApicAllocateVectorRange]
  split
  · exact .inl ⟨.inl ‹_›, _, rfl⟩
  rename_i hprocs
  split
  · exact .inl ⟨.inr ‹_›, _, rfl⟩
  · exact .inr ⟨hprocs, _, ‹_›, rfl⟩

theorem allocateRunOrSingle_cases (api : IdtApi) (count : UInt32) (s : VectorState) :
    (∃ e, allocateRunOrSingle api count s = (.error e, s)) ∨
    ∃ base given s', (given = count ∨ given = 1 ∧ 1 < count ∧
        ∃ e, uacpiNtApicAllocateVectorRange api count s = (.error e, s)) ∧
      uacpiNtApicAllocateVectorRange api given s = (.ok base, s') ∧
      allocateRunOrSingle api count s = (.ok (base, given), s') := by
  rw [allocateRunOrSingle]
  rcases allocateVectorRange_cases api count s with ⟨-, e, hfull⟩ | ⟨-, base, -, hfull⟩
    <;> rw [hfull]
  · simp only
    split
    · rename_i hcnt
      rcases allocateVectorRange_cases api 1 s with ⟨-, e', hone⟩ | ⟨-, base, -, hone⟩ <;> rw [hone]
      · exact .inl ⟨e, rfl⟩
      · exact .inr ⟨base, 1, _, .inr ⟨rfl, hcnt, e, rfl⟩, hone, rfl⟩
    · exact .inl ⟨e, rfl⟩
  · exact .inr ⟨base, count, _, .inl rfl, hfull, rfl⟩

variable {count : UInt32} {s s' : VectorState} {lines : List (UInt32 × UInt32)}

theorem allocateVectorRange_ok {base : UInt32}
    (h : uacpiNtApicAllocateVectorRange api count s = (.ok base, s')) :
    firstRun api s (defaultCount count) = some base ∧
      s' = uacpiNtClaimVectors api base (base + defaultCount count - 1) msiRangeOwner s := by
  rcases allocateVectorRange_cases api count s with ⟨-, e, heq⟩ | ⟨-, base', hsearch, heq⟩
    <;> rw [heq] at h
  · cases h
  · cases h
    exact ⟨hsearch, rfl⟩

theorem allocateVectorRange_frame {base : UInt32}
    (h : uacpiNtApicAllocateVectorRange api count s = (.ok base, s')) :
    s'.gsivVector = s.gsivVector ∧ s'.secondaryVectorGsiv = s.secondaryVectorGsiv ∧
      s'.messageRuns = s.messageRuns := by
  obtain ⟨-, rfl⟩ := allocateVectorRange_ok h
  exact ⟨rfl, rfl, rfl⟩

theorem findRun_some {p : MessageRun → Bool} {i : Fin maxMessageRuns} (h : s.findRun p = some i) :
    p (s.messageRuns i) = true :=
  (Fin.find?_eq_some_iff.mp h).1

theorem owner_of_freeRun {i : Fin maxMessageRuns} (h : s.freeRun = some i) :
    (s.messageRuns i).owner = none :=
  Option.isNone_iff_eq_none.mp (findRun_some h)

theorem resolveMessageVector_cases (api : IdtApi) (host : IrqLibHost) (owner : DeviceObject)
    (messageGsiv count : UInt32) (s : VectorState) :
    (∃ e, uacpiNtIrqLibResolveMessageVector api host owner messageGsiv count s = (.error e, s)) ∨
    (∃ i, (s.findRun fun run => decide (run.owner = some owner ∧
        run.messageGsiv = messageGsiv ∧ run.count = defaultCount count)) = some i ∧
      uacpiNtIrqLibResolveMessageVector api host owner messageGsiv count s =
        (.ok ((s.messageRuns i).base, uacpiNtVectorToIrql host (s.messageRuns i).base,
          uacpiNtLowestProcessor host.activeProcessors), s)) ∨
    ((s.findRun fun run => decide (run.owner = some owner ∧
        run.messageGsiv = messageGsiv ∧ run.count = defaultCount count)) = none ∧
      ∃ i base given s', (s.messageRuns i).owner = none ∧
        (given = defaultCount count ∨ given = 1 ∧ 1 < defaultCount count ∧
          ∃ e, uacpiNtApicAllocateVectorRange api (defaultCount count) s = (.error e, s)) ∧
        uacpiNtApicAllocateVectorRange api given s = (.ok base, s') ∧
        uacpiNtIrqLibResolveMessageVector api host owner messageGsiv count s =
          (.ok (base, uacpiNtVectorToIrql host base, uacpiNtLowestProcessor host.activeProcessors),
            s'.setRun i ⟨some owner, messageGsiv, base, given, false⟩)) := by
  rw [uacpiNtIrqLibResolveMessageVector]
  split
  · exact .inl ⟨_, rfl⟩
  split
  · exact .inr (.inl ⟨_, ‹_›, rfl⟩)
  rename_i hnone
  split
  · exact .inl ⟨_, rfl⟩
  rename_i i hfree
  rcases allocateRunOrSingle_cases api (defaultCount count) s with
    ⟨e, heq⟩ | ⟨base, given, s', hgiven, hrng, heq⟩ <;> rw [heq]
  · exact .inl ⟨e, rfl⟩
  · exact .inr (.inr ⟨hnone, i, base, given, s', owner_of_freeRun hfree, hgiven, hrng, rfl⟩)

theorem allocateSecondaryVector_state (gsiv : UInt32) (s : VectorState) :
    ∃ secondary, (uacpiNtAllocateSecondaryVector gsiv s).2 =
      { s with secondaryVectorGsiv := secondary } := by
  rw [uacpiNtAllocateSecondaryVector]
  split
  · exact ⟨_, rfl⟩
  · split
    · exact ⟨_, rfl⟩
    · exact ⟨_, rfl⟩

theorem allocateVector_messageRuns (api : IdtApi) (gsiv : UInt32) (s : VectorState) :
    (uacpiNtApicAllocateVector api gsiv s).2.messageRuns = s.messageRuns := by
  rcases allocateVector_cases api gsiv s with ⟨-, heq⟩ | ⟨-, -, e, heq⟩ | ⟨-, -, vector, -, -, heq⟩
    <;> rw [heq]
  exact assignVector_messageRuns _ _ _

section

variable {host : IrqLibHost} {gsiv : UInt32} {triggers : GsivTriggers}

theorem resolveVector_of_primary (api : IdtApi) (hmodel : host.interruptModel = acpiNtApic)
    (hprim : host.isSecondary gsiv = false) (triggers : GsivTriggers) (s : VectorState) :
    (uacpiNtIrqLibResolveVector api host triggers gsiv s).1.map (·.vector) =
        (uacpiNtApicAllocateVector api gsiv s).1 ∧
      (uacpiNtIrqLibResolveVector api host triggers gsiv s).2 =
        (uacpiNtApicAllocateVector api gsiv s).2 := by
  have hsec : ¬ host.isSecondary gsiv = true := by simp [hprim]
  rw [uacpiNtIrqLibResolveVector]
  rw [if_neg hsec, if_pos hmodel]
  split <;> rename_i heq
  · rw [heq]
    exact ⟨rfl, rfl⟩
  · rw [heq]
    exact ⟨rfl, rfl⟩

def IrqLibHost.picLine (host : IrqLibHost) (gsiv : UInt32) : Option UInt32 :=
  if (host.picVector gsiv).1 ≠ 0 then some (host.picVector gsiv).1
  else host.picVectorBase.map (· + gsiv)

theorem resolveVector_of_pic (api : IdtApi) (hmodel : host.interruptModel ≠ acpiNtApic)
    (hprim : host.isSecondary gsiv = false) (triggers : GsivTriggers) (s : VectorState) :
    ((uacpiNtIrqLibResolveVector api host triggers gsiv s).1.map (·.vector)).toOption =
        host.picLine gsiv ∧ (uacpiNtIrqLibResolveVector api host triggers gsiv s).2 = s := by
  simp only [uacpiNtIrqLibResolveVector, hprim, Bool.false_eq_true, if_false, hmodel,
    IrqLibHost.picLine]
  split
  · exact ⟨rfl, rfl⟩
  · cases host.picVectorBase <;> exact ⟨rfl, rfl⟩

theorem resolveVector_of_secondary (api : IdtApi) (hsec : host.isSecondary gsiv = true)
    (triggers : GsivTriggers) (s : VectorState) :
    (uacpiNtIrqLibResolveVector api host triggers gsiv s).1.map (·.vector) =
        (uacpiNtAllocateSecondaryVector gsiv s).1 ∧
      (∀ vector, (uacpiNtAllocateSecondaryVector gsiv s).1 = .ok vector →
        (uacpiNtIrqLibResolveVector api host triggers gsiv s).2 =
          (host.primary gsiv).elim (uacpiNtAllocateSecondaryVector gsiv s).2 fun primary =>
            (uacpiNtApicAllocateVector api primary (uacpiNtAllocateSecondaryVector gsiv s).2).2) ∧
      ∀ e, (uacpiNtAllocateSecondaryVector gsiv s).1 = .error e →
        (uacpiNtIrqLibResolveVector api host triggers gsiv s).2 =
          (uacpiNtAllocateSecondaryVector gsiv s).2 := by
  rw [uacpiNtIrqLibResolveVector]
  rw [if_pos hsec, uacpiNtResolveSecondaryVector]
  cases hall : uacpiNtAllocateSecondaryVector gsiv s with
  | mk r s₁ =>
    cases r with
    | error e => exact ⟨rfl, fun _ h => (by cases h), fun _ _ => rfl⟩
    | ok vector =>
      cases host.primary gsiv with
      | none => exact ⟨rfl, fun _ _ => rfl, fun _ h => by cases h⟩
      | some primary =>
        simp only [Option.elim_some]
        cases uacpiNtApicAllocateVector api primary s₁ with
        | mk r s₂ =>
          cases r with
          | error | ok => exact ⟨rfl, fun _ _ => rfl, fun _ h => by cases h⟩

theorem allocateSecondaryVector_cases (gsiv : UInt32) (s : VectorState) :
    (∃ index, s.secondaryVectorGsiv.findIdx? (· = gsiv) = some index ∧
      uacpiNtAllocateSecondaryVector gsiv s = (.ok (secondaryVectorBase + .ofNat index), s)) ∨
    (s.secondaryVectorGsiv.findIdx? (· = gsiv) = none ∧
      s.secondaryVectorGsiv.length < secondaryVectorCount ∧ uacpiNtAllocateSecondaryVector gsiv s =
        (.ok (secondaryVectorBase + .ofNat s.secondaryVectorGsiv.length),
          { s with secondaryVectorGsiv := s.secondaryVectorGsiv ++ [gsiv] })) ∨
    ∃ e, uacpiNtAllocateSecondaryVector gsiv s = (.error e, s) := by
  rw [uacpiNtAllocateSecondaryVector]
  split
  · exact .inl ⟨_, ‹_›, rfl⟩
  rename_i hnone
  split
  · exact .inr (.inl ⟨hnone, ‹_›, rfl⟩)
  · exact .inr (.inr ⟨_, rfl⟩)

/-- What the secondary line and each vector that is allocated preserve, a call for a line does. -/
theorem resolveVector_state {P : VectorState → Prop} (hs : P s)
    (hsec : P (uacpiNtAllocateSecondaryVector gsiv s).2)
    (hall : ∀ gsiv' s', P s' → P (uacpiNtApicAllocateVector api gsiv' s').2) :
    P (uacpiNtIrqLibResolveVector api host triggers gsiv s).2 := by
  by_cases hline : host.isSecondary gsiv = true
  · obtain ⟨-, hok, herr⟩ := resolveVector_of_secondary api hline triggers s
    cases hres : (uacpiNtAllocateSecondaryVector gsiv s).1 with
    | error e =>
      rw [herr e hres]
      exact hsec
    | ok vector =>
      rw [hok vector hres]
      cases host.primary gsiv with
      | none => exact hsec
      | some primary => exact hall primary _ hsec
  · have hprim := Bool.eq_false_iff.mpr hline
    by_cases hmodel : host.interruptModel = acpiNtApic
    · rw [(resolveVector_of_primary api hmodel hprim triggers s).2]
      exact hall gsiv s hs
    · rw [(resolveVector_of_pic api hmodel hprim triggers s).2]
      exact hs

end

theorem resolveVector_messageRuns (api : IdtApi) (host : IrqLibHost) (triggers : GsivTriggers)
    (gsiv : UInt32) (s : VectorState) :
    (uacpiNtIrqLibResolveVector api host triggers gsiv s).2.messageRuns = s.messageRuns := by
  refine resolveVector_state (P := fun s' => s'.messageRuns = s.messageRuns) rfl ?_ ?_
  · obtain ⟨secondary, hst⟩ := allocateSecondaryVector_state gsiv s
    rw [hst]
  · intro gsiv' s' h
    rw [allocateVector_messageRuns, h]

theorem allocateMessageTarget_cases (api : IdtApi) (host : IrqLibHost) (passive : Bool)
    (owner : DeviceObject) (count : UInt32) (s : VectorState) :
    (∃ e, uacpiNtHalAllocateMessageTargetOverride api host passive owner count s = (.error e, s)) ∨
    (∃ i, lowestUnclaimedRun s owner (defaultCount count) = some i ∧
      uacpiNtHalAllocateMessageTargetOverride api host passive owner count s =
        (.ok ((s.messageRuns i).base, uacpiNtVectorToIrql host (s.messageRuns i).base),
          s.setRun i { s.messageRuns i with claimed := true })) ∨
    (lowestUnclaimedRun s owner (defaultCount count) = none ∧
      ∃ i base s', (s.messageRuns i).owner = none ∧
        uacpiNtApicAllocateVectorRange api (defaultCount count) s = (.ok base, s') ∧
        uacpiNtHalAllocateMessageTargetOverride api host passive owner count s =
          (.ok (base, uacpiNtVectorToIrql host base),
            s'.setRun i ⟨some owner, 0, base, defaultCount count, true⟩)) := by
  rw [uacpiNtHalAllocateMessageTargetOverride]
  split
  · exact .inl ⟨_, rfl⟩
  split
  · exact .inl ⟨_, rfl⟩
  split
  · exact .inr (.inl ⟨_, ‹_›, rfl⟩)
  rename_i hnone
  split
  · exact .inl ⟨_, rfl⟩
  rename_i i hfree
  rcases allocateVectorRange_cases api (defaultCount count) s with
    ⟨-, e, heq⟩ | ⟨-, base, -, heq⟩ <;> rw [heq]
  · exact .inl ⟨e, rfl⟩
  · exact .inr (.inr ⟨hnone, i, base, _, owner_of_freeRun hfree, rfl, rfl⟩)

theorem freeMessageTarget_cases (api : IdtApi) (owner : DeviceObject) (vector : UInt32)
    (s : VectorState) : uacpiNtHalFreeMessageTargetOverride api owner vector s = s ∨
    ∃ i, (s.messageRuns i).owner = some owner ∧ (s.messageRuns i).count ≠ 0 ∧
      ((s.messageRuns i).messageGsiv = 0 ∧ uacpiNtHalFreeMessageTargetOverride api owner vector s =
            (uacpiNtApicFreeVectorRange api (s.messageRuns i).base (s.messageRuns i).count
              s).setRun i .zero ∨ (s.messageRuns i).messageGsiv ≠ 0 ∧
          uacpiNtHalFreeMessageTargetOverride api owner vector s =
            s.setRun i { s.messageRuns i with claimed := false }) := by
  unfold uacpiNtHalFreeMessageTargetOverride
  cases hfind : s.findRun fun run => decide (run.owner = some owner ∧ run.base ≤ vector ∧
      vector < run.base + run.count) with
  | none => exact .inl rfl
  | some i =>
    have hrun := findRun_some hfind
    rw [decide_eq_true_eq] at hrun
    have hcnt : (s.messageRuns i).count ≠ 0 := by
      intro hzero
      have hlt := UInt32.lt_of_le_of_lt hrun.2.1 hrun.2.2
      simp [hzero] at hlt
    refine .inr ⟨i, hrun.1, hcnt, ?_⟩
    by_cases hgsiv : (s.messageRuns i).messageGsiv = 0
    · exact .inl ⟨hgsiv, if_pos hgsiv⟩
    · exact .inr ⟨hgsiv, if_neg hgsiv⟩

/-! ### The ledger is kept -/

namespace Ledger

variable (h : Ledger api grant lines s)

include h

theorem seedProcessor (processor : Nat) :
    Ledger api grant lines (uacpiNtSeedProcessor api grant processor s) := by
  rw [uacpiNtSeedProcessor]
  split
  · exact h
  rename_i hnone
  obtain ⟨used, hused, hapart, hperm⟩ := h.tracked
  obtain ⟨p, hp⟩ := mem_iff_getElem?.mp hused
  have hne : processor ≠ p := by
    rintro rfl
    rw [hp] at hnone
    exact hnone rfl
  refine ⟨⟨used, ?_, hapart, hperm⟩, h.lines_band, h.runs_band, h.assigned, h.unowned⟩
  refine mem_iff_getElem?.mpr ⟨p, ?_⟩
  rw [getElem?_set_ne hne, getElem?_append_left (List.getElem?_eq_some_iff.mp hp).1]
  exact hp

variable (hapi : api.Lawful)

include hapi

theorem allocateVector (gsiv : UInt32) :
    ∃ new, Ledger api grant (new ++ lines) (uacpiNtApicAllocateVector api gsiv s).2 ∧
      ∀ v, (uacpiNtApicAllocateVector api gsiv s).1 = .ok v → (gsiv, v) ∈ new ++ lines := by
  rcases allocateVector_cases api gsiv s with ⟨hne, heq⟩ | ⟨-, -, e, heq⟩ |
    ⟨-, -, vector, hband, hfree, heq⟩ <;> rw [heq]
  · refine ⟨[], h, fun v hv => ?_⟩
    cases hv
    exact h.assigned gsiv hne
  · exact ⟨[], h, fun v hv => by cases hv⟩
  · refine ⟨[(gsiv, vector)], h.claimLine hapi hband hfree, fun v hv => ?_⟩
    cases hv
    exact mem_cons_self

variable {i : Fin maxMessageRuns}

theorem allocateVectorRange {base : UInt32} (hcnt : count ≠ 0)
    (hcall : uacpiNtApicAllocateVectorRange api count s = (.ok base, s'))
    (hslot : (s.messageRuns i).owner = none) (owner : DeviceObject) (messageGsiv : UInt32)
    (claimed : Bool) : Ledger api grant lines
      (s'.setRun i ⟨some owner, messageGsiv, base, count, claimed⟩) := by
  have hdef := defaultCount_of_ne_zero hcnt
  have hown : (⟨some owner, messageGsiv, base, count, claimed⟩ : MessageRun).owner ≠ none :=
    Option.some_ne_none _
  have hemp := h.unowned i hslot
  obtain ⟨hsearch, rfl⟩ := allocateVectorRange_ok hcall
  rw [hdef] at hsearch ⊢
  rcases search_cases hcnt hsearch with hband | ⟨-, hback, -⟩
  · exact h.claimRun hapi hemp hown hcnt hband (searchRun_some hsearch).2
  have hback' := UInt32.not_le.mpr hback
  rw [claimVectors_backwards hapi s msiRangeOwner hback']
  exact h.setRun_unheld (ranges_of_count hemp) (fun hheld => hback' hheld.2)
    fun hnone => absurd hnone hown

theorem freeHeld (hheld : (s.messageRuns i).Held) :
    Ledger api grant lines ((uacpiNtApicFreeVectorRange api (s.messageRuns i).base
      (s.messageRuns i).count s).setRun i .zero) := by
  obtain ⟨used, hused, hapart, hperm⟩ := h.tracked_at i
  rw [MessageRun.ranges, if_pos hheld] at hperm
  have hfst := hperm.trans perm_insert.symm
  have hdelete := hapi.deleteRange'_apart (range_wide_iff.mpr hheld.2) hfst hapart
  refine h.replaceRun (mem_map_of_mem hused) ?_ ?_ (fun hzero => absurd rfl hzero.1)
    fun _ => rfl
  all_goals rw [defaultCount_of_ne_zero hheld.1]
  · exact Apart.perm (pairwise_cons.mp (hapart.perm hfst.symm)).2 hdelete
  · exact hdelete

theorem freeRun (hcnt : (s.messageRuns i).count ≠ 0) :
    Ledger api grant lines ((uacpiNtApicFreeVectorRange api (s.messageRuns i).base
      (s.messageRuns i).count s).setRun i .zero) := by
  by_cases hheld : (s.messageRuns i).Held
  · exact h.freeHeld hapi hheld
  have hdef : defaultCount (s.messageRuns i).count = (s.messageRuns i).count := if_neg hcnt
  have hback : ¬ (s.messageRuns i).base ≤
      (s.messageRuns i).base + defaultCount (s.messageRuns i).count - 1 := by
    rw [hdef]
    exact fun hle => hheld ⟨hcnt, hle⟩
  exact (h.freeBackwards hapi hback).setRun_unheld (if_neg hheld) (fun hzero => hzero.1 rfl)
    fun _ => rfl

theorem resolveVector (host : IrqLibHost) (triggers : GsivTriggers) (gsiv : UInt32) :
    ∃ new, Ledger api grant (new ++ lines) (uacpiNtIrqLibResolveVector api host triggers gsiv s).2 ∧
      (host.isSecondary gsiv = false → host.interruptModel = acpiNtApic →
        ∀ line, (uacpiNtIrqLibResolveVector api host triggers gsiv s).1 = .ok line →
          (gsiv, line.vector) ∈ new ++ lines) := by
  by_cases hline : host.isSecondary gsiv = false ∧ host.interruptModel = acpiNtApic
  · obtain ⟨hvec, hst⟩ := resolveVector_of_primary api hline.2 hline.1 triggers s
    obtain ⟨new, hnew, hmem⟩ := h.allocateVector hapi gsiv
    refine ⟨new, hst ▸ hnew, fun _ _ line hr => hmem _ ?_⟩
    rw [← hvec, hr]
    rfl
  · obtain ⟨new, hnew⟩ : ∃ new, Ledger api grant (new ++ lines)
        (uacpiNtIrqLibResolveVector api host triggers gsiv s).2 := by
      refine resolveVector_state (P := fun s' => ∃ new, Ledger api grant (new ++ lines) s')
        ⟨[], h⟩ ?_ ?_
      · obtain ⟨secondary, hst⟩ := allocateSecondaryVector_state gsiv s
        rw [hst]
        exact ⟨[], h.of_eq rfl rfl rfl⟩
      · rintro gsiv' s' ⟨new, hnew⟩
        obtain ⟨new', hnew', -⟩ := hnew.allocateVector hapi gsiv'
        exact ⟨new' ++ new, by rwa [append_assoc]⟩
    exact ⟨new, hnew, fun hprim hmodel => absurd ⟨hprim, hmodel⟩ hline⟩

end Ledger

/-! ### Sequences of calls -/

inductive VectorCall where
  | resolveVector (triggers : GsivTriggers) (gsiv : UInt32)
  | resolveMessageVector (owner : DeviceObject) (messageGsiv count : UInt32)
  | allocateMessageTarget (passive : Bool) (owner : DeviceObject) (count : UInt32)
  | freeMessageTarget (owner : DeviceObject) (vector : UInt32)
  | addProcessor (processor : Nat)

namespace VectorCall

def apply (api : IdtApi) (host : IrqLibHost) (grant : HalGrant) :
    VectorCall → VectorState → VectorState
  | .resolveVector triggers gsiv, s => (uacpiNtIrqLibResolveVector api host triggers gsiv s).2
  | .resolveMessageVector owner messageGsiv count, s =>
    (uacpiNtIrqLibResolveMessageVector api host owner messageGsiv count s).2
  | .allocateMessageTarget passive owner count, s =>
    (uacpiNtHalAllocateMessageTargetOverride api host passive owner count s).2
  | .freeMessageTarget owner vector, s => uacpiNtHalFreeMessageTargetOverride api owner vector s
  | .addProcessor processor, s => uacpiNtProcessorChangeCallback api grant processor s

end VectorCall

def applyCalls (api : IdtApi) (host : IrqLibHost) (grant : HalGrant) (calls : List VectorCall)
    (s : VectorState) : VectorState :=
  calls.foldl (fun s call => call.apply api host grant s) s

def RunBounded (grant : HalGrant) (count : UInt32) : Prop :=
  ¬ grant.Admits 0 ∨ count ≤ 0xFFFFFFB0
deriving Decidable

theorem RunBounded.default (h : RunBounded grant count) :
    RunBounded grant (defaultCount count) := by
  rw [defaultCount]
  split
  · exact .inr (by decide)
  · exact h

def VectorCall.Bounded (grant : HalGrant) : VectorCall → Prop
  | .resolveMessageVector _ _ count => RunBounded grant count
  | .allocateMessageTarget _ _ count => RunBounded grant count
  | _ => True

instance (grant : HalGrant) : DecidablePred (VectorCall.Bounded grant)
  | .resolveMessageVector _ _ count | .allocateMessageTarget _ _ count =>
    inferInstanceAs (Decidable (RunBounded grant count))
  | .resolveVector _ _ | .freeMessageTarget _ _ | .addProcessor _ => .isTrue trivial

theorem VectorCall.apply_state {P : VectorState → Prop} {host : IrqLibHost} {call : VectorCall}
    (hs : P s) (hline : ∀ triggers gsiv, call = .resolveVector triggers gsiv →
      P (uacpiNtIrqLibResolveVector api host triggers gsiv s).2)
    (hrun : ∀ i owner messageGsiv base given claimed s₁, (s.messageRuns i).owner = none →
      given ≠ 0 → (call.Bounded grant → RunBounded grant given) →
      uacpiNtApicAllocateVectorRange api given s = (.ok base, s₁) →
      P (s₁.setRun i ⟨some owner, messageGsiv, base, given, claimed⟩))
    (hclaim : ∀ i claimed, P (s.setRun i { s.messageRuns i with claimed := claimed }))
    (hfree : ∀ i, (s.messageRuns i).count ≠ 0 → P ((uacpiNtApicFreeVectorRange api
      (s.messageRuns i).base (s.messageRuns i).count s).setRun i .zero))
    (hseed : ∀ processor, P (uacpiNtSeedProcessor api grant processor s)) :
    P (call.apply api host grant s) := by
  cases call with
  | resolveVector triggers gsiv => exact hline triggers gsiv rfl
  | resolveMessageVector owner messageGsiv count =>
    rw [VectorCall.apply]
    rcases resolveMessageVector_cases api host owner messageGsiv count s with
      ⟨e, heq⟩ | ⟨i, -, heq⟩ | ⟨-, i, base, given, s₁, hslot, hgiven, hrng, heq⟩ <;> rw [heq]
    · exact hs
    · exact hs
    rcases hgiven with rfl | ⟨rfl, -⟩
    · exact hrun i owner messageGsiv base _ false s₁ hslot (defaultCount_ne_zero count)
        RunBounded.default hrng
    · exact hrun i owner messageGsiv base 1 false s₁ hslot (by decide)
        (fun _ => .inr (by decide)) hrng
  | allocateMessageTarget passive owner count =>
    rw [VectorCall.apply]
    rcases allocateMessageTarget_cases api host passive owner count s with
      ⟨e, heq⟩ | ⟨i, -, heq⟩ | ⟨-, i, base, s₁, hslot, hrng, heq⟩ <;> rw [heq]
    · exact hs
    · exact hclaim i true
    · exact hrun i owner 0 base _ true s₁ hslot (defaultCount_ne_zero count) RunBounded.default hrng
  | freeMessageTarget owner vector =>
    rw [VectorCall.apply]
    rcases freeMessageTarget_cases api owner vector s with
      heq | ⟨i, -, hcnt, ⟨-, heq⟩ | ⟨-, heq⟩⟩ <;> rw [heq]
    · exact hs
    · exact hfree i hcnt
    · exact hclaim i false
  | addProcessor processor =>
    rw [VectorCall.apply, uacpiNtProcessorChangeCallback]
    split
    · exact hseed processor
    · exact hs

theorem Ledger.apply (hapi : api.Lawful) (h : Ledger api grant lines s) (host : IrqLibHost)
    (call : VectorCall) : ∃ new, Ledger api grant (new ++ lines) (call.apply api host grant s) := by
  refine VectorCall.apply_state (P := fun s' => ∃ new, Ledger api grant (new ++ lines) s')
    ⟨[], h⟩ ?_ ?_ ?_ ?_ ?_
  · rintro triggers gsiv -
    obtain ⟨new, hnew, -⟩ := h.resolveVector hapi host triggers gsiv
    exact ⟨new, hnew⟩
  · intro i owner messageGsiv base given claimed s₁ hslot hgiven _ hrng
    exact ⟨[], h.allocateVectorRange hapi hgiven hrng hslot owner messageGsiv claimed⟩
  · exact fun i claimed => ⟨[], h.setClaimed i claimed⟩
  · exact fun i hcnt => ⟨[], h.freeRun hapi hcnt⟩
  · exact fun processor => ⟨[], h.seedProcessor processor⟩

theorem Ledger.applyCalls (hapi : api.Lawful) (host : IrqLibHost) (calls : List VectorCall)
    (h : Ledger api grant lines s) :
    ∃ new, Ledger api grant (new ++ lines) (applyCalls api host grant calls s) := by
  induction calls generalizing s lines with
  | nil => exact ⟨[], h⟩
  | cons call calls ih =>
    obtain ⟨new, hnew⟩ := h.apply hapi host call
    obtain ⟨new', hnew'⟩ := ih hnew
    rw [← append_assoc] at hnew'
    exact ⟨new' ++ new, hnew'⟩

theorem Ledger.first (hapi : api.Lawful) (grant : HalGrant) (processor : Nat) :
    Ledger api grant [] (uacpiNtSeedProcessor api grant processor .zero) := by
  have hrngs : (uacpiNtSeedProcessor api grant processor .zero).runRanges = [] := by
    rw [runRanges, flatMap_eq_nil_iff]
    intro i _
    rfl
  refine ⟨⟨uacpiNtSeedIdtState api grant, ?_, (seedIdtState_seeded hapi grant).apart, ?_⟩, ?_, ?_,
    ?_, ?_⟩
  · refine mem_iff_getElem?.mpr ⟨processor, ?_⟩
    simp [uacpiNtSeedProcessor, VectorState.zero]
  · rw [hrngs, map_nil, append_nil, append_nil]
  · intro line hline
    cases hline
  · intro i hheld
    exact absurd rfl hheld.1
  · intro gsiv hne
    refine absurd ?_ hne
    rw [assignedVector]
    split
    · rfl
    · rfl
  · intro i _
    rfl

/-! ### Runs in the band -/

def VectorState.RunsInBand (s : VectorState) : Prop :=
  ∀ i, (s.messageRuns i).count ≠ 0 → RunInBand (s.messageRuns i).base (s.messageRuns i).count

namespace VectorState.RunsInBand

theorem setRun (h : s.RunsInBand) (hruns : s'.messageRuns = s.messageRuns)
    (i : Fin maxMessageRuns) {run : MessageRun}
    (hband : run.count ≠ 0 → RunInBand run.base run.count) : (s'.setRun i run).RunsInBand :=
  forall_setRun (P := fun run => run.count ≠ 0 → RunInBand run.base run.count)
    (hruns.symm ▸ h) hband

theorem apply (hapi : api.Lawful) (hled : Ledger api grant lines s) (h : s.RunsInBand)
    (host : IrqLibHost) {call : VectorCall} (hbound : call.Bounded grant) :
    (call.apply api host grant s).RunsInBand := by
  refine VectorCall.apply_state (P := RunsInBand) h ?_ ?_ ?_ ?_ ?_
  · intro triggers gsiv _ i
    rw [resolveVector_messageRuns]
    exact h i
  · intro i owner messageGsiv base given claimed s₁ _ hgiven hlen hrng
    obtain ⟨hsearch, -⟩ := allocateVectorRange_ok hrng
    rw [defaultCount_of_ne_zero hgiven] at hsearch
    refine h.setRun (allocateVectorRange_frame hrng).2.2 i fun _ => ?_
    rcases search_cases hgiven hsearch with hband | ⟨hlarge, -, hzero⟩
    · exact hband
    · rcases hlen hbound with hnone | hsmall
      · exact absurd (hled.admits_of_free hapi (by decide) hzero) hnone
      · exact absurd hsmall (UInt32.not_le.mpr hlarge)
  · exact fun i claimed => h.setRun rfl i (h i)
  · intro i _
    have hruns : (uacpiNtApicFreeVectorRange api (s.messageRuns i).base
        (s.messageRuns i).count s).messageRuns = s.messageRuns := rfl
    exact h.setRun hruns i fun hzero => absurd rfl hzero
  · intro processor i
    have hruns : (uacpiNtSeedProcessor api grant processor s).messageRuns = s.messageRuns := by
      rw [uacpiNtSeedProcessor]
      split <;> rfl
    rw [hruns]
    exact h i

end VectorState.RunsInBand

theorem Ledger.applyCalls_inBand (hapi : api.Lawful) (host : IrqLibHost) {calls : List VectorCall}
    (hbound : ∀ call ∈ calls, call.Bounded grant) (h : Ledger api grant lines s)
    (hruns : s.RunsInBand) : (UacpiNt.applyCalls api host grant calls s).RunsInBand := by
  induction calls generalizing s lines with
  | nil => exact hruns
  | cons call calls ih =>
    rw [forall_mem_cons] at hbound
    obtain ⟨new, hnew⟩ := h.apply hapi host call
    exact ih hbound.2 hnew (hruns.apply hapi h host hbound.1)

/-! ### Owned vectors -/

def MessageRun.Contains (run : MessageRun) (vector : UInt32) : Prop :=
  run.base.toNat ≤ vector.toNat ∧ vector.toNat < run.base.toNat + run.count.toNat
deriving Decidable

/-- A vector of the device band that the HAL granted, if it granted any. -/
def HalGrant.DeviceVector (grant : HalGrant) (vector : UInt32) : Prop :=
  deviceVectorFirst ≤ vector ∧ vector ≤ deviceVectorLast ∧
    (grant.count ≠ 0 → grant.grantedVector vector = true)

/-- No vector has two owners in the tables, and all are device vectors. -/
structure VectorsOwned (grant : HalGrant) (s : VectorState) : Prop where
  lines : ∀ i j, s.gsivVector i ≠ 0 → s.gsivVector i = s.gsivVector j → i = j
  lines_runs : ∀ i k, s.gsivVector i ≠ 0 → ¬ (s.messageRuns k).Contains (s.gsivVector i)
  runs : ∀ k l vector, (s.messageRuns k).Contains vector → (s.messageRuns l).Contains vector →
    k = l
  line_device : ∀ i, s.gsivVector i ≠ 0 → grant.DeviceVector (s.gsivVector i)
  run_device : ∀ k vector, (s.messageRuns k).Contains vector → grant.DeviceVector vector
  run_owned : ∀ k vector, (s.messageRuns k).Contains vector → (s.messageRuns k).owner.isSome

theorem MessageRun.Contains.count_ne_zero {run : MessageRun} {vector : UInt32}
    (h : run.Contains vector) : run.count ≠ 0 := by
  intro hzero
  obtain ⟨hle, hlt⟩ := h
  rw [hzero, UInt32.toNat_zero] at hlt
  omega

theorem RunInBand.range_overlaps {run : MessageRun} (hband : RunInBand run.base run.count)
    {vector : UInt32} (h : run.Contains vector) :
    run.range.Overlaps vector.toUInt64 vector.toUInt64 := by
  obtain ⟨hfst, hend⟩ := hband
  obtain ⟨hle, hlt⟩ := h
  constructor
  · exact hle
  · rw [UInt64.le_iff_toNat_le, MessageRun.range, toNat_toUInt64, toNat_toUInt64,
      UInt32.toNat_sub, UInt32.toNat_add, toNat_one]
    omega

theorem lineRangeOwner_inj {gsiv gsiv' : UInt32}
    (h : lineRangeOwner gsiv = lineRangeOwner gsiv') : gsiv = gsiv' := by
  have hcan : gsiv + 1 = gsiv' + 1 := by
    rw [lineRangeOwner, lineRangeOwner] at h
    split at h
    · split at h
      · rename_i hzero hzero'
        rw [hzero, hzero']
      · cases h
    · split at h
      · cases h
      · exact Option.some.inj h
  exact (UInt32.add_left_inj 1).mp hcan

namespace Ledger

theorem apart (h : Ledger api grant lines s) :
    Apart (uacpiNtSeedIdtState api grant ++ (lines.map lineRange ++ s.runRanges)) := by
  obtain ⟨used, -, hapart, hperm⟩ := h.tracked
  exact hapart.perm hperm.symm

variable {vector : UInt32}

theorem line_unique (h : Ledger api grant lines s) {gsiv gsiv' : UInt32}
    (hline : (gsiv, vector) ∈ lines) (hline' : (gsiv', vector) ∈ lines) : gsiv = gsiv' := by
  by_contra hne
  have happ := (pairwise_append.mp (pairwise_append.mp h.apart).2.1).1
  have : Std.Symm fun x y : RangeList.Range UInt64 UInt32 => ¬ x.Overlaps y.start y.last :=
    ⟨fun _ _ hxy hyx => hxy (Range.overlaps_comm.mp hyx)⟩
  have hrngs : lineRange (gsiv, vector) ≠ lineRange (gsiv', vector) := by
    intro heq
    exact hne (lineRangeOwner_inj (congrArg (fun r => r.owner) heq))
  exact happ.forall (mem_map_of_mem hline) (mem_map_of_mem hline') hrngs
    ⟨UInt64.le_refl _, UInt64.le_refl _⟩

theorem deviceVector (hapi : api.Lawful) (h : Ledger api grant lines s)
    {x : RangeList.Range UInt64 UInt32} (hx : x ∈ lines.map lineRange ++ s.runRanges)
    (hover : x.Overlaps vector.toUInt64 vector.toUInt64)
    (hband : 0x50 ≤ vector.toNat ∧ vector.toNat < 0xC0) : grant.DeviceVector vector := by
  have hmax : vector ≤ maxIdtVector := by
    exact Nat.le_trans (Nat.le_of_lt hband.2) (by decide)
  have hadm : grant.Admits vector := by
    by_contra hnone
    obtain ⟨y, hy, hover'⟩ := ((seedIdtState_seeded hapi grant).covers vector hmax).mpr hnone
    refine (pairwise_append.mp h.apart).2.2 y hy x hx ⟨?_, ?_⟩
    · exact UInt64.le_trans hover'.1 hover.2
    · exact UInt64.le_trans hover.1 hover'.2
  refine ⟨le_iff_toNat_le.mpr hband.1, le_iff_toNat_le.mpr ?_, fun hcnt => ?_⟩
  · exact Nat.le_of_lt_succ hband.2
  · rw [HalGrant.Admits, if_neg hcnt] at hadm
    exact hadm

theorem assigned_line (h : Ledger api grant lines s) {i : Fin uacpiNtMaxGsiv}
    (hne : s.gsivVector i ≠ 0) : (ofNat i.val, s.gsivVector i) ∈ lines := by
  have hnat : (ofNat i.val).toNat = i.val :=
    toNat_ofNat_of_lt' (Nat.lt_trans i.isLt (by decide))
  have hasgd : s.assignedVector (ofNat i.val) = s.gsivVector i := by
    simp only [assignedVector, hnat, i.isLt, dif_pos, Fin.eta]
  have hline := h.assigned (ofNat i.val)
  rw [hasgd] at hline
  exact hline hne

theorem run_mem (hruns : s.RunsInBand) {k : Fin maxMessageRuns}
    (hcon : (s.messageRuns k).Contains vector) :
    (s.messageRuns k).range ∈ s.runRanges ∧ (s.messageRuns k).range ∈ (s.messageRuns k).ranges ∧
      (s.messageRuns k).range.Overlaps vector.toUInt64 vector.toUInt64 := by
  have hband := hruns k hcon.count_ne_zero
  have hheld := hband.held hcon.count_ne_zero
  refine ⟨mem_runRanges.mpr ⟨k, hheld, rfl⟩, ?_, hband.range_overlaps hcon⟩
  rw [MessageRun.ranges, if_pos hheld]
  exact mem_singleton_self _

theorem owned (hapi : api.Lawful) (h : Ledger api grant lines s) (hruns : s.RunsInBand) :
    VectorsOwned grant s := by
  have hband : ∀ i, s.gsivVector i ≠ 0 →
      0x50 ≤ (s.gsivVector i).toNat ∧ (s.gsivVector i).toNat < 0xC0 := by
    intro i hne
    obtain ⟨hfst, hend⟩ := h.lines_band _ (h.assigned_line hne)
    exact ⟨hfst, hend⟩
  have hrest := pairwise_append.mp (pairwise_append.mp h.apart).2.1
  refine ⟨?_, ?_, ?_, ?_, ?_, ?_⟩
  · intro i j hne heq
    have hi := h.assigned_line hne
    have hj := h.assigned_line (heq ▸ hne)
    rw [← heq] at hj
    have hgsiv := congrArg UInt32.toNat (h.line_unique hi hj)
    rw [toNat_ofNat_of_lt' (Nat.lt_trans i.isLt (by decide)),
      toNat_ofNat_of_lt' (Nat.lt_trans j.isLt (by decide))] at hgsiv
    exact Fin.ext hgsiv
  · intro i k hne hcon
    obtain ⟨hmem, -, hover⟩ := run_mem hruns hcon
    exact hrest.2.2 _ (mem_map_of_mem (h.assigned_line hne)) _ hmem ⟨hover.2, hover.1⟩
  · intro k l vector hk hl
    by_contra hne
    obtain ⟨-, hself, hover⟩ := run_mem hruns hk
    obtain ⟨-, hself', hover'⟩ := run_mem hruns hl
    have hapart : Apart s.runRanges := hrest.2.1
    have hsplit := hapart.perm (runRanges_perm s k).symm
    have hmem : (s.messageRuns l).range ∈ s.otherRanges k := by
      refine mem_flatMap.mpr ⟨l, ?_, hself'⟩
      exact (nodup_finRange _).mem_erase_iff.mpr ⟨fun h => hne h.symm, mem_finRange l⟩
    exact (pairwise_append.mp hsplit).2.2 _ hself _ hmem
      ⟨UInt64.le_trans hover.1 hover'.2, UInt64.le_trans hover'.1 hover.2⟩
  · intro i hne
    have hmem := mem_append_left s.runRanges
      (mem_map_of_mem (f := lineRange) (h.assigned_line hne))
    exact h.deviceVector hapi hmem ⟨UInt64.le_refl _, UInt64.le_refl _⟩ (hband i hne)
  · intro k vector hcon
    obtain ⟨hmem, -, hover⟩ := run_mem hruns hcon
    have hrun := hruns k hcon.count_ne_zero
    exact h.deviceVector hapi (mem_append_right _ hmem) hover
      ⟨Nat.le_trans hrun.1 hcon.1, Nat.lt_of_lt_of_le hcon.2 hrun.2⟩
  · intro k vector hcon
    by_contra hnone
    exact hcon.count_ne_zero (h.unowned k (by simpa using hnone))

end Ledger

namespace VectorsOwned

theorem vectorInput_line (h : VectorsOwned grant s) (triggers : GsivTriggers)
    {i : Fin uacpiNtMaxGsiv} (hne : s.gsivVector i ≠ 0) :
    uacpiNtHalGetVectorInputOverride triggers (s.gsivVector i) s =
      .ok (.ofNat i.val, triggers.gsivPolarity (.ofNat i.val)) := by
  have hfind : (Fin.find? fun j => decide (s.gsivVector j = s.gsivVector i)) = some i := by
    rw [Fin.find?_eq_some_iff]
    refine ⟨decide_eq_true rfl, fun j hj => decide_eq_false fun heq => ?_⟩
    exact Fin.ne_of_lt hj (h.lines i j hne heq.symm).symm
  rw [uacpiNtHalGetVectorInputOverride, if_neg hne, hfind]

theorem vectorInput_run (h : VectorsOwned grant s) (triggers : GsivTriggers)
    {k : Fin maxMessageRuns} {vector : UInt32} (hcon : (s.messageRuns k).Contains vector) :
    uacpiNtHalGetVectorInputOverride triggers vector s = .error .invalidParameter := by
  have hne : vector ≠ 0 := by
    rintro rfl
    exact absurd (h.run_device k 0 hcon).1 (by decide)
  have hlines : (Fin.find? fun j => decide (s.gsivVector j = vector)) = none := by
    rw [Fin.find?_eq_none_iff]
    refine fun j => decide_eq_false fun heq => ?_
    have hj : s.gsivVector j ≠ 0 := heq ▸ hne
    exact h.lines_runs j k hj (heq ▸ hcon)
  -- A run that wraps around would contain the largest vector.
  have hwrap : (s.messageRuns k).base.toNat + (s.messageRuns k).count.toNat < 2 ^ 32 := by
    by_contra hge
    have hbase := (s.messageRuns k).base.toNat_lt
    have hmax : (0xFFFFFFFF : UInt32).toNat = 2 ^ 32 - 1 := rfl
    have hlast : (s.messageRuns k).Contains 0xFFFFFFFF := by
      rw [MessageRun.Contains]
      omega
    exact absurd (h.run_device k _ hlast).2.1 (by decide)
  have hruns : (s.findRun fun run => decide (run.owner.isSome ∧ run.count ≠ 0 ∧
      run.base ≤ vector ∧ vector < run.base + run.count)).isSome = true := by
    rw [findRun, Fin.isSome_find?_iff]
    refine ⟨k, decide_eq_true ⟨h.run_owned k vector hcon, hcon.count_ne_zero,
      le_iff_toNat_le.mpr hcon.1, ?_⟩⟩
    rw [lt_iff_toNat_lt, UInt32.toNat_add, Nat.mod_eq_of_lt hwrap]
    exact hcon.2
  rw [uacpiNtHalGetVectorInputOverride, if_neg hne, hlines]
  rw [if_pos hruns]

end VectorsOwned

/-- In every run of calls after a first processor was entered, none of them for a run of vectors
that can wrap around, no vector has two owners, all are device vectors, and the HAL is told the
line of a line vector and that a message vector has none. -/
theorem vectors_owned_along_calls (hapi : api.Lawful) (host : IrqLibHost) (grant : HalGrant)
    (processor : Nat) {calls : List VectorCall} (hbound : ∀ call ∈ calls, call.Bounded grant)
    (triggers : GsivTriggers) {s : VectorState}
    (hs : s = applyCalls api host grant calls (uacpiNtSeedProcessor api grant processor .zero)) :
    VectorsOwned grant s ∧
      (∀ i, s.gsivVector i ≠ 0 →
        uacpiNtHalGetVectorInputOverride triggers (s.gsivVector i) s =
          .ok (.ofNat i.val, triggers.gsivPolarity (.ofNat i.val))) ∧
      ∀ k vector, (s.messageRuns k).Contains vector →
        uacpiNtHalGetVectorInputOverride triggers vector s = .error .invalidParameter := by
  have hfirst := Ledger.first hapi grant processor
  obtain ⟨lines, hledger⟩ := hfirst.applyCalls hapi host calls
  have hruns := hfirst.applyCalls_inBand hapi host hbound fun i hne => absurd rfl hne
  rw [← hs] at hledger hruns
  have howned := hledger.owned hapi hruns
  exact ⟨howned, fun i hne => howned.vectorInput_line triggers hne,
    fun k vector hcontains => howned.vectorInput_run triggers hcontains⟩

def IdtApi.reference : IdtApi :=
  RangeList.Reference.api .rangeListConflict

theorem IdtApi.reference_lawful : IdtApi.reference.Lawful := RangeList.Reference.api_lawful _

def IrqLibHost.plain : IrqLibHost :=
  ⟨acpiNtApic, fun _ => false, fun _ => none, none, fun _ => (0, 0, 0), none, 1⟩

def lineAndRunCalls : List VectorCall :=
  [.resolveVector .zero 9, .addProcessor 1, .resolveMessageVector ⟨7⟩ 0xFFFFFFFE 4,
    .resolveVector .zero 5, .allocateMessageTarget true ⟨7⟩ 4]

theorem line_and_run_owned :
    ∃ s, s = applyCalls .reference .plain ⟨0, 0⟩ lineAndRunCalls
        (uacpiNtSeedProcessor .reference ⟨0, 0⟩ 0 .zero) ∧
      s.assignedVector 9 = 0x50 ∧
      s.messageRuns ⟨0, by decide⟩ = ⟨some ⟨7⟩, 0xFFFFFFFE, 0x54, 4, true⟩ ∧
      uacpiNtHalGetVectorInputOverride .zero 0x51 s = .ok (5, .activeHigh) ∧
      uacpiNtHalGetVectorInputOverride .zero 0x56 s = .error .invalidParameter := by
  have hbound : ∀ call ∈ lineAndRunCalls, call.Bounded ⟨0, 0⟩ := by decide
  obtain ⟨-, hlines, hruns⟩ := vectors_owned_along_calls IdtApi.reference_lawful .plain ⟨0, 0⟩ 0
    hbound .zero rfl
  have hvector : (applyCalls .reference .plain ⟨0, 0⟩ lineAndRunCalls (uacpiNtSeedProcessor
      .reference ⟨0, 0⟩ 0 .zero)).gsivVector ⟨5, by decide⟩ = 0x51 := by decide +kernel
  have hline := hlines ⟨5, by decide⟩ (by rw [hvector]; decide)
  rw [hvector] at hline
  exact ⟨_, rfl, by decide +kernel, by decide +kernel, hline,
    hruns ⟨0, by decide⟩ 0x56 (by decide +kernel)⟩

/-! ### A run that wraps around -/

theorem runFree_of_unused (hapi : api.Lawful)
    (hunu : ∀ used, some used ∈ s.processorIdt → used = []) (base count : UInt32) :
    runFree api s base count = true := by
  rw [runFree, all_eq_true]
  intro offset _
  rw [vectorFreeEverywhere_iff hapi]
  intro used hused hcov
  obtain ⟨x, hx, -⟩ := hcov
  rw [hunu used hused] at hx
  cases hx

def HalGrant.everything : HalGrant :=
  ⟨BitVec.allOnes 256, 256⟩

def VectorState.unused : VectorState :=
  ⟨[some []], fun _ => 0, fun _ => .zero, []⟩

theorem searchRun_first {alignment candidate : UInt32} {fuel : Nat}
    (hend : candidate + count - 1 ≤ deviceVectorLast)
    (hfree : runFree api s candidate count = true) :
    searchRun api s count alignment (fuel + 1) candidate = some candidate := by
  rw [searchRun, if_pos hend, if_pos hfree]

/-- A run from vector 0x50 around to vector 0 is found, since it seems to end in the band; its
range is backwards, so nothing is claimed. -/
theorem allocate_wrapped_run :
    uacpiNtApicAllocateVectorRange .reference 0xFFFFFFB1 .unused = (.ok 0x50, .unused) := by
  have hsearch : firstRun .reference .unused (defaultCount 0xFFFFFFB1) = some 0x50 := by
    refine searchRun_first (by decide) (runFree_of_unused IdtApi.reference_lawful ?_ _ _)
    simp [VectorState.unused]
  have hbac : IdtApi.reference.addRange' []
      ⟨(0x50 : UInt32).toUInt64, (0x50 + defaultCount 0xFFFFFFB1 - 1).toUInt64, 0, false,
        msiRangeOwner⟩ false = [] := by decide +kernel
  rcases allocateVectorRange_cases .reference 0xFFFFFFB1 .unused with
    ⟨hnone | hnone, -⟩ | ⟨-, base, hbase, heq⟩
  · cases hnone
  · cases hnone.symm.trans hsearch
  · cases hbase.symm.trans hsearch
    rw [heq, uacpiNtClaimVectors, VectorState.unused, map_cons, map_nil, Option.map_some,
      hbac]

theorem allocateMessageTarget_new {host : IrqLibHost} {owner : DeviceObject} {base : UInt32}
    {i : Fin maxMessageRuns} (hmodel : host.interruptModel = acpiNtApic)
    (hlow : lowestUnclaimedRun s owner (defaultCount count) = none) (hfree : s.freeRun = some i)
    (halloc : uacpiNtApicAllocateVectorRange api (defaultCount count) s = (.ok base, s')) :
    uacpiNtHalAllocateMessageTargetOverride api host true owner count s =
      (.ok (base, uacpiNtVectorToIrql host base),
        s'.setRun i ⟨some owner, 0, base, defaultCount count, true⟩) := by
  simp [uacpiNtHalAllocateMessageTargetOverride, hmodel, hlow, hfree, halloc]

/-- The HAL asks for a run that wraps around; line 5 then gets the first vector of that run. -/
theorem wrapped_run_shares_vector :
    ∃ s, s = applyCalls .reference .plain .everything
        [.allocateMessageTarget true ⟨1⟩ 0xFFFFFFB1, .resolveVector .zero 5]
        (uacpiNtSeedProcessor .reference .everything 0 .zero) ∧
      s.messageRuns ⟨0, by decide⟩ = ⟨some ⟨1⟩, 0, 0x50, 0xFFFFFFB1, true⟩ ∧
      s.gsivVector ⟨5, by decide⟩ = 0x50 ∧
      uacpiNtHalGetVectorInputOverride .zero 0x50 s = .ok (5, .activeHigh) := by
  have hseed : uacpiNtSeedProcessor .reference .everything 0 .zero = .unused := by
    have hnone : uacpiNtSeedIdtState .reference .everything = [] := by decide +kernel
    simp [uacpiNtSeedProcessor, VectorState.zero, VectorState.unused, hnone]
  have hdefault : defaultCount 0xFFFFFFB1 = 0xFFFFFFB1 := by decide
  have halloc : uacpiNtApicAllocateVectorRange .reference (defaultCount 0xFFFFFFB1) .unused =
      (.ok 0x50, .unused) := by
    exact allocate_wrapped_run
  have hlowest : lowestUnclaimedRun .unused ⟨1⟩ (defaultCount 0xFFFFFFB1) = none := by
    decide +kernel
  have hfree : VectorState.unused.freeRun = some ⟨0, by decide⟩ := by decide +kernel
  have hmodel : IrqLibHost.plain.interruptModel = acpiNtApic := rfl
  have hcall := allocateMessageTarget_new hmodel hlowest hfree halloc
  have hstate : applyCalls .reference .plain .everything
      [.allocateMessageTarget true ⟨1⟩ 0xFFFFFFB1, .resolveVector .zero 5]
      (uacpiNtSeedProcessor .reference .everything 0 .zero) =
      (uacpiNtIrqLibResolveVector .reference .plain .zero 5 (VectorState.unused.setRun
        ⟨0, by decide⟩ ⟨some ⟨1⟩, 0, 0x50, 0xFFFFFFB1, true⟩)).2 := by
    rw [hseed, applyCalls, List.foldl_cons, List.foldl_cons, List.foldl_nil, VectorCall.apply,
      VectorCall.apply, hcall, hdefault]
  refine ⟨_, rfl, ?_⟩
  rw [hstate]
  decide +kernel

end UacpiNt
