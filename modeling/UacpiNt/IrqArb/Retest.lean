import UacpiNt.IrqArb.Slots

/-!
# A retest of the interrupt arbiter

A test places a message request in one slot, whatever its count. A retest decodes the
assignment, where a placement in the message window is as long as the count. So a retest lays down
what the test did just when every requirement that was placed in the window is for a single message;
otherwise the ranges run into each other and out of the window.
-/

namespace UacpiNt

open AllocationState List RangeList

/-! ### Packing and unpacking -/

section

variable (d : IoResourceDescriptor) (start : UInt64) (e : ArbiterListEntry)

theorem msiCount_bounds : 1 ≤ (uacpiNtMsiCountFromRequirement d).toNat ∧
      (uacpiNtMsiCountFromRequirement d).toNat ≤ msiMaxCount := by
  rw [uacpiNtMsiCountFromRequirement]
  split
  · rename_i minimum maximum _ _
    split
    · decide
    simp only
    split
    · decide
    rename_i hspan
    rw [msiMaxCount] at hspan
    have hlt : maximum.toNat - minimum.toNat + 1 < UInt32.size := by
      rw [UInt32.size]
      omega
    rw [UInt32.toNat_ofNat_of_lt' hlt, msiMaxCount]
    omega
  · decide

theorem shiftLeft_shiftRight_count {count : UInt32} (h : count.toNat ≤ msiMaxCount) :
    (count <<< 16) >>> 16 = count := by
  have hshift : (16 : UInt32).toNat % 32 = 16 := rfl
  rw [← UInt32.toNat_inj, UInt32.toNat_shiftRight, UInt32.toNat_shiftLeft, hshift]
  rw [msiMaxCount] at h
  omega

/-- The descriptor assigns a vector of the message window. -/
def CmPartialResourceDescriptor.inMessages (a : CmPartialResourceDescriptor) : Bool :=
  match a.u with
  | .interrupt _ vector _ => msiGsivBase ≤ vector.toUInt64
  | _ => false

def relaidLength : UInt64 :=
  if start < msiGsivBase then 1 else (uacpiNtMsiCountFromRequirement d).toUInt64

theorem relaidLength_bounds :
    1 ≤ (relaidLength d start).toNat ∧ (relaidLength d start).toNat ≤ 32 := by
  rw [relaidLength]
  split
  · decide
  · exact msiCount_bounds d

theorem irqUnpackResource_pack {host : IrqHost} {d : IoResourceDescriptor} {req : Requirement}
    {start : UInt64} {a a' : CmPartialResourceDescriptor} {world world' : IrqWorld}
    (hreq : uacpiNtIrqUnpackRequirement host d = .ok req) (hmin : req.minimum ≤ start)
    (hmaxi : start ≤ req.maximum)
    (h : uacpiNtIrqPackResource d start a world = (.ok (), a', world')) :
    uacpiNtIrqUnpackResource a' = .ok (start, relaidLength d start) := by
  obtain ⟨-, -, -, hlt, hmsg⟩ := irqUnpackRequirement_ok hreq
  have hnarr := toUInt32_toUInt64_of_le hmaxi hlt
  rw [uacpiNtIrqPackResource] at h
  by_cases hline : start < msiGsivBase
  · rw [if_pos hline] at h
    cases h
    have hflags : d.flags &&& interruptMessage = 0 := by
      by_contra hne
      have hd : d.isMessage = true := by
        rw [IoResourceDescriptor.isMessage, bne_iff_ne]
        exact hne
      rcases hmsg hd with ⟨hbase, -⟩ | ⟨hone, hzero⟩
      · rw [hbase] at hmin
        exact UInt64.lt_irrefl _ (UInt64.lt_of_le_of_lt hmin hline)
      · rw [hone] at hmin
        rw [hzero] at hmaxi
        exact absurd (UInt64.le_trans hmin hmaxi) (by decide)
    have href : ¬ ((d.flags &&& interruptMessage ≠ 0 ∨
        start.toUInt32.toUInt64 ≥ msiGsivBase) ∧ start.toUInt32 >>> 16 ≠ 0 ∧
        (start.toUInt32 >>> 16).toNat ≤ msiMaxCount) := by
      rintro ⟨hne | hge, -⟩
      · exact hne hflags
      · rw [hnarr] at hge
        exact UInt64.not_le.mpr hline hge
    rw [uacpiNtIrqUnpackResource]
    simp only
    rw [if_neg href, relaidLength, if_pos hline, hnarr]
  · rw [if_neg hline] at h
    cases h
    obtain ⟨hone, hmax⟩ := msiCount_bounds d
    have hcnt := shiftLeft_shiftRight_count hmax
    have hne : uacpiNtMsiCountFromRequirement d ≠ 0 := by
      intro hzero
      rw [hzero] at hone
      exact absurd hone (by decide)
    have hacc : (((d.flags ||| interruptMessage) &&& interruptMessage ≠ 0 ∨
        start.toUInt32.toUInt64 ≥ msiGsivBase) ∧
        uacpiNtMsiCountFromRequirement d <<< 16 >>> 16 ≠ 0 ∧
        (uacpiNtMsiCountFromRequirement d <<< 16 >>> 16).toNat ≤ msiMaxCount) := by
      rw [hcnt, hnarr]
      exact ⟨.inr (UInt64.not_lt.mp hline), hne, hmax⟩
    rw [uacpiNtIrqUnpackResource]
    simp only
    rw [if_pos hacc, relaidLength, if_neg hline, hnarr, hcnt]

theorem irqPackResource_inMessages {host : IrqHost} {d : IoResourceDescriptor} {req : Requirement}
    {start : UInt64} {a a' : CmPartialResourceDescriptor} {world world' : IrqWorld}
    (hreq : uacpiNtIrqUnpackRequirement host d = .ok req) (hmaxi : start ≤ req.maximum)
    (h : uacpiNtIrqPackResource d start a world = (.ok (), a', world')) :
    a'.inMessages = true ↔ msiGsivBase ≤ start := by
  obtain ⟨-, -, -, hlt, -⟩ := irqUnpackRequirement_ok hreq
  have hnarr := toUInt32_toUInt64_of_le hmaxi hlt
  rw [uacpiNtIrqPackResource] at h
  split at h <;> cases h <;> simp [CmPartialResourceDescriptor.inMessages, hnarr]

/-! ### Laying placements down again -/

def AllocationState.relaid (st : AllocationState) : UInt64 × UInt64 × Option DeviceObject :=
  (st.start, st.start + st.current.elim 0 (fun alt => relaidLength alt.descriptor st.start) - 1,
    st.owner)

/-- Where the selected requirement was placed in the message window, it is for a single message. -/
def ArbiterListEntry.SelectsSingle : Prop :=
  ∀ d ∈ e.selectedAlternative, ∀ a ∈ e.assignment, a.inMessages = true →
    uacpiNtMsiCountFromRequirement d = 1
deriving Decidable

end

section

variable {env : Environment} {host : IrqHost} {listed : List IoResourceDescriptor}
  {st st' : AllocationState}

theorem toNat_relaid_last (hst : Steady host listed st) {alt : ArbiterAlternative}
    (halt : st.current = some alt) (hmaxi : st.start ≤ alt.maximum) :
    st.relaid.2.1.toNat = st.start.toNat + (relaidLength alt.descriptor st.start).toNat - 1 := by
  have hlt := (hst.current_spec halt).2.2.2.1
  obtain ⟨hone, hmax⟩ := relaidLength_bounds alt.descriptor st.start
  rw [UInt64.le_iff_toNat_le] at hmaxi
  simp only [relaid, halt, Option.elim_some]
  rw [UInt64.toNat_sub, UInt64.toNat_add, UInt64.toNat_one]
  omega

theorem irq_relays (hrtl : env.rtl.Lawful) (hpac : Packed (irqOps host) st st')
    (hst : Steady host listed st) (hslot : Slotted st) (hasg : st.entry.assignment.isSome) :
    Relays env (irqOps host) Range.key (fun _ => True) st'.entry [st.relaid] := by
  obtain ⟨alt, halt, -, hmin, hmaxi⟩ := hslot.bounds
  obtain ⟨a, ha⟩ := Option.isSome_iff_exists.mp hasg
  obtain ⟨world, a', world', hpack, ha'⟩ := hpac.assignment alt a halt ha
  have hreq := (hst.decodes.fields halt).1
  have hpack' : uacpiNtIrqPackResource alt.descriptor st.start a world = (.ok (), a', world') :=
    hpack
  have hunpk := irqUnpackResource_pack hreq hmin hmaxi hpack'
  have hres : st'.entry.result ≠ .nullRequest := by
    rw [hpac.state]
    simp [hst.result]
  have hsel : st'.entry.selectedAlternative = some alt.descriptor := by
    rw [hpac.state, halt]
    rfl
  have hown : st'.entry.physicalDeviceObject = st.owner := by
    rw [hpac.state]
    rfl
  have hlen : relaidLength alt.descriptor st.start ≠ 0 := by
    intro hzero
    have hone := (relaidLength_bounds alt.descriptor st.start).1
    rw [hzero] at hone
    exact absurd hone (by decide)
  have hrel : st.relaid =
      (st.start, st.start + relaidLength alt.descriptor st.start - 1, st.owner) := by
    rw [relaid, halt]
    rfl
  have hwd : st.start ≤ st.start + relaidLength alt.descriptor st.start - 1 := by
    have hlast := toNat_relaid_last hst halt hmaxi
    rw [hrel] at hlast
    have hone := (relaidLength_bounds alt.descriptor st.start).1
    rw [UInt64.le_iff_toNat_le]
    simp only at hlast
    omega
  rw [Relays, if_neg hres]
  intro replay _
  have hunpk' : (irqOps host).unpackResource a' =
      .ok (st.start, relaidLength alt.descriptor st.start) := hunpk
  obtain ⟨st₁, world₁, hpre, hcases⟩ := irqPreprocessEntry_cases host { replay.state with
    entry := st'.entry
    alternatives := [alt.withPriority arbiterPriorityNull]
    currentAlternative := some 0
    workSpace := 0
    start := st.start
    last := st.start + relaidLength alt.descriptor st.start - 1 } replay.world
  have hkey : st₁.record.key = st.relaid := by
    rw [hrel, ← hown]
    rcases hcases with ⟨-, rfl⟩ | ⟨-, workSpace, rfl⟩ <;> rfl
  have hops : (irqOps host).preprocessEntry = uacpiNtIrqPreprocessEntry host := rfl
  simp only [replayEntry, hsel, ha', hst.decodes.current halt, hunpk', hops, hpre, if_neg hlen]
  refine ⟨_, _, rfl, trivial, ?_⟩
  have hrec : st₁.record.start ≤ st₁.record.last := by
    obtain ⟨hstar, hlast, -⟩ := Range.fields_of_key (hkey.trans hrel)
    rw [hstar, hlast]
    exact hwd
  have hadd := (hrtl.addRange'_perm replay.possible hrec).map Range.key
  rw [map_cons, hkey] at hadd
  exact hadd

theorem inMessages_of_packed (hpac : Packed (irqOps host) st st') (hst : Steady host listed st)
    (hslot : Slotted st) {a : CmPartialResourceDescriptor} (ha : a ∈ st'.entry.assignment)
    (hasg : st.entry.assignment.isSome) :
    a.inMessages = true ↔ msiGsivBase ≤ st.start := by
  obtain ⟨alt, halt, -, -, hmaxi⟩ := hslot.bounds
  obtain ⟨a₀, ha₀⟩ := Option.isSome_iff_exists.mp hasg
  obtain ⟨world, a', world', hpack, ha'⟩ := hpac.assignment alt a₀ halt ha₀
  obtain rfl := Option.mem_unique ha' ha
  exact irqPackResource_inMessages (a := a₀) (hst.decodes.fields halt).1 hmaxi hpack

theorem relaid_eq_iff (hpac : Packed (irqOps host) st st') (hst : Steady host listed st)
    (hslot : Slotted st) (hasg : st.entry.assignment.isSome) :
    st.relaid = st.record.key ↔ st'.entry.SelectsSingle := by
  obtain ⟨alt, halt, -, -, hmaxi⟩ := hslot.bounds
  have hsel : st'.entry.selectedAlternative = some alt.descriptor := by
    rw [hpac.state, halt]
    rfl
  obtain ⟨a₀, ha₀⟩ := Option.isSome_iff_exists.mp hasg
  obtain ⟨-, a, -, -, ha⟩ := hpac.assignment alt a₀ halt ha₀
  have hwin := inMessages_of_packed hpac hst hslot ha hasg
  have hlast := toNat_relaid_last hst halt hmaxi
  obtain ⟨hone, -⟩ := relaidLength_bounds alt.descriptor st.start
  have hlen : st.relaid = st.record.key ↔ (relaidLength alt.descriptor st.start).toNat = 1 := by
    constructor
    · intro heq
      rw [heq] at hlast
      simp only [Range.key, AllocationState.record, hslot.single] at hlast
      omega
    · intro hsingle
      have hstar : st.relaid.2.1 = st.start := by
        apply UInt64.toNat_inj.mp
        omega
      refine Prod.ext rfl (Prod.ext ?_ rfl)
      exact hstar.trans hslot.single.symm
  rw [hlen, ArbiterListEntry.SelectsSingle, hsel, ha]
  simp only [Option.mem_some_iff, forall_eq', hwin, relaidLength]
  by_cases hline : st.start < msiGsivBase
  · simp [hline, UInt64.not_le.mpr hline]
  · simp [hline, UInt64.not_lt.mp hline, ← UInt32.toNat_inj]

end

section

variable {env : Environment} {host : IrqHost} {listed : List IoResourceDescriptor}

theorem relaid_perm_iff {placed : List AllocationState} (h : ∀ st ∈ placed, Slotted st) :
    (placed.map relaid).Perm (placed.map (·.record.key)) ↔
      ∀ st ∈ placed, st.relaid = st.record.key := by
  constructor
  · intro hperm st hst
    obtain ⟨other, hoth, hkey⟩ := mem_map.mp (hperm.mem_iff.mp (mem_map_of_mem hst))
    -- What is laid down for the state is the slot of some state, so it starts and ends there.
    have hsingle : st.relaid.2.1 = st.relaid.1 := by
      rw [← hkey]
      exact (h other hoth).single
    exact Prod.ext rfl (Prod.ext (hsingle.trans (h st hst).single.symm) rfl)
  · intro hsame
    rw [map_congr_left hsame]

variable {fuel : Nat} {arb arb' : ArbiterInstance} {entries : List ArbiterListEntry}
  {world : IrqWorld} {r : TransactionResult IrqWorld}

/-- The bounds and owners that a test leaves, and those that a retest of its list leaves, over
those of the devices that are not listed. -/
theorem irq_retest_keys (hrtl : env.rtl.Lawful)
    (hdevs : ∀ e ∈ entries, e.physicalDeviceObject.isSome)
    (halts : ∀ e ∈ entries, e.alternatives ≠ []) {setup : TestSetup}
    (hset : testSetup env (irqOps host) arb entries none world = .ok setup)
    {placed : List AllocationState}
    (hpl : TestSolution (irqOps host) setup slotImage (fun st => [st.record])
      (Steady host listed) (fun st _ => Slotted st) r placed)
    (hstates : ∀ st ∈ placed, Steady host listed st ∧ Slotted st ∧ st.entry.assignment.isSome)
    (hsame : arb'.allocation = arb.allocation) (world' : IrqWorld) :
    (r.arbiter.possibleAllocation.map (·.key)).Perm
        (placed.map (·.record.key) ++ setup.arbiter.possibleAllocation.map (·.key)) ∧
      (arbpRetestAllocation env (irqOps host) arb' r.entries world').status = .ok () ∧
      ((arbpRetestAllocation env (irqOps host) arb' r.entries
          world').arbiter.possibleAllocation.map (·.key)).Perm
        (placed.map relaid ++ setup.arbiter.possibleAllocation.map (·.key)) := by
  have hheld : placed.flatMap (held fun st => [st.record]) = placed.map (·.record) := by
    rw [flatMap_def, map_congr_left, ← flatMap_def, ← map_eq_flatMap]
    intro st hst
    obtain ⟨hsteady, hslot, -⟩ := hstates st hst
    obtain ⟨alt, halt, -⟩ := hslot.bounds
    rw [held, if_pos (hsteady.requestsRoom halt)]
  have hrela : ∀ st ∈ placed.reverse, ∀ st', Packed (irqOps host) st st' →
      Relays env (irqOps host) Range.key (fun _ => True) st'.entry [st.relaid] := by
    intro st hst st' hpac
    obtain ⟨hsteady, hslot, hasg⟩ := hstates st (mem_reverse.mp hst)
    exact irq_relays hrtl hpac hsteady hslot hasg
  obtain ⟨hstat, hperm⟩ := retestAllocation_ok hrtl arb' hpl.packed
    (hpl.entries_eq_stack hset halts) hrela trivial world'
  refine ⟨?_, hstat, hperm.trans (Perm.append ?_ ?_)⟩
  · have hbook := hpl.booked.map Prod.fst
    rw [hheld] at hbook
    simpa [slotImage, Function.comp_def] using hbook
  · rw [← map_eq_flatMap]
    exact (reverse_perm placed).map relaid
  · rw [unlisted_eq_of_identity (hpl.entries_spec hset).1, hsame]
    exact ((testSetup_possible hrtl hdevs hset).map _).symm

end

def IoResourceDescriptor.ofMessages (minimum maximum : UInt32) : IoResourceDescriptor :=
  ⟨0, .deviceExclusive, interruptMessage ||| 1, .interrupt minimum maximum 0⟩

def IrqHost.unrouted : IrqHost :=
  ⟨1, 64, fun _ _ links => (none, links)⟩

def ArbiterInstance.plainInterrupt (allocation : RtlRangeList) : ArbiterInstance :=
  { ArbiterInstance.initial .interrupt .free .free (some uacpiNtIrqShareableRange) with
    allocation := allocation }

def topSlotHeld : ArbiterInstance :=
  .plainInterrupt [⟨0xFFFFFFFE, 0xFFFFFFFE, 0, false, some ⟨3⟩⟩]

end UacpiNt
