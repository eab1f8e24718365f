import UacpiNt.Arbiter.Conflict
import UacpiNt.Arbiter.Window
import UacpiNt.IrqArb.Basic

/-!
# What the routines of the interrupt arbiter change

Preprocessing tags a state and notes where it is routed to, and the walk may offer a preferred
line before the windows of the library; none of this changes the request. Each placement is
entered with one record. Whatever window is looked at lies inside the bounds of its
alternative.
-/

namespace UacpiNt

open AllocationState

/-! ### Requirements -/

section

variable (arb : ArbiterInstance) {host : IrqHost} (st : AllocationState) (world : IrqWorld)

/-- What an interrupt requirement decodes to: a line, a slot of the message window, or an empty
window for a message under the PIC. -/
theorem irqUnpackRequirement_ok {d : IoResourceDescriptor} {req : Requirement}
    (h : uacpiNtIrqUnpackRequirement host d = .ok req) :
    req.length = 1 ∧ req.alignment = 1 ∧ d.isMemory = false ∧ req.maximum.toNat < 2 ^ 32 ∧
      (d.isMessage = true → req.minimum = msiGsivBase ∧ req.maximum = msiGsivLast ∨
        req.minimum = 1 ∧ req.maximum = 0) := by
  rw [uacpiNtIrqUnpackRequirement] at h
  split at h
  · rename_i minimum maximum targeted hu
    have hmem : d.isMemory = false := by rw [IoResourceDescriptor.isMemory, hu]
    split at h
    · rename_i hline
      cases h
      refine ⟨rfl, rfl, hmem, maximum.toNat_lt, fun hmsg => ?_⟩
      rw [hmsg] at hline
      cases hline
    · split at h <;> cases h
      · exact ⟨rfl, rfl, hmem, by decide, fun _ => .inr ⟨rfl, rfl⟩⟩
      · exact ⟨rfl, rfl, hmem, by decide, fun _ => .inl ⟨rfl, rfl⟩⟩
  · cases h

theorem toUInt32_toUInt64_of_le {start maximum : UInt64} (hle : start ≤ maximum)
    (hlt : maximum.toNat < 2 ^ 32) : start.toUInt32.toUInt64 = start := by
  rw [← UInt64.toNat_inj]
  exact Nat.mod_eq_of_lt (lt_of_le_of_lt hle hlt)

/-! ### Preprocessing -/

theorem irqPreprocessEntry_cases (host : IrqHost) (st : AllocationState) (world : IrqWorld) :
    ∃ st' world', uacpiNtIrqPreprocessEntry host st world = (.ok (), st', world') ∧
      (st.entry.physicalDeviceObject = none ∧ st' = st ∨
        st.entry.physicalDeviceObject.isSome = true ∧
          ∃ workSpace, st' = { st.tagTriggering with workSpace := workSpace }) := by
  rw [uacpiNtIrqPreprocessEntry]
  cases st.entry.physicalDeviceObject with
  | none => exact ⟨_, _, rfl, .inl ⟨rfl, rfl⟩⟩
  | some device =>
    simp only
    split
    · exact ⟨_, _, rfl, .inr ⟨rfl, st.workSpace, rfl⟩⟩
    · exact ⟨_, _, rfl, .inr ⟨rfl, _, rfl⟩⟩

theorem irqPreprocessEntry_spec {st st' : AllocationState} {world world' : IrqWorld}
    {status : NtStatus} (h : uacpiNtIrqPreprocessEntry host st world = (status, st', world')) :
    status = .ok () ∧ (st.entry.physicalDeviceObject = none ∧ st' = st ∨
      st.entry.physicalDeviceObject.isSome = true ∧
        ∃ workSpace, st' = { st.tagTriggering with workSpace := workSpace }) := by
  obtain ⟨st₁, world₁, heq, hcases⟩ := irqPreprocessEntry_cases host st world
  cases heq.symm.trans h
  exact ⟨rfl, hcases⟩

/-! ### The walk -/

theorem preferredRounds_found {st : AllocationState} {irq : UInt32}
    {i fuel workSpace workSpace' : Nat}
    (h : preferredRounds arb st fuel workSpace = (workSpace', some (irq, i))) :
    uacpiNtFindIrqInAlternatives st irq = some i := by
  induction fuel generalizing workSpace with
  | zero => cases h
  | succ fuel ih =>
    rw [preferredRounds] at h
    split at h
    · simp only at h
      split at h
      · rename_i found hbind
        cases h
        obtain ⟨irq', -, hmap⟩ := Option.bind_eq_some_iff.mp hbind
        obtain ⟨i', hi, heq⟩ := Option.map_eq_some_iff.mp hmap
        cases heq
        exact hi
      · exact ih h
    · cases h

/-- The walk answers as the library does, or offers a preferred line that an alternative
covers. -/
theorem irqGetNext_cases : (∃ workSpace, ((uacpiNtIrqGetNextAllocationRange arb st world).1,
        (uacpiNtIrqGetNextAllocationRange arb st world).2.1) =
      arbiterLibGetNextAllocationRange arb { st with workSpace := workSpace }) ∨
    ∃ irq i workSpace, uacpiNtFindIrqInAlternatives st irq = some i ∧
      (uacpiNtIrqGetNextAllocationRange arb st world).2.1 =
        { st with
          currentMinimum := irq.toUInt64
          currentMaximum := irq.toUInt64
          currentAlternative := some i
          workSpace := workSpace } := by
  have hlib : ∀ workSpace, ((libraryGetNext arb { st with workSpace := workSpace } world).1,
      (libraryGetNext arb { st with workSpace := workSpace } world).2.1) =
        arbiterLibGetNextAllocationRange arb { st with workSpace := workSpace } := fun _ => rfl
  rw [uacpiNtIrqGetNextAllocationRange]
  split
  · exact .inl ⟨st.workSpace, hlib st.workSpace⟩
  split
  · exact .inl ⟨st.workSpace, hlib st.workSpace⟩
  rw [routedGetNext]
  split
  · rename_i workSpace irq i hrounds
    exact .inr ⟨irq, i, workSpace, preferredRounds_found arb hrounds, rfl⟩
  · rename_i workSpace hrounds
    exact .inl ⟨workSpace, hlib workSpace⟩

theorem irqGetNext_rewind :
    ∃ workSpace, (uacpiNtIrqGetNextAllocationRange arb st world).2.1.rewind =
      ({ st with workSpace := workSpace } : AllocationState).rewind := by
  rcases irqGetNext_cases arb st world with ⟨workSpace, heq⟩ | ⟨irq, i, workSpace, -, heq⟩
  · have hstat := congrArg Prod.snd heq
    simp only at hstat
    exact ⟨workSpace, by rw [hstat, getNextAllocationRange_rewind]⟩
  · exact ⟨workSpace, by rw [heq]; rfl⟩

theorem irqGetNext_request :
    (uacpiNtIrqGetNextAllocationRange arb st world).2.1.request = st.request := by
  obtain ⟨workSpace, hrew⟩ := irqGetNext_rewind arb st world
  have hrequ := request_eq_of_rewind hrew
  exact hrequ

end

/-! ### The search of a window -/

theorem irqFindSuitableRange_cases {env : Environment} {arb : ArbiterInstance}
    {st : AllocationState} {world : IrqWorld}
    (h : (uacpiNtIrqFindSuitableRange env arb st world).granted = true) :
    (∃ alt, st.current = some alt ∧ st.currentMinimum ≤ st.currentMaximum ∧
        Grant env arb st alt (uacpiNtIrqFindSuitableRange env arb st world).state) ∨
      ∃ gsiv, st.currentMinimum ≤ gsiv ∧ gsiv ≤ st.currentMaximum ∧
        (uacpiNtIrqFindSuitableRange env arb st world).state =
          { st with start := gsiv, last := gsiv } := by
  simp only [uacpiNtIrqFindSuitableRange] at h ⊢
  split at h
  · rename_i hmsg
    rw [if_pos hmsg]
    exact .inl (findSuitableRange_grant h)
  rename_i hline
  rw [if_neg hline]
  split at h <;> rename_i hrout
  · rw [if_pos hrout]
    split at h
    · cases h
    rename_i hins
    rw [if_neg hins]
    rw [not_or] at hins
    exact .inr ⟨_, UInt64.not_lt.mp hins.1, UInt64.not_lt.mp hins.2, rfl⟩
  · rw [if_neg hrout]
    split at h
    · rename_i hgr
      rw [if_pos hgr]
      exact .inl (findSuitableRange_grant hgr)
    · rename_i href
      exact absurd h href

theorem irqFindSuitableRange_spec (env : Environment) (arb : ArbiterInstance)
    (st : AllocationState) (world : IrqWorld) :
    (uacpiNtIrqFindSuitableRange env arb st world).state.unplaced = st.unplaced ∧
      AttributeStep st (uacpiNtIrqFindSuitableRange env arb st world).state := by
  have hlib : (libraryFindSuitable env arb st world).state.unplaced = st.unplaced ∧
      AttributeStep st (libraryFindSuitable env arb st world).state :=
    ⟨findSuitableRange_unplaced env arb st, findSuitableRange_attributes env arb st⟩
  rw [uacpiNtIrqFindSuitableRange]
  split
  · exact hlib
  · split <;> simp only
    · split <;> exact ⟨rfl, .inl rfl, .inl rfl⟩
    · split <;> exact hlib

section

variable {host : IrqHost}

theorem irq_frames (env : Environment) : Frames env (irqOps host) where
  preprocess := by
    intro st world
    obtain ⟨st', world', heq, hcases⟩ := irqPreprocessEntry_cases host st world
    change (uacpiNtIrqPreprocessEntry host st world).2.1.request = _
    rw [heq]
    rcases hcases with ⟨-, rfl⟩ | ⟨-, workSpace, rfl⟩ <;> rfl
  next arb st world := irqGetNext_request arb st world
  find arb st world := request_eq_of_unplaced (irqFindSuitableRange_spec env arb st world).1

theorem irq_keepsEntry (host : IrqHost) (env : Environment) : KeepsEntry env (irqOps host) where
  preprocess st world := by
    obtain ⟨st', world', heq, hcases⟩ := irqPreprocessEntry_cases host st world
    change (uacpiNtIrqPreprocessEntry host st world).2.1.entry = st.entry
    rw [heq]
    rcases hcases with ⟨-, rfl⟩ | ⟨-, workSpace, rfl⟩ <;> rfl
  next arb st world := by
    obtain ⟨workSpace, hrew⟩ := irqGetNext_rewind arb st world
    exact (congrArg AllocationState.entry hrew :)
  find arb st world := entry_eq_of_unplaced (irqFindSuitableRange_spec env arb st world).1

theorem irq_books {rtl : RtlApi} (hrtl : rtl.Lawful) :
    Books rtl (irqOps host) fun st => [st.record] := by
  refine library_books hrtl rfl rfl ?_
  intro st world st' world' status h
  obtain ⟨-, ⟨-, rfl⟩ | ⟨-, workSpace, rfl⟩⟩ := irqPreprocessEntry_spec h
  all_goals exact ⟨rfl, rfl, rfl, rfl, rfl, rfl, rfl⟩

end

/-! ### Windows and placements -/

section

variable {env : Environment} {host : IrqHost} {arb : ArbiterInstance} {st : AllocationState}
  {alt : ArbiterAlternative} {world : IrqWorld}

theorem Decodes.irq_fields (h : Decodes (irqOps host) st) (halt : st.current = some alt) :
    alt.length = 1 ∧ alt.effectiveAlignment = 1 ∧ alt.inaccessibleOk = false ∧
      alt.maximum.toNat < 2 ^ 32 := by
  obtain ⟨hreq, -, -, hok⟩ := h.fields halt
  obtain ⟨hlen, hal, hmem, hmax, -⟩ := irqUnpackRequirement_ok hreq
  simp only at hlen hal hmax
  refine ⟨hlen, ?_, ?_, hmax⟩
  · rw [ArbiterAlternative.effectiveAlignment, hal]
    rfl
  · rw [hok, hmem, Bool.false_and]

def Within (st : AllocationState) : Prop :=
  ∃ alt, st.current = some alt ∧ alt.minimum ≤ st.currentMinimum ∧
    st.currentMaximum ≤ alt.maximum

theorem within_of_sought {s : Search IrqWorld}
    (hretr : s.phase = .attempt true → ∀ current above, s.pending = current :: above →
      Within current) (hst : Decodes (irqOps host) st)
    (hso : s.sought (irqOps host) arb = some (st, world)) : Within st := by
  obtain ⟨current, above, hpend, ⟨hph, rfl⟩ | hnext⟩ := Search.sought_cases hso
  · exact hretr hph _ above hpend
  have hcases := irqGetNext_cases (arb.withPossible s.possible) current s.world
  change uacpiNtIrqGetNextAllocationRange (arb.withPossible s.possible) current s.world = _
    at hnext
  rw [hnext] at hcases
  rcases hcases with ⟨workSpace, hlib⟩ | ⟨irq, i, workSpace, hfd, hstat⟩
  · have hoff := offers_of_nextRounds _ _ hlib.symm
    obtain ⟨alt, -, halt, -⟩ := id hoff
    obtain ⟨hlen, hal, -⟩ := hst.irq_fields halt
    have hpos : alt.length ≠ 0 := by
      rw [hlen]
      decide
    exact ⟨alt, halt, minimum_le_of_offers hoff halt hpos hal, le_maximum_of_offers hoff halt hpos⟩
  · simp only at hstat
    rw [uacpiNtFindIrqInAlternatives, List.findIdx?_eq_some_iff_getElem] at hfd
    obtain ⟨hi, hcov, -⟩ := hfd
    rw [Bool.and_eq_true, decide_eq_true_eq, decide_eq_true_eq] at hcov
    refine ⟨current.alternatives[i], ?_, ?_, ?_⟩
    · rw [hstat]
      exact List.getElem?_eq_getElem hi
    · rw [hstat]
      exact hcov.1
    · rw [hstat]
      exact hcov.2

def InBounds (st : AllocationState) : Prop :=
  ∃ alt, st.current = some alt ∧ alt.minimum ≤ st.currentMinimum ∧ alt.minimum ≤ st.start ∧
    st.start ≤ alt.maximum

theorem inBounds_of_granted (hrtl : env.rtl.Lawful) (hwth : Within st)
    (hgr : (uacpiNtIrqFindSuitableRange env arb st world).granted = true) :
    InBounds (uacpiNtIrqFindSuitableRange env arb st world).state := by
  obtain ⟨alt, halt, hmin, hmax⟩ := hwth
  have hunp := (irqFindSuitableRange_spec env arb st world).1
  have hcur := (current_eq_of_unplaced hunp).trans halt
  rcases irqFindSuitableRange_cases hgr with ⟨alt', -, hwin, hgran⟩ | ⟨gsiv, hle, hge, hstat⟩
  · exact ⟨alt, hcur, hgran.window.1 ▸ hmin, UInt64.le_trans hmin (hgran.minimum_le_start hrtl),
      UInt64.le_trans (hgran.start_le_maximum hrtl hwin) hmax⟩
  · rw [hstat] at hcur ⊢
    exact ⟨alt, hcur, hmin, UInt64.le_trans hmin hle, UInt64.le_trans hge hmax⟩

theorem irqFind_start_le_last (hrtl : env.rtl.Lawful)
    (hgr : (uacpiNtIrqFindSuitableRange env arb st world).granted = true) :
    (uacpiNtIrqFindSuitableRange env arb st world).state.start ≤
      (uacpiNtIrqFindSuitableRange env arb st world).state.last := by
  rcases irqFindSuitableRange_cases hgr with ⟨alt, -, hwin, hgran⟩ | ⟨gsiv, -, -, hstat⟩
  · exact hgran.start_le_last hrtl hwin
  · rw [hstat]
    exact UInt64.le_refl gsiv

theorem within_lowerWindow {current current' : AllocationState} (h : InBounds current)
    (hsame : current.SamePlacement current') (hstar : current'.start > current'.currentMinimum) :
    Within current'.lowerWindow := by
  obtain ⟨alt, halt, hmin, -, hmax⟩ := h
  exact ⟨alt, hsame.current.trans halt, hsame.currentMinimum ▸ hmin,
    UInt64.le_trans (RangeList.sub_one_le_of_lt hstar) (hsame.start ▸ hmax)⟩

theorem irq_bounded_solution (hrtl : env.rtl.Lawful) {fuel : Nat}
    {entries : List ArbiterListEntry} {allocateFrom : Option (List CmPartialResourceDescriptor)}
    {r : TransactionResult IrqWorld} {setup : TestSetup}
    (hset : testSetup env (irqOps host) arb entries allocateFrom world = .ok setup)
    (htest : arbpTestAllocation env (irqOps host) fuel arb entries allocateFrom world = some r)
    (hok : r.status = .ok ()) :
    ∃ placed, TestSolution (irqOps host) setup RangeList.Range.key (fun st => [st.record])
      (Decodes (irqOps host)) (fun st _ => InBounds st) r placed := by
  have hstab : Stable env (irqOps host) setup.arbiter (Decodes (irqOps host)) :=
    (irq_frames env).decodes setup.arbiter
  have halong : TestAlong env (irqOps host) fuel arb entries allocateFrom world fun _ _ => True :=
    testAlong_of_forall fun _ _ => trivial
  refine solution_of_test (L := Within) (irq_books hrtl) (irq_frames env) hstab (fun _ _ h => h)
    (fun current _ current' hcur _ hsame _ hstar _ => within_lowerWindow hcur hsame hstar)
    ?_ (fun _ _ hbuilt => hbuilt.decodes) hset htest hok halong
  intro s hinv _
  have hgr : ∀ st world', s.sought (irqOps host) setup.arbiter = some (st, world') →
      (uacpiNtIrqFindSuitableRange env (setup.arbiter.withPossible s.possible) st
        world').granted = true →
      InBounds (uacpiNtIrqFindSuitableRange env (setup.arbiter.withPossible s.possible) st
        world').state := fun st world' hso hfd =>
    inBounds_of_granted hrtl (within_of_sought hinv.retried (hinv.sought hstab hso) hso) hfd
  refine ⟨fun _ _ _ _ _ _ _ _ hkey => hkey, fun st world' hso hfd _ => ?_,
    fun st world' hso hfd _ => ?_⟩
  · exact ⟨hgr st world' hso hfd, List.forall_mem_singleton.mpr (irqFind_start_le_last hrtl hfd)⟩
  · exact ⟨hstab.find s.possible st world' (hinv.sought hstab hso), hgr st world' hso hfd⟩

end

/-! ### The world

Preprocessing resolves the routed line of a device, the walk advances the rotation of the links,
the search of a window notes the triggering of the line it grants, and packing records the count
of a message placement. Nothing else outside the instance changes. -/

variable {host : IrqHost}

def IrqWorld.recordCount (world : IrqWorld) (start : UInt64) (count : UInt32) : IrqWorld :=
  { world with msiRecords := uacpiNtMsiCountRecord start count world.msiRecords }

section

variable (world : IrqWorld)

@[simp]
theorem prtResolveGsiv_msiRecords (device : DeviceObject) :
    (uacpiNtPrtResolveGsiv host device world).2.msiRecords = world.msiRecords := by
  rw [uacpiNtPrtResolveGsiv]
  split <;> rfl

theorem prtResolveGsiv_triggers (device : DeviceObject) :
    (uacpiNtPrtResolveGsiv host device world).2.triggers =
      (host.prtWalk device world.linkRotation world.links).1.elim world.triggers
        world.triggers.noteLevelGsiv := by
  rw [uacpiNtPrtResolveGsiv]
  split <;> rename_i heq
  all_goals
    rw [heq]
    rfl

@[simp]
theorem rotate_msiRecords : world.rotate.msiRecords = world.msiRecords := rfl

@[simp]
theorem rotate_triggers : world.rotate.triggers = world.triggers := rfl

theorem notePlacedTriggering_cases (st : AllocationState) :
    uacpiNtNotePlacedTriggering st world = world ∨
      ∃ alt, st.current = some alt ∧ st.start < msiGsivBase ∧ alt.descriptor.isLatched = false ∧
        world.triggers.gsivForcedEdge st.start.toUInt32 = false ∧
        uacpiNtNotePlacedTriggering st world =
          { world with triggers := world.triggers.noteLevelGsiv st.start.toUInt32 } := by
  rw [uacpiNtNotePlacedTriggering]
  split
  · exact .inl rfl
  rename_i alt halt
  split
  · rename_i hnoted
    obtain ⟨hline, hlevel, hfor⟩ := hnoted
    rw [Bool.not_eq_true'] at hlevel hfor
    exact .inr ⟨alt, halt, hline, hlevel, hfor, rfl⟩
  · exact .inl rfl

@[simp]
theorem notePlacedTriggering_msiRecords (st : AllocationState) :
    (uacpiNtNotePlacedTriggering st world).msiRecords = world.msiRecords := by
  rcases notePlacedTriggering_cases world st with heq | ⟨alt, -, -, -, -, heq⟩ <;> rw [heq]

end

theorem irqPreprocess_world (st : AllocationState) (world : IrqWorld) :
    (uacpiNtIrqPreprocessEntry host st world).2.2 = world ∨
      ∃ device, st.entry.physicalDeviceObject = some device ∧
        (uacpiNtIrqPreprocessEntry host st world).2.2 =
          (uacpiNtPrtResolveGsiv host device world).2 := by
  rw [uacpiNtIrqPreprocessEntry]
  split
  · exact .inl rfl
  rename_i device hdev
  split
  · exact .inl rfl
  · exact .inr ⟨device, hdev, rfl⟩

@[simp]
theorem irqPreprocess_msiRecords (st : AllocationState) (world : IrqWorld) :
    (uacpiNtIrqPreprocessEntry host st world).2.2.msiRecords = world.msiRecords := by
  rcases irqPreprocess_world st world with heq | ⟨device, -, heq⟩ <;> rw [heq]
  exact prtResolveGsiv_msiRecords world device

theorem irqGetNext_world (arb : ArbiterInstance) (st : AllocationState) (world : IrqWorld) :
    (uacpiNtIrqGetNextAllocationRange arb st world).2.2 = world ∨
      (uacpiNtIrqGetNextAllocationRange arb st world).2.2 = world.rotate := by
  rw [uacpiNtIrqGetNextAllocationRange]
  split
  · exact .inl rfl
  split
  · exact .inl rfl
  rw [routedGetNext]
  split
  · exact .inr rfl
  simp only
  split
  · exact .inr rfl
  · exact .inl rfl

theorem irqFind_world (env : Environment) (arb : ArbiterInstance) (st : AllocationState)
    (world : IrqWorld) : (uacpiNtIrqFindSuitableRange env arb st world).world = world ∨
      (uacpiNtIrqFindSuitableRange env arb st world).granted = true ∧
        (uacpiNtIrqFindSuitableRange env arb st world).world =
          uacpiNtNotePlacedTriggering (uacpiNtIrqFindSuitableRange env arb st world).state
            world := by
  simp only [uacpiNtIrqFindSuitableRange]
  split
  · exact .inl rfl
  split
  · split
    · exact .inl rfl
    · exact .inr ⟨rfl, rfl⟩
  split
  · rename_i hgr
    exact .inr ⟨hgr, rfl⟩
  · exact .inl rfl

end UacpiNt
