import UacpiNt.IrqArb.Trace

/-!
# Message assignments

A test packs the slot and the count of each message placement into the assignment of its owner, and
records the count under the slot. A retest lays the placements down again from the assignments.
So every owned range of the message window is behind an assignment.
-/

namespace UacpiNt

open AllocationState List

/-! ### Assignments -/

structure MessageAssignment where
  owner : Option DeviceObject
  slot : UInt64
  count : UInt32
deriving DecidableEq, Repr

/-- The message placement in the assignment of an entry, with the `MessageCount` in the upper half
of its level. -/
def ArbiterListEntry.messageAssignment (e : ArbiterListEntry) : Option MessageAssignment :=
  match e.assignment with
  | some ⟨_, _, .interrupt level vector _⟩ =>
    if vector.toUInt64 < msiGsivBase then none
    else some ⟨e.physicalDeviceObject, vector.toUInt64, level >>> 16⟩
  | _ => none

def otherAssignments (entries : List ArbiterListEntry) (l : List MessageAssignment) :
    List MessageAssignment :=
  l.filter fun a => entries.all fun e => decide (a.owner ≠ e.physicalDeviceObject)

theorem mem_otherAssignments {entries : List ArbiterListEntry} {l : List MessageAssignment}
    {a : MessageAssignment} : a ∈ otherAssignments entries l ↔
      a ∈ l ∧ ∀ e ∈ entries, a.owner ≠ e.physicalDeviceObject := by
  simp [otherAssignments]

def AllocationState.messageAssigned (st : AllocationState) : Option MessageAssignment :=
  st.messagePacked.map fun packed => ⟨st.owner, packed.1, packed.2⟩

theorem messagePacked_count_ne_zero {st : AllocationState} {packed : UInt64 × UInt32}
    (h : packed ∈ st.messagePacked) : packed.2 ≠ 0 := by
  rw [messagePacked] at h
  split at h
  · rename_i alt _ _ _
    split at h
    · cases h
    obtain rfl := Option.some.inj h
    have hbds := (msiCount_bounds alt.descriptor).1
    intro hzero
    simp only at hzero
    rw [hzero] at hbds
    exact absurd hbds (by decide)
  · cases h

section

variable {host : IrqHost} {st st' : AllocationState}

theorem Packed.inBounds {σ : Type} {ops : ArbiterOps σ} (h : Packed ops st st') :
    InBounds st' ↔ InBounds st := by
  rw [h.state]
  rfl

theorem Packed.messageAssignment (h : Packed (irqOps host) st st') (hbds : InBounds st)
    (hdec : Decodes (irqOps host) st) (hasg : st.entry.assignment.isSome) :
    st'.entry.messageAssignment = st.messageAssigned := by
  obtain ⟨alt, halt, -, -, hmax⟩ := hbds
  obtain ⟨a, ha⟩ := Option.isSome_iff_exists.mp hasg
  obtain ⟨world, a', world', hpack, ha'⟩ := h.assignment alt a halt ha
  have hnarr := toUInt32_toUInt64_of_le hmax (hdec.irq_fields halt).2.2.2
  have hcnt := shiftLeft_shiftRight_count (msiCount_bounds alt.descriptor).2
  have hown : st'.entry.physicalDeviceObject = st.owner := h.owner
  change uacpiNtIrqPackResource alt.descriptor st.start a world = (.ok (), a', world') at hpack
  rw [ArbiterListEntry.messageAssignment, ha', messageAssigned, messagePacked, halt, ha]
  rw [uacpiNtIrqPackResource] at hpack
  by_cases hline : st.start < msiGsivBase
  · rw [if_pos hline] at hpack
    cases hpack
    simp [hnarr, hline]
  · rw [if_neg hline] at hpack
    cases hpack
    simp [hnarr, hline, hcnt, hown]

end

/-! ### What a test leaves -/

/-- What a successful test with its search in state `s` leaves: the solution is recorded and
packed, and each owned range of the message window is in it or was committed before. -/
structure TestPacks (arb : ArbiterInstance) (entries : List ArbiterListEntry)
    (allocateFrom : Option (List CmPartialResourceDescriptor)) (world : IrqWorld)
    (s : Search IrqWorld) (r : TransactionResult IrqWorld) : Prop where
  pending : s.pending = []
  before : s.world.msiRecords = world.msiRecords
  after : r.world.msiRecords = recordPacked s.states world.msiRecords
  assigned : (r.entries.filter fun e => e.alternatives ≠ []).filterMap (·.messageAssignment) =
    s.states.filterMap (·.messageAssigned)
  listed : ∀ x ∈ r.arbiter.possibleAllocation, ∀ owner, x.owner = some owner →
    msiGsivBase ≤ x.start →
    (∃ a ∈ s.states.filterMap (·.messageAssigned), a.owner = some owner ∧ a.slot = x.start) ∨
      allocateFrom = none ∧
        ∃ y ∈ unlisted entries arb.allocation, y.owner = some owner ∧ y.start = x.start

section

variable {env : Environment} {host : IrqHost} {arb : ArbiterInstance} {fuel : Nat}
  {entries : List ArbiterListEntry} {allocateFrom : Option (List CmPartialResourceDescriptor)}
  {world : IrqWorld} {r : TransactionResult IrqWorld}

theorem filterMap_eq_of_forall₂ {α β γ : Type} {f : α → Option γ} {g : β → Option γ}
    {l : List α} {m : List β} (h : Forall₂ (fun a b => g b = f a) l m) :
    m.filterMap g = l.filterMap f := by
  induction h with
  | nil => rfl
  | cons hab _ ih => simp only [filterMap_cons, hab, ih]

theorem messageAssigned_of_message {st : AllocationState} {alt : ArbiterAlternative}
    (halt : st.current = some alt) (hasg : st.entry.assignment.isSome)
    (hmsg : msiGsivBase ≤ st.start) : st.messageAssigned =
      some ⟨st.owner, st.start, uacpiNtMsiCountFromRequirement alt.descriptor⟩ := by
  obtain ⟨a, ha⟩ := Option.isSome_iff_exists.mp hasg
  simp [messageAssigned, messagePacked, halt, ha, UInt64.not_lt.mpr hmsg]

theorem exists_testPacks (hrtl : env.rtl.Lawful) {cond : ArbiterInstance → Search IrqWorld → Prop}
    (hasgs : ∀ e ∈ entries, e.assignment.isSome)
    (htest : arbpTestAllocation env (irqOps host) fuel arb entries allocateFrom world = some r)
    (hok : r.status = .ok ())
    (halong : TestAlong env (irqOps host) fuel arb entries allocateFrom world cond) :
    ∃ arb' s, cond arb' s ∧ TestPacks arb entries allocateFrom world s r := by
  obtain ⟨setup, result, hset, hrun, hstatus, rfl⟩ := testAllocation_ok htest hok
  obtain ⟨placed, hpl⟩ := irq_bounded_solution hrtl hset htest hok
  rw [TestAlong, hset] at halong
  obtain ⟨s, ⟨hrecs, hrequ, -⟩, hcond, hstep⟩ := allocateEntry_last hrun halong
  obtain ⟨hpend, rfl⟩ := Search.step_ok hstep hstatus
  have hpac : Forall₂ (Packed (irqOps host)) s.states (s.finish (irqOps host)).states :=
    packSolution_ok (irqOps host) (Prod.ext hstatus rfl)
  -- The search ends with the placements that were packed.
  have hplac : ∀ st ∈ s.states, InBounds st ∧ Decodes (irqOps host) st ∧
      st.entry.assignment.isSome := by
    intro st hst
    obtain ⟨st', hst', hstat⟩ := exists_right_of_forall₂ hpac hst
    obtain ⟨st₀, hst₀, hstate₀⟩ := hpl.exists_placed hst'
    obtain ⟨below, hbds⟩ := hpl.stacked.exists_below hst₀
    have hmem : st.request ∈ setup.states.map (·.request) := by
      rw [← hrequ]
      exact mem_map_of_mem hst
    obtain ⟨st₁, hst₁, hreq⟩ := mem_map.mp hmem
    obtain ⟨hbuilt, e, he, hsame⟩ := mem_setup_states hset hst₁
    refine ⟨(Packed.inBounds hstat).mp ((Packed.inBounds hstate₀).mpr hbds), ?_, ?_⟩
    · rw [Decodes, requirements_eq_of_request hreq.symm]
      exact hbuilt.decodes
    have hasg : st₁.entry.assignment = st.entry.assignment :=
      congrArg (fun st => st.entry.assignment) hreq
    rw [← hasg, hsame]
    exact hasgs e he
  refine ⟨setup.arbiter, s, hcond, hpend, hrecs, ?_, ?_, ?_⟩
  · change (packSolution (irqOps host) s.states s.world).2.2.msiRecords = _
    rw [(packSolution_irq s.states s.world).2, hrecs]
  · rw [(hpl.entries_spec hset).2, filterMap_map]
    refine filterMap_eq_of_forall₂ (((forall₂_and_left _ _).mpr ⟨hplac, hpac⟩).imp ?_)
    rintro st st' ⟨⟨hbds, hdec, hasg⟩, hstat⟩
    exact hstat.messageAssignment hbds hdec hasg
  · intro x hx owner hown hmsg
    have hmem := hpl.booked.mem_iff.mp (mem_map_of_mem hx)
    rcases mem_append.mp hmem with hmem | hmem <;> obtain ⟨y, hy, hkey⟩ := mem_map.mp hmem
    · rw [flatMap_held_singleton AllocationState.record] at hy
      obtain ⟨st₀, hst₀, rfl⟩ := mem_map.mp hy
      obtain ⟨hstar, -, hown'⟩ := RangeList.Range.fields_of_key hkey
      obtain ⟨st', hst', hstate₀⟩ := hpl.exists_packed (mem_of_mem_filter hst₀)
      obtain ⟨st, hst, hstat⟩ := exists_left_of_forall₂ hpac hst'
      have hstar' : st.start = x.start := by
        rw [← hstat.start, hstate₀.start]
        exact hstar
      have hown'' : st.owner = some owner := by
        rw [← hstat.owner, hstate₀.owner, ← hown]
        exact hown'
      obtain ⟨⟨alt, halt, -⟩, -, hasg⟩ := hplac st hst
      refine .inl ⟨_, mem_filterMap.mpr ⟨st, hst, messageAssigned_of_message halt hasg
        (hstar'.symm ▸ hmsg)⟩, hown'', hstar'⟩
    · obtain ⟨hstar, -, hown'⟩ := RangeList.Range.fields_of_key hkey
      obtain ⟨hnone, hunl⟩ := testSetup_owned hrtl hset hy (hown'.trans hown)
      exact .inr ⟨hnone, y, hunl, hown'.trans hown, hstar⟩

theorem test_failed_records
    (htest : arbpTestAllocation env (irqOps host) fuel arb entries allocateFrom world = some r)
    (hfail : r.status ≠ .ok ()) : r.world.msiRecords = world.msiRecords := by
  rw [arbpTestAllocation] at htest
  cases hset : testSetup env (irqOps host) arb entries allocateFrom world with
  | error r' =>
    rw [hset] at htest
    cases htest
    rw [(testSetup_error hset).2]
  | ok setup =>
    rw [hset] at htest
    obtain ⟨result, hrun, rfl⟩ := Option.map_eq_some_iff.mp htest
    obtain ⟨s, hexpl, -, hstep⟩ := allocateEntry_last hrun
      (Machine.along_of_forall (fun _ => trivial) fuel _ : Machine.Along _ (fun _ => True) _ _)
    have hpend : s.pending ≠ [] := by
      intro hnil
      have hfin : s.step env (irqOps host) setup.arbiter = .inr (s.finish (irqOps host)) := by
        simp [Search.step, hnil]
      cases hstep.symm.trans hfin
      have hstatus : (s.finish (irqOps host)).status = .ok () := (packSolution_irq _ _).1
      exact hfail (by simp [testFinish, hstatus])
    have hafter := step_msiRecords env host setup.arbiter s
    rw [hstep, if_neg hpend] at hafter
    have hworld : (testFinish setup result).world = result.world := by
      rw [testFinish]
      split <;> rfl
    rw [hworld]
    exact hafter.trans hexpl.records

/-! ### What a retest leaves -/

theorem messageAssignment_of_unpack {e : ArbiterListEntry} {a : CmPartialResourceDescriptor}
    {start length : UInt64} (ha : e.assignment = some a)
    (h : uacpiNtIrqUnpackResource a = .ok (start, length)) (hmsg : msiGsivBase ≤ start) :
    ∃ assigned ∈ e.messageAssignment, assigned.owner = e.physicalDeviceObject ∧
      assigned.slot = start := by
  obtain ⟨share, flags, u⟩ := a
  rw [ArbiterListEntry.messageAssignment, ha]
  rw [uacpiNtIrqUnpackResource] at h
  cases u with
  | interrupt level vector affinity =>
    have hstar : vector.toUInt64 = start := by
      simp only at h
      split at h <;> exact congrArg Prod.fst (Except.ok.inj h)
    subst hstar
    simp [UInt64.not_lt.mpr hmsg]
  | _ => cases h

/-- Laying an entry down again records nothing, and adds a range with the slot of its assignment
at most. -/
theorem replayEntry_irq (hrtl : env.rtl.Lawful) (host : IrqHost) (e : ArbiterListEntry)
    (replay : Replay IrqWorld) :
    (replayEntry env (irqOps host) e replay).2.msiRecords = replay.world.msiRecords ∧
    ∀ replay', (replayEntry env (irqOps host) e replay).1 = .ok replay' →
      replay'.world.msiRecords = replay.world.msiRecords ∧
      ∀ x ∈ replay'.possible, x ∈ replay.possible ∨ (msiGsivBase ≤ x.start →
        ∃ a ∈ e.messageAssignment, a.owner = x.owner ∧ a.slot = x.start) := by
  rw [replayEntry]
  split
  · rename_i selected a _ ha
    split
    · exact ⟨rfl, fun _ herr => by cases herr⟩
    · exact ⟨rfl, fun _ herr => by cases herr⟩
    rename_i alt start length _ hunpk
    have hops : (irqOps host).preprocessEntry = uacpiNtIrqPreprocessEntry host := rfl
    simp only [hops]
    generalize hlaid : ({ replay.state with
      entry := e
      alternatives := [alt]
      currentAlternative := some 0
      workSpace := 0
      start := start
      last := start + length - 1 } : AllocationState) = laid
    obtain ⟨st, world', hpre, hcases⟩ := irqPreprocessEntry_cases host laid replay.world
    have hrecs : (uacpiNtIrqPreprocessEntry host laid replay.world).2.2.msiRecords =
        replay.world.msiRecords := irqPreprocess_msiRecords laid replay.world
    have hrec : st.record.start = start ∧ st.record.owner = e.physicalDeviceObject := by
      subst hlaid
      rcases hcases with ⟨-, rfl⟩ | ⟨-, workSpace, rfl⟩ <;> exact ⟨rfl, rfl⟩
    rw [hpre] at hrecs
    simp only [hpre]
    refine ⟨hrecs, fun replay' heq => ?_⟩
    cases heq
    refine ⟨hrecs, fun x hx => ?_⟩
    split at hx
    · exact .inl hx
    rcases hrtl.mem_of_mem_addRange' hx with rfl | hx
    · refine .inr fun hmsg => ?_
      rw [hrec.1] at hmsg ⊢
      rw [hrec.2]
      exact messageAssignment_of_unpack ha hunpk hmsg
    · exact .inl hx
  · exact ⟨rfl, fun _ herr => by cases herr⟩

def laidAssignments (entries : List ArbiterListEntry) : List MessageAssignment :=
  (entries.filter fun e => e.result ≠ .nullRequest).filterMap (·.messageAssignment)

theorem replayEntries_irq (hrtl : env.rtl.Lawful) (host : IrqHost)
    (entries : List ArbiterListEntry) (replay : Replay IrqWorld) :
    (replayEntries env (irqOps host) entries replay).2.msiRecords = replay.world.msiRecords ∧
    ∀ replay', (replayEntries env (irqOps host) entries replay).1 = .ok replay' →
      replay'.world.msiRecords = replay.world.msiRecords ∧
      ∀ x ∈ replay'.possible, x ∈ replay.possible ∨ (msiGsivBase ≤ x.start →
        ∃ a ∈ laidAssignments entries, a.owner = x.owner ∧ a.slot = x.start) := by
  induction entries generalizing replay with
  | nil =>
    refine ⟨rfl, fun replay' heq => ?_⟩
    cases heq
    exact ⟨rfl, fun x hx => .inl hx⟩
  | cons e rest ih =>
    rw [replayEntries]
    split <;> rename_i hnull
    · have hlaid : laidAssignments (e :: rest) = laidAssignments rest := by
        simp [laidAssignments, hnull]
      rw [hlaid]
      exact ih replay
    · have hlaid : laidAssignments (e :: rest) =
          e.messageAssignment.toList ++ laidAssignments rest := by
        cases hasgd : e.messageAssignment <;> simp [laidAssignments, hnull, hasgd]
      obtain ⟨hfail, hent⟩ := replayEntry_irq hrtl host e replay
      split
      · rename_i heq
        rw [heq] at hfail
        exact ⟨hfail, fun _ herr => by cases herr⟩
      rename_i replay₁ w heq
      rw [heq] at hent
      obtain ⟨hrecords₁, hfst⟩ := hent replay₁ rfl
      obtain ⟨hrecs, hrest⟩ := ih replay₁
      refine ⟨hrecs.trans hrecords₁, fun replay' hrun => ?_⟩
      obtain ⟨hrecs', hpos⟩ := hrest replay' hrun
      refine ⟨hrecs'.trans hrecords₁, fun x hx => ?_⟩
      rw [hlaid]
      rcases hpos x hx with hx | hx
      · refine (hfst x hx).imp_right fun hasgd hmsg => ?_
        obtain ⟨a, ha, hflds⟩ := hasgd hmsg
        exact ⟨a, mem_append_left _ (Option.mem_toList.mpr ha), hflds⟩
      · refine .inr fun hmsg => ?_
        obtain ⟨a, ha, hflds⟩ := hx hmsg
        exact ⟨a, mem_append_right _ ha, hflds⟩

/-- A retest records nothing, and what it leaves in the message window is assigned or was committed
before. -/
theorem retest_irq (hrtl : env.rtl.Lawful) (host : IrqHost) (arb : ArbiterInstance)
    (entries : List ArbiterListEntry) (world : IrqWorld) :
    (arbpRetestAllocation env (irqOps host) arb entries world).world.msiRecords = world.msiRecords ∧
    ((arbpRetestAllocation env (irqOps host) arb entries world).status = .ok () →
      ∀ x ∈ (arbpRetestAllocation env (irqOps host) arb entries world).arbiter.possibleAllocation,
        x ∈ unlisted entries arb.allocation ∨ (msiGsivBase ≤ x.start →
          ∃ a ∈ laidAssignments entries, a.owner = x.owner ∧ a.slot = x.start)) := by
  obtain ⟨l, hcopy, hperm⟩ := hrtl.copy_spec arb.allocation
  obtain ⟨base, hdelete, hbase⟩ := deleteOwners_ok hrtl entries l
  have hstar : env.rtl.copyRangeList arb.allocation >>= deleteOwners env.rtl entries = .ok base :=
    bind_eq_ok_iff.mpr ⟨l, hcopy, hdelete⟩
  obtain ⟨hfail, hlaid⟩ := replayEntries_irq hrtl host entries ⟨replayState, base, world⟩
  rw [arbpRetestAllocation, hstar]
  simp only
  split
  · rename_i heq
    rw [heq] at hfail
    exact ⟨hfail, fun herr => by cases herr⟩
  rename_i replay w heq
  rw [heq] at hlaid
  obtain ⟨hrecs, hpos⟩ := hlaid replay rfl
  refine ⟨hrecs, fun _ x hx => (hpos x hx).imp_left fun hx => ?_⟩
  exact (hbase.trans (unlisted_perm entries hperm)).mem_iff.mp hx

end

end UacpiNt
