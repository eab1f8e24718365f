import UacpiNt.Arbiter.Transaction.Effect
import UacpiNt.IrqArb.Counts
import UacpiNt.IrqArb.LineSharing
import UacpiNt.IrqLib.Madt

/-!
# What a test leaves behind

A test notes lines as level triggered while it explores: the line a device is routed to as soon as
its entry is taken up, and a line for a level triggered alternative as soon as it is granted. A
note is never taken back, so a test leaves no trace in the trigger tables exactly if no step of
its search notes a line that was not noted before. The counts of messages are only recorded when
the solution is packed.
-/

namespace UacpiNt

open Machine Search

variable {env : Environment} {host : IrqHost} {arb : ArbiterInstance}

/-! ### Which line a step notes -/

section

variable (env) (host) (arb)

def AllocationState.lineTakenUp (world : IrqWorld) (st : AllocationState) : Option UInt32 :=
  st.entry.physicalDeviceObject.bind fun device =>
    if st.boot ∨ wsPrt st.workSpace ≠ 0 then none
    else (host.prtWalk device world.linkRotation world.links).1

/-- The line below the message window that a state is placed on: the one it is routed to, or the
one the library finds. -/
def AllocationState.lineFound (st : AllocationState) : Option UInt64 :=
  if st.currentMinimum ≥ msiGsivBase then none
  else if wsPrt st.workSpace ≥ wsPrtBias then
    if st.routedLine < st.currentMinimum ∨ st.routedLine > st.currentMaximum then none
    else some st.routedLine
  else if (arbiterLibFindSuitableRange env arb st).1.1 then
    some (arbiterLibFindSuitableRange env arb st).1.2.start
  else none

/-- The line that is noted for a placement: that of a level triggered alternative, unless the line
was forced to be edge triggered. -/
def AllocationState.linePlaced (t : GsivTriggers) (st : AllocationState) : Option UInt32 :=
  (st.lineFound env arb).bind fun line =>
    if st.current.any (fun alt => !alt.descriptor.isLatched) ∧ line < msiGsivBase ∧
        !t.gsivForcedEdge line.toUInt32 then some line.toUInt32
    else none

def Search.lineNoted (s : Search IrqWorld) : Option UInt32 :=
  match s.pending, s.phase with
  | [], _ => none
  | current :: _, .enter =>
    if env.keQueryInterruptTime s.reads > s.hardDeadline then none
    else current.lineTakenUp host s.world
  | _ :: _, .attempt _ =>
    (s.sought (irqOps host) arb).bind fun sought =>
      sought.1.linePlaced env (arb.withPossible s.possible) s.world.triggers

end

section

variable (st : AllocationState) (world : IrqWorld) (s : Search IrqWorld) (t : GsivTriggers)
  (gsiv : UInt32) (line : Option UInt32)

def GsivTriggers.note : GsivTriggers :=
  line.elim t t.noteLevelGsiv

def GsivTriggers.polarities : GsivMap × GsivMap :=
  (t.forcedHigh, t.forcedLow)

theorem note_polarities : (t.note line).polarities = t.polarities := by
  cases line with
  | none => rfl
  | some gsiv =>
    simp only [GsivTriggers.note, Option.elim_some, GsivTriggers.noteLevelGsiv]
    split <;> rfl

theorem irqPreprocess_triggers : (uacpiNtIrqPreprocessEntry host st world).2.2.triggers =
      world.triggers.note (st.lineTakenUp host world) := by
  rw [uacpiNtIrqPreprocessEntry, AllocationState.lineTakenUp]
  cases st.entry.physicalDeviceObject with
  | none => rfl
  | some device =>
    simp only [Option.bind_some]
    split
    · rfl
    · exact prtResolveGsiv_triggers world device

theorem irqGetNext_triggers :
    (uacpiNtIrqGetNextAllocationRange arb st world).2.2.triggers = world.triggers := by
  rcases irqGetNext_world arb st world with heq | heq <;> rw [heq]
  exact rotate_triggers world

theorem notePlacedTriggering_triggers {st : AllocationState} {line : UInt64}
    (hstar : st.start = line) (world : IrqWorld) :
    (uacpiNtNotePlacedTriggering st world).triggers = world.triggers.note
      (if st.current.any (fun alt => !alt.descriptor.isLatched) ∧ line < msiGsivBase ∧
        !world.triggers.gsivForcedEdge line.toUInt32 then some line.toUInt32 else none) := by
  rw [uacpiNtNotePlacedTriggering, hstar]
  cases st.current with
  | none => simp [GsivTriggers.note]
  | some alt =>
    simp only [Option.any_some]
    by_cases hnoted : line < msiGsivBase ∧ (!alt.descriptor.isLatched) = true ∧
        (!world.triggers.gsivForcedEdge line.toUInt32) = true
    · obtain ⟨hline, hlevel, hfor⟩ := hnoted
      rw [if_pos ⟨hline, hlevel, hfor⟩, if_pos ⟨hlevel, hline, hfor⟩]
      rfl
    · rw [if_neg hnoted, if_neg fun h => hnoted ⟨h.2.1, h.1, h.2.2⟩]
      rfl

theorem irqFind_triggers : (uacpiNtIrqFindSuitableRange env arb st world).world.triggers =
      world.triggers.note (st.linePlaced env arb world.triggers) := by
  rw [uacpiNtIrqFindSuitableRange, AllocationState.linePlaced, AllocationState.lineFound]
  split
  · rfl
  split
  · simp only
    split
    · rename_i hout
      rw [AllocationState.routedLine, if_pos hout]
      rfl
    · rename_i hins
      rw [AllocationState.routedLine, if_neg hins]
      exact notePlacedTriggering_triggers rfl world
  · have hcur := AllocationState.current_eq_of_unplaced (findSuitableRange_unplaced env arb st)
    by_cases hgr : (libraryFindSuitable env arb st world).granted = true
    · rw [if_pos hgr, if_pos (show (arbiterLibFindSuitableRange env arb st).1.1 = true from hgr),
        ← hcur]
      exact notePlacedTriggering_triggers rfl world
    · rw [if_neg hgr, if_neg (show ¬ (arbiterLibFindSuitableRange env arb st).1.1 = true from hgr)]
      rfl

theorem step_triggers : (worldAfter (s.step env (irqOps host) arb)).triggers =
      s.world.triggers.note (s.lineNoted env host arb) := by
  rw [step, Search.lineNoted]
  cases hpend : s.pending with
  | nil =>
    change (packSolution (irqOps host) s.states s.world).2.2.triggers = _
    rw [(packSolution_irq s.states s.world).2]
    rfl
  | cons current above =>
    cases hph : s.phase with
    | enter =>
      simp only [worldAfter_enter]
      split
      · rfl
      · exact irqPreprocess_triggers current s.world
    | attempt retry =>
      cases retry with
      | true =>
        simp only [Search.sought, hpend, hph]
        exact (congrArg IrqWorld.triggers (seek_world env (irqOps host) arb s current
          above)).trans (irqFind_triggers current s.world)
      | false =>
        simp only [Search.sought, hpend, hph, worldAfter_attempt_false]
        split
        · rw [← irqGetNext_triggers current s.world]
          exact irqFind_triggers _ _
        · exact irqGetNext_triggers current s.world

theorem step_polarities (env : Environment) (host : IrqHost) (arb : ArbiterInstance)
    (s : Search IrqWorld) : (worldAfter (s.step env (irqOps host) arb)).triggers.polarities =
      s.world.triggers.polarities := by
  rw [step_triggers, note_polarities]

theorem step_msiRecords (env : Environment) (host : IrqHost) (arb : ArbiterInstance)
    (s : Search IrqWorld) : (worldAfter (s.step env (irqOps host) arb)).msiRecords =
      if s.pending = [] then recordPacked s.states s.world.msiRecords
      else s.world.msiRecords := by
  rw [step]
  cases hpend : s.pending with
  | nil =>
    rw [if_pos rfl]
    change (packSolution (irqOps host) s.states s.world).2.2.msiRecords = _
    rw [(packSolution_irq s.states s.world).2]
  | cons current above =>
    have hfind : ∀ st w, (uacpiNtIrqFindSuitableRange env (arb.withPossible s.possible) st
        w).world.msiRecords = w.msiRecords := by
      intro st w
      rcases irqFind_world env (arb.withPossible s.possible) st w with heq | ⟨-, heq⟩ <;> rw [heq]
      exact notePlacedTriggering_msiRecords w _
    have hnext : ∀ w, (uacpiNtIrqGetNextAllocationRange (arb.withPossible s.possible) current
        w).2.2.msiRecords = w.msiRecords := by
      intro w
      rcases irqGetNext_world (arb.withPossible s.possible) current w with heq | heq <;> rw [heq]
      exact rotate_msiRecords w
    cases hph : s.phase with
    | enter =>
      simp only [worldAfter_enter]
      split
      · rfl
      · exact irqPreprocess_msiRecords current s.world
    | attempt retry =>
      cases retry with
      | true =>
        exact (congrArg IrqWorld.msiRecords (seek_world env (irqOps host) arb s current
          above)).trans (hfind current s.world)
      | false =>
        simp only [worldAfter_attempt_false]
        split
        · exact (hfind _ _).trans (hnext s.world)
        · exact hnext s.world

/-! ### Tests -/

def GsivTriggers.Noted : Prop :=
  gsiv.toNat < uacpiNtMaxGsiv → t.gsivIsLevel gsiv = true
deriving Decidable

theorem note_le : t.gsivIsLevel ≤ (t.note line).gsivIsLevel := by
  cases line with
  | none => exact le_rfl
  | some gsiv =>
    intro g
    change t.gsivIsLevel g ≤ (t.noteLevelGsiv gsiv).gsivIsLevel g
    rw [GsivTriggers.gsivIsLevel_noteLevelGsiv]
    exact Bool.left_le_or _ _

theorem note_eq_iff :
    (∀ gsiv ∈ line, t.Noted gsiv) ↔ (t.note line).gsivIsLevel = t.gsivIsLevel := by
  cases line with
  | none => simp [GsivTriggers.note]
  | some noted =>
    simp only [Option.mem_some_iff, forall_eq', GsivTriggers.note, Option.elim_some, funext_iff,
      GsivTriggers.gsivIsLevel_noteLevelGsiv]
    constructor
    · intro h gsiv
      by_cases heq : gsiv = noted ∧ gsiv.toNat < uacpiNtMaxGsiv
      · rw [heq.1, h (heq.1 ▸ heq.2), Bool.true_or]
      · simp [heq]
    · intro h hlt
      simpa [hlt] using (h noted).symm

def NotesNothingNew (env : Environment) (host : IrqHost) (arb : ArbiterInstance)
    (s : Search IrqWorld) : Prop :=
  ∀ gsiv ∈ s.lineNoted env host arb, s.world.triggers.Noted gsiv

-- Only the line that is noted is to be looked at, not every 32-bit number.
instance : Decidable (NotesNothingNew env host arb s) :=
  show Decidable (∀ gsiv ∈ s.lineNoted env host arb, s.world.triggers.Noted gsiv) from
    Option.decidableForallMem _

/-- A message placement that is about to be packed and lies on a slot of the committed allocation
has the count that is recorded for the slot. -/
def PacksSameCounts (arb : ArbiterInstance) (s : Search IrqWorld) : Prop :=
  s.pending = [] → ∀ st ∈ s.states, ∀ packed ∈ st.messagePacked, ∀ x ∈ arb.allocation,
    packed.1 = x.start → uacpiNtMsiCountLookup x.start s.world.msiRecords = some packed.2

instance : Decidable (PacksSameCounts arb s) :=
  have (st : AllocationState) : Decidable (∀ packed ∈ st.messagePacked, ∀ x ∈ arb.allocation,
      packed.1 = x.start → uacpiNtMsiCountLookup x.start s.world.msiRecords = some packed.2) :=
    Option.decidableForallMem _
  inferInstanceAs (Decidable (_ → ∀ st ∈ s.states, ∀ packed ∈ st.messagePacked, ∀ x ∈ _, _ → _))

end

/-- What a search keeps until its solution is packed. -/
structure Explores (states : List AllocationState) (world : IrqWorld) (s : Search IrqWorld) :
    Prop where
  records : s.world.msiRecords = world.msiRecords
  requests : s.states.map (·.request) = states.map (·.request)
  polarities : s.world.triggers.polarities = world.triggers.polarities

section

variable {fuel : Nat} {states : List AllocationState} {world : IrqWorld}
  {r : SearchResult IrqWorld}

section

variable (h : arbiterLibAllocateEntry env (irqOps host) arb fuel states world = some r)

include h

theorem allocateEntry_level_iff : r.world.triggers.gsivIsLevel = world.triggers.gsivIsLevel ↔
      Along (step env (irqOps host) arb) (NotesNothingNew env host arb) fuel
        (start env arb states world) := by
  let view (s : Search IrqWorld) : UInt32 → Bool := s.world.triggers.gsivIsLevel
  let result (r : SearchResult IrqWorld) : UInt32 → Bool := r.world.triggers.gsivIsLevel
  have hview : ∀ s : Search IrqWorld, Sum.elim view result (s.step env (irqOps host) arb) =
      (s.world.triggers.note (s.lineNoted env host arb)).gsivIsLevel := by
    intro s
    rw [← step_triggers]
    cases s.step env (irqOps host) arb <;> rfl
  have hmono : ∀ s, view s ≤ Sum.elim view result (s.step env (irqOps host) arb) := by
    intro s
    rw [hview]
    exact note_le _ _
  have hcond : ∀ s, NotesNothingNew env host arb s ↔
      Sum.elim view result (s.step env (irqOps host) arb) = view s := by
    intro s
    rw [hview]
    exact note_eq_iff _ _
  exact run_observe_eq_iff hmono hcond h

theorem allocateEntry_last {cond : Search IrqWorld → Prop}
    (halong : Along (step env (irqOps host) arb) cond fuel (start env arb states world)) :
    ∃ s : Search IrqWorld, Explores states world s ∧ cond s ∧
      s.step env (irqOps host) arb = .inr r := by
  have hstep : ∀ s s' : Search IrqWorld, Explores states world s → cond s →
      s.step env (irqOps host) arb = .inl s' → Explores states world s' := by
    rintro s s' ⟨hrecs, hreq, hpols⟩ - heq
    have hpend : s.pending ≠ [] := by
      intro hnil
      simp [step, hnil] at heq
    have hafter := step_msiRecords env host arb s
    rw [heq, if_neg hpend] at hafter
    have hkept := step_polarities env host arb s
    rw [heq] at hkept
    have hrequ : ∀ x, Stable env (irqOps host) arb fun st => st.request = x :=
      fun x => (irq_frames env).stable arb (· = x)
    exact ⟨hafter.trans hrecs, ((step_move heq).map_states hrequ fun _ _ => rfl).trans hreq,
      hkept.trans hpols⟩
  exact run_invariant hstep h ⟨rfl, rfl, rfl⟩ halong

theorem allocateEntry_polarities : r.world.triggers.polarities = world.triggers.polarities := by
  obtain ⟨s, hs, -, hend⟩ := allocateEntry_last h
    (along_of_forall (fun _ => trivial) fuel _ : Along _ (fun _ => True) _ _)
  have hkept := step_polarities env host arb s
  rw [hend] at hkept
  exact hkept.trans hs.polarities

/-- Where the counts on committed slots are packed as they were recorded, a search leaves them. -/
theorem allocateEntry_lookup
    (halong : Along (step env (irqOps host) arb) (PacksSameCounts arb) fuel
      (start env arb states world)) {x : RtlRange} (hx : x ∈ arb.allocation) :
    uacpiNtMsiCountLookup x.start r.world.msiRecords =
      uacpiNtMsiCountLookup x.start world.msiRecords := by
  obtain ⟨s, hs, hcnts, hend⟩ := allocateEntry_last h halong
  have hafter := step_msiRecords env host arb s
  rw [hend] at hafter
  change r.world.msiRecords = _ at hafter
  rw [hafter, ← hs.records]
  split
  · rename_i hpend
    exact msiCountLookup_recordPacked fun st hst packed hpack hslot =>
      hcnts hpend st hst packed hpack x hx hslot
  · rfl

end

end

theorem reports_eq_iff {t t' : GsivTriggers} (hpols : t'.polarities = t.polarities) :
    (∀ gsiv, t'.gsivMode gsiv = t.gsivMode gsiv ∧ t'.gsivPolarity gsiv = t.gsivPolarity gsiv) ↔
      t'.gsivIsLevel = t.gsivIsLevel := by
  obtain ⟨hhigh, hlow⟩ := Prod.mk.inj hpols
  constructor
  · intro h
    funext gsiv
    have hmode := (h gsiv).1
    simp only [GsivTriggers.gsivMode] at hmode
    cases hlevel : t.gsivIsLevel gsiv <;> cases hlevel' : t'.gsivIsLevel gsiv <;>
      simp_all
  · intro h gsiv
    constructor
    · simp only [GsivTriggers.gsivMode, h]
    · rw [GsivTriggers.gsivPolarity, GsivTriggers.gsivPolarity, GsivTriggers.gsivIsActiveLow,
        GsivTriggers.gsivIsActiveLow, h, hhigh, hlow]

/-- A test that is rolled back leaves the reported modes and polarities as they were exactly if no
step of its search notes a line that was not noted before. The counts that are recorded for the
slots of the committed allocation stay if a solution that uses such a slot has its count. -/
theorem rolled_back_test_leaves_no_trace {fuel : Nat} {entries : List ArbiterListEntry}
    {allocateFrom : Option (List CmPartialResourceDescriptor)} {world : IrqWorld}
    {t b : HandlerResult IrqWorld}
    (htest : arbiterLibHandler env (irqOps host) arb world
      (.testAllocation fuel entries allocateFrom) = some t)
    (hback : arbiterLibHandler env (irqOps host) t.arbiter t.world .rollbackAllocation = some b) :
    ((∀ gsiv, b.world.triggers.gsivMode gsiv = world.triggers.gsivMode gsiv ∧
        b.world.triggers.gsivPolarity gsiv = world.triggers.gsivPolarity gsiv) ↔
      TestAlong env (irqOps host) fuel arb entries allocateFrom world
        (NotesNothingNew env host)) ∧
    (TestAlong env (irqOps host) fuel arb entries allocateFrom world PacksSameCounts →
      ∀ x ∈ arb.allocation, uacpiNtMsiCountLookup x.start b.world.msiRecords =
        uacpiNtMsiCountLookup x.start world.msiRecords) := by
  have hworld : b.world = t.world := by
    cases hback
    rfl
  rw [hworld]
  obtain ⟨r', hr', rfl⟩ := Option.map_eq_some_iff.mp htest
  obtain ⟨r, hr, rfl⟩ := Option.map_eq_some_iff.mp hr'
  rw [trackTransaction_world]
  simp only [TransactionResult.toHandler]
  rw [arbpTestAllocation] at hr
  simp only [TestAlong]
  cases hsetup : testSetup env (irqOps host) arb entries allocateFrom world with
  | error failed =>
    rw [hsetup] at hr
    cases hr
    rw [(testSetup_error hsetup).2]
    simp
  | ok setup =>
    rw [hsetup] at hr
    obtain ⟨result, hresult, rfl⟩ := Option.map_eq_some_iff.mp hr
    have hsame : (testFinish setup result).world = result.world := by
      rw [testFinish]
      split <;> rfl
    obtain ⟨-, -, size, -, -, harbiter, -, -⟩ := testSetup_ok hsetup
    rw [hsame, reports_eq_iff (allocateEntry_polarities hresult)]
    refine ⟨allocateEntry_level_iff hresult, fun halong x hx => ?_⟩
    exact allocateEntry_lookup hresult halong (harbiter ▸ hx)

def lineAndMessages : List ArbiterListEntry :=
  [.request ⟨1⟩ [.ofLine .deviceExclusive 0 10], .request ⟨3⟩ [.ofMessages 0xFFFFFFFE 0xFFFFFFFF]]

def ArbiterInstance.heldSlot : ArbiterInstance :=
  .plainInterrupt [⟨0xFFFFFFFE, 0xFFFFFFFE, uacpiNtRangeLatched, false, some ⟨3⟩⟩]

def IrqWorld.settled : IrqWorld :=
  ⟨[⟨0xFFFFFFFE, 2⟩], 0, [], GsivTriggers.zero.noteLevelGsiv 10⟩

theorem settled_test_leaves_no_trace :
    ∃ t b, arbiterLibHandler .reference (irqOps .unrouted) .heldSlot .settled
        (.testAllocation 10 lineAndMessages none) = some t ∧ t.status = .ok () ∧
      arbiterLibHandler .reference (irqOps .unrouted) t.arbiter t.world .rollbackAllocation =
        some b ∧
      (∀ gsiv, b.world.triggers.gsivMode gsiv = IrqWorld.settled.triggers.gsivMode gsiv ∧
        b.world.triggers.gsivPolarity gsiv = IrqWorld.settled.triggers.gsivPolarity gsiv) ∧
      uacpiNtMsiCountLookup 0xFFFFFFFE b.world.msiRecords = some 2 := by
  have htest : arbiterLibHandler .reference (irqOps .unrouted) .heldSlot .settled
      (.testAllocation 10 lineAndMessages none) = some _ := rfl
  have hquiet := rolled_back_test_leaves_no_trace htest rfl
  exact ⟨_, _, htest, rfl, rfl, hquiet.1.mpr (by decide +kernel),
    hquiet.2 (by decide +kernel) ⟨0xFFFFFFFE, 0xFFFFFFFE, uacpiNtRangeLatched, false, some ⟨3⟩⟩
      List.mem_cons_self⟩

/-- Before the test line 10 is reported as latched and the slot of device 3 stands for four
messages; after the rollback the line is level triggered and the slot stands for two. -/
theorem rolled_back_test_leaves_traces :
    ∃ t b, arbiterLibHandler .reference (irqOps .unrouted) .heldSlot
        ⟨[⟨0xFFFFFFFE, 4⟩], 0, [], .zero⟩ (.testAllocation 10 lineAndMessages none) = some t ∧
      arbiterLibHandler .reference (irqOps .unrouted) t.arbiter t.world .rollbackAllocation =
        some b ∧
      GsivTriggers.zero.gsivMode 10 = .latched ∧ b.world.triggers.gsivMode 10 = .levelSensitive ∧
      GsivTriggers.zero.gsivPolarity 10 = .activeHigh ∧
      b.world.triggers.gsivPolarity 10 = .activeLow ∧
      uacpiNtMsiCountLookup 0xFFFFFFFE b.world.msiRecords = some 2 := by
  refine ⟨_, _, rfl, rfl, ?_⟩
  decide +kernel

end UacpiNt
