import UacpiNt.Arbiter.Transaction.Solution
import UacpiNt.Arbiter.Transaction.Actions

/-!
# The books of an arbiter

An arbiter that keeps the library's routines enters one record for each placement. For any
arbiter whose additions and withdrawals are exact, a test leaves the committed list without
the ranges of the listed devices, together with the records of the placements on its stack:
the attempts that were given up leave no trace.
-/

namespace UacpiNt

section

open AllocationState List

variable {σ : Type}

/-- No routine of the arbiter changes the request of a state. -/
structure Frames (env : Environment) (ops : ArbiterOps σ) : Prop where
  preprocess : ∀ st world, (ops.preprocessEntry st world).2.1.request = st.request
  next : ∀ arb st world, (ops.getNextAllocationRange arb st world).2.1.request = st.request
  find : ∀ arb st world, (ops.findSuitableRange env arb st world).state.request = st.request

variable {env : Environment} {ops : ArbiterOps σ} {alt : ArbiterAlternative}
  {st : AllocationState} {entries : List ArbiterListEntry} {states : List AllocationState}

theorem Frames.stable (h : Frames env ops) (arb : ArbiterInstance) (P : AllocationState → Prop) :
    Stable env ops arb fun st => P st.request :=
  .of_kept h.preprocess h.next h.find (fun _ => rfl) (fun _ => rfl) (fun _ => rfl) P

/-- No routine of the arbiter writes to the entry of a state. -/
structure KeepsEntry (env : Environment) (ops : ArbiterOps σ) : Prop where
  preprocess : ∀ st world, (ops.preprocessEntry st world).2.1.entry = st.entry
  next : ∀ arb st world, (ops.getNextAllocationRange arb st world).2.1.entry = st.entry
  find : ∀ arb st world, (ops.findSuitableRange env arb st world).state.entry = st.entry

theorem KeepsEntry.stable (h : KeepsEntry env ops) (arb : ArbiterInstance)
    (P : ArbiterListEntry → Prop) : Stable env ops arb fun st => P st.entry :=
  .of_kept h.preprocess h.next h.find (fun _ => rfl) (fun _ => rfl) (fun _ => rfl) P

/-! ### The library's routines -/

theorem getNextAllocationRange_entry (arb : ArbiterInstance) (st : AllocationState) :
    (arbiterLibGetNextAllocationRange arb st).2.entry = st.entry :=
  (congrArg AllocationState.entry (getNextAllocationRange_rewind arb st) :)

theorem getNextAllocationRange_request (arb : ArbiterInstance) (st : AllocationState) :
    (arbiterLibGetNextAllocationRange arb st).2.request = st.request :=
  request_eq_of_rewind (getNextAllocationRange_rewind arb st)

theorem findSuitableRange_request (env : Environment) (arb : ArbiterInstance)
    (st : AllocationState) : (arbiterLibFindSuitableRange env arb st).1.2.request = st.request :=
  request_eq_of_unplaced (findSuitableRange_unplaced env arb st)

theorem library_books {rtl : RtlApi} (hrtl : rtl.Lawful)
    (hadd : ops.addAllocation = arbiterLibAddAllocation)
    (hback : ops.backtrackAllocation = arbiterLibBacktrackAllocation)
    (hpre : ∀ st world st' world' status,
      ops.preprocessEntry st world = (status, st', world') → st.SamePlacement st') :
    Books rtl ops fun st => [st.record] where
  add := by
    intro l st hcl
    rw [hadd]
    exact hrtl.addRange'_perm l (hcl st.record mem_cons_self)
  withdraw := by
    intro κ image l st rest himage hexact hl
    rw [hback]
    exact (hrtl.deleteRange'_perm image himage
      (fun r hr hkey => hexact r hr st.record mem_cons_self hkey) hl).1
  withdraw_congr := by
    intro l st st' h
    rw [hback, arbiterLibBacktrackAllocation, arbiterLibBacktrackAllocation, h.start, h.last,
      AllocationState.owner, AllocationState.owner, h.entry]
  preprocess := hpre

theorem libraryPreprocess_same (st : AllocationState) (world : σ) (st' : AllocationState)
    (world' : σ) (status : NtStatus)
    (h : arbiterLibPreprocessEntry st world = (status, st', world')) : st.SamePlacement st' := by
  cases h
  exact ⟨rfl, rfl, rfl, rfl, rfl, rfl, rfl⟩

theorem flatMap_held_singleton (record : AllocationState → RtlRange)
    (states : List AllocationState) : states.flatMap (held fun st => [record st]) =
      (states.filter (·.requestsRoom)).map record := by
  induction states with
  | nil => rfl
  | cons st states ih =>
    rw [flatMap_cons, ih, held]
    by_cases hroom : st.requestsRoom = true
    · rw [if_pos hroom, filter_cons_of_pos hroom]
      rfl
    · rw [if_neg hroom, filter_cons_of_neg hroom]
      rfl

/-! ### Tests -/

def Decodes (ops : ArbiterOps σ) (st : AllocationState) : Prop :=
  ∀ alt ∈ st.requirements, arbpBuildAlternative ops alt.descriptor = .ok alt

theorem buildAlternative_ok {d : IoResourceDescriptor} (h : arbpBuildAlternative ops d = .ok alt) :
    alt.descriptor = d ∧ alt.priority = arbiterPriorityNull ∧
      alt.inaccessibleOk = (d.isMemory && d.compatForInaccessibleRange) := by
  rw [arbpBuildAlternative] at h
  cases hreq : ops.unpackRequirement d with
  | error e =>
    rw [hreq] at h
    cases h
  | ok req =>
    rw [hreq] at h
    cases h
    exact ⟨rfl, rfl, rfl⟩

theorem Built.decodes (h : Built ops st) : Decodes ops st := by
  intro alt halt
  obtain ⟨alt, hmem, rfl⟩ := mem_map.mp halt
  obtain ⟨d, -, hd⟩ := exists_left_of_forall₂ h.decoded hmem
  obtain ⟨hdes, hprio, -⟩ := buildAlternative_ok hd
  have hnull : alt.withPriority arbiterPriorityNull = alt := by
    rw [← hprio]
    rfl
  rw [hnull, hdes]
  exact hd

theorem Frames.decodes (h : Frames env ops) (arb : ArbiterInstance) :
    Stable env ops arb (Decodes ops) :=
  h.stable arb fun request =>
    ∀ alt ∈ request.alternatives, arbpBuildAlternative ops alt.descriptor = .ok alt

theorem Decodes.current (h : Decodes ops st) (halt : st.current = some alt) :
    arbpBuildAlternative ops alt.descriptor = .ok (alt.withPriority arbiterPriorityNull) :=
  h (alt.withPriority arbiterPriorityNull) (current_mem_requirements halt)

theorem Decodes.fields (h : Decodes ops st) (halt : st.current = some alt) :
    ops.unpackRequirement alt.descriptor =
        .ok ⟨alt.minimum, alt.maximum, alt.length, alt.alignment⟩ ∧
      alt.shared = (alt.descriptor.shareDisposition == .shared) ∧
      alt.fixed = (alt.maximum - alt.minimum + 1 == alt.length) ∧ alt.inaccessibleOk =
        (alt.descriptor.isMemory && alt.descriptor.compatForInaccessibleRange) := by
  have hbuilt := h.current halt
  rw [arbpBuildAlternative] at hbuilt
  cases hreq : ops.unpackRequirement alt.descriptor with
  | error e =>
    rw [hreq] at hbuilt
    cases hbuilt
  | ok req =>
    rw [hreq] at hbuilt
    have hflds := ArbiterAlternative.mk.inj (Except.ok.inj hbuilt)
    obtain ⟨hmin, hmax, hlen, hal, -, hsh, hfix, -, hok, -⟩ := hflds
    rw [← hmin, ← hmax, ← hlen, ← hal, ← hsh, ← hfix, ← hok]
    exact ⟨rfl, rfl, rfl, rfl⟩

theorem requestsRoom_iff (halt : st.current = some alt) :
    st.requestsRoom = true ↔ alt.length ≠ 0 := by
  rw [AllocationState.requestsRoom, halt, Option.any_some, bne_iff_ne]

def ArbiterListEntry.selectsRoom (ops : ArbiterOps σ) (entry : ArbiterListEntry) : Bool :=
  entry.selectedAlternative.any fun d =>
    (ops.unpackRequirement d).toOption.any fun (req : Requirement) => req.length != 0

theorem Packed.selectsRoom {st' : AllocationState} (h : Packed ops st st') (hdec : Decodes ops st) :
    st'.entry.selectsRoom ops = st'.requestsRoom := by
  have hsel : st'.entry.selectedAlternative = st.current.map (·.descriptor) := by
    rw [h.state]
  rw [ArbiterListEntry.selectsRoom, hsel, AllocationState.requestsRoom, h.current]
  cases halt : st.current with
  | none => rfl
  | some alt => simp [(hdec.fields halt).1, Except.toOption]

def ArbiterListEntry.identity (entry : ArbiterListEntry) :
    List IoResourceDescriptor × Option DeviceObject :=
  (entry.alternatives, entry.physicalDeviceObject)

theorem sameButScore_identity {entries' : List ArbiterListEntry}
    (h : Forall₂ SameButScore entries entries') :
    entries'.map (·.identity) = entries.map (·.identity) := by
  induction h with
  | nil => rfl
  | cons hsame _ ih =>
    rw [map_cons, ih, hsame]
    rfl

theorem packed_identity {states' : List AllocationState}
    (h : Forall₂ (Packed ops) states states') :
    states'.map (·.entry.identity) = states.map (·.entry.identity) := by
  induction h with
  | nil => rfl
  | cons hpack _ ih =>
    rw [map_cons, ih, hpack.state]
    rfl

theorem writeBack_spec (h : states.map (·.entry.identity) =
      (entries.filter fun e => e.alternatives ≠ []).map (·.identity)) :
    (writeBack entries states).map (·.identity) = entries.map (·.identity) ∧
      (writeBack entries states).filter (fun e => e.alternatives ≠ []) = states.map (·.entry) := by
  induction entries generalizing states with
  | nil =>
    obtain rfl : states = [] := by simpa using h
    exact ⟨rfl, rfl⟩
  | cons entry rest ih =>
    by_cases hnil : entry.alternatives = []
    · rw [filter_cons_of_neg (by simpa using hnil)] at h
      have hwrite : writeBack (entry :: rest) states = entry :: writeBack rest states := by
        cases states with
        | nil => cases rest <;> rfl
        | cons st states => rw [writeBack, if_pos hnil]
      rw [hwrite, filter_cons_of_neg (by simpa using hnil), map_cons, (ih h).1]
      exact ⟨rfl, (ih h).2⟩
    · rw [filter_cons_of_pos (by simpa using hnil)] at h
      cases states with
      | nil => cases h
      | cons st states =>
        rw [map_cons, map_cons, List.cons.injEq] at h
        have hst : st.entry.alternatives = entry.alternatives := congrArg Prod.fst h.1
        rw [writeBack, if_neg hnil, filter_cons_of_pos (by simpa [hst] using hnil),
          map_cons, (ih h.2).1, (ih h.2).2, h.1]
        exact ⟨rfl, rfl⟩

section

variable {κ : Type} {fuel : Nat} {arb : ArbiterInstance}
  {allocateFrom : Option (List CmPartialResourceDescriptor)} {world : σ} {r : TransactionResult σ}
  {setup : TestSetup} {image : RtlRange → κ} {claims : AllocationState → RtlRangeList}
  {W : AllocationState → Prop} {R : AllocationState → List AllocationState → Prop}
  {L : AllocationState → Prop} {cond : ArbiterInstance → Search σ → Prop}

/-- The solution that a successful test has packed into its list: the placed states, topmost
first, with what is known about them. -/
structure TestSolution (ops : ArbiterOps σ) (setup : TestSetup) (image : RtlRange → κ)
    (claims : AllocationState → RtlRangeList) (W : AllocationState → Prop)
    (R : AllocationState → List AllocationState → Prop) (r : TransactionResult σ)
    (placed : List AllocationState) : Prop where
  all : ∀ st ∈ placed, W st
  booked : Search.Booked setup.arbiter.possibleAllocation image claims
    r.arbiter.possibleAllocation placed
  stacked : Stacked R placed
  decodes : ∀ st ∈ placed, Decodes ops st
  packed : List.Forall₂ (Packed ops) placed.reverse r.stack
  requests : placed.reverse.map (·.request) = setup.states.map (·.request)
  entries : r.entries = writeBack setup.entries r.stack

theorem mem_setup_states {st : AllocationState}
    (hsetup : testSetup env ops arb entries allocateFrom world = .ok setup)
    (hst : st ∈ setup.states) : Built ops st ∧ ∃ e ∈ entries, SameButScore e st.entry := by
  obtain ⟨initial, prepared, size, -, hprep, -, hsor, hstates⟩ := testSetup_ok hsetup
  obtain ⟨hents, hbuilt⟩ := buildStates_ok ops hstates
  refine ⟨hbuilt st hst, ?_⟩
  have hmem : st.entry ∈ setup.entries := by
    have hmap := mem_map_of_mem (f := AllocationState.entry) hst
    rw [hents] at hmap
    exact mem_of_mem_filter hmap
  rw [hsor] at hmem
  exact exists_left_of_forall₂ (prepareEntries_entries env ops _ hprep)
    ((sortArbitrationList_perm prepared).mem_iff.mp hmem)

theorem solution_of_test (hbook : Books env.rtl ops claims) (hfram : Frames env ops)
    (hstab : Stable env ops setup.arbiter W) (himage : ∀ r r', image r = image r' → r.key = r'.key)
    (hlower : Search.Lowers W R L)
    (hcond : ∀ s, s.Inv setup.arbiter.possibleAllocation image claims W R L → cond setup.arbiter s →
      s.StepOk env ops setup.arbiter image claims W R)
    (hbuilt : ∀ st ∈ setup.states, Built ops st → W st)
    (hsetup : testSetup env ops arb entries allocateFrom world = .ok setup)
    (htest : arbpTestAllocation env ops fuel arb entries allocateFrom world = some r)
    (hok : r.status = .ok ())
    (halong : TestAlong env ops fuel arb entries allocateFrom world cond) :
    ∃ placed, TestSolution ops setup image claims W R r placed := by
  obtain ⟨setup', result, hsetup', hrun, hstat, rfl⟩ := testAllocation_ok htest hok
  obtain rfl : setup' = setup := Except.ok.inj (hsetup'.symm.trans hsetup)
  obtain ⟨-, -, -, -, -, -, -, hstates⟩ := testSetup_ok hsetup
  obtain ⟨-, hall⟩ := buildStates_ok ops hstates
  rw [TestAlong, hsetup] at halong
  obtain ⟨placed, hpl⟩ := solution_of_allocateEntry hbook hstab
    (fun x => hfram.stable setup'.arbiter (· = x)) himage hlower hcond
    (fun st hst => hbuilt st hst (hall st hst)) hrun hstat halong
  obtain ⟨world', hpack⟩ := hpl.packed
  rw [hstat] at hpack
  refine ⟨placed, hpl.all, hpl.booked, hpl.stacked, ?_, packSolution_ok ops hpack,
    hpl.requests, rfl⟩
  intro st hst
  have hmem : st.request ∈ setup'.states.map (·.request) := by
    rw [← hpl.requests]
    exact mem_map_of_mem (mem_reverse.mpr hst)
  obtain ⟨st₀, hst₀, hrequ⟩ := mem_map.mp hmem
  have hdec : Decodes ops st₀ := (hall st₀ hst₀).decodes
  change ∀ alt ∈ st.request.alternatives, _
  rw [← hrequ]
  exact hdec

namespace TestSolution

variable {placed : List AllocationState} (h : TestSolution ops setup image claims W R r placed)

include h

theorem packed_requests : r.stack.map (·.entry.identity) = setup.states.map (·.entry.identity) := by
  have hreque := congrArg (map fun st => st.entry.identity) h.requests
  rw [map_map, map_map] at hreque
  rw [packed_identity h.packed]
  exact hreque

theorem exists_placed {st : AllocationState} (hst : st ∈ r.stack) :
    ∃ st₀ ∈ placed, Packed ops st₀ st := by
  obtain ⟨st₀, hst₀, hpack⟩ := exists_left_of_forall₂ h.packed hst
  exact ⟨st₀, mem_reverse.mp hst₀, hpack⟩

theorem exists_packed {st₀ : AllocationState} (hst₀ : st₀ ∈ placed) :
    ∃ st ∈ r.stack, Packed ops st₀ st :=
  exists_right_of_forall₂ h.packed (mem_reverse.mpr hst₀)

theorem exists_record {st : AllocationState} (hst : st ∈ placed)
    (hroom : st.requestsRoom = true) {c : RtlRange} (hc : c ∈ claims st) :
    ∃ record ∈ r.arbiter.possibleAllocation, image record = image c := by
  have hheld : c ∈ placed.flatMap (held claims) :=
    mem_flatMap.mpr ⟨st, hst, mem_held.mpr ⟨hroom, hc⟩⟩
  have hmem : image c ∈ r.arbiter.possibleAllocation.map image :=
    h.booked.mem_iff.mpr (mem_append_left _ (mem_map_of_mem hheld))
  obtain ⟨record, hrec, heq⟩ := mem_map.mp hmem
  exact ⟨record, hrec, heq⟩

theorem booked_stack (hcl : ∀ st st', Packed ops st st' → claims st' = claims st) :
    (r.arbiter.possibleAllocation.map image).Perm ((r.stack.flatMap (held claims)).map image ++
        setup.arbiter.possibleAllocation.map image) := by
  have hheld : r.stack.flatMap (held claims) = placed.reverse.flatMap (held claims) := by
    have hpack := h.packed
    generalize r.stack = stack at hpack
    generalize placed.reverse = states at hpack
    induction hpack with
    | nil => rfl
    | cons hst _ ih =>
      rw [flatMap_cons, flatMap_cons, ih, held, held, hst.requestsRoom, hcl _ _ hst]
  rw [hheld]
  refine h.booked.trans (Perm.append_right _ (Perm.map image ?_))
  exact (Perm.flatMap_right _ (reverse_perm placed)).symm

variable (hsetup : testSetup env ops arb entries allocateFrom world = .ok setup)

include hsetup

theorem entries_spec : (r.entries.map (·.identity)).Perm (entries.map (·.identity)) ∧
      r.entries.filter (fun e => e.alternatives ≠ []) = r.stack.map (·.entry) := by
  obtain ⟨initial, prepared, size, -, hprep, -, hsor, hstates⟩ := testSetup_ok hsetup
  obtain ⟨hents, -⟩ := buildStates_ok ops hstates
  have hident : r.stack.map (·.entry.identity) =
      (setup.entries.filter fun e => e.alternatives ≠ []).map (·.identity) := by
    rw [h.packed_requests, ← hents, map_map]
    rfl
  obtain ⟨hsame, hfilter⟩ := writeBack_spec hident
  rw [h.entries, hsame, hsor]
  refine ⟨?_, hsor ▸ hfilter⟩
  rw [← sameButScore_identity (prepareEntries_entries env ops _ hprep)]
  exact (sortArbitrationList_perm prepared).map _

theorem entries_eq_stack (halts : ∀ e ∈ entries, e.alternatives ≠ []) :
    r.entries = r.stack.map (·.entry) := by
  obtain ⟨hident, hfilter⟩ := h.entries_spec hsetup
  rw [← hfilter, eq_comm, filter_eq_self]
  intro e he
  obtain ⟨e₀, he₀, hsame⟩ := mem_map.mp (hident.mem_iff.mp (mem_map_of_mem he))
  have hlist : e₀.alternatives = e.alternatives := congrArg Prod.fst hsame
  simpa [← hlist] using halts e₀ he₀

theorem assignment_isSome (hasgs : ∀ e ∈ entries, e.assignment.isSome) {st : AllocationState}
    (hst : st ∈ placed) : st.entry.assignment.isSome := by
  have hmem : st.request ∈ setup.states.map (·.request) := by
    rw [← h.requests]
    exact mem_map_of_mem (mem_reverse.mpr hst)
  obtain ⟨st₀, hst₀, hrequ⟩ := mem_map.mp hmem
  obtain ⟨-, e, he, hsame⟩ := mem_setup_states hsetup hst₀
  have hasg := congrArg (fun st => st.entry.assignment) hrequ
  change st₀.entry.assignment = st.entry.assignment at hasg
  rw [← hasg, hsame]
  exact hasgs e he

end TestSolution

theorem testAlong_of_forall (h : ∀ arb s, cond arb s) :
    TestAlong env ops fuel arb entries allocateFrom world cond := by
  rw [TestAlong]
  split
  · trivial
  · exact Machine.along_of_forall (h _) fuel _

theorem TestAlong.mono {cond' : ArbiterInstance → Search σ → Prop}
    (h : ∀ arb s, cond arb s → cond' arb s)
    (halong : TestAlong env ops fuel arb entries allocateFrom world cond) :
    TestAlong env ops fuel arb entries allocateFrom world cond' := by
  rw [TestAlong] at halong ⊢
  split at halong
  · trivial
  · exact halong.mono (h _)

theorem testSetup_possible (hrtl : env.rtl.Lawful)
    (hdevs : ∀ e ∈ entries, e.physicalDeviceObject.isSome)
    (hsetup : testSetup env ops arb entries none world = .ok setup) :
    setup.arbiter.possibleAllocation.Perm (unlisted entries arb.allocation) := by
  obtain ⟨initial, prepared, size, hini, hprep, -, -, -⟩ := testSetup_ok hsetup
  obtain ⟨l, hcopy, hperm⟩ := hrtl.copy_spec arb.allocation
  rw [initialPossible, hcopy] at hini
  cases hini
  have hpos := prepareEntries_possible env ops hrtl hdevs (by simp) hprep
  exact hpos.trans (unlisted_perm entries hperm)

theorem testSetup_owned (hrtl : env.rtl.Lawful)
    (hsetup : testSetup env ops arb entries allocateFrom world = .ok setup) {x : RtlRange}
    (hx : x ∈ setup.arbiter.possibleAllocation) {owner : DeviceObject}
    (hown : x.owner = some owner) : allocateFrom = none ∧ x ∈ unlisted entries arb.allocation := by
  obtain ⟨initial, prepared, size, hini, hprep, -, -, -⟩ := testSetup_ok hsetup
  cases allocateFrom with
  | none =>
    obtain ⟨l, hcopy, hperm⟩ := hrtl.copy_spec arb.allocation
    rw [initialPossible, hcopy] at hini
    cases hini
    refine ⟨rfl, (unlisted_perm entries hperm).mem_iff.mp ?_⟩
    exact prepareEntries_owned env ops hrtl (by simp) hprep hx hown
  | some resources =>
    rw [prepareEntries_kept env ops hprep] at hx
    rw [seedRangeList_unowned hrtl hini hx] at hown
    cases hown

/-- A test leaves the committed list without the ranges of the listed devices, and the records
of the placements on its stack. -/
theorem test_booked (hrtl : env.rtl.Lawful) (hbook : Books env.rtl ops claims)
    (hfram : Frames env ops) (hcl : ∀ st st', Packed ops st st' → claims st' = claims st)
    (hwd : ∀ arb st world, (ops.findSuitableRange env arb st world).granted = true →
      ∀ c ∈ claims (ops.findSuitableRange env arb st world).state, c.start ≤ c.last)
    (hdevs : ∀ e ∈ entries, e.physicalDeviceObject.isSome)
    (htest : arbpTestAllocation env ops fuel arb entries none world = some r)
    (hok : r.status = .ok ()) : (r.entries.map (·.identity)).Perm (entries.map (·.identity)) ∧
      r.entries.filter (fun e => e.alternatives ≠ []) = r.stack.map (·.entry) ∧
      (∀ st ∈ r.stack, st.entry.selectsRoom ops = st.requestsRoom) ∧
      (r.arbiter.possibleAllocation.map (·.key)).Perm
        ((r.stack.flatMap (held claims)).map (·.key) ++
          (unlisted entries arb.allocation).map (·.key)) := by
  obtain ⟨setup, -, hsetup, -⟩ := testAllocation_ok htest hok
  have hstab : Stable env ops setup.arbiter fun _ => True :=
    hfram.stable setup.arbiter fun _ => True
  obtain ⟨placed, hpl⟩ : ∃ placed, TestSolution ops setup RangeList.Range.key claims
      (fun _ => True) (fun _ _ => True) r placed :=
    solution_of_test hbook hfram hstab (fun _ _ h => h) (L := fun _ => True)
      (fun _ _ _ _ _ _ _ _ _ => trivial) (fun s _ _ => ⟨fun _ _ _ _ _ _ _ _ h => h,
        fun st world' _ hgr _ => ⟨trivial, hwd _ st world' hgr⟩,
        fun _ _ _ _ _ => ⟨trivial, trivial⟩⟩) (fun _ _ _ => trivial) hsetup htest hok
      (testAlong_of_forall fun _ _ => trivial)
  obtain ⟨hident, hfilter⟩ := hpl.entries_spec hsetup
  refine ⟨hident, hfilter, ?_, ?_⟩
  · intro st hst
    obtain ⟨st₀, hst₀, hpack⟩ := hpl.exists_placed hst
    exact hpack.selectsRoom (hpl.decodes st₀ hst₀)
  · exact (hpl.booked_stack hcl).trans
      (((testSetup_possible hrtl hdevs hsetup).map _).append_left _)

end

end

/-! ### What a retest leaves behind -/

open List

variable {σ : Type} {env : Environment} {ops : ArbiterOps σ}

theorem deleteOwners_ok {rtl : RtlApi} (hrtl : rtl.Lawful) (entries : List ArbiterListEntry)
    (l : RtlRangeList) :
    ∃ l', deleteOwners rtl entries l = .ok l' ∧ l'.Perm (unlisted entries l) := by
  induction entries generalizing l with
  | nil => exact ⟨l, rfl, by simp [unlisted]⟩
  | cons entry rest ih =>
    obtain ⟨l₁, hdelete, hperm₁⟩ := hrtl.deleteOwners_spec l entry.physicalDeviceObject
    obtain ⟨l₂, hrest, hperm₂⟩ := ih l₁
    refine ⟨l₂, bind_eq_ok_iff.mpr ⟨l₁, hdelete, hrest⟩, ?_⟩
    rw [unlisted_cons]
    exact hperm₂.trans (unlisted_perm rest hperm₁)

theorem unlisted_eq_of_identity {entries entries' : List ArbiterListEntry}
    (h : (entries'.map (·.identity)).Perm (entries.map (·.identity))) (l : RtlRangeList) :
    unlisted entries' l = unlisted entries l := by
  have hown : (entries'.map (·.physicalDeviceObject)).Perm
      (entries.map (·.physicalDeviceObject)) := by
    simpa [Function.comp_def, ArbiterListEntry.identity] using h.map Prod.snd
  have hall : ∀ entries : List ArbiterListEntry, ∀ r : RtlRange,
      (entries.all fun e => decide (r.owner ≠ e.physicalDeviceObject)) =
        (entries.map (·.physicalDeviceObject)).all fun owner => decide (r.owner ≠ owner) := by
    intro entries r
    rw [all_map]
    rfl
  rw [unlisted]
  congr 1
  funext r
  rw [hall, hall]
  exact hown.all_eq

section

variable {κ : Type} {image : RtlRange → κ} {clean : AllocationState → Prop}

/-- Laying the entry down again adds exactly the records of `l`, seen through `image`, from any
state that is clean, and leaves a clean state. -/
def Relays (env : Environment) (ops : ArbiterOps σ) (image : RtlRange → κ)
    (clean : AllocationState → Prop) (entry : ArbiterListEntry) (l : List κ) : Prop :=
  if entry.result = .nullRequest then l = []
  else ∀ replay : Replay σ, clean replay.state →
    ∃ replay' world, replayEntry env ops entry replay = (.ok replay', world) ∧
      clean replay'.state ∧ (replay'.possible.map image).Perm (l ++ replay.possible.map image)

theorem replayEntries_ok {entries : List ArbiterListEntry} {records : List (List κ)}
    (h : Forall₂ (Relays env ops image clean) entries records) {replay : Replay σ}
    (hclean : clean replay.state) :
    ∃ replay' world, replayEntries env ops entries replay = (.ok replay', world) ∧
      (replay'.possible.map image).Perm (records.flatten ++ replay.possible.map image) := by
  induction h generalizing replay with
  | nil => exact ⟨replay, replay.world, rfl, .refl _⟩
  | @cons entry l entries records hent _ ih =>
    rw [replayEntries]
    by_cases hnull : entry.result = .nullRequest
    · rw [if_pos hnull]
      rw [Relays, if_pos hnull] at hent
      obtain ⟨replay', world, hrest, hperm⟩ := ih hclean
      refine ⟨replay', world, hrest, ?_⟩
      rw [hent]
      exact hperm
    · rw [if_neg hnull]
      rw [Relays, if_neg hnull] at hent
      obtain ⟨replay₁, world₁, hstep, hclean₁, hperm₁⟩ := hent replay hclean
      obtain ⟨replay₂, world₂, hrest, hperm₂⟩ := ih hclean₁
      rw [hstep]
      refine ⟨replay₂, world₂, hrest, ?_⟩
      rw [flatten_cons, append_assoc]
      refine hperm₂.trans ((hperm₁.append_left _).trans ?_)
      rw [← append_assoc, ← append_assoc]
      exact perm_append_comm.append_right _

/-- A retest of such a list succeeds and leaves these records with the committed ones of the
devices that are not listed. -/
theorem retestAllocation_ok (hrtl : env.rtl.Lawful) (arb : ArbiterInstance)
    {entries : List ArbiterListEntry} {states stack : List AllocationState}
    {records : AllocationState → List κ} (hpacked : Forall₂ (Packed ops) states stack)
    (hlisted : entries = stack.map (·.entry))
    (h : ∀ st ∈ states, ∀ st', Packed ops st st' →
      Relays env ops image clean st'.entry (records st))
    (hclean : clean replayState) (world : σ) :
    (arbpRetestAllocation env ops arb entries world).status = .ok () ∧
      ((arbpRetestAllocation env ops arb entries world).arbiter.possibleAllocation.map image).Perm
        (states.flatMap records ++ (unlisted entries arb.allocation).map image) := by
  have hrelays : Forall₂ (Relays env ops image clean) entries (states.map records) := by
    rw [hlisted, forall₂_map_left_iff, forall₂_map_right_iff]
    exact (((forall₂_and_left _ _).mpr ⟨h, hpacked⟩).imp fun st st' hst => hst.1 st' hst.2).flip
  obtain ⟨l, hcopy, hperm⟩ := hrtl.copy_spec arb.allocation
  obtain ⟨base, hdelete, hbase⟩ := deleteOwners_ok hrtl entries l
  have hst : env.rtl.copyRangeList arb.allocation >>= deleteOwners env.rtl entries = .ok base :=
    bind_eq_ok_iff.mpr ⟨l, hcopy, hdelete⟩
  have hstat : clean (⟨replayState, base, world⟩ : Replay σ).state := hclean
  obtain ⟨replay, world', hrep, hrecs⟩ := replayEntries_ok hrelays hstat
  rw [arbpRetestAllocation, hst]
  simp only [hrep, true_and]
  refine hrecs.trans (Perm.append_left _ (Perm.map image ?_))
  exact hbase.trans (unlisted_perm entries hperm)

end

end UacpiNt
