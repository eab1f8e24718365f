import UacpiNt.Arbiter.Search.Invariant
import UacpiNt.Arbiter.Transaction.Test
import UacpiNt.Sorting.Insertion
import Mathlib.Data.Int.Order.Basic

/-!
# What a test leaves behind

A test that succeeds has sorted its list by score, built a stack of states for the entries
that have alternatives, found a solution for the stack and packed it into the entries. The
list it started from is the committed one without the ranges of the listed devices.
-/

namespace UacpiNt

section

open List

variable {σ : Type}

/-! ### Withdrawal of the listed devices -/

def unlisted (entries : List ArbiterListEntry) (l : RtlRangeList) : RtlRangeList :=
  l.filter fun r => entries.all fun e => decide (r.owner ≠ e.physicalDeviceObject)

variable {entries entries' : List ArbiterListEntry} {l possible possible' : RtlRangeList}
  {previous : Option DeviceObject} {env : Environment} {ops : ArbiterOps σ}
  {arb : ArbiterInstance} {states : List AllocationState} {world : σ}
  {allocateFrom : Option (List CmPartialResourceDescriptor)}

section

variable (env) (ops) (entry : ArbiterListEntry)

theorem mem_unlisted {r : RtlRange} :
    r ∈ unlisted entries l ↔ r ∈ l ∧ ∀ e ∈ entries, r.owner ≠ e.physicalDeviceObject := by
  simp [unlisted]

theorem unlisted_cons (entries : List ArbiterListEntry) (l : RtlRangeList) :
    unlisted (entry :: entries) l =
      unlisted entries (l.filter fun r => decide (r.owner ≠ entry.physicalDeviceObject)) := by
  simp only [unlisted, filter_filter, all_cons]
  congr 1
  funext r
  rw [Bool.and_comm]

theorem unlisted_perm {l' : RtlRangeList} (entries : List ArbiterListEntry) (h : l.Perm l') :
    (unlisted entries l).Perm (unlisted entries l') :=
  h.filter _

theorem unlisted_cons_of_absent {entry : ArbiterListEntry}
    (h : ∀ r ∈ l, r.owner ≠ entry.physicalDeviceObject) :
    unlisted (entry :: entries) l = unlisted entries l := by
  rw [unlisted_cons]
  congr 1
  rw [filter_eq_self]
  intro r hr
  simp [h r hr]

def SameButScore (entry' : ArbiterListEntry) : Prop :=
  entry' = { entry with workSpace := entry'.workSpace }

theorem scoreEntry_same : SameButScore entry (scoreEntry env ops entry).2 := by
  rw [scoreEntry]
  split <;> rfl

theorem prepareEntries_entries (withdraw : Bool) (h : prepareEntries env ops withdraw entries
      previous possible = (.ok (), entries', possible')) :
    Forall₂ SameButScore entries entries' := by
  induction entries generalizing entries' previous possible possible' with
  | nil =>
    cases h
    exact .nil
  | cons entry rest ih =>
    simp only [prepareEntries] at h
    split at h
    · simp only [Prod.mk.injEq] at h
      obtain ⟨hstat, rfl, rfl⟩ := h
      exact .cons (scoreEntry_same env ops entry) (ih (Prod.ext hstat rfl))
    · cases h

end

theorem prepareEntries_cons {entry : ArbiterListEntry} {rest : List ArbiterListEntry}
    (h : prepareEntries env ops true (entry :: rest) previous possible =
      (.ok (), entries', possible')) :
    ∃ rest' possible₁, prepareEntries env ops true rest entry.physicalDeviceObject possible₁ =
        (.ok (), rest', possible') ∧ (entry.physicalDeviceObject = previous ∧ possible₁ = possible ∨
        entry.physicalDeviceObject ≠ previous ∧
          possible₁ = env.rtl.deleteOwnersRanges' possible entry.physicalDeviceObject) := by
  simp only [prepareEntries] at h
  split at h
  · simp only [Prod.mk.injEq] at h
    obtain ⟨hstat, -, rfl⟩ := h
    refine ⟨_, _, Prod.ext hstat rfl, ?_⟩
    by_cases hprev : entry.physicalDeviceObject = previous
    · exact .inl ⟨hprev, if_neg (by simp [hprev])⟩
    · exact .inr ⟨hprev, if_pos (by simpa using hprev)⟩
  · cases h

section

variable (env) (ops)

/-- The first pass of a test, where it goes through, leaves nothing of what the listed devices
own. An owner is withdrawn where it differs from the one before; what the one before owned
is gone already. -/
theorem prepareEntries_possible (hrtl : env.rtl.Lawful)
    (hdevs : ∀ e ∈ entries, e.physicalDeviceObject.isSome)
    (hprevi : previous.isSome → ∀ r ∈ possible, r.owner ≠ previous)
    (h : prepareEntries env ops true entries previous possible = (.ok (), entries', possible')) :
    possible'.Perm (unlisted entries possible) := by
  induction entries generalizing entries' previous possible possible' with
  | nil =>
    cases h
    simp [unlisted]
  | cons entry rest ih =>
    rw [forall_mem_cons] at hdevs
    have hown := hrtl.deleteOwnersRanges'_perm possible entry.physicalDeviceObject
    obtain ⟨rest', possible₁, hrest, ⟨hprev, rfl⟩ | ⟨-, rfl⟩⟩ := prepareEntries_cons h
    · have habs : ∀ r ∈ possible₁, r.owner ≠ entry.physicalDeviceObject := by
        rw [hprev]
        exact hprevi (hprev ▸ hdevs.1)
      rw [unlisted_cons_of_absent habs]
      exact ih hdevs.2 (fun _ => habs) hrest
    · rw [unlisted_cons]
      refine (ih hdevs.2 (fun _ r hr => ?_) hrest).trans (unlisted_perm rest hown)
      simpa using (mem_filter.mp (hown.mem_iff.mp hr)).2

/-- Whatever an owner still has after the first pass was not listed, also where entries name no
device. -/
theorem prepareEntries_owned (hrtl : env.rtl.Lawful) {owner : DeviceObject}
    (hprevi : previous = some owner → ∀ r ∈ possible, r.owner ≠ some owner)
    (h : prepareEntries env ops true entries previous possible = (.ok (), entries', possible'))
    {x : RtlRange} (hx : x ∈ possible') (howne : x.owner = some owner) :
    x ∈ unlisted entries possible := by
  induction entries generalizing entries' previous possible possible' with
  | nil =>
    cases h
    simpa [unlisted] using hx
  | cons entry rest ih =>
    have hown := hrtl.deleteOwnersRanges'_perm possible entry.physicalDeviceObject
    obtain ⟨rest', possible₁, hrest, ⟨hprev, rfl⟩ | ⟨-, rfl⟩⟩ := prepareEntries_cons h
    · have hunl := mem_unlisted.mp (ih (fun heq => hprevi (hprev ▸ heq)) hrest hx)
      refine mem_unlisted.mpr ⟨hunl.1, forall_mem_cons.mpr ⟨fun heq => ?_, hunl.2⟩⟩
      rw [howne] at heq
      exact hprevi (hprev ▸ heq.symm) x hunl.1 howne
    · rw [unlisted_cons]
      refine (unlisted_perm rest hown).mem_iff.mp (ih ?_ hrest hx)
      intro heq r hr
      rw [← heq]
      simpa using (mem_filter.mp (hown.mem_iff.mp hr)).2

theorem prepareEntries_kept
    (h : prepareEntries env ops false entries previous possible = (.ok (), entries', possible')) :
    possible' = possible := by
  induction entries generalizing entries' possible' with
  | nil =>
    cases h
    rfl
  | cons entry rest ih =>
    simp only [prepareEntries] at h
    split at h
    · simp only [Prod.mk.injEq] at h
      obtain ⟨hstat, -, rfl⟩ := h
      exact ih (Prod.ext hstat rfl)
    · cases h

end

theorem seedRangeList_unowned (hrtl : env.rtl.Lawful) {resources : List CmPartialResourceDescriptor}
    (h : arbpSeedRangeList env ops arb resources = .ok l) {x : RtlRange} (hx : x ∈ l) :
    x.owner = none := by
  have hblock : ∀ (windows : List ArbiterSeedWindow) (next : UInt64) (l : RtlRangeList),
      (∀ x ∈ l, x.owner = none) → ∀ x ∈ blockGaps env.rtl windows next l, x.owner = none := by
    have hadd : ∀ (l : RtlRangeList) (start last : UInt64), (∀ x ∈ l, x.owner = none) →
        ∀ x ∈ env.rtl.addRange' l (blockedRange start last) true, x.owner = none := by
      intro l start last hl x hx
      rcases hrtl.mem_of_mem_addRange' hx with rfl | hx
      · rfl
      · exact hl x hx
    intro windows
    induction windows with
    | nil => exact fun next l hl => hadd l next _ hl
    | cons w rest ih =>
      intro next l hl
      have hl' : ∀ x ∈ if w.start > next then
          env.rtl.addRange' l (blockedRange next (w.start - 1)) true else l,
          x.owner = none := by
        split
        · exact hadd l next _ hl
        · exact hl
      rw [blockGaps]
      split
      · exact hl'
      · exact ih _ _ hl'
  rw [arbpSeedRangeList] at h
  split at h
  · cases h
    cases hx
  split at h
  · cases h
  · split at h <;> cases h
    · cases hx
    · exact hblock _ 0 [] (fun _ hx => by cases hx) x hx

/-! ### Sorting and building the stack -/

theorem exists_left_of_forall₂ {α β : Type} {R : α → β → Prop} {l : List α} {m : List β}
    (h : Forall₂ R l m) {y : β} (hy : y ∈ m) : ∃ x ∈ l, R x y := by
  induction h with
  | nil => cases hy
  | cons hxy _ ih =>
    rcases mem_cons.mp hy with rfl | hy
    · exact ⟨_, mem_cons_self, hxy⟩
    · obtain ⟨x, hx, hxy⟩ := ih hy
      exact ⟨x, mem_cons_of_mem _ hx, hxy⟩

theorem exists_right_of_forall₂ {α β : Type} {R : α → β → Prop} {l : List α} {m : List β}
    (h : Forall₂ R l m) {x : α} (hx : x ∈ l) : ∃ y ∈ m, R x y :=
  exists_left_of_forall₂ (Forall₂.flip (R := flip R) h) hx

theorem sortInsert_eq (entry : ArbiterListEntry) (sorted : List ArbiterListEntry) :
    sortInsert entry sorted =
      InsertionSort.insertBehind ArbiterListEntry.workSpace entry sorted := by
  induction sorted with
  | nil => rfl
  | cons e rest ih => rw [sortInsert, InsertionSort.insertBehind_cons, ih]

theorem sortArbitrationList_eq (entries : List ArbiterListEntry) :
    arbiterLibSortArbitrationList entries =
      InsertionSort.sort ArbiterListEntry.workSpace entries := by
  rw [arbiterLibSortArbitrationList]
  congr 1
  funext sorted entry
  exact sortInsert_eq entry sorted

theorem sortArbitrationList_perm (entries : List ArbiterListEntry) :
    (arbiterLibSortArbitrationList entries).Perm entries := by
  rw [sortArbitrationList_eq]
  exact InsertionSort.perm_sort _ entries

structure Built (ops : ArbiterOps σ) (st : AllocationState) : Prop where
  decoded : List.Forall₂ (fun d alt => arbpBuildAlternative ops d = .ok alt)
    st.entry.alternatives st.alternatives
  fresh : st = { AllocationState.zero st.entry with start := 1, alternatives := st.alternatives }

theorem buildStates_ok (ops : ArbiterOps σ) (h : buildStates ops entries = .ok states) :
    states.map (·.entry) = entries.filter (fun e => e.alternatives ≠ []) ∧
      ∀ st ∈ states, Built ops st := by
  induction entries generalizing states with
  | nil =>
    cases h
    exact ⟨rfl, fun st hst => by cases hst⟩
  | cons entry rest ih =>
    rw [buildStates] at h
    by_cases hnil : entry.alternatives = []
    · rw [if_pos hnil] at h
      rw [filter_cons_of_neg (by simpa using hnil)]
      exact ih h
    rw [if_neg hnil] at h
    obtain ⟨alternatives, hdec, h⟩ := bind_eq_ok_iff.mp h
    obtain ⟨states', hrest, h⟩ := bind_eq_ok_iff.mp h
    cases h
    obtain ⟨hents, hbuilt⟩ := ih hrest
    rw [filter_cons_of_pos (by simpa using hnil), map_cons, hents]
    refine ⟨rfl, forall_mem_cons.mpr ⟨⟨?_, rfl⟩, hbuilt⟩⟩
    exact mapM_eq_ok_iff.mp hdec

/-! ### Packing -/

structure Packed (ops : ArbiterOps σ) (st st' : AllocationState) : Prop where
  state : st' = { st with entry := { st.entry with
    selectedAlternative := st.current.map (·.descriptor)
    assignment := st'.entry.assignment
    result := if st.entry.result = .nullRequest then .nullRequest else .success } }
  assignment : ∀ alt a, st.current = some alt → st.entry.assignment = some a →
    ∃ world a' world', ops.packResource alt.descriptor st.start a world = (.ok (), a', world') ∧
      st'.entry.assignment = some a'

theorem packSolution_ok (ops : ArbiterOps σ) {states' : List AllocationState} {world' : σ}
    (h : packSolution ops states world = (.ok (), states', world')) :
    Forall₂ (Packed ops) states states' := by
  induction states generalizing states' world with
  | nil =>
    cases h
    exact .nil
  | cons st rest ih =>
    simp only [packSolution] at h
    split at h
    · cases h
    rename_i hstat
    simp only [Prod.mk.injEq] at h
    obtain ⟨hrest, rfl, rfl⟩ := h
    refine .cons ⟨rfl, ?_⟩ (ih (Prod.ext hrest rfl))
    intro alt a halt ha
    simp only [halt, ha] at hstat ⊢
    exact ⟨world, _, _, Prod.ext hstat rfl, rfl⟩

namespace Packed

variable {st st' : AllocationState}

variable (h : Packed ops st st')

include h

theorem start : st'.start = st.start := by rw [h.state]

theorem last : st'.last = st.last := by rw [h.state]

theorem current : st'.current = st.current := by
  rw [h.state]
  rfl

theorem owner : st'.owner = st.owner := by
  rw [h.state]
  rfl

theorem requestsRoom : st'.requestsRoom = st.requestsRoom := by
  rw [AllocationState.requestsRoom, AllocationState.requestsRoom, h.current]

theorem record : st'.record = st.record := by
  rw [h.state]
  rfl

end Packed

/-! ### The test as a whole -/

theorem stackSetup_ok {setup : TestSetup} (h : stackSetup env ops arb entries world = .ok setup) :
    (∃ size, setup.arbiter = { arb with allocationStackMaxSize := size }) ∧
      setup.entries = entries ∧ buildStates ops entries = .ok setup.states := by
  simp only [stackSetup] at h
  split at h
  · cases h
  rename_i states hstates
  cases h
  refine ⟨⟨_, rfl⟩, rfl, ?_⟩
  simp only [arbpBuildAllocationStack] at hstates
  split at hstates
  · split at hstates
    · exact hstates
    · cases hstates
  · exact hstates

theorem testSetup_ok {setup : TestSetup}
    (h : testSetup env ops arb entries allocateFrom world = .ok setup) : ∃ initial prepared size,
      initialPossible env ops arb allocateFrom = .ok initial ∧
      prepareEntries env ops allocateFrom.isNone entries none initial =
        (.ok (), prepared, setup.arbiter.possibleAllocation) ∧
      setup.arbiter = { arb.withPossible setup.arbiter.possibleAllocation with
        allocationStackMaxSize := size } ∧
      setup.entries = arbiterLibSortArbitrationList prepared ∧
      buildStates ops setup.entries = .ok setup.states := by
  rw [testSetup] at h
  split at h
  · cases h
  rename_i initial hini
  simp only at h
  split at h
  · cases h
  rename_i hstat
  obtain ⟨⟨size, harb⟩, hents, hstates⟩ := stackSetup_ok h
  refine ⟨initial, _, size, hini, Prod.ext hstat (Prod.ext rfl ?_), ?_, hents, ?_⟩
  · rw [harb]
    rfl
  · rw [harb]
    rfl
  · rw [hents]
    exact hstates

theorem testSetup_error {r : TransactionResult σ}
    (h : testSetup env ops arb entries allocateFrom world = .error r) :
    r.status ≠ .ok () ∧ r.world = world := by
  simp only [testSetup, stackSetup] at h
  repeat' split at h
  all_goals cases h
  all_goals exact ⟨fun hstat => (by cases hstat), rfl⟩

theorem testAllocation_ok {fuel : Nat} {r : TransactionResult σ}
    (h : arbpTestAllocation env ops fuel arb entries allocateFrom world = some r)
    (hok : r.status = .ok ()) :
    ∃ setup result, testSetup env ops arb entries allocateFrom world = .ok setup ∧
      arbiterLibAllocateEntry env ops setup.arbiter fuel setup.states world = some result ∧
      result.status = .ok () ∧ r = ⟨.ok (), setup.arbiter.withPossible result.possible,
        writeBack setup.entries result.states, result.world, result.states⟩ := by
  rw [arbpTestAllocation] at h
  cases hset : testSetup env ops arb entries allocateFrom world with
  | error r' =>
    rw [hset] at h
    cases h
    exact absurd hok (testSetup_error hset).1
  | ok setup =>
    rw [hset] at h
    obtain ⟨result, hres, rfl⟩ := Option.map_eq_some_iff.mp h
    refine ⟨setup, result, rfl, hres, ?_⟩
    rw [testFinish] at hok ⊢
    cases hstat : result.status with
    | error e =>
      rw [hstat] at hok
      cases hok
    | ok u => exact ⟨rfl, rfl⟩

end

/-! ### What preprocessing establishes -/

open List

variable {σ : Type}

/-- For states with `W`, preprocessing establishes `T`, and what follows until the entry is
placed keeps it. -/
structure Prepares (env : Environment) (ops : ArbiterOps σ) (arb : ArbiterInstance)
    (W T : AllocationState → Prop) : Prop where
  stable : Stable env ops arb W
  preprocess : ∀ st world st' world' status, W st →
    ops.preprocessEntry st world = (status, st', world') → T st'
  next : ∀ possible st world offered st' world', T st →
    ops.getNextAllocationRange (arb.withPossible possible) st world = (offered, st', world') → T st'
  find : ∀ possible st world, T st →
    T (ops.findSuitableRange env (arb.withPossible possible) st world).state
  lowerWindow : ∀ st, T st → T st.lowerWindow
  mark : ∀ st, W st ∧ T st → W (st.withResult .nullRequest) ∧ T (st.withResult .nullRequest)

namespace Search

structure Prepared (W T : AllocationState → Prop) (s : Search σ) : Prop where
  placed : ∀ st ∈ s.placed, W st ∧ T st
  pending : ∀ st ∈ s.pending, W st
  current : ∀ retry, s.phase = .attempt retry → ∀ current above, s.pending = current :: above →
    T current

namespace Prepared

variable {env : Environment} {ops : ArbiterOps σ} {arb : ArbiterInstance}
  {W T : AllocationState → Prop} {s s' : Search σ}

variable {placed above : List AllocationState} {backtracking : Bool} {possible : RtlRangeList}
  {current : AllocationState}

theorem of_enter {pending : List AllocationState}
    (h : s.At .enter placed pending backtracking possible) (hpl : ∀ st ∈ placed, W st ∧ T st)
    (hpend : ∀ st ∈ pending, W st) : s.Prepared W T where
  placed := by rwa [h.placed_eq]
  pending := by rwa [h.pending_eq]
  current := by
    intro retry hph
    rw [h.phase_eq] at hph
    cases hph

theorem of_attempt {retry : Bool}
    (h : s.At (.attempt retry) placed (current :: above) backtracking possible)
    (hpl : ∀ st ∈ placed, W st ∧ T st) (hcur : W current ∧ T current)
    (habove : ∀ st ∈ above, W st) : s.Prepared W T where
  placed := by rwa [h.placed_eq]
  pending := by
    rw [h.pending_eq]
    exact forall_mem_cons.mpr ⟨hcur.1, habove⟩
  current := by
    intro _ _ current' above' heq
    obtain ⟨rfl, -⟩ := cons.inj (h.pending_eq.symm.trans heq)
    exact hcur.2

theorem parts {phase : Phase} (hs : s.Prepared W T)
    (h : s.At phase placed (current :: above) backtracking possible) :
    (∀ st ∈ placed, W st ∧ T st) ∧ W current ∧ ∀ st ∈ above, W st := by
  have hpend := hs.pending
  rw [h.pending_eq, forall_mem_cons] at hpend
  exact ⟨h.placed_eq ▸ hs.placed, hpend⟩

theorem sought (hp : Prepares env ops arb W T) (hs : s.Prepared W T) {st : AllocationState}
    {world' : σ} (h : s.sought ops arb = some (st, world')) : W st ∧ T st := by
  obtain ⟨retry, hph⟩ : ∃ retry, s.phase = .attempt retry := by
    cases hph : s.phase with
    | attempt retry => exact ⟨retry, rfl⟩
    | enter =>
      simp [Search.sought, hph] at h
  obtain ⟨current, above, hpend, hcase⟩ := sought_cases h
  have hW : W current := hs.pending current (hpend ▸ mem_cons_self)
  have hT := hs.current retry hph current above hpend
  rcases hcase with ⟨-, rfl⟩ | hnext
  · exact ⟨hW, hT⟩
  · exact ⟨hp.stable.next _ _ _ _ _ _ hW hnext, hp.next _ _ _ _ _ _ hT hnext⟩

theorem move (hp : Prepares env ops arb W T) (hs : s.Prepared W T) (h : Move env ops arb s s') :
    s'.Prepared W T := by
  have hpre : ∀ {st world st' world' status}, W st →
      ops.preprocessEntry st world = (status, st', world') → W st' ∧ T st' :=
    fun hst heq => ⟨hp.stable.preprocess _ _ _ _ _ hst heq, hp.preprocess _ _ _ _ _ hst heq⟩
  have hfind : ∀ {st world'} possible, s.sought ops arb = some (st, world') →
      W (ops.findSuitableRange env (arb.withPossible possible) st world').state ∧
        T (ops.findSuitableRange env (arb.withPossible possible) st world').state := by
    intro st world' possible hso
    obtain ⟨hW, hT⟩ := hs.sought hp hso
    exact ⟨hp.stable.find possible st world' hW, hp.find possible st world' hT⟩
  cases h with
  | takenUp placed above current current' possible world' h hst h' =>
    obtain ⟨hpl, hcur, habove⟩ := hs.parts h
    exact of_attempt h' hpl (hpre hcur hst) habove
  | skipped placed above below current current' possible world' h hst hroom h' =>
    obtain ⟨hpl, hcur, habove⟩ := hs.parts h
    rw [forall_mem_cons] at hpl
    refine of_enter h' hpl.2 (forall_mem_cons.mpr ⟨hpl.1.1, ?_⟩)
    exact forall_mem_cons.mpr ⟨(hpre hcur hst).1, forall_restart hp.stable habove⟩
  | givenUp placed above below current current' possible world' h hst hroom hretr h' =>
    obtain ⟨hpl, hcur, habove⟩ := hs.parts h
    rw [forall_mem_cons] at hpl
    refine of_enter h' hpl.2 (forall_mem_cons.mpr ⟨hpl.1.1, ?_⟩)
    exact forall_mem_cons.mpr
      ⟨hp.stable.noRetry _ (hpre hcur hst).1, forall_restart hp.stable habove⟩
  | lowered placed above current current' possible world' h hst hroom hstar hfix h' =>
    obtain ⟨hpl, hcur, habove⟩ := hs.parts h
    obtain ⟨hW, hT⟩ := hpre hcur hst
    exact of_attempt h' hpl ⟨hp.stable.lowerWindow _ hW, hp.lowerWindow _ hT⟩
      (forall_restart hp.stable habove)
  | moved placed above current current' possible world' h hst hroom h' =>
    obtain ⟨hpl, hcur, habove⟩ := hs.parts h
    exact of_attempt h' hpl (hpre hcur hst) (forall_restart hp.stable habove)
  | entered placed above current st retry backtracking possible world' h hso hfd hroom h' =>
    obtain ⟨hpl, -, habove⟩ := hs.parts h
    exact of_enter h' (forall_mem_cons.mpr ⟨hfind possible hso, hpl⟩) habove
  | marked placed above current st retry backtracking possible world' h hso hfd hroom h' =>
    obtain ⟨hpl, -, habove⟩ := hs.parts h
    exact of_enter h' (forall_mem_cons.mpr ⟨hp.mark _ (hfind possible hso), hpl⟩) habove
  | refused placed above current st retry backtracking possible world' h hso h' =>
    obtain ⟨hpl, -, habove⟩ := hs.parts h
    exact of_attempt h' hpl (hfind possible hso) habove
  | exhausted placed above below current current' backtracking possible world' h hnext h' =>
    obtain ⟨hpl, hcur, habove⟩ := hs.parts h
    rw [forall_mem_cons] at hpl
    refine of_enter h' hpl.2 (forall_mem_cons.mpr ⟨hpl.1.1, ?_⟩)
    exact forall_mem_cons.mpr ⟨hp.stable.next _ _ _ _ _ _ hcur hnext, habove⟩

theorem along (hp : Prepares env ops arb W T) (fuel : Nat) {states : List AllocationState}
    (hstates : ∀ st ∈ states, W st) (world : σ) :
    Machine.Along (Search.step env ops arb) (Prepared W T) fuel
      (Search.start env arb states world) :=
  Machine.along_of_invariant (fun _ _ hs hstep => hs.move hp (step_move hstep)) fuel
    (of_enter ⟨rfl, rfl, rfl, rfl, rfl⟩ (fun _ hst => by cases hst) hstates)

end Prepared

end Search

variable {env : Environment} {ops : ArbiterOps σ} {W T : AllocationState → Prop} {fuel : Nat}

theorem prepared_of_allocateEntry {arb : ArbiterInstance} (hp : Prepares env ops arb W T)
    {states : List AllocationState} (hstates : ∀ st ∈ states, W st) {world : σ}
    {r : SearchResult σ} (hrun : arbiterLibAllocateEntry env ops arb fuel states world = some r)
    (hok : r.status = .ok ()) : ∀ st' ∈ r.states, ∃ st, Packed ops st st' ∧ W st ∧ T st := by
  obtain ⟨s, hs, -, hret⟩ := Machine.run_invariant
    (fun _ _ hs _ hstep => Search.Prepared.move hp hs (Search.step_move hstep)) hrun
    (Search.Prepared.of_enter ⟨rfl, rfl, rfl, rfl, rfl⟩ (fun _ hst => by cases hst) hstates)
    (Machine.along_of_forall (fun _ => trivial) fuel _)
  obtain ⟨hpend, rfl⟩ := Search.step_ok hret hok
  have hsol : s.states = s.placed.reverse := by
    simp [Search.states, hpend]
  intro st' hst'
  obtain ⟨st, hst, hpack⟩ := exists_left_of_forall₂ (packSolution_ok ops (Prod.ext hok rfl)) hst'
  rw [hsol, mem_reverse] at hst
  exact ⟨st, hpack, hs.placed st hst⟩

end UacpiNt
