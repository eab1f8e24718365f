import UacpiNt.Arbiter.Next

/-!
# Finding a suitable range

A candidate window is handed to `RtlFindRange`. If that finds no room, two
escapes may still grant the window: sharing a driver-exclusive resource with a
device of the same driver or of the root enumerator, and reclaiming a fixed window
that only the requesting device itself occupies.
-/

namespace UacpiNt

namespace AllocationState

/-- The range meets the working window and its attributes do not make it available. -/
def contests (st : AllocationState) (r : RtlRange) : Bool :=
  decide (r.Overlaps st.currentMinimum st.currentMaximum) &&
    r.attributes &&& st.rangeAvailableAttributes == 0

def takeWindow (st : AllocationState) : AllocationState :=
  { st with start := st.currentMinimum, last := st.currentMaximum }

end AllocationState

def overrideWalk (requester : DeviceObject) : RtlRangeList → Bool → AllocationState →
    Bool × AllocationState
  | [], selfConflictOnly, st => (selfConflictOnly, st)
  | r :: l, selfConflictOnly, st =>
    if st.contests r then
      if r.owner = some requester then overrideWalk requester l true st.takeWindow
      else (false, st)
    else overrideWalk requester l selfConflictOnly st

/-- Grant a fixed window that conflicts only with ranges of the requesting device. -/
def arbiterLibOverrideConflict (possible : RtlRangeList) (st : AllocationState) :
    Bool × AllocationState :=
  match st.current, st.entry.physicalDeviceObject with
  | some alt, some requester =>
    if alt.fixed then overrideWalk requester possible false st else (false, st)
  | _, _ => (false, st)

namespace Environment

/-- Whether the device is enumerated by the root enumerator, `none` if its enumerator name cannot be
read. -/
def arbpReadRootEnumerated (env : Environment) (device : DeviceObject) : Option Bool :=
  (env.enumeratorName device).map fun name =>
    name.map Char.toUpper == ['R', 'O', 'O', 'T']

def arbpSharesDriverStack (env : Environment) (a b : DeviceObject) : Bool :=
  (env.attachedDrivers a).any fun driver => (env.attachedDrivers b).contains driver

def isConflictWithMmConfigRange (env : Environment) (start last : UInt64) : Bool :=
  env.mmConfigRanges.any fun window => decide (start ≤ window.2) && decide (window.1 ≤ last)

end Environment

section

variable (env : Environment) (arb : ArbiterInstance) (rtl : RtlApi) (possible : RtlRangeList)
  (st : AllocationState) (alt : ArbiterAlternative)

/-- A range that `ArbpShareDriverExclusive` considers: it contests the window, the
request or the range is driver exclusive, and the range has an owner. -/
def shareCandidate (r : RtlRange) : Option DeviceObject :=
  if st.contests r && (alt.descriptor.shareDisposition == .driverExclusive ||
      r.attributes &&& arbiterRangeSharedDriver != 0) then r.owner
  else none

/-- Whether the requester may share with the owner, and whether the root path is
still open afterwards. An owner known not to be root enumerated closes it. -/
def sharesWith (requester owner : DeviceObject) (rootPathOpen : Bool) : Bool × Bool :=
  let rootOpen := rootPathOpen && env.arbpReadRootEnumerated owner != some false
  (rootOpen || env.arbpSharesDriverStack requester owner, rootOpen)

/-- The walk of `ArbpShareDriverExclusive`: whether some range may be shared. -/
def shareWalk (env : Environment) (st : AllocationState) (alt : ArbiterAlternative)
    (requester : DeviceObject) : RtlRangeList → Bool → Bool
  | [], _ => false
  | r :: l, rootPathOpen =>
    match shareCandidate st alt r with
    | none => shareWalk env st alt requester l rootPathOpen
    | some owner =>
      (sharesWith env requester owner rootPathOpen).1 ||
        shareWalk env st alt requester l (sharesWith env requester owner rootPathOpen).2

/-- The state that `ArbpShareDriverExclusive` grants: the whole window, tagged for a
driver-exclusive requirement. -/
def AllocationState.shareWindow : AllocationState :=
  if alt.descriptor.shareDisposition = .driverExclusive then
    { st.takeWindow with rangeAttributes := st.rangeAttributes ||| arbiterRangeSharedDriver }
  else st.takeWindow

def arbpShareDriverExclusive : Option AllocationState :=
  match st.current, st.entry.physicalDeviceObject with
  | some alt, some requester =>
    if shareWalk env st alt requester possible
        (env.arbpReadRootEnumerated requester == some true) then some (st.shareWindow alt)
    else none
  | _, _ => none

def ArbiterRequestSource.isLegacy : ArbiterRequestSource → Bool
  | .legacyReported | .legacyAssigned => true
  | _ => false

/-- The attributes a search makes available, on top of those available already. -/
def AllocationState.openAttributes : AllocationState :=
  { st with
    rangeAvailableAttributes := st.rangeAvailableAttributes |||
      (if st.entry.requestSource.isLegacy then arbiterRangeBootAllocated else 0) |||
      (if alt.inaccessibleOk then arbiterRangeInaccessible else 0) }

def AllocationState.terms : RtlTerms where
  sharedOk := alt.shared
  nullConflictOk := st.nullConflictOk
  attributeAvailableMask := st.rangeAvailableAttributes
  callback := arb.conflictCallback

/-- What is left to try when `RtlFindRange` found no room. -/
def escapeConflict : Bool × AllocationState :=
  match arbpShareDriverExclusive env arb.possibleAllocation st with
  | some shared => (true, shared)
  | none =>
    let overridden := arbiterLibOverrideConflict arb.possibleAllocation st
    if overridden.1 then overridden
    else (false, { overridden.2 with
      mcfgConflict := overridden.2.mcfgConflict ||
        env.isConflictWithMmConfigRange overridden.2.currentMinimum
          overridden.2.currentMaximum })

def placeAlternative : (Bool × AllocationState) × Option RtlRange :=
  let found := env.rtl.findRange arb.possibleAllocation st.currentMinimum st.currentMaximum
    alt.length (max alt.alignment 1) (st.terms arb alt)
  match found.1 with
  | .ok start => ((true, { st with start := start, last := start + alt.length - 1 }), found.2)
  | .error _ => (escapeConflict env arb st, found.2)

/-- `ArbiterLibFindSuitableRange`, with the range the conflict callback saw last. -/
def arbiterLibFindSuitableRange : (Bool × AllocationState) × Option RtlRange :=
  match st.current with
  | none => ((false, st), none)
  | some alt =>
    if st.currentMinimum > st.currentMaximum then ((false, st), none)
    else if alt.length = 0 then
      ((true, { st with start := st.currentMinimum, last := st.currentMinimum }), none)
    else placeAlternative env arb (st.openAttributes alt) alt

def AllocationState.record : RtlRange where
  start := st.start
  last := st.last
  attributes := st.rangeAttributes
  shared := st.current.any (·.shared)
  owner := st.owner

def arbiterLibAddAllocation : RtlRangeList :=
  rtl.addRange' possible st.record true

def arbiterLibBacktrackAllocation : RtlRangeList :=
  rtl.deleteRange' possible st.start st.last st.owner

end

/-! ### What a search can grant -/

namespace AllocationState

def unfound (st : AllocationState) : AllocationState :=
  { st with
    start := 0
    last := 0
    rangeAttributes := 0
    rangeAvailableAttributes := 0
    mcfgConflict := false }

def unplaced (st : AllocationState) : AllocationState :=
  { st.unfound with currentMinimum := 0 }

/-- What the search for a solution never changes of a state: the entry, but for the result
noted in it, and its requirements. -/
def request (st : AllocationState) : AllocationState :=
  { AllocationState.zero { st.entry with result := .undefined } with
    alternatives := st.requirements
    nullConflictOk := st.nullConflictOk }

variable {st st' : AllocationState}

theorem request_eq_of_rewind (h : st'.rewind = st.rewind) : st'.request = st.request := by
  have hreq : ∀ st : AllocationState, st.request =
      { AllocationState.zero { st.rewind.entry with result := .undefined } with
        alternatives := st.rewind.alternatives
        nullConflictOk := st.rewind.nullConflictOk } := fun _ => rfl
  rw [hreq, hreq st, h]

theorem request_eq_of_unplaced (h : st'.unplaced = st.unplaced) : st'.request = st.request :=
  (congrArg request h :)

theorem current_eq_of_unplaced (h : st'.unplaced = st.unplaced) : st'.current = st.current :=
  (congrArg current h :)

theorem entry_eq_of_unplaced (h : st'.unplaced = st.unplaced) : st'.entry = st.entry :=
  (congrArg entry h :)

theorem owner_eq_of_request (h : st'.request = st.request) : st'.owner = st.owner :=
  (congrArg owner h :)

@[simp] theorem takeWindow_takeWindow (st : AllocationState) :
    st.takeWindow.takeWindow = st.takeWindow := rfl

theorem requirements_eq_of_request (h : st'.request = st.request) :
    st'.requirements = st.requirements :=
  congrArg AllocationState.alternatives h

theorem current_mem_alternatives {alt : ArbiterAlternative} (h : st.current = some alt) :
    alt ∈ st.alternatives := by
  obtain ⟨i, -, hi⟩ := Option.bind_eq_some_iff.mp h
  exact List.mem_of_getElem? hi

theorem current_mem_requirements {alt : ArbiterAlternative} (h : st.current = some alt) :
    alt.withPriority arbiterPriorityNull ∈ st.requirements :=
  List.mem_map_of_mem (current_mem_alternatives h)

section

variable (st) (alt : ArbiterAlternative)

theorem unfound_shareWindow : (st.shareWindow alt).unfound = st.unfound := by
  rw [shareWindow]
  split <;> rfl

end

end AllocationState

open AllocationState

/-! ### The override of a conflict -/

theorem overrideWalk_state (requester : DeviceObject) (l : RtlRangeList) (self : Bool)
    (st : AllocationState) : (overrideWalk requester l self st).2 = st ∨
      (overrideWalk requester l self st).2 = st.takeWindow := by
  induction l generalizing self st with
  | nil => exact .inl rfl
  | cons r l ih =>
    rw [overrideWalk]
    split
    · split
      · right
        rcases ih true st.takeWindow with h | h
        · exact h
        · rw [h, takeWindow_takeWindow]
      · exact .inl rfl
    · exact ih self st

variable {st : AllocationState} {alt : ArbiterAlternative} {env : Environment}
  {arb : ArbiterInstance}

theorem overrideWalk_granted {requester : DeviceObject} {l : RtlRangeList} {self : Bool}
    (h : (overrideWalk requester l self st).1 = true) :
    (∀ r ∈ l, st.contests r = true → r.owner = some requester) ∧
      (self = false → (overrideWalk requester l self st).2 = st.takeWindow) := by
  induction l generalizing self st with
  | nil =>
    refine ⟨fun r hr => (by cases hr), fun hself => ?_⟩
    rw [hself] at h
    cases h
  | cons r l ih =>
    rw [overrideWalk] at h ⊢
    rw [List.forall_mem_cons]
    by_cases hcont : st.contests r = true
    · rw [if_pos hcont] at h ⊢
      by_cases hown : r.owner = some requester
      · rw [if_pos hown] at h ⊢
        refine ⟨⟨fun _ => hown, (ih h).1⟩, fun _ => ?_⟩
        rcases overrideWalk_state requester l true st.takeWindow with hst | hst
        · exact hst
        · rw [hst, takeWindow_takeWindow]
      · rw [if_neg hown] at h
        cases h
    · rw [if_neg hcont] at h ⊢
      exact ⟨⟨fun hc => absurd hc hcont, (ih h).1⟩, (ih h).2⟩

theorem overrideConflict_state (possible : RtlRangeList) (st : AllocationState) :
    (arbiterLibOverrideConflict possible st).2 = st ∨
      (arbiterLibOverrideConflict possible st).2 = st.takeWindow := by
  rw [arbiterLibOverrideConflict]
  split
  · split
    · exact overrideWalk_state _ _ _ _
    · exact .inl rfl
  · exact .inl rfl

theorem overrideConflict_granted {possible : RtlRangeList} (halt : st.current = some alt)
    (h : (arbiterLibOverrideConflict possible st).1 = true) :
    alt.fixed = true ∧ (arbiterLibOverrideConflict possible st).2 = st.takeWindow ∧
      ∀ r ∈ possible, st.contests r = true → r.owner = st.owner := by
  rw [arbiterLibOverrideConflict, halt] at h ⊢
  cases hown : st.entry.physicalDeviceObject with
  | none =>
    rw [hown] at h
    cases h
  | some requester =>
    rw [hown] at h
    simp only at h ⊢
    by_cases hfix : alt.fixed = true
    · rw [if_pos hfix] at h ⊢
      obtain ⟨hself, hst⟩ := overrideWalk_granted h
      refine ⟨hfix, hst rfl, fun r hr hc => ?_⟩
      rw [hself r hr hc, owner, hown]
    · rw [if_neg hfix] at h
      cases h

theorem shareDriverExclusive_granted {possible : RtlRangeList} {st' : AllocationState}
    (halt : st.current = some alt) (h : arbpShareDriverExclusive env possible st = some st') :
    st' = st.shareWindow alt ∧ ∃ requester, st.owner = some requester ∧
      shareWalk env st alt requester possible
        (env.arbpReadRootEnumerated requester == some true) = true := by
  rw [arbpShareDriverExclusive, halt] at h
  cases hown : st.entry.physicalDeviceObject with
  | none =>
    rw [hown] at h
    cases h
  | some requester =>
    rw [hown] at h
    simp only at h
    split at h
    · rename_i hwalk
      cases h
      exact ⟨rfl, requester, hown, hwalk⟩
    · cases h

theorem shareWalk_eq_false (env : Environment) {st : AllocationState} {alt : ArbiterAlternative}
    (requester : DeviceObject) {l : RtlRangeList} (rootPathOpen : Bool)
    (halt : alt.descriptor.shareDisposition ≠ .driverExclusive)
    (hl : ∀ x ∈ l, x.attributes &&& arbiterRangeSharedDriver = 0) :
    shareWalk env st alt requester l rootPathOpen = false := by
  induction l with
  | nil => rfl
  | cons x l ih =>
    rw [List.forall_mem_cons] at hl
    have hnone : shareCandidate st alt x = none := by
      simp [shareCandidate, halt, hl.1]
    rw [shareWalk, hnone]
    exact ih hl.2

/-! ### Grants -/

def AllocationState.answer (env : Environment) (arb : ArbiterInstance) (st : AllocationState)
    (alt : ArbiterAlternative) : Except NtError UInt64 :=
  (env.rtl.findRange arb.possibleAllocation st.currentMinimum st.currentMaximum alt.length
    (max alt.alignment 1) (st.terms arb alt)).1

/-- The state is granted in one of the four ways, for its alternative `alt`. -/
inductive Grant (env : Environment) (arb : ArbiterInstance) (st : AllocationState)
    (alt : ArbiterAlternative) : AllocationState → Prop where
  | nothing (hlength : alt.length = 0) :
      Grant env arb st alt { st with start := st.currentMinimum, last := st.currentMinimum }
  | found (start : UInt64) (hlength : alt.length ≠ 0)
      (hanswer : (st.openAttributes alt).answer env arb alt = .ok start) :
      Grant env arb st alt
        { st.openAttributes alt with start := start, last := start + alt.length - 1 }
  | shared (requester : DeviceObject) (e : NtError) (hlength : alt.length ≠ 0)
      (hanswer : (st.openAttributes alt).answer env arb alt = .error e)
      (howner : st.owner = some requester)
      (hwalk : shareWalk env (st.openAttributes alt) alt requester arb.possibleAllocation
        (env.arbpReadRootEnumerated requester == some true) = true) :
      Grant env arb st alt ((st.openAttributes alt).shareWindow alt)
  | overridden (e : NtError) (hlength : alt.length ≠ 0)
      (hanswer : (st.openAttributes alt).answer env arb alt = .error e)
      (hfixed : alt.fixed = true)
      (hself : ∀ r ∈ arb.possibleAllocation, (st.openAttributes alt).contests r = true →
        r.owner = st.owner) :
      Grant env arb st alt (st.openAttributes alt).takeWindow

theorem placeAlternative_grant (halt : st.current = some alt) (hlen : alt.length ≠ 0)
    (h : (placeAlternative env arb (st.openAttributes alt) alt).1.1 = true) :
    Grant env arb st alt (placeAlternative env arb (st.openAttributes alt) alt).1.2 := by
  have halt' : (st.openAttributes alt).current = some alt := halt
  simp only [placeAlternative] at h ⊢
  cases hans : (st.openAttributes alt).answer env arb alt with
  | ok start =>
    simp only [answer] at hans
    rw [hans]
    exact .found start hlen hans
  | error e =>
    have hans' := hans
    simp only [answer] at hans'
    rw [hans'] at h ⊢
    simp only [escapeConflict] at h ⊢
    cases hshare : arbpShareDriverExclusive env arb.possibleAllocation (st.openAttributes alt) with
    | some shared =>
      obtain ⟨rfl, requester, hown, hwalk⟩ := shareDriverExclusive_granted halt' hshare
      exact .shared requester e hlen hans hown hwalk
    | none =>
      rw [hshare] at h
      simp only at h ⊢
      split at h
      · rename_i hgr
        obtain ⟨hfix, hst, hself⟩ := overrideConflict_granted halt' hgr
        rw [if_pos hgr, hst]
        exact .overridden e hlen hans hfix hself
      · cases h

theorem findSuitableRange_grant (h : (arbiterLibFindSuitableRange env arb st).1.1 = true) :
    ∃ alt, st.current = some alt ∧ st.currentMinimum ≤ st.currentMaximum ∧
      Grant env arb st alt (arbiterLibFindSuitableRange env arb st).1.2 := by
  rw [arbiterLibFindSuitableRange] at h ⊢
  cases halt : st.current with
  | none =>
    rw [halt] at h
    cases h
  | some alt =>
    rw [halt] at h
    simp only at h ⊢
    by_cases hwin : st.currentMinimum > st.currentMaximum
    · rw [if_pos hwin] at h
      cases h
    rw [if_neg hwin] at h ⊢
    refine ⟨alt, rfl, UInt64.not_lt.mp hwin, ?_⟩
    by_cases hlen : alt.length = 0
    · rw [if_pos hlen]
      exact .nothing hlen
    · rw [if_neg hlen] at h ⊢
      exact placeAlternative_grant halt hlen h

section

variable (env) (arb)

theorem escapeConflict_unfound (st : AllocationState) :
    (escapeConflict env arb st).2.unfound = st.unfound := by
  have hovr : (arbiterLibOverrideConflict arb.possibleAllocation st).2.unfound = st.unfound := by
    rcases overrideConflict_state arb.possibleAllocation st with h | h <;> rw [h]
    rfl
  rw [escapeConflict]
  cases hshare : arbpShareDriverExclusive env arb.possibleAllocation st with
  | some shared =>
    rw [arbpShareDriverExclusive] at hshare
    split at hshare
    · split at hshare
      · cases hshare
        exact unfound_shareWindow _ _
      · cases hshare
    · cases hshare
  | none =>
    simp only
    split <;> exact hovr

theorem findSuitableRange_unfound (st : AllocationState) :
    (arbiterLibFindSuitableRange env arb st).1.2.unfound = st.unfound := by
  rw [arbiterLibFindSuitableRange]
  split
  · rfl
  split
  · rfl
  split
  · rfl
  simp only [placeAlternative]
  split
  · rfl
  · exact escapeConflict_unfound env arb _

theorem findSuitableRange_unplaced (st : AllocationState) :
    (arbiterLibFindSuitableRange env arb st).1.2.unplaced = st.unplaced :=
  (congrArg unplaced (findSuitableRange_unfound env arb st) :)

end

theorem findSuitableRange_refused (halt : st.current = some alt)
    (h : (arbiterLibFindSuitableRange env arb st).1.1 = false) :
    st.currentMaximum < st.currentMinimum ∨ alt.length ≠ 0 ∧
      ∃ e, (st.openAttributes alt).answer env arb alt = .error e := by
  rw [arbiterLibFindSuitableRange, halt] at h
  simp only at h
  split at h
  · rename_i hwin
    exact .inl hwin
  split at h
  · cases h
  rename_i hlen
  refine .inr ⟨hlen, ?_⟩
  simp only [placeAlternative] at h
  split at h
  · cases h
  · rename_i e herr
    exact ⟨e, herr⟩

theorem ArbiterAlternative.effectiveAlignment_ne_zero (alt : ArbiterAlternative) :
    alt.effectiveAlignment ≠ 0 := by
  rw [effectiveAlignment]
  split
  · decide
  · assumption

theorem max_one_eq_effectiveAlignment (alt : ArbiterAlternative) :
    max alt.alignment 1 = alt.effectiveAlignment := by
  have hmax : max alt.alignment 1 = if alt.alignment ≤ 1 then 1 else alt.alignment := rfl
  rw [hmax, ArbiterAlternative.effectiveAlignment]
  by_cases hzero : alt.alignment = 0
  · rw [hzero]
    rfl
  split
  · rename_i hle
    rw [← UInt64.toNat_inj] at hzero ⊢
    rw [UInt64.le_iff_toNat_le] at hle
    simp only [UInt64.toNat_zero, UInt64.toNat_one] at hzero hle ⊢
    omega
  · rfl

theorem alignment_ne_zero (alt : ArbiterAlternative) : max alt.alignment 1 ≠ 0 := by
  rw [max_one_eq_effectiveAlignment]
  exact alt.effectiveAlignment_ne_zero

namespace Grant

variable {st' : AllocationState}

theorem placement (hrtl : env.rtl.Lawful) (hlen : alt.length ≠ 0) {start : UInt64}
    (h : st.answer env arb alt = .ok start) :
    RangeList.Placement arb.possibleAllocation st.currentMinimum st.currentMaximum alt.length
      (max alt.alignment 1) (st.terms arb alt) start := by
  exact hrtl.find_spec _ _ _ _ _ _ _ hlen (alignment_ne_zero alt) h

variable (h : Grant env arb st alt st')

include h

theorem available_eq (hlen : alt.length ≠ 0) :
    st'.rangeAvailableAttributes = (st.openAttributes alt).rangeAvailableAttributes := by
  cases h with
  | nothing hzero => exact absurd hzero hlen
  | found | overridden => rfl
  | shared =>
    rw [shareWindow]
    split <;> rfl

theorem entry_eq : st'.entry = st.entry := by
  cases h with
  | nothing | found | overridden => rfl
  | shared =>
    rw [shareWindow]
    split <;> rfl

theorem window :
    st'.currentMinimum = st.currentMinimum ∧ st'.currentMaximum = st.currentMaximum := by
  cases h with
  | nothing | found | overridden => exact ⟨rfl, rfl⟩
  | shared =>
    rw [shareWindow]
    split <;> exact ⟨rfl, rfl⟩

variable (hrtl : env.rtl.Lawful)

include hrtl

theorem start_le_last (hwin : st.currentMinimum ≤ st.currentMaximum) : st'.start ≤ st'.last := by
  cases h with
  | nothing hlen => exact UInt64.le_refl _
  | found start hlen hans => exact (placement hrtl hlen hans).start_le_last hlen
  | shared requester e hlen hans hown hwalk =>
    rw [shareWindow]
    split <;> exact hwin
  | overridden e hlen hans hfix hself => exact hwin

theorem minimum_le_start : st.currentMinimum ≤ st'.start := by
  cases h with
  | nothing | overridden => exact UInt64.le_refl _
  | found start hlen hans => exact (placement hrtl hlen hans).minimum_le
  | shared requester e hlen hans hown hwalk =>
    rw [shareWindow]
    split <;> exact UInt64.le_refl _

theorem start_le_maximum (hwin : st.currentMinimum ≤ st.currentMaximum) :
    st'.start ≤ st.currentMaximum := by
  cases h with
  | nothing | overridden => exact hwin
  | found start hlen hans =>
    have hplac := placement hrtl hlen hans
    exact UInt64.le_trans (hplac.start_le_last hlen) (hplac.last_le_maximum hlen)
  | shared requester e hlen hans hown hwalk =>
    rw [shareWindow]
    split <;> exact hwin

theorem overlaps_window (hlen : alt.length ≠ 0) {x : RtlRange}
    (hov : x.Overlaps st'.start st'.last) : x.Overlaps st.currentMinimum st.currentMaximum := by
  cases h with
  | nothing hzero => exact absurd hzero hlen
  | found start _ hans =>
    have hplac := placement hrtl hlen hans
    exact ⟨UInt64.le_trans hov.1 (hplac.last_le_maximum hlen),
      UInt64.le_trans hplac.minimum_le hov.2⟩
  | shared requester e _ hans hown hwalk =>
    rw [shareWindow] at hov
    split at hov <;> exact hov
  | overridden e _ hans hfix hself => exact hov

theorem window_of_single (hlen : alt.length ≠ 0)
    (hsingle : st.currentMaximum.toNat + 1 = st.currentMinimum.toNat + alt.length.toNat) :
    st'.start = st.currentMinimum ∧ st'.last = st.currentMaximum := by
  cases h with
  | nothing hzero => exact absurd hzero hlen
  | found start _ hans =>
    have hplac := placement hrtl hlen hans
    have hfits : start.toNat + alt.length.toNat ≤ st.currentMaximum.toNat + 1 := hplac.fits
    have hmin : st.currentMinimum.toNat ≤ start.toNat := UInt64.le_iff_toNat_le.mp hplac.minimum_le
    have hlt := st.currentMaximum.toNat_lt
    obtain rfl : start = st.currentMinimum := UInt64.toNat_inj.mp (by omega)
    refine ⟨rfl, UInt64.toNat_inj.mp ?_⟩
    rw [UInt64.toNat_sub, UInt64.toNat_add, UInt64.toNat_one]
    omega
  | shared requester e _ hans hown hwalk =>
    rw [shareWindow]
    split <;> exact ⟨rfl, rfl⟩
  | overridden e _ hans hfix hself => exact ⟨rfl, rfl⟩

theorem permits_or_shares (hlen : alt.length ≠ 0) {x : RtlRange}
    (hx : x ∈ arb.possibleAllocation) (hfor : x.owner ≠ st.owner)
    (hov : x.Overlaps st'.start st'.last) :
    ((st.openAttributes alt).terms arb alt).permits x = true ∨
      ∃ requester e, st.owner = some requester ∧
        (st.openAttributes alt).answer env arb alt = .error e ∧
        shareWalk env (st.openAttributes alt) alt requester arb.possibleAllocation
          (env.arbpReadRootEnumerated requester == some true) = true := by
  cases h with
  | nothing hzero => exact absurd hzero hlen
  | found start _ hans =>
    exact .inl ((placement hrtl hlen hans).permitted x hx hov)
  | shared requester e _ hans hown hwalk =>
    exact .inr ⟨requester, e, hown, hans, hwalk⟩
  | overridden e _ hans hfix hself =>
    left
    -- A record of another device does not contest the window, so its attributes are available.
    have hcont : (st.openAttributes alt).contests x = false :=
      Bool.eq_false_iff.mpr fun hcont => hfor (hself x hx hcont)
    have hwin : x.Overlaps (st.openAttributes alt).currentMinimum
        (st.openAttributes alt).currentMaximum := hov
    have hmask : x.attributes &&& (st.openAttributes alt).rangeAvailableAttributes ≠ 0 := by
      simpa [contests, hwin] using hcont
    simp [RangeList.Terms.permits, RangeList.Terms.waives, terms, hmask]

end Grant

end UacpiNt
