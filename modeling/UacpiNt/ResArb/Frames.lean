import UacpiNt.Arbiter.Booking
import UacpiNt.ResArb.Basic

/-!
# What the routines of the resource arbiters change

The routines keep the request of a state, and they book each placement exactly. A placement
of the port arbiter is entered together with its decode mirrors; its search may run several
rounds, each above the placement whose mirrors were taken.
-/

namespace UacpiNt

open List RangeList

theorem openBootAttributes_unplaced (st : AllocationState) :
    st.openBootAttributes.unplaced = st.unplaced := by
  rw [AllocationState.openBootAttributes]
  split <;> rfl

theorem resFindSuitableRange_unplaced (env : Environment) (arb : ArbiterInstance)
    (st : AllocationState) :
    (uacpiNtResFindSuitableRange env arb st).1.2.unplaced = st.unplaced := by
  rw [uacpiNtResFindSuitableRange, findSuitableRange_unplaced, openBootAttributes_unplaced]

/-! ### Rounds of the port arbiter -/

/-- The states that the rounds of a port search start from. -/
inductive PortRound (env : Environment) (arb : ArbiterInstance) (st : AllocationState) :
    AllocationState → Prop where
  | first : PortRound env arb st st
  | next {st' : AllocationState} (h : PortRound env arb st st')
      (hgranted : (uacpiNtResFindSuitableRange env arb st').1.1 = true)
      (hroom : (uacpiNtResFindSuitableRange env arb st').1.2.requestsRoom = true)
      (next : UInt64)
      (hnext : next = (uacpiNtResFindSuitableRange env arb st').1.2.start +
        (uacpiNtResFindSuitableRange env arb st').1.2.current.elim 0 (·.length))
      (hstart : (uacpiNtResFindSuitableRange env arb st').1.2.start < next)
      (hmaximum : next ≤ (uacpiNtResFindSuitableRange env arb st').1.2.currentMaximum) :
      PortRound env arb st
        { (uacpiNtResFindSuitableRange env arb st').1.2 with currentMinimum := next }

variable {st : AllocationState}

section

variable (env : Environment) (flags : UInt16) {last : UInt64} (arb : ArbiterInstance) (fuel : Nat)

theorem PortRound.unplaced {env : Environment} {arb : ArbiterInstance} {st' : AllocationState}
    (h : PortRound env arb st st') : st'.unplaced = st.unplaced := by
  induction h with
  | first => rfl
  | next h hgr hroom next hnext hstar hmax ih =>
    exact (resFindSuitableRange_unplaced env arb _).trans ih

theorem portRounds_cases {st₀ : AllocationState} (hst : PortRound env arb st₀ st) :
    (portRounds env arb fuel st).1.2.unplaced = st₀.unplaced ∧
      ((portRounds env arb fuel st).1.1 = true → ∃ st', PortRound env arb st₀ st' ∧
        (uacpiNtResFindSuitableRange env arb st').1 = (portRounds env arb fuel st).1) := by
  induction fuel generalizing st with
  | zero => exact ⟨hst.unplaced, fun h => by cases h⟩
  | succ fuel ih =>
    have hframe := (resFindSuitableRange_unplaced env arb st).trans hst.unplaced
    simp only [portRounds]
    by_cases hgr : (uacpiNtResFindSuitableRange env arb st).1.1 = true
    · rw [if_neg (by simp [hgr])]
      split
      · exact ⟨hframe, fun _ => ⟨st, hst, Prod.ext hgr rfl⟩⟩
      split
      · exact ⟨hframe, fun h => by cases h⟩
      rename_i hstop
      simp only [not_or, Bool.not_eq_true', Bool.not_eq_false] at hstop
      obtain ⟨hroom, hstar, hmax⟩ := hstop
      exact ih (hst.next hgr hroom _ rfl (UInt64.not_le.mp hstar) (UInt64.not_lt.mp hmax))
    · rw [if_pos (by simpa using hgr)]
      exact ⟨hframe, fun h => absurd h hgr⟩

theorem resPortFindSuitableRange_cases (st : AllocationState) :
    (uacpiNtResPortFindSuitableRange env arb st).1.2.unplaced = st.unplaced ∧
      ((uacpiNtResPortFindSuitableRange env arb st).1.1 = true → ∃ st', PortRound env arb st st' ∧
        (uacpiNtResFindSuitableRange env arb st').1 =
          (uacpiNtResPortFindSuitableRange env arb st).1) :=
  portRounds_cases env arb _ .first

/-! ### Mirrors -/

theorem nextPortAlias_spec {flags : UInt16} {next : UInt64}
    (h : uacpiNtNextPortAlias flags last = some next) :
    next.toNat ≤ 0xFFFF ∧ last.toNat + 0x400 ≤ next.toNat := by
  obtain ⟨stride, hstr, h⟩ := Option.bind_eq_some_iff.mp h
  have hwide : stride = 0x400 ∨ stride = 0x1000 := by
    rw [portAliasStride] at hstr
    split at hstr
    · exact .inl (Option.some.inj hstr).symm
    · split at hstr
      · exact .inr (Option.some.inj hstr).symm
      · cases hstr
  have hstr : stride.toNat = 0x400 ∨ stride.toNat = 0x1000 := by
    rcases hwide with rfl | rfl
    · exact .inl rfl
    · exact .inr rfl
  split at h
  · cases h
  rename_i hins
  cases h
  rw [not_or] at hins
  have hmax := UInt64.le_iff_toNat_le.mp (UInt64.not_lt.mp hins.1)
  have hwrap := UInt64.le_iff_toNat_le.mp (UInt64.not_lt.mp hins.2)
  have hsum := UInt64.toNat_add last stride
  have htop : (0xFFFF : UInt64).toNat = 0xFFFF := rfl
  omega

theorem portAliasesFrom_le (last : UInt64) :
    ∀ mirror ∈ portAliasesFrom flags fuel last, mirror.toNat ≤ 0xFFFF := by
  induction fuel generalizing last with
  | zero => exact fun mirror h => by cases h
  | succ fuel ih =>
    rw [portAliasesFrom]
    split
    · exact fun mirror h => by cases h
    · rename_i next hnext
      exact forall_mem_cons.mpr ⟨(nextPortAlias_spec hnext).1, ih next⟩

end

namespace AllocationState

def portClaims (st : AllocationState) : RtlRangeList :=
  st.record :: st.aliases.map st.aliasRecord

theorem aliasRecord_width {st : AllocationState}
    (hlen : ∀ alt, st.current = some alt → alt.length.toNat < 2 ^ 32) :
    ∀ mirror ∈ st.aliases, (st.aliasRecord mirror).start ≤ (st.aliasRecord mirror).last := by
  intro mirror hmir
  rw [aliases] at hmir
  cases halt : st.current with
  | none =>
    rw [halt] at hmir
    cases hmir
  | some alt =>
    rw [halt] at hmir
    simp only at hmir
    split at hmir
    · cases hmir
    rename_i hzero
    have hle := portAliasesFrom_le _ _ _ mirror hmir
    have hlt := hlen alt halt
    have hpos : alt.length.toNat ≠ 0 := fun h => hzero (UInt64.toNat_inj.mp h)
    simp only [aliasRecord, halt, Option.elim_some]
    rw [UInt64.le_iff_toNat_le, UInt64.toNat_sub, UInt64.toNat_add, UInt64.toNat_one]
    omega

end AllocationState

open AllocationState

theorem resPortAddAllocation_eq (rtl : RtlApi) (l : RtlRangeList) (st : AllocationState) :
    uacpiNtResPortAddAllocation rtl l st = rtl.addAll l st.portClaims := by
  rw [Api.addAll, portClaims, foldl_cons, foldl_map]
  rfl

theorem resPortBacktrackAllocation_eq (rtl : RtlApi) (l : RtlRangeList) (st : AllocationState) :
    ∃ claims, claims.Perm st.portClaims ∧
      uacpiNtResPortBacktrackAllocation rtl l st = rtl.deleteAll l claims := by
  refine ⟨st.aliases.map st.aliasRecord ++ [st.record], perm_append_singleton _ _, ?_⟩
  rw [Api.deleteAll, foldl_append, foldl_map]
  rfl

theorem port_books {rtl : RtlApi} (hrtl : rtl.Lawful) : Books rtl portOps portClaims where
  add := by
    intro l st hcl
    change (uacpiNtResPortAddAllocation rtl l st).Perm _
    rw [resPortAddAllocation_eq]
    exact hrtl.addAll_perm l st.portClaims hcl
  withdraw := by
    intro κ image l st rest himage hexact hl
    obtain ⟨claims, hswap, hdelete⟩ := resPortBacktrackAllocation_eq rtl l st
    change ((uacpiNtResPortBacktrackAllocation rtl l st).map image).Perm rest
    rw [hdelete]
    refine hrtl.deleteAll_perm image himage
      (fun r hr c hc => hexact r hr c (hswap.mem_iff.mp hc)) ?_
    exact hl.trans ((hswap.map image).symm.append_right rest)
  withdraw_congr := by
    intro l st st' h
    have halia : st'.aliases = st.aliases := by
      rw [aliases, aliases, h.current, h.start]
    have hlast : ∀ mirror, (st'.aliasRecord mirror).last = (st.aliasRecord mirror).last := by
      intro mirror
      simp only [aliasRecord, h.current]
    have hown : st'.owner = st.owner := by
      rw [owner, owner, h.entry]
    simp only [portOps, uacpiNtResPortBacktrackAllocation, arbiterLibBacktrackAllocation,
      halia, hlast, hown, h.start, h.last]
  preprocess := libraryPreprocess_same

/-- For every tentative list, owner, placement, length and decode flags, withdrawing what was
added restores the list as a multiset of bounds and owners. This includes mirrors that overlap
each other, the placement or other ranges, and ranges that wrap around and are never entered. -/
theorem port_withdrawal_restores {rtl : RtlApi} (hrtl : rtl.Lawful) {possible : RtlRangeList}
    (hforward : RangeList.Api.Forward possible) (st : AllocationState) :
    Multiset.map RangeList.Range.key (uacpiNtResPortBacktrackAllocation rtl
        (uacpiNtResPortAddAllocation rtl possible st) st : Multiset RtlRange) =
      Multiset.map RangeList.Range.key (possible : Multiset RtlRange) := by
  obtain ⟨claims, hswap, hdelete⟩ := resPortBacktrackAllocation_eq rtl
    (uacpiNtResPortAddAllocation rtl possible st) st
  rw [hdelete, resPortAddAllocation_eq, Multiset.map_coe, Multiset.map_coe, Multiset.coe_eq_coe]
  exact hrtl.deleteAll_addAll hforward hswap

def widePortState : AllocationState :=
  { AllocationState.zero (.request ⟨1⟩ []) with
    start := 0xF000
    last := 0xF4FF
    currentAlternative := some 0
    alternatives := [{
      minimum := 0
      maximum := 0xFFFF
      length := 0x500
      alignment := 1
      priority := arbiterPriorityReserved
      shared := false
      fixed := false
      badRange := false
      inaccessibleOk := false
      descriptor := ⟨0, .deviceExclusive, 0x0004, .port 0 0xFFFF 0x500 1⟩ }] }

/-- The mirrors overlap the placement and each other, and the first one has the bounds of a range
that the device holds already. -/
theorem wide_port_withdrawn :
    widePortState.portClaims.map (fun r => (r.start, r.last)) =
        [(0xF000, 0xF4FF), (0xF400, 0xF8FF), (0xF800, 0xFCFF), (0xFC00, 0x100FF)] ∧
      Multiset.map RangeList.Range.key (uacpiNtResPortBacktrackAllocation Environment.reference.rtl
          (uacpiNtResPortAddAllocation Environment.reference.rtl
            [⟨0xF400, 0xF8FF, 0, true, some ⟨1⟩⟩] widePortState) widePortState :
          Multiset RtlRange) = {(0xF400, 0xF8FF, some ⟨1⟩)} := by
  refine ⟨by decide, ?_⟩
  refine (port_withdrawal_restores Environment.reference_lawful ?_ widePortState).trans rfl
  exact List.forall_mem_singleton.mpr (by decide)

/-! ### The three arbiters -/

theorem resUnpackRequirement_ok {d : IoResourceDescriptor} {req : Requirement}
    (h : uacpiNtResUnpackRequirement d = .ok req) :
    req.length.toNat < 2 ^ 32 ∧ req.alignment ≠ 0 := by
  have hal : ∀ alignment : UInt32,
      (if alignment = 0 then (1 : UInt64) else alignment.toUInt64) ≠ 0 := by
    intro alignment
    split
    · decide
    rename_i hne
    intro hzero
    apply hne
    rw [← UInt32.toNat_inj, ← UInt32.toNat_toUInt64, hzero]
    rfl
  rw [uacpiNtResUnpackRequirement] at h
  split at h
  · cases h
    exact ⟨UInt32.toNat_lt _, hal _⟩
  · cases h
    exact ⟨UInt32.toNat_lt _, hal _⟩
  · cases h
    have hone : (1 : UInt64) ≠ 0 := by decide
    exact ⟨UInt32.toNat_lt _, hone⟩
  · cases h

inductive ResArbiter where
  | memory
  | port
  | busNumber
deriving DecidableEq

/-- The states that an arbiter hands to `ArbiterLibFindSuitableRange` for a state. -/
inductive Searches (env : Environment) (arb : ArbiterInstance) (st : AllocationState) :
    ResArbiter → AllocationState → Prop where
  | memory : Searches env arb st .memory st.openBootAttributes
  | port {st' : AllocationState} (h : PortRound env arb st st') :
      Searches env arb st .port st'.openBootAttributes
  | busNumber : Searches env arb st .busNumber st

theorem Searches.unplaced {env : Environment} {arb : ArbiterInstance} {st' : AllocationState}
    {kind : ResArbiter} (h : Searches env arb st kind st') : st'.unplaced = st.unplaced := by
  cases h with
  | memory => exact openBootAttributes_unplaced st
  | busNumber => rfl
  | port hround => exact (openBootAttributes_unplaced _).trans hround.unplaced

namespace ResArbiter

section

variable (kind : ResArbiter) (env : Environment)

def ops : ResArbiter → ArbiterOps Unit
  | memory => memoryOps
  | port => portOps
  | busNumber => busNumberOps

def claims : ResArbiter → AllocationState → RtlRangeList
  | memory, st => [st.record]
  | port, st => st.portClaims
  | busNumber, st => [st.record]

theorem claims_eq {kind : ResArbiter} (h : kind ≠ .port) : kind.claims = fun st => [st.record] := by
  cases kind with
  | memory => rfl
  | port => exact absurd rfl h
  | busNumber => rfl

theorem record_mem (st : AllocationState) : st.record ∈ kind.claims st := by
  cases kind <;> exact mem_cons_self

theorem books {rtl : RtlApi} (hrtl : rtl.Lawful) : Books rtl kind.ops kind.claims := by
  cases kind with
  | memory | busNumber => exact library_books hrtl rfl rfl libraryPreprocess_same
  | port => exact port_books hrtl

theorem unpackRequirement_eq : kind.ops.unpackRequirement = uacpiNtResUnpackRequirement := by
  cases kind <;> rfl

theorem next_eq : kind.ops.getNextAllocationRange = libraryGetNext := by
  cases kind <;> rfl

theorem preprocess_eq : kind.ops.preprocessEntry = arbiterLibPreprocessEntry := by
  cases kind <;> rfl

theorem find_unplaced (arb : ArbiterInstance) (st : AllocationState) (world : Unit) :
    (kind.ops.findSuitableRange env arb st world).state.unplaced = st.unplaced := by
  cases kind with
  | memory => exact resFindSuitableRange_unplaced env arb st
  | busNumber => exact findSuitableRange_unplaced env arb st
  | port => exact (resPortFindSuitableRange_cases env arb st).1

theorem frames : Frames env kind.ops := by
  refine ⟨fun st world => ?_, fun arb st world => ?_, fun arb st world => ?_⟩
  · rw [kind.preprocess_eq]
    rfl
  · rw [kind.next_eq]
    exact getNextAllocationRange_request arb st
  · exact request_eq_of_unplaced (kind.find_unplaced env arb st world)

theorem keepsEntry : KeepsEntry env kind.ops where
  preprocess st world := by
    rw [kind.preprocess_eq]
    rfl
  next arb st world := by
    rw [kind.next_eq]
    exact getNextAllocationRange_entry arb st
  find arb st world := AllocationState.entry_eq_of_unplaced (kind.find_unplaced env arb st world)

end

variable {kind : ResArbiter}

variable {env : Environment} {arb : ArbiterInstance} {world : Unit}

theorem searches (h : (kind.ops.findSuitableRange env arb st world).granted = true) :
    ∃ st', Searches env arb st kind st' ∧ (arbiterLibFindSuitableRange env arb st').1 =
      (true, (kind.ops.findSuitableRange env arb st world).state) := by
  cases kind with
  | memory => exact ⟨_, .memory, Prod.ext h rfl⟩
  | busNumber => exact ⟨_, .busNumber, Prod.ext h rfl⟩
  | port =>
    obtain ⟨st', hround, heq⟩ := (resPortFindSuitableRange_cases env arb st).2 h
    exact ⟨_, .port hround, heq.trans (Prod.ext h rfl)⟩

theorem exists_grant (h : (kind.ops.findSuitableRange env arb st world).granted = true) :
    ∃ st' alt, Searches env arb st kind st' ∧ st.current = some alt ∧
      st'.currentMinimum ≤ st'.currentMaximum ∧
      Grant env arb st' alt (kind.ops.findSuitableRange env arb st world).state := by
  obtain ⟨st', hsrs, heq⟩ := searches h
  have hgr : (arbiterLibFindSuitableRange env arb st').1.1 = true := by rw [heq]
  obtain ⟨alt, halt, hwin, hgran⟩ := findSuitableRange_grant hgr
  rw [heq] at hgran
  rw [current_eq_of_unplaced hsrs.unplaced] at halt
  exact ⟨st', alt, hsrs, halt, hwin, hgran⟩

theorem length_lt (hst : Decodes kind.ops st) {alt : ArbiterAlternative}
    (halt : st.current = some alt) : alt.length.toNat < 2 ^ 32 := by
  have hreq := (hst.fields halt).1
  rw [kind.unpackRequirement_eq] at hreq
  exact (resUnpackRequirement_ok hreq).1

theorem claims_width (hst : Decodes kind.ops st) (hle : st.start ≤ st.last) :
    ∀ c ∈ kind.claims st, c.start ≤ c.last := by
  cases kind with
  | memory | busNumber => exact forall_mem_singleton.mpr hle
  | port =>
    refine forall_mem_cons.mpr ⟨hle, ?_⟩
    intro c hc
    obtain ⟨mirror, hmir, rfl⟩ := mem_map.mp hc
    exact aliasRecord_width (fun alt halt => length_lt hst halt) mirror hmir

theorem start_le_last (hrtl : env.rtl.Lawful)
    (hgr : (kind.ops.findSuitableRange env arb st world).granted = true) :
    (kind.ops.findSuitableRange env arb st world).state.start ≤
      (kind.ops.findSuitableRange env arb st world).state.last := by
  obtain ⟨st', alt, -, -, hwin, hgran⟩ := exists_grant hgr
  exact hgran.start_le_last hrtl hwin

theorem claims_width_of_granted (hrtl : env.rtl.Lawful) (hst : Decodes kind.ops st)
    (hgr : (kind.ops.findSuitableRange env arb st world).granted = true) :
    ∀ c ∈ kind.claims (kind.ops.findSuitableRange env arb st world).state, c.start ≤ c.last := by
  refine claims_width ?_ (start_le_last hrtl hgr)
  have hrequ := request_eq_of_unplaced (kind.find_unplaced env arb st world)
  intro alt halt
  exact hst alt (requirements_eq_of_request hrequ ▸ halt)

theorem claims_congr (kind : ResArbiter) {st' : AllocationState} {alt : ArbiterAlternative}
    {priority : Int} (halt : st.current = some alt)
    (halt' : st'.current = some (alt.withPriority priority)) (hrec : st'.record = st.record) :
    kind.claims st' = kind.claims st := by
  cases kind with
  | memory | busNumber => exact congrArg (fun record => [record]) hrec
  | port =>
    have hstar := congrArg Range.start hrec
    have hattr := congrArg Range.attributes hrec
    have hown := congrArg Range.owner hrec
    simp only [AllocationState.record] at hstar hattr hown
    have halia : st'.aliases = st.aliases := by
      rw [aliases, aliases, halt, halt', hstar]
      rfl
    have hmir : st'.aliasRecord = st.aliasRecord := by
      funext mirror
      simp only [aliasRecord, halt, halt', hattr, hown]
      rfl
    change st'.portClaims = st.portClaims
    rw [portClaims, portClaims, hrec, halia, hmir]

end ResArbiter

/-! ### Lists without alternatives -/

variable {σ : Type}

variable {entries : List ArbiterListEntry}

theorem prepareEntries_idle (env : Environment) (ops : ArbiterOps σ) (withdraw : Bool)
    (h : ∀ e ∈ entries, e.alternatives = []) (previous : Option DeviceObject)
    (possible : RtlRangeList) :
    (prepareEntries env ops withdraw entries previous possible).1 = .ok () := by
  induction entries generalizing previous possible with
  | nil => rfl
  | cons entry rest ih =>
    rw [List.forall_mem_cons] at h
    have hscore : (scoreEntry env ops entry).1 = true := by
      rw [scoreEntry]
      split
      · rfl
      · rw [h.1]
        rfl
    simp only [prepareEntries, hscore]
    exact ih h.2 _ _

theorem buildStates_idle (ops : ArbiterOps σ) (h : ∀ e ∈ entries, e.alternatives = []) :
    buildStates ops entries = .ok [] := by
  induction entries with
  | nil => rfl
  | cons entry rest ih =>
    rw [List.forall_mem_cons] at h
    rw [buildStates, if_pos h.1]
    exact ih h.2

theorem test_idle {env : Environment} (hrtl : env.rtl.Lawful) (ops : ArbiterOps σ)
    (arb : ArbiterInstance) (h : ∀ e ∈ entries, e.alternatives = [])
    (hpool : env.exAllocatePool 1 = true) (fuel : Nat) (world : σ) :
    ∃ r, arbpTestAllocation env ops (fuel + 1) arb entries none world = some r ∧
      r.status = .ok () := by
  obtain ⟨initial, hcopy, -⟩ := hrtl.copy_spec arb.allocation
  cases hprep : prepareEntries env ops true entries none initial with
  | mk status result =>
    obtain rfl : status = .ok () := by
      rw [← prepareEntries_idle env ops true h none initial, hprep]
    have hidle : ∀ e ∈ arbiterLibSortArbitrationList result.1, e.alternatives = [] := by
      intro e he
      have he' := (sortArbitrationList_perm result.1).mem_iff.mp he
      obtain ⟨e₀, he₀, hsame⟩ :=
        exists_left_of_forall₂ (prepareEntries_entries env ops true hprep) he'
      rw [hsame]
      exact h e₀ he₀
    have hbuild : (arbpBuildAllocationStack env ops
        (arb.withPossible result.2).allocationStackMaxSize
        (arbiterLibSortArbitrationList result.1)).1 = .ok [] := by
      simp only [arbpBuildAllocationStack, buildStates_idle ops hidle]
      split <;> rfl
    have hset : ∃ setup, testSetup env ops arb entries none world = .ok setup ∧
        setup.states = [] := by
      simp [testSetup, initialPossible, hcopy, hprep, stackSetup, hbuild]
    obtain ⟨setup, hset, hstates⟩ := hset
    rw [arbpTestAllocation, hset]
    simp only [hstates]
    exact ⟨_, rfl, rfl⟩

/-! ### The memory and the bus number arbiter -/

theorem stack_eq_nil {entries' : List ArbiterListEntry} {stack : List AllocationState}
    (hident : (entries'.map (·.identity)).Perm (entries.map (·.identity)))
    (hfilter : entries'.filter (fun e => e.alternatives ≠ []) = stack.map (·.entry))
    (h : ∀ e ∈ entries, e.alternatives = []) : stack = [] := by
  have hnil : entries'.filter (fun e => e.alternatives ≠ []) = [] := by
    rw [List.filter_eq_nil_iff]
    intro e he
    obtain ⟨e₀, he₀, hsame⟩ := List.mem_map.mp (hident.mem_iff.mp (List.mem_map_of_mem he))
    have halts : e₀.alternatives = e.alternatives := congrArg Prod.fst hsame
    simp [← halts, h e₀ he₀]
  rw [hnil] at hfilter
  exact List.map_eq_nil_iff.mp hfilter.symm

/-- A successful test leaves exactly the committed records of the devices that are not listed
and one record for each entry whose selected alternative has a length. In particular, a list
without alternatives is tested with success, and committing it releases what the listed
devices own and nothing else. -/
theorem test_leaves_exact_allocation {env : Environment} (hrtl : env.rtl.Lawful)
    {kind : ResArbiter} (hkind : kind ≠ .port) (arb : ArbiterInstance)
    {entries : List ArbiterListEntry}
    (hdevices : ∀ e ∈ entries, e.physicalDeviceObject.isSome) :
    (∀ fuel r, arbpTestAllocation env kind.ops fuel arb entries none () = some r →
      r.status = .ok () →
      (r.entries.map (·.identity)).Perm (entries.map (·.identity)) ∧
        r.entries.filter (fun e => e.alternatives ≠ []) = r.stack.map (·.entry) ∧
        (r.arbiter.possibleAllocation.map (·.key)).Perm
          ((r.stack.filter (·.entry.selectsRoom kind.ops)).map (·.record.key) ++
            (unlisted entries arb.allocation).map (·.key))) ∧
    ((∀ e ∈ entries, e.alternatives = []) → env.exAllocatePool 1 = true →
      ∀ fuel, ∃ r, arbpTestAllocation env kind.ops (fuel + 1) arb entries none () = some r ∧
        r.status = .ok () ∧
        ((arbiterLibCommitAllocation r.arbiter).allocation.map (·.key)).Perm
          ((unlisted entries arb.allocation).map (·.key))) := by
  have hbooks := kind.books hrtl
  rw [ResArbiter.claims_eq hkind] at hbooks
  have hclaims : ∀ st st', Packed kind.ops st st' → [st'.record] = [st.record] :=
    fun st st' hpacked => by rw [hpacked.record]
  have hwidth : ∀ arb st world, (kind.ops.findSuitableRange env arb st world).granted = true →
      ∀ c ∈ [(kind.ops.findSuitableRange env arb st world).state.record], c.start ≤ c.last :=
    fun arb st world hgranted =>
      List.forall_mem_singleton.mpr (ResArbiter.start_le_last hrtl hgranted)
  constructor
  · intro fuel r htest hok
    obtain ⟨hidentity, hfilter, hrooms, hperm⟩ :=
      test_booked hrtl hbooks (kind.frames env) hclaims hwidth hdevices htest hok
    refine ⟨hidentity, hfilter, ?_⟩
    have hrecords : (r.stack.filter (·.entry.selectsRoom kind.ops)).map (·.record.key) =
        (r.stack.flatMap (held fun st => [st.record])).map (·.key) := by
      rw [flatMap_held_singleton, List.map_map, List.filter_congr hrooms]
      rfl
    rw [hrecords]
    exact hperm
  · intro hidle hpool fuel
    obtain ⟨r, htest, hok⟩ := test_idle hrtl kind.ops arb hidle hpool fuel ()
    obtain ⟨hidentity, hfilter, -, hperm⟩ :=
      test_booked hrtl hbooks (kind.frames env) hclaims hwidth hdevices htest hok
    rw [stack_eq_nil hidentity hfilter hidle] at hperm
    exact ⟨r, htest, hok, hperm⟩

def committedTwo : RtlRangeList :=
  [⟨0x1000, 0x1FFF, 0, false, some ⟨1⟩⟩, ⟨0x2000, 0x2FFF, 0, false, some ⟨2⟩⟩]

def listedThree : List ArbiterListEntry :=
  [.request ⟨1⟩ [.ofMemory .deviceExclusive 0x1000 0x2FFF 0x1000 1], .request ⟨3⟩ [],
    .request ⟨1⟩ [.ofMemory .deviceExclusive 0x3000 0x3FFF 0x800 1]]

theorem exact_allocation_of_listedThree :
    ∃ r, arbpTestAllocation .reference memoryOps 20 (.plainMemory committedTwo) listedThree none
        () = some r ∧
      (r.arbiter.possibleAllocation.map (·.key)).Perm
        [(0x3800, 0x3FFF, some ⟨1⟩), (0x1000, 0x1FFF, some ⟨1⟩), (0x2000, 0x2FFF, some ⟨2⟩)] := by
  have hdevices : ∀ e ∈ listedThree, e.physicalDeviceObject.isSome := by decide
  have hkind : ResArbiter.memory ≠ .port := by decide
  have hexact := ((test_leaves_exact_allocation Environment.reference_lawful hkind
    (.plainMemory committedTwo) hdevices).1 20 _ rfl rfl).2.2
  exact ⟨_, rfl, hexact.trans (by decide)⟩

end UacpiNt
