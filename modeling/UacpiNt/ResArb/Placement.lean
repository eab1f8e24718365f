import UacpiNt.Arbiter.Window
import UacpiNt.ResArb.Frames

/-!
# Placements are well formed

A placement is aligned, inside the bounds of its requirement and as long as it asks for,
unless rounding up runs over the end of the address space or a whole window is shared that is
not itself one placement.
-/

namespace UacpiNt

open AllocationState UInt64

/-- The placement is one that the requirement asks for. -/
structure AllocationState.WellPlaced (st : AllocationState) (req : Requirement) : Prop where
  aligned : st.start % req.alignment = 0
  minimum_le : req.minimum ≤ st.start
  le_maximum : st.last ≤ req.maximum
  last_eq : st.last = st.start + req.length - 1

def ArbiterAlternative.requirement (alt : ArbiterAlternative) : Requirement :=
  ⟨alt.minimum, alt.maximum, alt.length, alt.effectiveAlignment⟩

/-- Where `RtlFindRange` refuses and a driver-exclusive range may be shared, the window is one
aligned placement. -/
def SharesExactly (env : Environment) (arb : ArbiterInstance) (st : AllocationState) : Prop :=
  ∀ alt requester e, st.current = some alt → st.owner = some requester →
    (st.openAttributes alt).answer env arb alt = .error e →
    shareWalk env (st.openAttributes alt) alt requester arb.possibleAllocation
      (env.arbpReadRootEnumerated requester == some true) = true →
    st.currentMinimum % alt.effectiveAlignment = 0 ∧
      st.currentMaximum = st.currentMinimum + alt.length - 1

section

variable {env : Environment} {arb : ArbiterInstance} {st st' : AllocationState}
  {alt : ArbiterAlternative}

theorem Grant.wellPlaced (hrtl : env.rtl.Lawful) (h : Grant env arb st alt st')
    (halt : st.current = some alt) (hlen : alt.length ≠ 0) (hbds : st.InBounds alt)
    (hshares : SharesExactly env arb st) : st'.WellPlaced alt.requirement := by
  cases h with
  | nothing hzero => exact absurd hzero hlen
  | found start _ hans =>
    have hplac := Grant.placement hrtl hlen hans
    rw [max_one_eq_effectiveAlignment] at hplac
    exact ⟨hplac.aligned, UInt64.le_trans hbds.minimum_le hplac.minimum_le,
      UInt64.le_trans (hplac.last_le_maximum hlen) hbds.le_maximum, rfl⟩
  | shared requester e _ hans hown hwalk =>
    obtain ⟨hal, hlast⟩ := hshares alt requester e halt hown hans hwalk
    have hwell : (st.openAttributes alt).takeWindow.WellPlaced alt.requirement :=
      ⟨hal, hbds.minimum_le, hbds.le_maximum, hlast⟩
    rw [shareWindow]
    split
    · exact ⟨hwell.aligned, hwell.minimum_le, hwell.le_maximum, hwell.last_eq⟩
    · exact hwell
  | overridden e _ hans hfix hself =>
    obtain ⟨hmin, hmax, hal, hwd⟩ := hbds.fixed hfix
    refine ⟨?_, hbds.minimum_le, hbds.le_maximum, ?_⟩
    · change st.currentMinimum % alt.effectiveAlignment = 0
      rw [hmin]
      exact hal
    change st.currentMaximum = st.currentMinimum + alt.length - 1
    rw [hmin, hmax, ← UInt64.toNat_inj, UInt64.toNat_sub, UInt64.toNat_add, toNat_one]
    have hlt := alt.maximum.toNat_lt
    omega

theorem inBounds_openBootAttributes (h : st.InBounds alt) : st.openBootAttributes.InBounds alt := by
  rw [openBootAttributes]
  split
  · exact ⟨h.minimum_le, h.le_maximum, h.fixed⟩
  · exact h

theorem current_openBootAttributes (st : AllocationState) :
    st.openBootAttributes.current = st.current :=
  current_eq_of_unplaced (openBootAttributes_unplaced st)

/-- The rounds of a port search stay within bounds: each starts above the last placement, and
a fixed alternative has no second one. -/
theorem PortRound.inBounds (hrtl : env.rtl.Lawful) (h : PortRound env arb st st')
    (halt : st.current = some alt) (hbds : st.InBounds alt) : st'.InBounds alt := by
  induction h with
  | first => exact hbds
  | next h hgran hroom next hnext hstar hmax ih =>
    rename_i st'
    have hcur : st'.openBootAttributes.current = some alt := by
      rw [current_openBootAttributes, current_eq_of_unplaced h.unplaced, halt]
    have hstat : (uacpiNtResFindSuitableRange env arb st').1.2.current = some alt := by
      rw [current_eq_of_unplaced (resFindSuitableRange_unplaced env arb st'),
        ← current_openBootAttributes, hcur]
    have hbds' := inBounds_openBootAttributes ih
    rw [uacpiNtResFindSuitableRange] at hgran hstat hnext hstar hmax ⊢
    obtain ⟨alt', halt', -, hgr⟩ := findSuitableRange_grant hgran
    have hfst := hgr.minimum_le_start hrtl
    obtain ⟨-, hwin⟩ := hgr.window
    rw [hwin] at hmax
    refine ⟨?_, ?_, fun hfix => ?_⟩
    · exact UInt64.le_trans hbds'.minimum_le (UInt64.le_trans hfst (UInt64.le_of_lt hstar))
    · exact hwin ▸ hbds'.le_maximum
    exfalso
    obtain ⟨hmin, hlast, -, hwd⟩ := hbds'.fixed hfix
    rw [hmin, le_iff_toNat_le] at hfst
    rw [hlast, le_iff_toNat_le] at hmax
    rw [lt_iff_toNat_lt] at hstar
    have hsum := congrArg UInt64.toNat hnext
    rw [hstat, Option.elim_some, UInt64.toNat_add] at hsum
    have hlt := alt.length.toNat_lt
    omega

theorem Searches.inBounds {kind : ResArbiter} (hrtl : env.rtl.Lawful)
    (h : Searches env arb st kind st') (halt : st.current = some alt) (hbds : st.InBounds alt) :
    st'.InBounds alt := by
  cases h with
  | memory => exact inBounds_openBootAttributes hbds
  | busNumber => exact hbds
  | port hround => exact inBounds_openBootAttributes (hround.inBounds hrtl halt hbds)

end

/-! ### Along a search -/

theorem allAim_eq_of_unplaced {orderings : List ArbiterOrdering} {st st' : AllocationState}
    (h : st'.unplaced = st.unplaced) (haim : st.AllAim orderings) : st'.AllAim orderings := by
  have hsame : ∀ st : AllocationState, st.AllAim orderings = st.unplaced.AllAim orderings :=
    fun _ => rfl
  rw [hsame, h]
  exact haim

theorem ResArbiter.stable_allAim (kind : ResArbiter) (env : Environment) (arb : ArbiterInstance) :
    Stable env kind.ops arb (AllAim arb.orderingList.orderings) where
  preprocess := by
    intro st world st' world' status hst heq
    rw [kind.preprocess_eq] at heq
    cases heq
    exact hst
  next := by
    intro possible st world offered st' world' hst heq
    rw [kind.next_eq] at heq
    cases heq
    exact allAim_nextRounds _ hst
  find := by
    intro possible st world hst
    exact allAim_eq_of_unplaced (kind.find_unplaced env _ st world) hst
  restart _ _ := fun h => by cases h
  lowerWindow _ hst := hst
  noRetry _ hst := hst

def SharesExactlyNext (env : Environment) (kind : ResArbiter) (arb : ArbiterInstance)
    (s : Search Unit) : Prop :=
  ∀ st world st', s.sought kind.ops arb = some (st, world) →
    Searches env (arb.withPossible s.possible) st kind st' →
    SharesExactly env (arb.withPossible s.possible) st'

section

variable {kind : ResArbiter} {env : Environment} {arb : ArbiterInstance}

/-- What holds of all states of the search: their alternatives are decoded, their priorities
stand for fitting windows, and rounding up stays inside the address space. -/
def Sound (kind : ResArbiter) (orderings : List ArbiterOrdering) (st : AllocationState) :
    Prop :=
  (Decodes kind.ops st ∧ st.AllAim orderings) ∧
    ∀ alt ∈ st.requirements, alt.length ≠ 0 → alt.RoundsInside orderings

theorem ResArbiter.stable_sound (kind : ResArbiter) (env : Environment) (arb : ArbiterInstance) :
    Stable env kind.ops arb (Sound kind arb.orderingList.orderings) :=
  (((kind.frames env).decodes arb).and (kind.stable_allAim env arb)).and
    ((kind.frames env).stable arb fun request =>
      ∀ alt ∈ request.alternatives, alt.length ≠ 0 → alt.RoundsInside arb.orderingList.orderings)

/-- A state that holds room is well placed, in a window that starts within bounds. -/
def PlacedWell (st : AllocationState) : Prop :=
  st.requestsRoom = true → ∀ alt, st.current = some alt →
    alt.minimum ≤ st.currentMinimum ∧ st.start ≤ st.last ∧ st.WellPlaced alt.requirement

variable {st : AllocationState} {alt : ArbiterAlternative}

theorem Sound.inBounds {orderings : List ArbiterOrdering}
    (hlim : orderings.length ≤ arbiterOrderingLimit) (h : Sound kind orderings st)
    (hoffe : Offers orderings st) (halt : st.current = some alt) (hlen : alt.length ≠ 0) :
    st.InBounds alt :=
  inBounds_of_offers hlim hoffe h.1.2 halt hlen (h.1.1.fields halt).2.2.1
    (h.2 (alt.withPriority arbiterPriorityNull) (current_mem_requirements halt) hlen)

theorem inBounds_lowerWindow {current current' : AllocationState} (hpl : PlacedWell current)
    (hsame : current.SamePlacement current') (hroom : current'.requestsRoom = true)
    (hstar : current'.start > current'.currentMinimum)
    (hfix : current'.current.any (·.fixed) = false) (halt : current'.current = some alt) :
    current'.lowerWindow.InBounds alt := by
  obtain ⟨hmin, hle, hwell⟩ := hpl (hsame.requestsRoom ▸ hroom) alt (hsame.current ▸ halt)
  refine ⟨hsame.currentMinimum ▸ hmin, ?_, fun hf => ?_⟩
  · exact UInt64.le_trans (RangeList.sub_one_le_of_lt hstar)
      (hsame.start ▸ UInt64.le_trans hle hwell.le_maximum)
  · rw [halt, Option.any_some, hf] at hfix
    cases hfix

theorem placedWell_of_granted (hrtl : env.rtl.Lawful) {s : Search Unit} {world : Unit}
    (hsound : Sound kind arb.orderingList.orderings st)
    (hretr : s.phase = .attempt true → ∀ current above, s.pending = current :: above →
      ∀ alt, current.current = some alt → current.InBounds alt)
    (hnext : SharesExactlyNext env kind arb s) (hso : s.sought kind.ops arb = some (st, world))
    (hgran : (kind.ops.findSuitableRange env (arb.withPossible s.possible) st
      world).granted = true) :
    PlacedWell (kind.ops.findSuitableRange env (arb.withPossible s.possible) st world).state := by
  intro hroom alt halt
  have hlen := (requestsRoom_iff halt).mp hroom
  rw [current_eq_of_unplaced (kind.find_unplaced env _ st world)] at halt
  have hbds : st.InBounds alt := by
    obtain ⟨current, above, hpend, hcase⟩ := Search.sought_cases hso
    rcases hcase with ⟨hph, rfl⟩ | hoff
    · exact hretr hph _ above hpend alt halt
    rw [kind.next_eq] at hoff
    obtain ⟨hoff, hstat⟩ := Prod.mk.inj hoff
    exact hsound.inBounds arb.orderingList.count_le_limit (offers_of_nextRounds _ _
      (Prod.ext hoff (Prod.mk.inj hstat).1)) halt hlen
  obtain ⟨st', alt', hsrs, halt', hwin, hgr⟩ := ResArbiter.exists_grant hgran
  obtain rfl := Option.mem_unique halt' halt
  have hbds' := hsrs.inBounds hrtl halt hbds
  refine ⟨?_, hgr.start_le_last hrtl hwin, ?_⟩
  · rw [hgr.window.1]
    exact hbds'.minimum_le
  · exact hgr.wellPlaced hrtl ((current_eq_of_unplaced hsrs.unplaced).trans halt) hlen
      hbds' (hnext st world st' hso hsrs)

theorem ResArbiter.requirement_eq (hst : Decodes kind.ops st) (halt : st.current = some alt) :
    kind.ops.unpackRequirement alt.descriptor = .ok alt.requirement := by
  have hreq := (hst.fields halt).1
  have hne : alt.alignment ≠ 0 := by
    rw [kind.unpackRequirement_eq] at hreq
    exact (resUnpackRequirement_ok hreq).2
  rw [hreq, ArbiterAlternative.requirement, ArbiterAlternative.effectiveAlignment, if_neg hne]

/-- In every test whose search shares nothing but exact placements, and whose requirements round
up inside the address space, each placement that a test leaves is well formed and recorded
with its length. -/
theorem test_places_well (hrtl : env.rtl.Lawful) {fuel : Nat}
    {entries : List ArbiterListEntry} {allocateFrom : Option (List CmPartialResourceDescriptor)}
    {r : TransactionResult Unit}
    (hround : ∀ e ∈ entries, ∀ d ∈ e.alternatives, ∀ alt,
      arbpBuildAlternative kind.ops d = .ok alt → alt.length ≠ 0 →
      alt.RoundsInside arb.orderingList.orderings)
    (halong : TestAlong env kind.ops fuel arb entries allocateFrom () (SharesExactlyNext env kind))
    (htest : arbpTestAllocation env kind.ops fuel arb entries allocateFrom () = some r)
    (hok : r.status = .ok ()) :
    ∀ st ∈ r.stack, ∀ d req, st.entry.selectedAlternative = some d →
      kind.ops.unpackRequirement d = .ok req → req.length ≠ 0 →
      st.WellPlaced req ∧ ∃ record ∈ r.arbiter.possibleAllocation,
        record.key = (st.start, st.start + req.length - 1, st.owner) := by
  obtain ⟨setup, -, hsetup, -⟩ := testAllocation_ok htest hok
  obtain ⟨-, -, size, -, -, harb, -, -⟩ := testSetup_ok hsetup
  have horderings : setup.arbiter.orderingList = arb.orderingList := by
    rw [harb]
    rfl
  have hstable := kind.stable_sound env setup.arbiter
  have hstates : ∀ st ∈ setup.states, Built kind.ops st →
      Sound kind setup.arbiter.orderingList.orderings st := by
    intro st hst hbuilt
    obtain ⟨-, e, he, hsame⟩ := mem_setup_states hsetup hst
    refine ⟨⟨hbuilt.decodes, ?_⟩, ?_⟩
    · rw [hbuilt.fresh]
      intro h
      cases h
    · intro alt halt hlength
      obtain ⟨alt, hmem, rfl⟩ := List.mem_map.mp halt
      obtain ⟨d, hd, hdecoded⟩ := exists_left_of_forall₂ hbuilt.decoded hmem
      rw [hsame] at hd
      rw [horderings]
      exact hround e he d hd alt hdecoded hlength
  obtain ⟨placed, hplaced⟩ : ∃ placed, TestSolution kind.ops setup RangeList.Range.key kind.claims
      (Sound kind setup.arbiter.orderingList.orderings) (fun st _ => PlacedWell st) r placed := by
    refine solution_of_test (kind.books hrtl) (kind.frames env) hstable (fun _ _ h => h)
      (L := fun st => ∀ alt, st.current = some alt → st.InBounds alt)
      (fun current below current' hcurrent _ hsame hroom hstart hfixed alt halt =>
        inBounds_lowerWindow hcurrent hsame hroom hstart hfixed halt)
      (fun s hinv hnext => ⟨fun _ _ _ _ _ _ _ _ h => h, ?_, ?_⟩) hstates hsetup htest hok halong
    · intro st world hsought hgranted _
      have hsound := hinv.sought hstable hsought
      exact ⟨placedWell_of_granted hrtl hsound hinv.retried hnext hsought hgranted,
        ResArbiter.claims_width_of_granted hrtl hsound.1.1 hgranted⟩
    · intro st world hsought _ hnone
      exact ⟨hstable.find s.possible st world (hinv.sought hstable hsought),
        fun hroom => absurd (hnone.symm.trans hroom) Bool.false_ne_true⟩
  intro st hst d req hselected hreq hlength
  obtain ⟨st₀, hst₀, hpacked⟩ := hplaced.exists_placed hst
  have hselected₀ : st₀.current.map (·.descriptor) = some d := by
    rw [← hselected, hpacked.state]
  obtain ⟨alt, halt, rfl⟩ := Option.map_eq_some_iff.mp hselected₀
  obtain rfl : alt.requirement = req := Except.ok.inj
    ((ResArbiter.requirement_eq (hplaced.decodes st₀ hst₀) halt).symm.trans hreq)
  have hroom : st₀.requestsRoom = true := (requestsRoom_iff halt).mpr hlength
  obtain ⟨-, hplacedWell⟩ := hplaced.stacked.exists_below hst₀
  obtain ⟨-, -, hwell⟩ := hplacedWell hroom alt halt
  obtain ⟨record, hmem, hkey⟩ := hplaced.exists_record hst₀ hroom (kind.record_mem st₀)
  rw [hpacked.start, hpacked.owner]
  refine ⟨⟨?_, ?_, ?_, ?_⟩, record, hmem, ?_⟩
  · rw [hpacked.start]
    exact hwell.aligned
  · rw [hpacked.start]
    exact hwell.minimum_le
  · rw [hpacked.last]
    exact hwell.le_maximum
  · rw [hpacked.last, hpacked.start]
    exact hwell.last_eq
  · rw [hkey, ← hwell.last_eq]
    rfl

end

theorem shareWalk_reference (st : AllocationState) (alt : ArbiterAlternative)
    (requester : DeviceObject) (l : RtlRangeList) :
    shareWalk .reference st alt requester l false = false := by
  induction l with
  | nil => rfl
  | cons r l ih =>
    rw [shareWalk]
    split <;> exact ih

theorem sharesExactly_reference (arb : ArbiterInstance) (st : AllocationState) :
    SharesExactly .reference arb st := by
  intro alt requester e _ _ _ hwalk
  have hclos : (Environment.reference.arbpReadRootEnumerated requester == some true) = false :=
    rfl
  rw [hclos, shareWalk_reference] at hwalk
  cases hwalk

def alignedRequest : ArbiterListEntry :=
  .request ⟨1⟩ [.ofMemory .deviceExclusive 0x1001 0x4FFF 0x800 0x1000]

theorem aligned_request_placed_well :
    ∃ r st, arbpTestAllocation .reference memoryOps 10
        (.plainMemory [⟨0x4000, 0x4FFF, 0, false, some ⟨2⟩⟩]) [alignedRequest] none () = some r ∧
      r.stack = [st] ∧ st.start = 0x3000 ∧ st.WellPlaced ⟨0x1001, 0x4FFF, 0x800, 0x1000⟩ := by
  have hround : ∀ e ∈ [alignedRequest], ∀ d ∈ e.alternatives, ∀ alt,
      arbpBuildAlternative ResArbiter.memory.ops d = .ok alt → alt.length ≠ 0 →
      alt.RoundsInside (ArbiterInstance.plainMemory
        [⟨0x4000, 0x4FFF, 0, false, some ⟨2⟩⟩]).orderingList.orderings := by
    intro e he d hd alt halt _
    obtain rfl := List.mem_singleton.mp he
    obtain rfl := List.mem_singleton.mp hd
    cases halt
    decide
  have halong : TestAlong .reference ResArbiter.memory.ops 10
      (.plainMemory [⟨0x4000, 0x4FFF, 0, false, some ⟨2⟩⟩]) [alignedRequest] none ()
      (SharesExactlyNext .reference .memory) :=
    testAlong_of_forall fun arb s st world st' _ _ => sharesExactly_reference _ st'
  have hwell := test_places_well Environment.reference_lawful hround halong rfl rfl
    _ List.mem_cons_self (.ofMemory .deviceExclusive 0x1001 0x4FFF 0x800 0x1000)
    ⟨0x1001, 0x4FFF, 0x800, 0x1000⟩ rfl rfl (by decide)
  exact ⟨_, _, rfl, rfl, rfl, hwell.1⟩

def sharedRequest : ArbiterListEntry :=
  .request ⟨1⟩ [.ofMemory .driverExclusive 0x1000 0x2FFF 0x1000 1]

def topRequest : ArbiterListEntry :=
  .request ⟨1⟩ [.ofMemory .deviceExclusive 0xFFFFFFFFFFFFF001 0xFFFFFFFFFFFFFFFF 0x10 0x1000]

/-- A shared window is taken as a whole, however long it is; and a window whose start rounds up
to zero is searched from below its minimum. -/
theorem misplaced_by_sharing_and_by_rounding :
    (∃ r st, arbpTestAllocation (.withDrivers fun _ => [0]) memoryOps 10
        (.plainMemory [⟨0x1000, 0x2FFF, 0, false, some ⟨2⟩⟩]) [sharedRequest] none () = some r ∧
      r.status = .ok () ∧ r.stack = [st] ∧
      st.entry.selectedAlternative = some (.ofMemory .driverExclusive 0x1000 0x2FFF 0x1000 1) ∧
      st.start = 0x1000 ∧ st.last = 0x2FFF ∧ st.last ≠ st.start + 0x1000 - 1) ∧
    ∃ r st, arbpTestAllocation .reference memoryOps 10 (.plainMemory []) [topRequest] none () =
        some r ∧
      r.status = .ok () ∧ r.stack = [st] ∧
      st.entry.selectedAlternative =
        some (.ofMemory .deviceExclusive 0xFFFFFFFFFFFFF001 0xFFFFFFFFFFFFFFFF 0x10 0x1000) ∧
      st.start = 0xFFFFFFFFFFFFF000 ∧ ¬ 0xFFFFFFFFFFFFF001 ≤ st.start :=
  ⟨⟨_, _, rfl, rfl, rfl, rfl, rfl, rfl, by decide⟩, ⟨_, _, rfl, rfl, rfl, rfl, rfl, by decide⟩⟩

end UacpiNt
