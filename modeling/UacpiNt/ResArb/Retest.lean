import UacpiNt.Arbiter.Window
import UacpiNt.ResArb.Frames

/-!
# A retest reproduces the test

A retest lays down what was packed into the entries: the start of each placement, with the
length of its requirement. This is what the test has entered for it if the test never granted
a window that is longer than the requirement, never tagged a placement as driver exclusive,
and never gave room to an entry that is marked as a null request.
-/

namespace UacpiNt

open AllocationState

/-- What a search is granted in this state can be laid down again from its start and the length
of its requirement. -/
def Retraceable (env : Environment) (arb : ArbiterInstance) (st : AllocationState) : Prop :=
  ∀ alt ∈ st.current, alt.length ≠ 0 →
    st.entry.result ≠ .nullRequest ∧ st.rangeAttributes = 0 ∧
    (((st.openAttributes alt).answer env arb alt).toBool = false →
      (alt.fixed = true → st.currentMaximum = st.currentMinimum + alt.length - 1) ∧
      ∀ requester ∈ st.owner,
        shareWalk env (st.openAttributes alt) alt requester arb.possibleAllocation
          (env.arbpReadRootEnumerated requester == some true) = true →
        alt.descriptor.shareDisposition ≠ .driverExclusive ∧
          st.currentMaximum = st.currentMinimum + alt.length - 1)

instance (env : Environment) (arb : ArbiterInstance) (st : AllocationState) :
    Decidable (Retraceable env arb st) :=
  inferInstanceAs (Decidable (∀ alt ∈ st.current, _ → _ ∧ _ ∧
    (_ → _ ∧ ∀ requester ∈ st.owner, _)))

/-- A state as a retest expects it: a null request holds no room, and every other placement is
determined by its start. -/
structure Retraced (st : AllocationState) : Prop where
  null_iff : st.entry.result = .nullRequest ↔ st.requestsRoom = false
  attributes : st.requestsRoom = true → st.rangeAttributes = 0
  placed : st.requestsRoom = true → ∀ alt, st.current = some alt →
    st.last = st.start + alt.length - 1 ∧ st.start ≤ st.last ∧ st.last ≤ alt.maximum

section

variable {env : Environment} {arb : ArbiterInstance} {st st' : AllocationState}
  {alt : ArbiterAlternative}

theorem Grant.retraced (hrtl : env.rtl.Lawful) (h : Grant env arb st alt st')
    (halt : st.current = some alt) (hlen : alt.length ≠ 0)
    (hmax : st.currentMaximum ≤ alt.maximum) (hst : Retraceable env arb st) :
    st'.rangeAttributes = 0 ∧ st'.last = st'.start + alt.length - 1 ∧ st'.last ≤ alt.maximum := by
  obtain ⟨-, hattr, hesc⟩ := hst alt halt hlen
  cases h with
  | nothing hzero => exact absurd hzero hlen
  | found start _ hans =>
    have hplac := Grant.placement hrtl hlen hans
    exact ⟨hattr, rfl, UInt64.le_trans (hplac.last_le_maximum hlen) hmax⟩
  | shared requester e _ hans hown hwalk =>
    obtain ⟨hdis, hlast⟩ := (hesc (hans ▸ rfl)).2 requester hown hwalk
    rw [shareWindow, if_neg hdis]
    exact ⟨hattr, hlast, hmax⟩
  | overridden e _ hans hfix hself =>
    exact ⟨hattr, (hesc (hans ▸ rfl)).1 hfix, hmax⟩

end

/-! ### Along a search -/

/-- What a step of the search is to meet: whatever it is granted can be laid down again, and a
placement that is withdrawn is not mistaken for another record with the same key. -/
def RetraceableNext (env : Environment) (kind : ResArbiter) (arb : ArbiterInstance)
    (s : Search Unit) : Prop :=
  (∀ next ∈ s.sought kind.ops arb, ∀ st, Searches env (arb.withPossible s.possible) next.1 kind st →
    Retraceable env (arb.withPossible s.possible) st) ∧
    (s.backtracking = true → ∀ current ∈ s.pending.head?,
      ∀ x ∈ s.possible, ∀ c ∈ held kind.claims current, x.key = c.key → x = c)

section

variable {env : Environment} {kind : ResArbiter} {arb : ArbiterInstance}

theorem le_maximum_lowerWindow {current current' : AllocationState} {alt : ArbiterAlternative}
    (hpl : Retraced current) (hsame : current.SamePlacement current')
    (hroom : current'.requestsRoom = true) (hstar : current'.start > current'.currentMinimum)
    (halt : current'.current = some alt) : current'.lowerWindow.currentMaximum ≤ alt.maximum := by
  obtain ⟨-, hle, hmax⟩ := hpl.placed (hsame.requestsRoom ▸ hroom) alt (hsame.current ▸ halt)
  exact UInt64.le_trans (RangeList.sub_one_le_of_lt hstar)
    (hsame.start ▸ UInt64.le_trans hle hmax)

theorem retraced_of_granted (hrtl : env.rtl.Lawful) {s : Search Unit} {st : AllocationState}
    {world : Unit}
    (hretr : s.phase = .attempt true → ∀ current above, s.pending = current :: above →
      ∀ alt, current.current = some alt → current.currentMaximum ≤ alt.maximum)
    (hnext : ∀ st', Searches env (arb.withPossible s.possible) st kind st' →
      Retraceable env (arb.withPossible s.possible) st')
    (hso : s.sought kind.ops arb = some (st, world))
    (hgran : (kind.ops.findSuitableRange env (arb.withPossible s.possible) st world).granted = true)
    (hroom : (kind.ops.findSuitableRange env (arb.withPossible s.possible) st
      world).state.requestsRoom = true) :
    Retraced (kind.ops.findSuitableRange env (arb.withPossible s.possible) st world).state := by
  obtain ⟨st', alt, hsrs, halt, hwin, hgr⟩ := ResArbiter.exists_grant hgran
  have hunp := kind.find_unplaced env (arb.withPossible s.possible) st world
  have hcur := (current_eq_of_unplaced hunp).trans halt
  have halt' := (current_eq_of_unplaced hsrs.unplaced).trans halt
  have hlen := (requestsRoom_iff hcur).mp hroom
  have hmax : st'.currentMaximum ≤ alt.maximum := by
    have hsame := congrArg AllocationState.currentMaximum hsrs.unplaced
    change st'.currentMaximum = st.currentMaximum at hsame
    rw [hsame]
    obtain ⟨current, above, hpend, hcase⟩ := Search.sought_cases hso
    rcases hcase with ⟨hph, rfl⟩ | hoff
    · exact hretr hph _ above hpend alt halt
    rw [kind.next_eq] at hoff
    obtain ⟨hoff, hstate⟩ := Prod.mk.inj hoff
    exact le_maximum_of_offers (offers_of_nextRounds _ _
      (Prod.ext hoff (Prod.mk.inj hstate).1)) halt hlen
  have hret := hnext st' hsrs
  obtain ⟨hattr, hlast, hbound⟩ := hgr.retraced hrtl halt' hlen hmax hret
  refine ⟨⟨fun hnull => ?_, fun hnone => ?_⟩, fun _ => hattr, fun _ alt' halt'' => ?_⟩
  · rw [entry_eq_of_unplaced hunp, ← entry_eq_of_unplaced hsrs.unplaced] at hnull
    exact absurd hnull (hret alt halt' hlen).1
  · exact absurd (hnone.symm.trans hroom) Bool.false_ne_true
  · obtain rfl := Option.mem_unique halt'' hcur
    exact ⟨hlast, hgr.start_le_last hrtl hwin, hbound⟩

end

/-! ### Packing and unpacking -/

section

variable {d : IoResourceDescriptor} {req : Requirement} {start : UInt64}
  {a a' : CmPartialResourceDescriptor}

theorem resUnpackResource_pack (hreq : uacpiNtResUnpackRequirement d = .ok req)
    (hstar : start ≤ req.maximum) (h : uacpiNtResPackResource d start a = (.ok (), a')) :
    uacpiNtResUnpackResource a' = .ok (start, req.length) := by
  rw [uacpiNtResUnpackRequirement] at hreq
  simp only [uacpiNtResPackResource] at h
  split at hreq
  · rename_i hu
    rw [hu] at h
    cases hreq
    cases h
    rfl
  · rename_i hu
    rw [hu] at h
    cases hreq
    cases h
    rfl
  · rename_i minimum maximum length hu
    rw [hu] at h
    cases hreq
    cases h
    -- Only a bus number is narrowed, and its bounds have 32 bits.
    have hnarr : start.toUInt32.toUInt64 = start := by
      rw [← UInt64.toNat_inj]
      exact Nat.mod_eq_of_lt (lt_of_le_of_lt hstar maximum.toNat_lt)
    exact congrArg (fun address => Except.ok (address, length.toUInt64)) hnarr
  · cases hreq

theorem ResArbiter.unpackResource_pack (kind : ResArbiter) {world world' : Unit}
    (hreq : kind.ops.unpackRequirement d = .ok req) (hstar : start ≤ req.maximum)
    (h : kind.ops.packResource d start a world = (.ok (), a', world')) :
    kind.ops.unpackResource a' = .ok (start, req.length) := by
  cases kind with
  | memory | port | busNumber =>
    obtain ⟨hstat, hpac⟩ := Prod.mk.inj h
    exact resUnpackResource_pack hreq hstar (Prod.ext hstat (Prod.mk.inj hpac).1)

end

section

variable {env : Environment} {kind : ResArbiter} {st st' : AllocationState}

theorem Packed.relays (hrtl : env.rtl.Lawful) (hpac : Packed kind.ops st st')
    (hdec : Decodes kind.ops st) (hst : Retraced st) (hasg : st.entry.assignment.isSome) :
    Relays env kind.ops id (fun st => st.rangeAttributes = 0) st'.entry (held kind.claims st) := by
  have hres : st'.entry.result = .nullRequest ↔ st.entry.result = .nullRequest := by
    rw [hpac.state]
    by_cases hnull : st.entry.result = .nullRequest <;> simp [hnull]
  rw [Relays, held]
  by_cases hroom : st.requestsRoom = true
  · have hne : st'.entry.result ≠ .nullRequest := by
      rw [Ne, hres, hst.null_iff, hroom]
      exact Bool.noConfusion
    rw [if_neg hne, if_pos hroom]
    obtain ⟨alt, halt, -⟩ := (Option.any_eq_true _ _).mp hroom
    obtain ⟨a, ha⟩ := Option.isSome_iff_exists.mp hasg
    obtain ⟨hlast, hle, hmax⟩ := hst.placed hroom alt halt
    have hlen := (requestsRoom_iff halt).mp hroom
    have hreq := (hdec.fields halt).1
    obtain ⟨world, a', world', hpack, ha'⟩ := hpac.assignment alt a halt ha
    have hunpk : kind.ops.unpackResource a' = .ok (st.start, alt.length) :=
      kind.unpackResource_pack hreq (UInt64.le_trans hle hmax) hpack
    have hsel : st'.entry.selectedAlternative = some alt.descriptor := by
      rw [hpac.state, halt]
      rfl
    intro replay hclean
    simp only [replayEntry, hsel, ha', hdec.current halt, hunpk,
      kind.preprocess_eq, arbiterLibPreprocessEntry, if_neg hlen]
    refine ⟨_, _, rfl, hclean, ?_⟩
    rw [List.map_id, List.map_id]
    have hrec : AllocationState.record { replay.state with
        entry := st'.entry
        alternatives := [alt.withPriority arbiterPriorityNull]
        currentAlternative := some 0
        workSpace := 0
        start := st.start
        last := st.start + alt.length - 1 } = st.record := by
      simp only [AllocationState.record, halt, hst.attributes hroom, hclean, hlast]
      rw [hpac.state]
      rfl
    have heq := kind.claims_congr halt rfl hrec
    rw [← heq]
    refine (kind.books hrtl).add _ _ ?_
    rw [heq]
    exact ResArbiter.claims_width hdec hle
  · rw [if_neg hroom]
    have hnull : st'.entry.result = .nullRequest := by
      rw [hres, hst.null_iff]
      simpa using hroom
    rw [if_pos hnull]

/-- In every test whose steps are granted nothing but what can be laid down again, and withdraw
exactly, a retest of the list succeeds and leaves the records that the test left. -/
theorem retest_reproduces_test (hrtl : env.rtl.Lawful)
    {fuel : Nat} {arb arb' : ArbiterInstance} {entries : List ArbiterListEntry}
    {r : TransactionResult Unit} (hdevices : ∀ e ∈ entries, e.physicalDeviceObject.isSome)
    (hentries : ∀ e ∈ entries, e.alternatives ≠ [] ∧ e.assignment.isSome)
    (halong : TestAlong env kind.ops fuel arb entries none () (RetraceableNext env kind))
    (htest : arbpTestAllocation env kind.ops fuel arb entries none () = some r)
    (hok : r.status = .ok ()) (hcommitted : arb'.allocation = arb.allocation) :
    (arbpRetestAllocation env kind.ops arb' r.entries ()).status = .ok () ∧
      (arbpRetestAllocation env kind.ops arb' r.entries ()).arbiter.possibleAllocation.Perm
        r.arbiter.possibleAllocation := by
  obtain ⟨setup, -, hsetup, -⟩ := testAllocation_ok htest hok
  have hstable : Stable env kind.ops setup.arbiter (Decodes kind.ops) := (kind.frames env).decodes _
  obtain ⟨placed, hplaced⟩ : ∃ placed, TestSolution kind.ops setup id kind.claims
      (Decodes kind.ops) (fun st _ => Retraced st) r placed := by
    refine solution_of_test (kind.books hrtl) (kind.frames env) hstable
      (fun _ _ h => congrArg RangeList.Range.key h)
      (L := fun st => ∀ alt, st.current = some alt → st.currentMaximum ≤ alt.maximum)
      (fun current below current' hcurrent _ hsame hroom hstart _ alt halt =>
        le_maximum_lowerWindow hcurrent hsame hroom hstart halt)
      (fun s hinv hnext => ⟨?_, ?_, ?_⟩) (fun _ _ hbuilt => hbuilt.decodes) hsetup htest hok halong
    · intro hbacktracking current above hpending
      exact hnext.2 hbacktracking current (by simp [hpending])
    · intro st world hsought hgranted hroom
      exact ⟨retraced_of_granted hrtl hinv.retried (hnext.1 (st, world) hsought) hsought hgranted
        hroom, ResArbiter.claims_width_of_granted hrtl (hinv.sought hstable hsought) hgranted⟩
    · intro st world hsought _ hnone
      have hnone' : ∀ hroom : _ = true, False := fun hroom =>
        Bool.false_ne_true (hnone.symm.trans hroom)
      exact ⟨hstable.find s.possible st world (hinv.sought hstable hsought),
        ⟨fun _ => hnone, fun _ => rfl⟩, fun hroom => (hnone' hroom).elim,
        fun hroom => (hnone' hroom).elim⟩
  have hidentity := (hplaced.entries_spec hsetup).1
  have hlisted := hplaced.entries_eq_stack hsetup fun e he => (hentries e he).1
  have hrelays : ∀ st ∈ placed.reverse, ∀ st', Packed kind.ops st st' → Relays env kind.ops id
      (fun st => st.rangeAttributes = 0) st'.entry (held kind.claims st) := by
    intro st hst st' hpacked
    have hst' := List.mem_reverse.mp hst
    obtain ⟨-, hretraced⟩ := hplaced.stacked.exists_below hst'
    exact hpacked.relays hrtl (hplaced.decodes st hst') hretraced
      (hplaced.assignment_isSome hsetup (fun e he => (hentries e he).2) hst')
  obtain ⟨hstatus, hperm⟩ := retestAllocation_ok hrtl arb' hplaced.packed hlisted hrelays rfl ()
  rw [List.map_id, List.map_id] at hperm
  refine ⟨hstatus, hperm.trans ?_⟩
  rw [unlisted_eq_of_identity hidentity, hcommitted]
  have hbooked := hplaced.booked
  simp only [Search.Booked, List.map_id] at hbooked
  refine List.Perm.trans ?_ hbooked.symm
  exact ((List.reverse_perm placed).flatMap_right _).append
    (testSetup_possible hrtl hdevices hsetup).symm

end

theorem retraceableNext_memory {env : Environment} {arb : ArbiterInstance} {s : Search Unit} :
    RetraceableNext env .memory arb s ↔ (∀ next ∈ s.sought ResArbiter.memory.ops arb,
        Retraceable env (arb.withPossible s.possible) next.1.openBootAttributes) ∧
      (s.backtracking = true → ∀ current ∈ s.pending.head?,
        ∀ x ∈ s.possible, ∀ c ∈ held ResArbiter.memory.claims current, x.key = c.key → x = c) := by
  refine and_congr_left fun _ => forall₂_congr fun next _ =>
    ⟨fun h => h _ .memory, fun h st hst => ?_⟩
  cases hst
  exact h

instance (env : Environment) (arb : ArbiterInstance) (s : Search Unit) :
    Decidable (RetraceableNext env .memory arb s) :=
  decidable_of_iff ((∀ next ∈ s.sought ResArbiter.memory.ops arb, _) ∧
    (_ → ∀ current ∈ s.pending.head?, ∀ x ∈ s.possible, ∀ c ∈ _, _)) retraceableNext_memory.symm

def crowdedPair : List ArbiterListEntry :=
  [.request ⟨1⟩ [.ofMemory .deviceExclusive 0x1000 0x3FFF 0x1000 1],
    .request ⟨3⟩ [.ofMemory .deviceExclusive 0x3000 0x5FFF 0x3000 1]]

theorem crowded_pair_retested :
    ∃ r, arbpTestAllocation .reference memoryOps 20
        (.plainMemory [⟨0x7000, 0x7FFF, 0, false, some ⟨1⟩⟩]) crowdedPair none () = some r ∧
      r.arbiter.possibleAllocation.map (·.start) = [0x2000, 0x3000] ∧
      (arbpRetestAllocation .reference memoryOps
        (.plainMemory [⟨0x7000, 0x7FFF, 0, false, some ⟨1⟩⟩]) r.entries ()).status = .ok () ∧
      (arbpRetestAllocation .reference memoryOps
        (.plainMemory [⟨0x7000, 0x7FFF, 0, false, some ⟨1⟩⟩])
        r.entries ()).arbiter.possibleAllocation.Perm r.arbiter.possibleAllocation := by
  have hdevices : ∀ e ∈ crowdedPair, e.physicalDeviceObject.isSome := by decide
  have hentries : ∀ e ∈ crowdedPair, e.alternatives ≠ [] ∧ e.assignment.isSome := by decide
  have halong : TestAlong .reference ResArbiter.memory.ops 20
      (.plainMemory [⟨0x7000, 0x7FFF, 0, false, some ⟨1⟩⟩]) crowdedPair none ()
      (RetraceableNext .reference .memory) := by decide
  exact ⟨_, rfl, rfl, retest_reproduces_test Environment.reference_lawful hdevices hentries
    halong rfl rfl rfl⟩

/-- A window that is shared with another device of the driver is entered as a whole, with a tag;
the retest lays down only the length of the requirement, without the tag. -/
theorem shared_window_not_retested :
    ∃ r, arbpTestAllocation (.withDrivers fun _ => [7]) memoryOps 10
        (.plainMemory [⟨0x1000, 0x2FFF, 0, false, some ⟨2⟩⟩])
        [.request ⟨1⟩ [.ofMemory .driverExclusive 0x1000 0x2FFF 0x1000 1]] none () = some r ∧
      r.status = .ok () ∧
      r.arbiter.possibleAllocation =
        [⟨0x1000, 0x2FFF, arbiterRangeSharedDriver, false, some ⟨1⟩⟩,
          ⟨0x1000, 0x2FFF, 0, false, some ⟨2⟩⟩] ∧
      (arbpRetestAllocation (.withDrivers fun _ => [7]) memoryOps r.arbiter r.entries ()).status =
        .ok () ∧
      (arbpRetestAllocation (.withDrivers fun _ => [7]) memoryOps r.arbiter
        r.entries ()).arbiter.possibleAllocation =
        [⟨0x1000, 0x1FFF, 0, false, some ⟨1⟩⟩, ⟨0x1000, 0x2FFF, 0, false, some ⟨2⟩⟩] :=
  ⟨_, rfl, rfl, rfl, rfl, rfl⟩

end UacpiNt
