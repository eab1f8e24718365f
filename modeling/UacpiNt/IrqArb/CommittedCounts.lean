import UacpiNt.IrqArb.Assignments

/-!
# The counts that are committed

The count of a message placement is in the assignment of its owner and, under the slot of the
placement, in the table of counts. A commit looks it up in the table. The table is shared by the
committed and the tentative allocation, so the two counts part where a test that is not committed
uses a slot of a committed placement with another count, and where the table is full.

The transactions are followed together with the message assignments behind the two allocations.
-/

namespace UacpiNt

open AllocationState List Option

/-! ### Transactions -/

structure AssignedArbiter where
  arbiter : ArbiterInstance
  world : IrqWorld
  committed : List MessageAssignment
  tentative : List MessageAssignment

inductive Transaction where
  | test (fuel : Nat) (entries : List ArbiterListEntry)
      (allocateFrom : Option (List CmPartialResourceDescriptor))
  | retest (entries : List ArbiterListEntry)
  | rollback
  | commit

namespace Transaction

def action : Transaction → ArbiterAction
  | test fuel entries allocateFrom => .testAllocation fuel entries allocateFrom
  | retest entries => .retestAllocation entries
  | rollback => .rollbackAllocation
  | commit => .commitAllocation

def kept (committed : List MessageAssignment) : Transaction → List MessageAssignment
  | test _ entries none | retest entries => otherAssignments entries committed
  | test _ _ (some _) | rollback | commit => []

def added (returned : List ArbiterListEntry) : Transaction → List MessageAssignment
  | test .. => (returned.filter fun e => e.alternatives ≠ []).filterMap (·.messageAssignment)
  | retest .. => laidAssignments returned
  | rollback | commit => []

def committedAfter (sys : AssignedArbiter) : Transaction → List MessageAssignment
  | commit => sys.tentative
  | test .. | retest .. | rollback => sys.committed

end Transaction

section

variable (env : Environment) (host : IrqHost)

section

variable (kept : List MessageAssignment) (sys : AssignedArbiter) (records : List MsiRecord)
  (packed : List (UInt64 × UInt32))

/-- One transaction. A test or a retest that fails leaves no tentative allocation. -/
def AssignedArbiter.transact (t : Transaction) : Option AssignedArbiter :=
  (arbiterLibHandler env (irqOps host) sys.arbiter sys.world t.action).map fun r =>
    { arbiter := r.arbiter
      world := r.world
      committed := t.committedAfter sys
      tentative := if r.status.success then t.kept sys.committed ++ t.added r.entries else [] }

def runTransactions : List Transaction → AssignedArbiter → Option AssignedArbiter
  | [], sys => some sys
  | t :: ts, sys => (sys.transact env host t).bind (runTransactions ts)

/-- No tentative placement is on the slot of a committed one with another count. -/
def AssignedArbiter.SlotsAgree : Prop :=
  ∀ t ∈ sys.tentative, ∀ a ∈ sys.committed, t.slot = a.slot → t.count = a.count
deriving Decidable

/-- A slot that is about to be recorded has the count of the kept placements on it and of the others
that are about to be recorded, and the table knows it or has room for all of them; a single message
needs no record. -/
def RecordsAgreed (p : UInt64 × UInt32) : Prop :=
  (∀ a ∈ kept, p.1 = a.slot → p.2 = a.count) ∧ (∀ q ∈ packed, q.1 = p.1 → q.2 = p.2) ∧
    (uacpiNtMsiCountLookup p.1 records ≠ none ∨ p.2 = 1 ∨
      records.length + packed.length ≤ msiRecordMax)

instance : DecidablePred (RecordsAgreed kept records packed) :=
  fun p =>
    have : Decidable (∀ q ∈ packed, q.1 = p.1 → q.2 = p.2) := List.decidableBAll _ _
    inferInstanceAs (Decidable ((∀ a ∈ kept, p.1 = a.slot → p.2 = a.count) ∧
      (∀ q ∈ packed, q.1 = p.1 → q.2 = p.2) ∧
      (uacpiNtMsiCountLookup p.1 records ≠ none ∨ _ ∨ _)))

def PacksAgreed (s : Search IrqWorld) : Prop :=
  s.pending = [] → ∀ p ∈ s.states.filterMap (·.messagePacked),
    RecordsAgreed kept s.world.msiRecords (s.states.filterMap (·.messagePacked)) p

instance : DecidablePred (PacksAgreed kept) := fun s =>
  @instDecidableForall (s.pending = []) _ _ (List.decidableBAll _ _)

/-- The transaction leaves the counts in the table and in the assignments together: the tentative
placements it gives up are on no committed slot with another count, a test packs agreed counts into
assignments that are there, and a retest lays down counts as they are recorded. -/
def Transaction.Agrees : Transaction → Prop
  | .commit => True
  | .rollback => sys.SlotsAgree
  | .retest entries => sys.SlotsAgree ∧ ∀ a ∈ laidAssignments entries,
      countUsed a.slot sys.world.msiRecords = a.count
  | .test fuel entries allocateFrom => sys.SlotsAgree ∧ (∀ e ∈ entries, e.assignment.isSome) ∧
      TestAlong env (irqOps host) fuel sys.arbiter entries allocateFrom sys.world fun _ =>
        PacksAgreed ((Transaction.test fuel entries allocateFrom).kept sys.committed)

instance : DecidablePred (Transaction.Agrees env host sys)
  | .commit => inferInstanceAs (Decidable True)
  | .rollback => inferInstanceAs (Decidable sys.SlotsAgree)
  | .retest _ => inferInstanceAs (Decidable (_ ∧ _))
  | .test _ _ _ => inferInstanceAs (Decidable (_ ∧ _ ∧ TestAlong _ _ _ _ _ _ _ _))

end

def AgreeAlong : List Transaction → AssignedArbiter → Prop
  | [], _ => True
  | t :: ts, sys => t.Agrees env host sys ∧ ∀ sys' ∈ sys.transact env host t, AgreeAlong ts sys'

instance decidableAgreeAlong :
    (ts : List Transaction) → DecidablePred (AgreeAlong env host ts)
  | [], _ => inferInstanceAs (Decidable True)
  | t :: ts, sys =>
    have : DecidablePred (AgreeAlong env host ts) := decidableAgreeAlong ts
    inferInstanceAs (Decidable (t.Agrees env host sys ∧ ∀ sys' ∈ sys.transact env host t, _))

end

/-! ### The invariant -/

def Assigned (fdo : DeviceObject) (l : List MessageAssignment) (x : RtlRange) : Prop :=
  msiGsivBase ≤ x.start → ∀ owner, x.owner = some owner → owner ≠ fdo →
    ∃ a ∈ l, a.owner = some owner ∧ a.slot = x.start

/-- Both allocations are assigned, and the table has the counts of the assignments; only a
tentative placement with another count may have displaced that of a committed one. -/
structure CountsMatch (fdo : DeviceObject) (sys : AssignedArbiter) : Prop where
  committed : ∀ x ∈ sys.arbiter.allocation, Assigned fdo sys.committed x
  tentative : ∀ x ∈ sys.arbiter.possibleAllocation, Assigned fdo sys.tentative x
  committed_count : ∀ a ∈ sys.committed, countUsed a.slot sys.world.msiRecords = a.count ∨
    ∃ t ∈ sys.tentative, t.slot = a.slot ∧ t.count ≠ a.count
  tentative_count : ∀ a ∈ sys.tentative, countUsed a.slot sys.world.msiRecords = a.count

structure Proposes (sys sys' : AssignedArbiter) (t : Transaction)
    (r : TransactionResult IrqWorld) : Prop where
  allocation : sys'.arbiter.allocation = r.arbiter.allocation
  possible : sys'.arbiter.possibleAllocation = r.arbiter.possibleAllocation
  world : sys'.world = r.world
  committed : sys'.committed = sys.committed
  tentative : sys'.tentative =
    if r.status.success then t.kept sys.committed ++ t.added r.entries else []

section

variable {env : Environment} {host : IrqHost} {sys sys' : AssignedArbiter} {fuel : Nat}
  {entries : List ArbiterListEntry} {allocateFrom : Option (List CmPartialResourceDescriptor)}

theorem proposes_of_test (h : sys.transact env host (.test fuel entries allocateFrom) = some sys') :
    ∃ r, arbpTestAllocation env (irqOps host) fuel sys.arbiter entries allocateFrom sys.world =
      some r ∧ Proposes sys sys' (.test fuel entries allocateFrom) r := by
  obtain ⟨r, hr, rfl⟩ := map_eq_some_iff.mp h
  obtain ⟨r', hr', rfl⟩ := map_eq_some_iff.mp hr
  obtain ⟨t, ht, rfl⟩ := map_eq_some_iff.mp hr'
  refine ⟨t, ht, ?_, ?_, ?_, rfl, ?_⟩ <;> simp [TransactionResult.toHandler]

theorem proposes_of_retest (h : sys.transact env host (.retest entries) = some sys') :
    Proposes sys sys' (.retest entries)
      (arbpRetestAllocation env (irqOps host) sys.arbiter entries sys.world) := by
  obtain ⟨r, hr, rfl⟩ := map_eq_some_iff.mp h
  obtain ⟨r', hr', rfl⟩ := map_eq_some_iff.mp hr
  cases hr'
  refine ⟨?_, ?_, ?_, rfl, ?_⟩ <;> simp [TransactionResult.toHandler]

theorem retestAllocation_entries (arb : ArbiterInstance) (world : IrqWorld) :
    (arbpRetestAllocation env (irqOps host) arb entries world).entries = entries := by
  rw [arbpRetestAllocation]
  repeat' split
  all_goals rfl

end

namespace CountsMatch

variable {env : Environment} {host : IrqHost} {fdo : DeviceObject} {sys sys' : AssignedArbiter}
  {entries : List ArbiterListEntry}

theorem messagePacked_eq_map (states : List AllocationState) :
    states.filterMap (·.messagePacked) =
      (states.filterMap (·.messageAssigned)).map fun a => (a.slot, a.count) := by
  simp [map_filterMap, messageAssigned, Function.comp_def]

variable (h : CountsMatch fdo sys)

include h

theorem of_slotsAgree (hagr : sys.SlotsAgree) {a : MessageAssignment} (ha : a ∈ sys.committed) :
    countUsed a.slot sys.world.msiRecords = a.count := by
  rcases h.committed_count a ha with hcnt | ⟨t, ht, hslot, hne⟩
  · exact hcnt
  · exact absurd (hagr t ht a ha hslot) hne

theorem assigned_of_unlisted {x : RtlRange} (hx : x ∈ unlisted entries sys.arbiter.allocation) :
    Assigned fdo (otherAssignments entries sys.committed) x := by
  intro hmsg owner hown hself
  obtain ⟨hmem, hunl⟩ := mem_unlisted.mp hx
  obtain ⟨a, ha, hflds⟩ := h.committed x hmem hmsg owner hown hself
  refine ⟨a, mem_otherAssignments.mpr ⟨ha, fun e he => ?_⟩, hflds⟩
  rw [hflds.1, ← hown]
  exact hunl e he

theorem rollback (hagr : Transaction.rollback.Agrees env host sys)
    (hrun : sys.transact env host .rollback = some sys') : CountsMatch fdo sys' := by
  cases hrun
  exact ⟨h.committed, fun _ hx => (by cases hx),
    fun a ha => .inl (h.of_slotsAgree hagr ha), fun _ ha => (by cases ha)⟩

theorem commit (hrun : sys.transact env host .commit = some sys') : CountsMatch fdo sys' := by
  cases hrun
  exact ⟨h.tentative, fun _ hx => (by cases hx), fun a ha => .inl (h.tentative_count a ha),
    fun _ ha => (by cases ha)⟩

theorem of_proposes {t : Transaction} {r : TransactionResult IrqWorld} (hslots : sys.SlotsAgree)
    (hprop : Proposes sys sys' t r) (hstag : Staged sys.arbiter r)
    (hfail : r.status ≠ .ok () → r.world.msiRecords = sys.world.msiRecords)
    (hsol : r.status = .ok () → (∀ x ∈ r.arbiter.possibleAllocation,
        Assigned fdo (t.kept sys.committed ++ t.added r.entries) x) ∧
      (∀ a ∈ sys.committed, countUsed a.slot r.world.msiRecords = a.count ∨
        ∃ b ∈ t.kept sys.committed ++ t.added r.entries, b.slot = a.slot ∧ b.count ≠ a.count) ∧
      ∀ a ∈ t.kept sys.committed ++ t.added r.entries,
        countUsed a.slot r.world.msiRecords = a.count) :
    CountsMatch fdo sys' := by
  have hcomm : ∀ x ∈ sys'.arbiter.allocation, Assigned fdo sys'.committed x := by
    rw [hprop.allocation, hstag.allocation, hprop.committed]
    exact h.committed
  cases hstat : r.status with
  | error e =>
    have hten : sys'.tentative = [] := by simp [hprop.tentative, hstat]
    refine ⟨hcomm, ?_, ?_, ?_⟩
    · simp [hprop.possible, hstag.possible e hstat]
    · rw [hprop.committed, hprop.world, hfail (by simp [hstat])]
      exact fun a ha => .inl (h.of_slotsAgree hslots ha)
    · simp [hten]
  | ok u =>
    obtain ⟨hlist, hkept, hcnts⟩ := hsol hstat
    have hten : sys'.tentative = t.kept sys.committed ++ t.added r.entries := by
      simp [hprop.tentative, hstat]
    refine ⟨hcomm, ?_, ?_, ?_⟩
    · rw [hprop.possible, hten]
      exact hlist
    · rw [hprop.committed, hprop.world, hten]
      exact hkept
    · rw [hprop.world, hten]
      exact hcnts

variable (hrtl : env.rtl.Lawful)

include hrtl

theorem retest (hagr : (Transaction.retest entries).Agrees env host sys)
    (hrun : sys.transact env host (.retest entries) = some sys') : CountsMatch fdo sys' := by
  obtain ⟨hslots, hlaid⟩ := hagr
  obtain ⟨hrecs, hlist⟩ := retest_irq hrtl host sys.arbiter entries sys.world
  have hadded : (Transaction.retest entries).added (arbpRetestAllocation env (irqOps host)
      sys.arbiter entries sys.world).entries = laidAssignments entries := by
    rw [Transaction.added, retestAllocation_entries]
  refine h.of_proposes hslots (proposes_of_retest hrun)
    (staged_retestAllocation env (irqOps host) sys.arbiter entries sys.world)
    (fun _ => hrecs) fun hok => ⟨fun x hx => ?_, ?_, ?_⟩
  · intro hmsg owner hown hself
    rw [hadded]
    rcases hlist hok x hx with hkept | hasgd
    · obtain ⟨a, ha, hflds⟩ := h.assigned_of_unlisted hkept hmsg owner hown hself
      exact ⟨a, mem_append_left _ ha, hflds⟩
    · obtain ⟨a, ha, hflds⟩ := hasgd hmsg
      exact ⟨a, mem_append_right _ ha, hflds.1.trans hown, hflds.2⟩
  · rw [hrecs]
    exact fun a ha => .inl (h.of_slotsAgree hslots ha)
  · rw [hadded, hrecs]
    intro a ha
    rcases mem_append.mp ha with hkept | ha
    · exact h.of_slotsAgree hslots (mem_otherAssignments.mp hkept).1
    · exact hlaid a ha

theorem test {fuel : Nat} {allocateFrom : Option (List CmPartialResourceDescriptor)}
    (hagr : (Transaction.test fuel entries allocateFrom).Agrees env host sys)
    (hrun : sys.transact env host (.test fuel entries allocateFrom) = some sys') :
    CountsMatch fdo sys' := by
  obtain ⟨hslots, hasgs, halong⟩ := hagr
  obtain ⟨r, htest, hprop⟩ := proposes_of_test hrun
  refine h.of_proposes hslots hprop
    (staged_testAllocation env (irqOps host) fuel sys.arbiter entries allocateFrom sys.world r
      htest)
    (test_failed_records htest) fun hok => ?_
  obtain ⟨-, s, hcond, hpacks⟩ := exists_testPacks hrtl hasgs htest hok halong
  have hagre := hcond hpacks.pending
  rw [hpacks.before] at hagre
  rw [Transaction.added, hpacks.assigned, hpacks.after]
  -- A committed count stays unless it is displaced.
  have hstays : ∀ a ∈ sys.committed, (∀ p ∈ s.states.filterMap (·.messagePacked),
      p.1 = a.slot → p.2 = a.count) →
      countUsed a.slot (recordPacked s.states sys.world.msiRecords) = a.count := by
    intro a ha hsame
    have hcnt := h.of_slotsAgree hslots ha
    exact countUsed_recordAll (hcnt ▸ countUsed_ne_zero _ _) hsame (.inl hcnt)
  refine ⟨fun x hx => ?_, fun a ha => ?_, fun a ha => ?_⟩
  · intro hmsg owner hown hself
    rcases hpacks.listed x hx owner hown hmsg with
      ⟨a, ha, hflds⟩ | ⟨rfl, y, hy, hown', hstar⟩
    · exact ⟨a, mem_append_right _ ha, hflds⟩
    · obtain ⟨a, ha, hflds⟩ := h.assigned_of_unlisted hy (hstar ▸ hmsg) owner hown' hself
      exact ⟨a, mem_append_left _ ha, hflds.1, hflds.2.trans hstar⟩
  · by_cases hsame : ∀ p ∈ s.states.filterMap (·.messagePacked), p.1 = a.slot → p.2 = a.count
    · exact .inl (hstays a ha hsame)
    push Not at hsame
    obtain ⟨p, hp, hslot, hne⟩ := hsame
    rw [messagePacked_eq_map] at hp
    obtain ⟨b, hb, rfl⟩ := mem_map.mp hp
    exact .inr ⟨b, mem_append_right _ hb, hslot, hne⟩
  · rcases mem_append.mp ha with hkept | ha
    · have hmem : a ∈ sys.committed := by
        cases allocateFrom with
        | none => exact (mem_otherAssignments.mp hkept).1
        | some _ => cases hkept
      exact hstays a hmem fun p hp => (hagre p hp).1 a hkept
    · have hp : (a.slot, a.count) ∈ s.states.filterMap (·.messagePacked) := by
        rw [messagePacked_eq_map]
        exact mem_map_of_mem ha
      obtain ⟨st, -, heq⟩ := mem_filterMap.mp hp
      obtain ⟨-, hsame, hroom⟩ := hagre _ hp
      refine countUsed_recordAll (messagePacked_count_ne_zero heq) hsame ?_
      by_cases hknown : uacpiNtMsiCountLookup a.slot sys.world.msiRecords = none
      · exact (hroom.resolve_left (not_not.mpr hknown)).imp
          (fun hone => (countUsed_of_none hknown).trans hone.symm) fun hroom => ⟨hp, .inr hroom⟩
      · exact .inr ⟨hp, .inl hknown⟩

theorem transact {t : Transaction} (hagr : t.Agrees env host sys)
    (hrun : sys.transact env host t = some sys') : CountsMatch fdo sys' := by
  cases t with
  | test fuel entries allocateFrom => exact h.test hrtl hagr hrun
  | retest entries => exact h.retest hrtl hagr hrun
  | rollback => exact h.rollback hagr hrun
  | commit => exact h.commit hrun

theorem run {ts : List Transaction} (hagr : AgreeAlong env host ts sys)
    (hrun : runTransactions env host ts sys = some sys') : CountsMatch fdo sys' := by
  induction ts generalizing sys with
  | nil =>
    cases hrun
    exact h
  | cons t ts ih =>
    obtain ⟨sys₁, hstep, hrest⟩ := bind_eq_some_iff.mp hrun
    exact ih (h.transact hrtl hagr.1 hstep) (hagr.2 sys₁ hstep) hrest

end CountsMatch

/-- In every sequence of transactions that all agree on the counts, from an arbiter without message
placements, a commit uses for each message placement of a device the count in the assignment of its
owner. -/
theorem committed_counts_match {env : Environment} (hrtl : env.rtl.Lawful) (host : IrqHost)
    (fdo : DeviceObject) {arb : ArbiterInstance} {world : IrqWorld} {ts : List Transaction}
    {sys : AssignedArbiter}
    (harb : ∀ x ∈ arb.allocation ++ arb.possibleAllocation, Assigned fdo [] x)
    (hagree : AgreeAlong env host ts ⟨arb, world, [], []⟩)
    (hrun : runTransactions env host ts ⟨arb, world, [], []⟩ = some sys) :
    ∀ x ∈ (arbiterLibCommitAllocation sys.arbiter).allocation, msiGsivBase ≤ x.start →
      ∀ owner, x.owner = some owner → owner ≠ fdo →
        (∃ a ∈ sys.tentative, a.owner = some owner ∧ a.slot = x.start) ∧
        ∀ a ∈ sys.tentative, a.owner = some owner → a.slot = x.start →
          placementLength sys.world.msiRecords x = a.count := by
  have hstart : CountsMatch fdo ⟨arb, world, [], []⟩ :=
    ⟨fun x hx => harb x (List.mem_append_left _ hx),
      fun x hx => harb x (List.mem_append_right _ hx), fun _ ha => (by cases ha),
      fun _ ha => (by cases ha)⟩
  have hmatch := hstart.run hrtl hagree hrun
  intro x hx hmessage owner howner hself
  refine ⟨hmatch.tentative x hx hmessage owner howner hself, fun a ha _ hslot => ?_⟩
  rw [placementLength_of_message hmessage, ← hslot]
  exact hmatch.tentative_count a ha

def Transaction.messages (device : Nat) (count : UInt32) : Transaction :=
  .test 10 [.request ⟨device⟩ [.ofMessages 0x80000000 (0x80000000 + count - 1)]] none

theorem two_devices_commit_their_counts :
    ∃ sys, runTransactions .reference .unrouted [.messages 3 4, .commit, .messages 5 2]
        ⟨.plainInterrupt [], .zero, [], []⟩ = some sys ∧
      sys.tentative = [⟨some ⟨3⟩, 0xFFFFFFFE, 4⟩, ⟨some ⟨5⟩, 0xFFFFFFFD, 2⟩] ∧
      ∀ x ∈ (arbiterLibCommitAllocation sys.arbiter).allocation, msiGsivBase ≤ x.start →
        ∀ owner, x.owner = some owner → owner ≠ ⟨0⟩ →
        (∃ a ∈ sys.tentative, a.owner = some owner ∧ a.slot = x.start) ∧
        ∀ a ∈ sys.tentative, a.owner = some owner → a.slot = x.start →
          placementLength sys.world.msiRecords x = a.count := by
  refine ⟨_, rfl, by decide +kernel, ?_⟩
  exact committed_counts_match Environment.reference_lawful .unrouted ⟨0⟩
    (fun _ hx => absurd hx List.not_mem_nil)
    (by decide +kernel : AgreeAlong .reference .unrouted
      [.messages 3 4, .commit, .messages 5 2] ⟨.plainInterrupt [], .zero, [], []⟩) rfl

/-- The test that is rolled back has left its count on the slot of device 3. -/
theorem rolled_back_count_committed :
    ∃ sys, runTransactions .reference .unrouted
        [.messages 3 4, .commit, .messages 3 2, .rollback, .messages 5 1]
        ⟨.plainInterrupt [], .zero, [], []⟩ = some sys ∧
      ∃ x ∈ (arbiterLibCommitAllocation sys.arbiter).allocation,
        x.start = 0xFFFFFFFE ∧ x.owner = some ⟨3⟩ ∧ ⟨some ⟨3⟩, 0xFFFFFFFE, 4⟩ ∈ sys.tentative ∧
        placementLength sys.world.msiRecords x = 2 := by
  refine ⟨_, rfl, ?_⟩
  decide +kernel

end UacpiNt
