import UacpiNt.IrqArb.LineSharing

/-!
# The triggering that a line is tagged with

Preprocessing tags a state with the triggering of the first alternative of its entry, before an
alternative is chosen, and nothing later changes the tag. So a range is tagged for the selected
alternative exactly if the first one has the same triggering. Where all alternatives of a device
agree, every range of the tentative list is tagged for the alternative selected for it.
-/

namespace UacpiNt

open AllocationState List

/-! ### Tags -/

def triggeringOf (attributes : UInt8) : UInt8 :=
  attributes &&& (uacpiNtRangeLevel ||| uacpiNtRangeLatched)

def triggeringTag (latched : Bool) : UInt8 :=
  if latched then uacpiNtRangeLatched else uacpiNtRangeLevel

theorem triggeringTag_inj {a b : Bool} : triggeringTag a = triggeringTag b ↔ a = b := by
  revert a b
  decide

theorem triggeringTag_ne_zero (latched : Bool) : triggeringTag latched ≠ 0 := by
  revert latched
  decide

namespace ArbiterListEntry

def firstLatched (e : ArbiterListEntry) : Bool :=
  e.alternatives.head?.any (·.isLatched)

def selectedLatched (e : ArbiterListEntry) : Bool :=
  e.selectedAlternative.any (·.isLatched)

/-- What preprocessing tags a state of the entry with. An entry without a device is not tagged. -/
def triggering (e : ArbiterListEntry) : UInt8 :=
  if e.physicalDeviceObject.isSome then triggeringTag e.firstLatched else 0

theorem triggering_eq_tag_iff (e : ArbiterListEntry) (latched : Bool) :
    e.triggering = triggeringTag latched ↔
      e.physicalDeviceObject.isSome = true ∧ e.firstLatched = latched := by
  rw [triggering]
  split <;> rename_i hdev
  · rw [triggeringTag_inj]
    exact ⟨fun h => ⟨hdev, h⟩, fun h => h.2⟩
  · exact ⟨fun h => absurd h.symm (triggeringTag_ne_zero latched), fun h => absurd h.1 hdev⟩

end ArbiterListEntry

/-- The alternatives of the state are those of its entry, and without a device it has no tag. -/
structure Taggable (st : AllocationState) : Prop where
  descriptors : st.requirements.map (·.descriptor) = st.entry.alternatives
  untagged : st.entry.physicalDeviceObject = none → triggeringOf st.rangeAttributes = 0

def Tagged (st : AllocationState) : Prop :=
  triggeringOf st.rangeAttributes = st.entry.triggering

theorem triggeringOf_tagTriggering (st : AllocationState) :
    triggeringOf st.tagTriggering.rangeAttributes =
      triggeringTag (st.alternatives.head?.any (·.descriptor.isLatched)) := by
  have hclr : ~~~(uacpiNtRangeLevel ||| uacpiNtRangeLatched) &&&
      (uacpiNtRangeLevel ||| uacpiNtRangeLatched) = 0 := by decide
  rw [triggeringOf, tagTriggering]
  rw [and_or_distrib, UInt8.and_assoc, hclr, UInt8.and_zero, triggeringTag]
  split <;> decide

theorem AttributeStep.triggeringOf {st st' : AllocationState} (h : AttributeStep st st') :
    triggeringOf st'.rangeAttributes = triggeringOf st.rangeAttributes := by
  have hoth : arbiterRangeSharedDriver &&& (uacpiNtRangeLevel ||| uacpiNtRangeLatched) = 0 := by
    decide
  rcases h.tag with heq | ⟨alt, -, -, heq⟩
  · rw [heq]
  · rw [heq, UacpiNt.triggeringOf, UacpiNt.triggeringOf, and_or_distrib, hoth, UInt8.or_zero]

/-! ### The routines -/

theorem irqGetNext_attributes (arb : ArbiterInstance) (st : AllocationState) (world : IrqWorld) :
    (uacpiNtIrqGetNextAllocationRange arb st world).2.1.rangeAttributes = st.rangeAttributes := by
  obtain ⟨workSpace, hrew⟩ := irqGetNext_rewind arb st world
  exact (congrArg AllocationState.rangeAttributes hrew :)

section

variable {env : Environment} {host : IrqHost} {arb : ArbiterInstance}

theorem Taggable.of_request {st st' : AllocationState} (h : Taggable st)
    (hreq : st'.request = st.request) (htag : st.entry.physicalDeviceObject = none →
      triggeringOf st'.rangeAttributes = triggeringOf st.rangeAttributes) : Taggable st' := by
  have hent : ∀ st : AllocationState, st.entry.alternatives = st.request.entry.alternatives ∧
      st.entry.physicalDeviceObject = st.request.entry.physicalDeviceObject := fun _ => ⟨rfl, rfl⟩
  have hdev : st'.entry.physicalDeviceObject = st.entry.physicalDeviceObject := by
    rw [(hent st').2, (hent st).2, hreq]
  constructor
  · rw [requirements_eq_of_request hreq, (hent st').1, hreq]
    exact h.descriptors
  intro hnone
  rw [hdev] at hnone
  rw [htag hnone]
  exact h.untagged hnone

theorem stable_taggable : Stable env (irqOps host) arb Taggable where
  preprocess := by
    intro st world st' world' status hst heq
    have hreq : ((irqOps host).preprocessEntry st world).2.1.request = st.request :=
      (irq_frames env).preprocess st world
    rw [heq] at hreq
    refine hst.of_request hreq fun hnone => ?_
    obtain ⟨-, ⟨-, rfl⟩ | ⟨hdev, -⟩⟩ := irqPreprocessEntry_spec heq
    · rfl
    · rw [hnone] at hdev
      cases hdev
  next := by
    intro possible st world offered st' world' hst heq
    have hreq := irqGetNext_request (arb.withPossible possible) st world
    have hattr := irqGetNext_attributes (arb.withPossible possible) st world
    change uacpiNtIrqGetNextAllocationRange (arb.withPossible possible) st world = _ at heq
    rw [heq] at hreq hattr
    exact hst.of_request hreq fun _ => congrArg triggeringOf hattr
  find := by
    intro possible st world hst
    obtain ⟨hunp, hstep⟩ := irqFindSuitableRange_spec env (arb.withPossible possible) st world
    exact hst.of_request (request_eq_of_unplaced hunp) fun _ => hstep.triggeringOf
  restart st hst := ⟨hst.descriptors, hst.untagged⟩
  lowerWindow st hst := ⟨hst.descriptors, hst.untagged⟩
  noRetry st hst := ⟨hst.descriptors, hst.untagged⟩

theorem requirements_map_descriptor (st : AllocationState) :
    st.requirements.map (·.descriptor) = st.alternatives.map (·.descriptor) := by
  rw [requirements, map_map]
  rfl

theorem Taggable.firstLatched {st : AllocationState} (h : Taggable st) :
    st.alternatives.head?.any (·.descriptor.isLatched) = st.entry.firstLatched := by
  rw [ArbiterListEntry.firstLatched, ← h.descriptors, requirements_map_descriptor,
    head?_map, Option.any_map]

theorem irq_prepares : Prepares env (irqOps host) arb Taggable Tagged where
  stable := stable_taggable
  preprocess := by
    intro st world st' world' status hst heq
    have hent := (irq_keepsEntry host env).preprocess st world
    rw [heq] at hent
    rw [Tagged, hent]
    obtain ⟨-, ⟨hnone, rfl⟩ | ⟨hdev, workSpace, rfl⟩⟩ := irqPreprocessEntry_spec heq
    · rw [hst.untagged hnone, ArbiterListEntry.triggering, hnone]
      rfl
    · rw [triggeringOf_tagTriggering, hst.firstLatched, ArbiterListEntry.triggering, if_pos hdev]
  next := by
    intro possible st world offered st' world' hst heq
    have hent := (irq_keepsEntry host env).next (arb.withPossible possible) st world
    have hattr := irqGetNext_attributes (arb.withPossible possible) st world
    change uacpiNtIrqGetNextAllocationRange (arb.withPossible possible) st world = _ at heq
    change (uacpiNtIrqGetNextAllocationRange (arb.withPossible possible) st world).2.1.entry = _
      at hent
    rw [heq] at hent hattr
    rw [Tagged, hent, hattr]
    exact hst
  find := by
    intro possible st world hst
    obtain ⟨hunp, hstep⟩ := irqFindSuitableRange_spec env (arb.withPossible possible) st world
    change triggeringOf _ = ArbiterListEntry.triggering _
    rw [(irq_keepsEntry host env).find]
    exact hstep.triggeringOf.trans hst
  lowerWindow st hst := hst
  mark st hst := ⟨⟨hst.1.descriptors, hst.1.untagged⟩, hst.2⟩

theorem taggable_of_built {st : AllocationState} (h : Built (irqOps host) st) : Taggable st := by
  constructor
  · have hdec := h.decoded
    rw [requirements_map_descriptor]
    generalize st.entry.alternatives = descriptors at hdec
    generalize st.alternatives = alternatives at hdec
    induction hdec with
    | nil => rfl
    | cons halt _ ih => rw [map_cons, ih, (buildAlternative_ok halt).1]
  · intro _
    have hzero : st.rangeAttributes = 0 := by
      rw [h.fresh]
      rfl
    rw [hzero]
    decide

end

/-! ### Tests -/

/-- Every entry names a device, and all alternatives of a device have the same triggering. -/
def TriggeringAgreed (entries : List ArbiterListEntry) : Prop :=
  ∀ e ∈ entries, e.physicalDeviceObject.isSome = true ∧
    ∀ e' ∈ entries, e'.physicalDeviceObject = e.physicalDeviceObject →
      ∀ d ∈ e.alternatives, ∀ d' ∈ e'.alternatives, d.isLatched = d'.isLatched

def Listed (entries : List ArbiterListEntry) (st : AllocationState) : Prop :=
  ∃ e ∈ entries, e.identity = st.entry.identity

def triggeringImage (x : RtlRange) : (UInt64 × UInt64 × Option DeviceObject) × UInt8 :=
  (x.key, triggeringOf x.attributes)

section

variable {env : Environment} {host : IrqHost} {fuel : Nat} {arb : ArbiterInstance}
  {entries : List ArbiterListEntry} {allocateFrom : Option (List CmPartialResourceDescriptor)}
  {world : IrqWorld} {r : TransactionResult IrqWorld} {setup : TestSetup}
  {st st' : AllocationState}

/-- The states of one device are tagged alike, with the triggering of any of its
alternatives. -/
theorem TriggeringAgreed.triggering_eq (h : TriggeringAgreed entries) (hst : Listed entries st)
    (hst' : Listed entries st') (hown : st'.owner = st.owner) {d : IoResourceDescriptor}
    (hd : d ∈ st.entry.alternatives) (hnil : st'.entry.alternatives ≠ []) :
    st'.entry.triggering = triggeringTag d.isLatched := by
  obtain ⟨e, he, hident⟩ := hst
  obtain ⟨e', he', hident'⟩ := hst'
  obtain ⟨halts, hdev⟩ := Prod.mk.inj hident
  obtain ⟨halts', hdev'⟩ := Prod.mk.inj hident'
  have hsame : e'.physicalDeviceObject = e.physicalDeviceObject := by
    rw [hdev, hdev']
    exact hown
  rw [ArbiterListEntry.triggering_eq_tag_iff, ← hdev']
  refine ⟨(h e' he').1, ?_⟩
  obtain ⟨d', rest, hcons⟩ := exists_cons_of_ne_nil hnil
  have hlat := (h e he).2 e' he' hsame d (halts ▸ hd) d'
    (by rw [halts', hcons]; exact mem_cons_self)
  rw [ArbiterListEntry.firstLatched, hcons, head?_cons, Option.any_some, hlat]

theorem Taggable.current_mem {alt : ArbiterAlternative} (h : Taggable st)
    (halt : st.current = some alt) : alt.descriptor ∈ st.entry.alternatives := by
  rw [← h.descriptors]
  exact mem_map.mpr ⟨_, current_mem_requirements halt, rfl⟩

/-- In a list with the records of tagged states, a range that has the bounds and the owner of a
placement is tagged like it. -/
theorem triggering_of_booked (hrtl : env.rtl.Lawful) (hagr : TriggeringAgreed entries)
    (hset : testSetup env (irqOps host) arb entries allocateFrom world = .ok setup)
    {possible : RtlRangeList} {holders : List AllocationState}
    (hbook : Search.Booked setup.arbiter.possibleAllocation triggeringImage
      (fun st => [st.record]) possible holders)
    (hhrs : ∀ h ∈ holders, Taggable h ∧ Listed entries h) (htagg : ∀ h ∈ holders, Tagged h)
    (hst : Taggable st ∧ Listed entries st) {alt : ArbiterAlternative}
    (halt : st.current = some alt) {x : RtlRange} (hx : x ∈ possible)
    (hkey : x.key = st.record.key) :
    triggeringOf x.attributes = triggeringTag alt.descriptor.isLatched := by
  have hkey_owner : x.owner = st.owner := congrArg (fun key => key.2.2) hkey
  have hmem := hbook.mem_iff.mp (mem_map_of_mem hx)
  rcases mem_append.mp hmem with hmem | hmem
  · obtain ⟨y, hy, heq⟩ := mem_map.mp hmem
    obtain ⟨b, hb, hheld⟩ := mem_flatMap.mp hy
    obtain ⟨hroom, hy⟩ := mem_held.mp hheld
    obtain rfl := mem_singleton.mp hy
    obtain ⟨hkey', htrig⟩ := Prod.mk.inj heq
    have hown : b.owner = st.owner := by
      rw [← hkey_owner]
      exact congrArg (fun key => key.2.2) hkey'
    obtain ⟨alt', halt', -⟩ := (Option.any_eq_true ..).mp hroom
    have hnil := ne_nil_of_mem ((hhrs b hb).1.current_mem halt')
    rw [← htrig]
    exact (htagg b hb).trans (hagr.triggering_eq hst.2 (hhrs b hb).2 hown
      (hst.1.current_mem halt) hnil)
  · exfalso
    obtain ⟨y, hy, heq⟩ := mem_map.mp hmem
    obtain ⟨e, he, hident⟩ := hst.2
    obtain ⟨device, hdev⟩ := Option.isSome_iff_exists.mp (hagr e he).1
    have hown : y.owner = e.physicalDeviceObject := by
      have hkey' := congrArg (fun image => image.1.2.2) heq
      exact hkey'.trans (hkey_owner.trans (congrArg Prod.snd hident).symm)
    obtain ⟨-, hunl⟩ := testSetup_owned hrtl hset hy (hown.trans hdev)
    exact (mem_unlisted.mp hunl).2 e he hown

theorem triggering_step (hrtl : env.rtl.Lawful) (hagr : TriggeringAgreed entries)
    (hset : testSetup env (irqOps host) arb entries allocateFrom world = .ok setup)
    {s : Search IrqWorld}
    (hinv : s.Inv setup.arbiter.possibleAllocation triggeringImage (fun st => [st.record])
      (fun st => Taggable st ∧ Listed entries st) (fun st _ => Tagged st) fun _ => True)
    (hprep : s.Prepared Taggable Tagged)
    (hstab : Stable env (irqOps host) setup.arbiter fun st => Taggable st ∧ Listed entries st) :
    s.StepOk env (irqOps host) setup.arbiter triggeringImage (fun st => [st.record])
      (fun st => Taggable st ∧ Listed entries st) fun st _ => Tagged st := by
  have hp : Prepares env (irqOps host) setup.arbiter Taggable Tagged := irq_prepares
  have htagg : ∀ h ∈ s.holders, Tagged h := by
    intro h hh
    obtain ⟨-, hh⟩ := hinv.stacked.exists_below hh
    exact hh
  constructor
  · intro hback current above hpend x hx c hc hkey
    obtain ⟨hroom, hc⟩ := mem_held.mp hc
    obtain rfl := mem_singleton.mp hc
    have hholder : current ∈ s.holders := by
      rw [Search.holders, hback, hpend]
      exact mem_append_left _ mem_cons_self
    have hcur := hinv.holders_all current hholder
    obtain ⟨alt, halt, -⟩ := (Option.any_eq_true ..).mp hroom
    have hmem := hcur.1.current_mem halt
    refine Prod.ext hkey ?_
    rw [triggeringImage,
      triggering_of_booked hrtl hagr hset hinv.booked hinv.holders_all htagg hcur halt hx hkey]
    exact ((htagg current hholder).trans (hagr.triggering_eq hcur.2 hcur.2 rfl hmem
      (ne_nil_of_mem hmem))).symm
  · intro st world' hso hgr _
    refine ⟨hp.find s.possible st world' (hprep.sought hp hso).2, fun c hc => ?_⟩
    obtain rfl := mem_singleton.mp hc
    exact irqFind_start_le_last hrtl hgr
  · intro st world' hso hgr hroom
    have hlist := hstab.find s.possible st world' (hinv.sought hstab hso)
    have hmar := hp.mark _ ⟨hlist.1, hp.find s.possible st world' (hprep.sought hp hso).2⟩
    exact ⟨⟨hmar.1, hlist.2⟩, hmar.2⟩

theorem Packed.selectedLatched {ops : ArbiterOps IrqWorld} (h : Packed ops st st') :
    st'.entry.selectedLatched = st.current.any (·.descriptor.isLatched) := by
  rw [h.state]
  exact Option.any_map

/-- After a test that succeeds, the range entered for an entry is tagged for its selected
alternative exactly if the entry names a device and its first alternative has the same
triggering. Where every entry names a device and all alternatives of a device agree, so are all
ranges of the tentative list. -/
theorem irq_tags_follow_selected_iff (hrtl : env.rtl.Lawful)
    (htest : arbpTestAllocation env (irqOps host) fuel arb entries allocateFrom world = some r)
    (hok : r.status = .ok ()) :
    (∀ st ∈ r.stack, (triggeringOf st.record.attributes = triggeringTag st.entry.selectedLatched ↔
      st.entry.physicalDeviceObject.isSome = true ∧
        st.entry.firstLatched = st.entry.selectedLatched)) ∧
    (TriggeringAgreed entries → ∀ st ∈ r.stack, st.requestsRoom = true →
      (∃ x ∈ r.arbiter.possibleAllocation, x.key = st.record.key) ∧
        ∀ x ∈ r.arbiter.possibleAllocation, x.key = st.record.key →
          triggeringOf x.attributes = triggeringTag st.entry.selectedLatched) := by
  obtain ⟨setup, result, hsetup, hrun, hstatus, hr⟩ := testAllocation_ok htest hok
  have hp : Prepares env (irqOps host) setup.arbiter Taggable Tagged := irq_prepares
  have hbuilt : ∀ st ∈ setup.states, Taggable st := fun st hst =>
    taggable_of_built (mem_setup_states hsetup hst).1
  constructor
  · intro st hst
    have hstack : r.stack = result.states := by rw [hr]
    obtain ⟨st₀, hpacked, -, htagged⟩ := prepared_of_allocateEntry hp hbuilt hrun hstatus st
      (hstack ▸ hst)
    have htriggering : triggeringOf st.record.attributes = st.entry.triggering := by
      rw [hpacked.record]
      refine htagged.trans ?_
      rw [hpacked.state]
      rfl
    rw [htriggering, ArbiterListEntry.triggering_eq_tag_iff]
  · intro hagreed st hst hroom
    have hlisted : ∀ st ∈ setup.states, Taggable st ∧ Listed entries st := by
      intro st hst
      obtain ⟨e, he, hsame⟩ := (mem_setup_states hsetup hst).2
      refine ⟨hbuilt st hst, e, he, ?_⟩
      rw [hsame]
      rfl
    have hstable : Stable env (irqOps host) setup.arbiter
        fun st => Taggable st ∧ Listed entries st :=
      hp.stable.and ((irq_keepsEntry host env).stable setup.arbiter fun entry =>
        ∃ e ∈ entries, e.identity = entry.identity)
    have halong : TestAlong env (irqOps host) fuel arb entries allocateFrom world
        fun _ s => s.Prepared Taggable Tagged := by
      rw [TestAlong, hsetup]
      exact Search.Prepared.along hp fuel hbuilt world
    obtain ⟨placed, hplaced⟩ := solution_of_test (irq_books hrtl) (irq_frames env) hstable
      (fun _ _ h => congrArg Prod.fst h) (fun _ _ _ _ _ _ _ _ _ => trivial)
      (fun s hinv hprepared => triggering_step hrtl hagreed hsetup hinv hprepared hstable)
      (fun st hst _ => hlisted st hst) hsetup htest hok halong
    obtain ⟨st₀, hst₀, hpacked⟩ := hplaced.exists_placed hst
    rw [hpacked.requestsRoom] at hroom
    obtain ⟨alt, halt, -⟩ := (Option.any_eq_true ..).mp hroom
    rw [hpacked.record, hpacked.selectedLatched, halt]
    constructor
    · obtain ⟨x, hx, heq⟩ := hplaced.exists_record hst₀ hroom List.mem_cons_self
      exact ⟨x, hx, congrArg Prod.fst heq⟩
    · intro x hx hkey
      refine triggering_of_booked hrtl hagreed hsetup hplaced.booked hplaced.all ?_
        (hplaced.all st₀ hst₀) halt hx hkey
      intro b hb
      obtain ⟨-, htagged⟩ := hplaced.stacked.exists_below hb
      exact htagged

end

theorem agreed_lines_tagged :
    ∃ r, arbpTestAllocation .reference (irqOps .unrouted) 10 (.plainInterrupt [])
        [.request ⟨1⟩ [.ofLine .shared 0 9, .ofLine .shared 0 10],
          .request ⟨2⟩ [.ofLine .deviceExclusive 1 5]] none .zero = some r ∧
      r.status = .ok () ∧ r.arbiter.possibleAllocation.map (·.start) = [5, 9] ∧
      ∀ st ∈ r.stack, ∀ x ∈ r.arbiter.possibleAllocation, x.key = st.record.key →
        triggeringOf x.attributes = triggeringTag st.entry.selectedLatched := by
  have htest : arbpTestAllocation .reference (irqOps .unrouted) 10 (.plainInterrupt [])
      [.request ⟨1⟩ [.ofLine .shared 0 9, .ofLine .shared 0 10],
        .request ⟨2⟩ [.ofLine .deviceExclusive 1 5]] none .zero = some _ := rfl
  have hagreed : TriggeringAgreed [.request ⟨1⟩ [.ofLine .shared 0 9, .ofLine .shared 0 10],
      .request ⟨2⟩ [.ofLine .deviceExclusive 1 5]] := by
    simp only [TriggeringAgreed]
    decide
  have hspec := (irq_tags_follow_selected_iff Environment.reference_lawful htest rfl).2 hagreed
  refine ⟨_, htest, rfl, rfl, fun st hst => (hspec st hst ?_).2⟩
  revert st
  decide

def IrqHost.pic : IrqHost :=
  ⟨0, 64, fun _ _ links => (none, links)⟩

/-- A device asks for a message or, failing that, for a level triggered line. Without I/O APICs it
gets the line, tagged as latched. -/
theorem level_line_tagged_latched :
    ∃ r, arbpTestAllocation .reference (irqOps .pic) 10 (.plainInterrupt [])
        [.request ⟨1⟩ [.ofMessages 1 1, .ofLine .shared 0 9]] none .zero = some r ∧
      r.status = .ok () ∧
      r.entries.map (·.selectedAlternative) = [some (.ofLine .shared 0 9)] ∧
      (IoResourceDescriptor.ofLine .shared 0 9).isLatched = false ∧
      r.arbiter.possibleAllocation = [⟨9, 9, uacpiNtRangeLatched, true, some ⟨1⟩⟩] :=
  ⟨_, rfl, rfl, rfl, rfl, rfl⟩

end UacpiNt
