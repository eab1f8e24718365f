import UacpiNt.Arbiter.Booking
import UacpiNt.ResArb.Basic

/-!
# Conflict freedom

An arbiter that keeps the library's routines places an entry over a record of another device
only where that record is allowed: both are shared, its attributes are permitted, the conflict
callback accepts it, or the two devices may share a driver-exclusive resource. This holds
along every search in which sharing a window is justified for each record of the window, not
only for the first one.
-/

namespace UacpiNt

open AllocationState

/-- The attributes that a request may be placed over for its source and its alternative. -/
def AllocationState.permittedAttributes (st : AllocationState) (alt : ArbiterAlternative) :
    UInt8 :=
  (if st.entry.requestSource.isLegacy then arbiterRangeBootAllocated else 0) |||
    (if alt.inaccessibleOk then arbiterRangeInaccessible else 0)

/-- Two devices may share a driver-exclusive resource: a driver is attached above both, or both
are root enumerated. -/
def Environment.MayShare (env : Environment) (a b : DeviceObject) : Prop :=
  env.arbpSharesDriverStack a b = true ∨
    env.arbpReadRootEnumerated a = some true ∧ env.arbpReadRootEnumerated b = some true
deriving Decidable

variable {env : Environment} {callback : Option (RtlRange → Bool)} {st st' : AllocationState}
  {alt : ArbiterAlternative} {listed : List (Option DeviceObject)}

theorem Environment.MayShare.symm {a b : DeviceObject} (h : env.MayShare a b) :
    env.MayShare b a := by
  rcases h with h | ⟨ha, hb⟩
  · left
    obtain ⟨driver, ha, hb⟩ := List.any_eq_true.mp h
    exact List.any_eq_true.mpr ⟨driver, List.contains_iff_mem.mp hb, List.contains_iff_mem.mpr ha⟩
  · exact .inr ⟨hb, ha⟩

section

variable (env) (callback) (st) (requester : DeviceObject) (x : RtlRange)

/-- The driver-exclusive sharing rule: the alternative or the record is driver exclusive, and
its owner may share with the requester. -/
def SharingRule (alt : ArbiterAlternative) (x : RtlRange) : Prop :=
  (alt.descriptor.shareDisposition = .driverExclusive ∨
    x.attributes &&& arbiterRangeSharedDriver ≠ 0) ∧
  ∃ owner ∈ x.owner, env.MayShare requester owner
deriving Decidable

def Allowed : Prop :=
  ∃ alt ∈ st.current,
    alt.shared = true ∧ x.shared = true ∨
      x.attributes &&& st.permittedAttributes alt ≠ 0 ∨
      callback.any (fun accepts => accepts x) = true ∨
      ∃ requester ∈ st.owner, SharingRule env requester alt x
deriving Decidable

end

theorem Packed.allowed {σ : Type} {ops : ArbiterOps σ} {x : RtlRange} (hpack : Packed ops st st')
    (h : Allowed env callback st x) : Allowed env callback st' x := by
  have hperm : st'.permittedAttributes = st.permittedAttributes := by
    rw [hpack.state]
    rfl
  rw [Allowed, hpack.current, hperm, hpack.owner]
  exact h

/-! ### The attributes of a state -/

theorem and_or_distrib (a b c : UInt8) : (a ||| b) &&& c = a &&& c ||| b &&& c :=
  UInt8.toBitVec_inj.mp BitVec.and_or_distrib_right

structure AttributeStep (st st' : AllocationState) : Prop where
  available : st'.rangeAvailableAttributes = st.rangeAvailableAttributes ∨
    ∃ alt, st.current = some alt ∧ st'.rangeAvailableAttributes =
      st.rangeAvailableAttributes ||| st.permittedAttributes alt
  tag : st'.rangeAttributes = st.rangeAttributes ∨
    ∃ alt, st.current = some alt ∧ alt.descriptor.shareDisposition = .driverExclusive ∧
      st'.rangeAttributes = st.rangeAttributes ||| arbiterRangeSharedDriver

theorem openAttributes_available (st : AllocationState) (alt : ArbiterAlternative) :
    (st.openAttributes alt).rangeAvailableAttributes =
      st.rangeAvailableAttributes ||| st.permittedAttributes alt := by
  simp only [openAttributes, permittedAttributes, UInt8.or_assoc]

theorem attributeStep_openAttributes (halt : st.current = some alt)
    (havail : st'.rangeAvailableAttributes = (st.openAttributes alt).rangeAvailableAttributes)
    (htag : st'.rangeAttributes = st.rangeAttributes) : AttributeStep st st' :=
  ⟨.inr ⟨alt, halt, havail.trans (openAttributes_available st alt)⟩, .inl htag⟩

theorem attributeStep_share {possible : RtlRangeList} (halt : st.current = some alt)
    (h : arbpShareDriverExclusive env possible (st.openAttributes alt) = some st') :
    AttributeStep st st' := by
  have halt' : (st.openAttributes alt).current = some alt := halt
  obtain ⟨rfl, -⟩ := shareDriverExclusive_granted halt' h
  rw [shareWindow]
  split
  · rename_i hexcl
    exact ⟨.inr ⟨alt, halt, openAttributes_available st alt⟩, .inr ⟨alt, halt, hexcl, rfl⟩⟩
  · exact attributeStep_openAttributes halt rfl rfl

theorem findSuitableRange_attributes (env : Environment) (arb : ArbiterInstance)
    (st : AllocationState) : AttributeStep st (arbiterLibFindSuitableRange env arb st).1.2 := by
  rw [arbiterLibFindSuitableRange]
  cases halt : st.current with
  | none => exact ⟨.inl rfl, .inl rfl⟩
  | some alt =>
    simp only
    split
    · exact ⟨.inl rfl, .inl rfl⟩
    split
    · exact ⟨.inl rfl, .inl rfl⟩
    simp only [placeAlternative]
    split
    · exact attributeStep_openAttributes halt rfl rfl
    rw [escapeConflict]
    cases hshare : arbpShareDriverExclusive env arb.possibleAllocation (st.openAttributes alt) with
    | some shared => exact attributeStep_share halt hshare
    | none =>
      have hovr : AttributeStep st (arbiterLibOverrideConflict
          arb.possibleAllocation (st.openAttributes alt)).2 := by
        rcases overrideConflict_state arb.possibleAllocation (st.openAttributes alt)
          with hstat | hstat <;> rw [hstat]
        · exact attributeStep_openAttributes halt rfl rfl
        · exact attributeStep_openAttributes halt rfl rfl
      simp only
      split
      · exact hovr
      · exact ⟨hovr.available, hovr.tag⟩

/-- A state whose attributes are those of its alternatives, all of which agree on them. -/
structure Untainted (listed : List (Option DeviceObject)) (st : AllocationState) : Prop where
  owner : st.owner ∈ listed
  nullConflict : st.nullConflictOk = false
  uniform : ∀ alt ∈ st.requirements, ∀ alt' ∈ st.requirements,
    alt.inaccessibleOk = alt'.inaccessibleOk ∧
      (alt.descriptor.shareDisposition = .driverExclusive ↔
        alt'.descriptor.shareDisposition = .driverExclusive)
  tag : st.rangeAttributes = 0 ∨ st.rangeAttributes = arbiterRangeSharedDriver ∧
    ∀ alt ∈ st.requirements, alt.descriptor.shareDisposition = .driverExclusive
  mask : ∀ alt ∈ st.requirements, st.rangeAvailableAttributes = 0 ∨
    st.rangeAvailableAttributes = st.permittedAttributes alt

theorem Untainted.available {alt' : ArbiterAlternative} (h : Untainted listed st)
    (halt : st.current = some alt) (halt' : alt' ∈ st.requirements) :
    st.rangeAvailableAttributes ||| st.permittedAttributes alt = st.permittedAttributes alt' := by
  have hmem := current_mem_requirements halt
  have hsame : st.permittedAttributes alt = st.permittedAttributes alt' := by
    have hok := (h.uniform _ hmem alt' halt').1
    rw [permittedAttributes, permittedAttributes, ← hok]
    rfl
  rcases h.mask alt' halt' with hmask | hmask
  · rw [hmask, UInt8.zero_or, hsame]
  · rw [hmask, hsame, UInt8.or_self]

theorem permittedAttributes_eq_of_request (h : st'.request = st.request)
    (alt : ArbiterAlternative) : st'.permittedAttributes alt = st.permittedAttributes alt :=
  (congrArg (permittedAttributes · alt) h :)

theorem Untainted.step (h : Untainted listed st) (hreq : st'.request = st.request)
    (hstep : AttributeStep st st') : Untainted listed st' := by
  have hreqs := requirements_eq_of_request hreq
  refine ⟨owner_eq_of_request hreq ▸ h.owner, ?_, hreqs ▸ h.uniform, ?_, ?_⟩
  · have hnull := congrArg nullConflictOk hreq
    exact hnull.trans h.nullConflict
  · rw [hreqs]
    rcases hstep.tag with htag | ⟨alt, halt, hexcl, htag⟩
    · rw [htag]
      exact h.tag
    right
    constructor
    · rw [htag]
      rcases h.tag with hzero | ⟨hsh, -⟩
      · rw [hzero, UInt8.zero_or]
      · rw [hsh, UInt8.or_self]
    · intro alt' halt'
      exact (h.uniform _ (current_mem_requirements halt) alt' halt').2.mp hexcl
  · rw [hreqs]
    intro alt' halt'
    rw [permittedAttributes_eq_of_request hreq]
    rcases hstep.available with hsame | ⟨alt, halt, havail⟩
    · rw [hsame]
      exact h.mask alt' halt'
    · right
      rw [havail]
      exact h.available halt halt'

/-- With the walk of the library, what depends on the request and the attributes only is stable, if
the search of a window keeps it. -/
theorem stable_of_step {σ : Type} {ops : ArbiterOps σ} {env : Environment} {arb : ArbiterInstance}
    {W : AllocationState → Prop} (hpre : ops.preprocessEntry = arbiterLibPreprocessEntry)
    (hnext : ops.getNextAllocationRange = libraryGetNext)
    (hstep : ∀ st st', W st → st'.request = st.request → AttributeStep st st' → W st')
    (hfind : ∀ possible st world, W st →
      W (ops.findSuitableRange env (arb.withPossible possible) st world).state) :
    Stable env ops arb W where
  preprocess := by
    intro st world st' world' status hst heq
    rw [hpre] at heq
    cases heq
    exact hst
  next := by
    intro possible st world offered st' world' hst heq
    have hrew := getNextAllocationRange_rewind (arb.withPossible possible) st
    rw [hnext] at heq
    cases heq
    exact hstep _ _ hst (request_eq_of_rewind hrew)
      ⟨.inl (congrArg rangeAvailableAttributes hrew :), .inl (congrArg rangeAttributes hrew :)⟩
  find := hfind
  restart _ hst := hstep _ _ hst rfl ⟨.inl rfl, .inl rfl⟩
  lowerWindow _ hst := hstep _ _ hst rfl ⟨.inl rfl, .inl rfl⟩
  noRetry _ hst := hstep _ _ hst rfl ⟨.inl rfl, .inl rfl⟩

/-- An arbiter that overrides nothing but the descriptor routines. -/
inductive IsLibraryArbiter {σ : Type} : ArbiterOps σ → Prop where
  | mk (unpackRequirement : IoResourceDescriptor → Except NtError Requirement)
      (packResource : IoResourceDescriptor → UInt64 → CmPartialResourceDescriptor → σ →
        NtStatus × CmPartialResourceDescriptor × σ)
      (unpackResource : CmPartialResourceDescriptor → Except NtError (UInt64 × UInt64))
      (scoreRequirement : Option (IoResourceDescriptor → Int)) :
      IsLibraryArbiter (libraryOps unpackRequirement packResource unpackResource scoreRequirement)

namespace IsLibraryArbiter

variable {σ : Type} {ops : ArbiterOps σ}

variable (hops : IsLibraryArbiter ops)

include hops

theorem find_eq : ops.findSuitableRange = libraryFindSuitable := by
  cases hops
  rfl

theorem next_eq : ops.getNextAllocationRange = libraryGetNext := by
  cases hops
  rfl

theorem preprocess_eq : ops.preprocessEntry = arbiterLibPreprocessEntry := by
  cases hops
  rfl

theorem frames (env : Environment) : Frames env ops := by
  cases hops
  exact ⟨fun st world => rfl, fun arb st world => getNextAllocationRange_request arb st,
    fun arb st world => findSuitableRange_request env arb st⟩

theorem books {rtl : RtlApi} (hrtl : rtl.Lawful) : Books rtl ops fun st => [st.record] := by
  cases hops
  exact library_books hrtl rfl rfl libraryPreprocess_same

theorem stable_untainted (env : Environment) (arb : ArbiterInstance)
    (listed : List (Option DeviceObject)) : Stable env ops arb (Untainted listed) := by
  refine stable_of_step hops.preprocess_eq hops.next_eq (fun _ _ hst => hst.step) ?_
  intro possible st world hst
  rw [hops.find_eq]
  exact hst.step (findSuitableRange_request env _ st) (findSuitableRange_attributes env _ st)

end IsLibraryArbiter

/-! ### Grants -/

/-- Where `RtlFindRange` refuses and a driver-exclusive range may be shared, the sharing rule
holds for every record of another device that contests the window. -/
def SharesJustly (env : Environment) (arb : ArbiterInstance) (st : AllocationState) : Prop :=
  ∀ alt ∈ st.current, ∀ requester ∈ st.owner,
    ((st.openAttributes alt).answer env arb alt).toBool = false →
    shareWalk env (st.openAttributes alt) alt requester arb.possibleAllocation
      (env.arbpReadRootEnumerated requester == some true) = true →
    ∀ x ∈ arb.possibleAllocation, (st.openAttributes alt).contests x = true →
      x.owner ≠ st.owner → SharingRule env requester alt x
deriving Decidable

/-- Why a placement overlaps the record `x`. -/
inductive Excused (env : Environment) (callback : Option (RtlRange → Bool))
    (st : AllocationState) (alt : ArbiterAlternative) (x : RtlRange) : Prop where
  | shared (h : alt.shared = true) (hx : x.shared = true)
  | permitted (h : x.attributes &&& st.permittedAttributes alt ≠ 0)
  | accepted (h : callback.any (fun accepts => accepts x) = true)
  | rule (requester : DeviceObject) (howner : st.owner = some requester)
      (hrule : SharingRule env requester alt x)
      (htag : alt.descriptor.shareDisposition = .driverExclusive →
        st.rangeAttributes &&& arbiterRangeSharedDriver ≠ 0)

section

variable {arb : ArbiterInstance}

theorem excused_of_not_contests (st : AllocationState) {x : RtlRange}
    (hperm : st'.permittedAttributes alt = st.rangeAvailableAttributes)
    (hov : x.Overlaps st.currentMinimum st.currentMaximum) (h : st.contests x = false) :
    Excused env callback st' alt x := by
  apply Excused.permitted
  rw [hperm]
  simpa [contests, hov] using h

theorem Grant.excused (hrtl : env.rtl.Lawful) (h : Grant env arb st alt st')
    (halt : st.current = some alt) (hlen : alt.length ≠ 0) (hst : Untainted listed st)
    (hjust : SharesJustly env arb st) {x : RtlRange} (hx : x ∈ arb.possibleAllocation)
    (hfor : x.owner ≠ st.owner) (hov : x.Overlaps st'.start st'.last) :
    Excused env arb.conflictCallback st' alt x := by
  have hmask : (st.openAttributes alt).rangeAvailableAttributes = st.permittedAttributes alt := by
    have hmem := current_mem_requirements halt
    have havail := hst.available halt hmem
    rw [openAttributes_available]
    exact havail
  cases h with
  | nothing hzero => exact absurd hzero hlen
  | found start _ hans =>
    have hper := (Grant.placement hrtl hlen hans).permitted x hx hov
    rw [RangeList.Terms.permits, Bool.or_eq_true] at hper
    rcases hper with hwaiv | hcb
    · simp only [RangeList.Terms.waives, terms, hmask, Bool.or_eq_true, Bool.and_eq_true] at hwaiv
      rcases hwaiv with (⟨hsh, hxsh⟩ | hperm) | ⟨hnull, -⟩
      · exact .shared hsh hxsh
      · exact .permitted (bne_iff_ne.mp hperm)
      · have hfalse : st.nullConflictOk = true := hnull
        rw [hst.nullConflict] at hfalse
        cases hfalse
    · exact .accepted hcb
  | shared requester e _ hans hown hwalk =>
    have hwin : x.Overlaps st.currentMinimum st.currentMaximum := by
      rw [shareWindow] at hov
      split at hov <;> exact hov
    have hreq : ((st.openAttributes alt).shareWindow alt).request = st.request :=
      (congrArg request (unfound_shareWindow _ alt) :)
    by_cases hcont : (st.openAttributes alt).contests x = true
    · refine .rule requester ?_ (hjust alt halt requester hown (hans ▸ rfl) hwalk x hx
        hcont hfor) fun hexcl => ?_
      · rw [← hown]
        exact owner_eq_of_request hreq
      rw [shareWindow, if_pos hexcl]
      change (st.rangeAttributes ||| arbiterRangeSharedDriver) &&& _ ≠ 0
      rcases hst.tag with hzero | ⟨htag, -⟩
      · rw [hzero]
        decide
      · rw [htag]
        decide
    · refine excused_of_not_contests (st.openAttributes alt) ?_ hwin (by simpa using hcont)
      rw [hmask]
      exact permittedAttributes_eq_of_request hreq alt
  | overridden e _ hans hfix hself =>
    by_cases hcont : (st.openAttributes alt).contests x = true
    · exact absurd (hself x hx hcont) hfor
    · exact excused_of_not_contests (st.openAttributes alt) hmask.symm hov (by simpa using hcont)

theorem Excused.allowed {x : RtlRange} (h : Excused env callback st alt x)
    (halt : st.current = some alt) : Allowed env callback st x := by
  refine ⟨alt, halt, ?_⟩
  cases h with
  | shared h hx => exact .inl ⟨h, hx⟩
  | permitted h => exact .inr (.inl h)
  | accepted h => exact .inr (.inr (.inl h))
  | rule requester hown hrule _ => exact .inr (.inr (.inr ⟨requester, hown, hrule⟩))

theorem Untainted.not_permitted (h : Untainted listed st) (st' : AllocationState)
    (alt : ArbiterAlternative) : st.rangeAttributes &&& st'.permittedAttributes alt = 0 := by
  have hbits : ∀ legacy inaccessible : Bool,
      arbiterRangeSharedDriver &&& ((if legacy then arbiterRangeBootAllocated else 0) |||
        (if inaccessible then arbiterRangeInaccessible else 0)) = 0 := by decide
  rcases h.tag with hzero | ⟨htag, -⟩
  · rw [hzero, UInt8.zero_and]
  · rw [htag]
    exact hbits _ _

theorem Excused.symm {below : AllocationState} {alt' : ArbiterAlternative}
    (h : Excused env callback st alt below.record) (halt : st.current = some alt)
    (halt' : below.current = some alt') (hbelow : Untainted listed below)
    (href : callback.any (fun accepts => accepts below.record) = false) :
    Allowed env callback below st.record := by
  refine ⟨alt', halt', ?_⟩
  cases h with
  | shared h hx =>
    refine .inl ⟨?_, ?_⟩
    · rw [record, halt'] at hx
      exact hx
    · rw [record, halt]
      exact h
  | permitted h => exact absurd (hbelow.not_permitted st alt) h
  | accepted h =>
    rw [href] at h
    cases h
  | rule requester hown hrule htag =>
    obtain ⟨hexcl, owner, hown', hshare⟩ := hrule
    refine .inr (.inr (.inr ⟨owner, hown', ?_, requester, hown, hshare.symm⟩))
    rcases hexcl with hexcl | htagg
    · exact .inr (htag hexcl)
    rcases hbelow.tag with hzero | ⟨-, hall⟩
    · have hattr : below.record.attributes = 0 := hzero
      rw [hattr] at htagg
      exact absurd rfl htagg
    · have hexcl := hall _ (current_mem_requirements halt')
      exact .inl hexcl

end

/-! ### Along a search -/

/-- A placement, over the base and the placements below it: whatever it overlaps is allowed,
and is allowed to overlap it. -/
def Separate (env : Environment) (callback : Option (RtlRange → Bool)) (base : RtlRangeList)
    (st : AllocationState) (below : List AllocationState) : Prop :=
  st.requestsRoom = true →
    (∀ x ∈ base, x.owner ≠ st.owner → x.Overlaps st.start st.last → Allowed env callback st x) ∧
    ∀ b ∈ below, b.requestsRoom = true → b.owner ≠ st.owner →
      b.record.Overlaps st.start st.last →
      Allowed env callback st b.record ∧ Allowed env callback b st.record

theorem allowed_of_stacked {base : RtlRangeList} {placed : List AllocationState}
    (h : Stacked (Separate env callback base) placed) {b : AllocationState} (hst : st ∈ placed)
    (hb : b ∈ placed) (hroom : st.requestsRoom = true) (hroom' : b.requestsRoom = true)
    (hfor : b.owner ≠ st.owner) (hov : b.record.Overlaps st.start st.last) :
    Allowed env callback st b.record := by
  rcases h.above_or_below hst hb with rfl | ⟨below, hsep, hmem⟩ | ⟨below, hsep, hmem⟩
  · exact absurd rfl hfor
  · exact ((hsep hroom).2 b hmem hroom' hfor hov).1
  · exact ((hsep hroom').2 st hmem hroom hfor.symm ⟨hov.2, hov.1⟩).2

/-- What a step of the search is to meet: sharing is justified for all records of the window,
and a placement that is withdrawn is not mistaken for another record with the same key. -/
def ConflictFreeNext {σ : Type} (env : Environment) (ops : ArbiterOps σ) (arb : ArbiterInstance)
    (s : Search σ) : Prop :=
  (∀ next ∈ s.sought ops arb, SharesJustly env (arb.withPossible s.possible) next.1) ∧
    (s.backtracking = true → ∀ current ∈ s.pending.head?, current.requestsRoom = true →
      ∀ x ∈ s.possible, x.key = current.record.key → x = current.record)
deriving Decidable

section

variable {σ : Type} {ops : ArbiterOps σ} {arb : ArbiterInstance} {base : RtlRangeList}

theorem separate_of_granted (hrtl : env.rtl.Lawful) (hops : IsLibraryArbiter ops)
    (hcb : ∀ x : RtlRange, x.owner ∈ listed →
      arb.conflictCallback.any (fun accepts => accepts x) = false)
    {s : Search σ} (hpl : ∀ st ∈ s.placed, Untainted listed st) (hpos : ∀ x ∈ base, x ∈ s.possible)
    (hrecs : ∀ b ∈ s.placed, b.requestsRoom = true → b.record ∈ s.possible)
    {st : AllocationState} {world : σ} (hst : Untainted listed st)
    (hjust : SharesJustly env (arb.withPossible s.possible) st)
    (hgr : (ops.findSuitableRange env (arb.withPossible s.possible) st world).granted = true) :
    Separate env arb.conflictCallback base
      (ops.findSuitableRange env (arb.withPossible s.possible) st world).state s.placed := by
  rw [hops.find_eq] at hgr ⊢
  obtain ⟨alt, halt, -, hgran⟩ := findSuitableRange_grant hgr
  have hunp := findSuitableRange_unplaced env (arb.withPossible s.possible) st
  have hcur : (libraryFindSuitable env (arb.withPossible s.possible) st world).state.current =
      some alt := (current_eq_of_unplaced hunp).trans halt
  have hown : (libraryFindSuitable env (arb.withPossible s.possible) st world).state.owner =
      st.owner := owner_eq_of_request (request_eq_of_unplaced hunp)
  intro hroom
  have hlen := (requestsRoom_iff hcur).mp hroom
  have hexc : ∀ x ∈ s.possible, x.owner ≠ st.owner →
      x.Overlaps (libraryFindSuitable env (arb.withPossible s.possible) st world).state.start
        (libraryFindSuitable env (arb.withPossible s.possible) st world).state.last →
      Excused env arb.conflictCallback
        (libraryFindSuitable env (arb.withPossible s.possible) st world).state alt x :=
    fun x hx hfor hov => hgran.excused hrtl halt hlen hst hjust hx hfor hov
  rw [hown]
  constructor
  · intro x hx hfor hov
    exact (hexc x (hpos x hx) hfor hov).allowed hcur
  intro b hb hroom' hfor hov
  have hex := hexc b.record (hrecs b hb hroom') hfor hov
  obtain ⟨alt', halt', -⟩ := Option.any_eq_true _ _ |>.mp hroom'
  exact ⟨hex.allowed hcur, hex.symm hcur halt' (hpl b hb) (hcb b.record (hpl b hb).owner)⟩

theorem untainted_of_built {entries : List ArbiterListEntry}
    (hunif : ∀ e ∈ entries, ∀ d ∈ e.alternatives, ∀ d' ∈ e.alternatives,
      (d.isMemory && d.compatForInaccessibleRange) =
        (d'.isMemory && d'.compatForInaccessibleRange) ∧
      (d.shareDisposition = .driverExclusive ↔ d'.shareDisposition = .driverExclusive))
    {st : AllocationState} (hbuilt : Built ops st) {e : ArbiterListEntry} (he : e ∈ entries)
    (hsame : SameButScore e st.entry) : Untainted (entries.map (·.physicalDeviceObject)) st := by
  have hdec : ∀ alt ∈ st.requirements, alt.descriptor ∈ e.alternatives ∧ alt.inaccessibleOk =
        (alt.descriptor.isMemory && alt.descriptor.compatForInaccessibleRange) := by
    intro alt halt
    obtain ⟨alt, hmem, rfl⟩ := List.mem_map.mp halt
    obtain ⟨d, hd, hbuild⟩ := exists_left_of_forall₂ hbuilt.decoded hmem
    obtain ⟨rfl, -, hok⟩ := buildAlternative_ok hbuild
    rw [hsame] at hd
    exact ⟨hd, hok⟩
  have hfresh := hbuilt.fresh
  refine ⟨?_, ?_, ?_, .inl ?_, fun alt _ => .inl ?_⟩
  · have hown : st.owner = e.physicalDeviceObject := by
      rw [AllocationState.owner, hsame]
    rw [hown]
    exact List.mem_map_of_mem he
  · rw [hfresh]
    rfl
  · intro alt halt alt' halt'
    obtain ⟨hmem, hok⟩ := hdec alt halt
    obtain ⟨hmem', hok'⟩ := hdec alt' halt'
    rw [hok, hok']
    exact hunif e he _ hmem _ hmem'
  · rw [hfresh]
    rfl
  · rw [hfresh]
    rfl

/-- In every test whose alternatives agree within each entry, whose callback accepts no record
of a listed device and whose search shares justly and withdraws exactly, an entry overlaps a
record of another device only where that record is allowed. -/
theorem test_conflict_free (hrtl : env.rtl.Lawful) (hops : IsLibraryArbiter ops) {fuel : Nat}
    {entries : List ArbiterListEntry} {allocateFrom : Option (List CmPartialResourceDescriptor)}
    {world : σ} {r : TransactionResult σ}
    (huniform : ∀ e ∈ entries, ∀ d ∈ e.alternatives, ∀ d' ∈ e.alternatives,
      (d.isMemory && d.compatForInaccessibleRange) =
        (d'.isMemory && d'.compatForInaccessibleRange) ∧
      (d.shareDisposition = .driverExclusive ↔ d'.shareDisposition = .driverExclusive))
    (hcallback : ∀ x : RtlRange, x.owner ∈ entries.map (·.physicalDeviceObject) →
      arb.conflictCallback.any (fun accepts => accepts x) = false)
    (halong : TestAlong env ops fuel arb entries allocateFrom world (ConflictFreeNext env ops))
    (htest : arbpTestAllocation env ops fuel arb entries allocateFrom world = some r)
    (hok : r.status = .ok ()) :
    ∀ st ∈ r.stack, st.requestsRoom = true → ∀ x ∈ r.arbiter.possibleAllocation,
      x.owner ≠ st.owner → x.Overlaps st.start st.last →
      Allowed env arb.conflictCallback st x := by
  obtain ⟨setup, -, hsetup, -⟩ := testAllocation_ok htest hok
  obtain ⟨-, -, size, -, -, harb, -, -⟩ := testSetup_ok hsetup
  have hcallback_eq : setup.arbiter.conflictCallback = arb.conflictCallback := by
    rw [harb]
    rfl
  rw [← hcallback_eq] at hcallback ⊢
  have hstable := hops.stable_untainted env setup.arbiter (entries.map (·.physicalDeviceObject))
  obtain ⟨placed, hplaced⟩ : ∃ placed, TestSolution ops setup id (fun st => [st.record])
      (Untainted (entries.map (·.physicalDeviceObject)))
      (Separate env setup.arbiter.conflictCallback setup.arbiter.possibleAllocation) r placed := by
    refine solution_of_test (hops.books hrtl) (hops.frames env) hstable
      (fun _ _ h => congrArg RangeList.Range.key h) (L := fun _ => True)
      (fun _ _ _ _ _ _ _ _ _ => trivial) (fun s hinv hnext => ?_)
      (fun st hst hbuilt => by
        obtain ⟨-, e, he, hsame⟩ := mem_setup_states hsetup hst
        exact untainted_of_built huniform hbuilt he hsame) hsetup htest hok halong
    have hmem : ∀ x, x ∈ (s.holders.flatMap (held fun st => [st.record])).map id ++
        setup.arbiter.possibleAllocation.map id → x ∈ s.possible := by
      intro x hx
      simpa using hinv.booked.mem_iff.mpr hx
    refine ⟨?_, ?_, ?_⟩
    · intro hbacktracking current above hpending x hx c hc hkey
      obtain ⟨hroom, hc⟩ := mem_held.mp hc
      obtain rfl := List.mem_singleton.mp hc
      exact hnext.2 hbacktracking current (by simp [hpending]) hroom x hx hkey
    · intro st world hsought hgranted _
      refine ⟨separate_of_granted hrtl hops hcallback hinv.placed_all ?_ ?_
        (hinv.sought hstable hsought) (hnext.1 (st, world) hsought) hgranted, ?_⟩
      · intro x hx
        exact hmem x (List.mem_append_right _ (by simpa using hx))
      · intro b hb hroom
        refine hmem _ (List.mem_append_left _ ?_)
        rw [List.map_id]
        exact List.mem_flatMap.mpr
          ⟨b, List.mem_append_right _ hb, mem_held.mpr ⟨hroom, List.mem_cons_self⟩⟩
      · rw [hops.find_eq] at hgranted ⊢
        obtain ⟨alt, -, hwindow, hgrant⟩ := findSuitableRange_grant hgranted
        exact List.forall_mem_singleton.mpr (hgrant.start_le_last hrtl hwindow)
    · intro st world hsought _ hnone
      have h := hstable.find s.possible st world (hinv.sought hstable hsought)
      exact ⟨⟨h.owner, h.nullConflict, h.uniform, h.tag, h.mask⟩,
        fun hroom => absurd (hnone.symm.trans hroom) Bool.false_ne_true⟩
  intro st hst hroom x hx hforeign hoverlaps
  obtain ⟨st₀, hst₀, hpacked⟩ := hplaced.exists_placed hst
  rw [hpacked.requestsRoom] at hroom
  rw [hpacked.owner] at hforeign
  rw [hpacked.start, hpacked.last] at hoverlaps
  apply hpacked.allowed
  have hmem := hplaced.booked.mem_iff.mp (List.mem_map_of_mem hx)
  simp only [List.map_id, List.mem_append, id_eq] at hmem
  rcases hmem with hmem | hmem
  · obtain ⟨b, hb, hheld⟩ := List.mem_flatMap.mp hmem
    obtain ⟨hroom', hheld⟩ := mem_held.mp hheld
    obtain rfl := List.mem_singleton.mp hheld
    exact allowed_of_stacked hplaced.stacked hst₀ hb hroom hroom' hforeign hoverlaps
  · obtain ⟨below, hseparate⟩ := hplaced.stacked.exists_below hst₀
    exact (hseparate hroom).1 x hmem hforeign hoverlaps

end

def exclusiveRequest (start last : UInt64) (length : UInt32) : ArbiterListEntry :=
  .request ⟨1⟩ [.ofMemory .driverExclusive start last length 1]

def heldMemory : ArbiterInstance :=
  .plainMemory [⟨0x1000, 0x1FFF, 0, false, some ⟨2⟩⟩]

theorem exclusive_request_shares :
    ∃ r st x, arbpTestAllocation (.withDrivers fun _ => [7]) resOps 10 heldMemory
        [exclusiveRequest 0x1000 0x1FFF 0x1000] none () = some r ∧
      r.stack = [st] ∧ x ∈ r.arbiter.possibleAllocation ∧ x.owner ≠ st.owner ∧
      x.Overlaps st.start st.last ∧ Allowed (.withDrivers fun _ => [7]) none st x := by
  have hrtl : (Environment.withDrivers fun _ => [7]).rtl.Lawful := Environment.reference_lawful
  have hops : IsLibraryArbiter resOps := .mk _ _ _ _
  have huniform : ∀ e ∈ [exclusiveRequest 0x1000 0x1FFF 0x1000], ∀ d ∈ e.alternatives,
      ∀ d' ∈ e.alternatives, (d.isMemory && d.compatForInaccessibleRange) =
        (d'.isMemory && d'.compatForInaccessibleRange) ∧
      (d.shareDisposition = .driverExclusive ↔ d'.shareDisposition = .driverExclusive) := by
    decide
  have halong : TestAlong (.withDrivers fun _ => [7]) resOps 10 heldMemory
      [exclusiveRequest 0x1000 0x1FFF 0x1000] none ()
      (ConflictFreeNext (.withDrivers fun _ => [7]) resOps) := by decide
  have hallowed := test_conflict_free hrtl hops huniform (fun x _ => rfl) halong rfl rfl
    _ List.mem_cons_self rfl ⟨0x1000, 0x1FFF, 0, false, some ⟨2⟩⟩ (by decide) (by decide)
    (by decide)
  exact ⟨_, _, _, rfl, rfl, by decide, by decide, by decide, hallowed⟩

/-- A window is shared on account of its first record; the record of a device with another
driver in the same window is overlapped without being allowed. -/
theorem shared_window_overlaps_stranger :
    ∃ r st x, arbpTestAllocation (.withDrivers fun d => if d = ⟨3⟩ then [8] else [7]) resOps 10
        (.plainMemory [⟨0x1000, 0x1FFF, 0, false, some ⟨2⟩⟩, ⟨0x2000, 0x2FFF, 0, false, some ⟨3⟩⟩])
        [exclusiveRequest 0x1000 0x2FFF 0x2000] none () = some r ∧
      r.status = .ok () ∧ r.stack = [st] ∧ x ∈ r.arbiter.possibleAllocation ∧
      x.owner = some ⟨3⟩ ∧ st.owner = some ⟨1⟩ ∧ x.Overlaps st.start st.last ∧
      ¬ Allowed (.withDrivers fun d => if d = ⟨3⟩ then [8] else [7]) none st x := by
  refine ⟨_, _, ⟨0x2000, 0x2FFF, 0, false, some ⟨3⟩⟩, rfl, rfl, rfl, ?_⟩
  decide

end UacpiNt
