import UacpiNt.ResArb.Mirrors

/-!
# Permissions of an alternative

A range that is marked inaccessible may be overlapped by a request that is compatible with
inaccessible ranges, one outside the decode of the root by a fixed boot configuration. The
permissions are kept in the state of an entry, where no later alternative takes them back, and
so is the tag of a range that was placed by sharing a driver's resource. Along a search in which
nothing is left of them from earlier attempts, each placement has the permissions of the
alternative that it was found for.
-/

namespace UacpiNt

open AllocationState List

section

variable (entry : ArbiterListEntry) (env : Environment) (arb : ArbiterInstance)
  (st : AllocationState) (alt : ArbiterAlternative) (x : RtlRange)

def permissionMarks : UInt8 :=
  arbiterRangeInaccessible ||| uacpiNtRangeOutsideDecode

/-- The alternative itself carries the permission to overlap the range. -/
def ArbiterListEntry.Authorizes : Prop :=
  (x.attributes &&& arbiterRangeInaccessible ≠ 0 → alt.inaccessibleOk = true) ∧
  (x.attributes &&& uacpiNtRangeOutsideDecode ≠ 0 → entry.bootConfig = true ∧ alt.fixed = true)
deriving Decidable

def AllocationState.PlacedWithin (l : RtlRangeList) : Prop :=
  ∀ x ∈ l, x.Overlaps st.start st.last → st.entry.Authorizes alt x

/-- `RtlFindRange` refuses, and the window is shared with a device of the same driver. -/
def SharesWindow : Prop :=
  ((st.openAttributes alt).answer env arb alt).toBool = false ∧
    (arbpShareDriverExclusive env arb.possibleAllocation (st.openAttributes alt)).isSome = true
deriving Decidable

/-- A search with this state has no way to place the alternative over the range. -/
def ClosedTo : Prop :=
  ((st.openAttributes alt).terms arb alt).permits x = false ∧ x.owner ≠ st.owner ∧
    ¬ SharesWindow env arb st alt
deriving Decidable

/-- Each range in the window is either permitted by the alternative in use or closed to it. -/
def SearchesWithin : Prop :=
  ∀ alt ∈ st.current, alt.length ≠ 0 → ∀ x ∈ arb.possibleAllocation,
    x.Overlaps st.currentMinimum st.currentMaximum →
    st.entry.Authorizes alt x ∨ ClosedTo env arb st alt x
deriving Decidable

def SharesAsTagged : Prop :=
  alt.descriptor.shareDisposition = .driverExclusive ∧ SharesWindow env arb st alt
deriving Decidable

def TaggedWithin : Prop :=
  ∀ alt ∈ st.current, alt.length ≠ 0 →
    st.rangeAttributes &&& arbiterRangeSharedDriver = 0 ∨ SharesAsTagged env arb st alt
deriving Decidable

theorem ArbiterListEntry.Authorizes.of_marks {entry : ArbiterListEntry}
    {alt : ArbiterAlternative} {x y : RtlRange} (h : entry.Authorizes alt x)
    (hmarks : x.attributes &&& permissionMarks = y.attributes &&& permissionMarks) :
    entry.Authorizes alt y := by
  have hbit : ∀ mark, permissionMarks &&& mark = mark →
      y.attributes &&& mark = x.attributes &&& mark := by
    intro mark hmark
    rw [← hmark, ← UInt8.and_assoc, ← UInt8.and_assoc, hmarks]
  rw [Authorizes, hbit _ rfl, hbit _ rfl]
  exact h

theorem ArbiterListEntry.authorizes_of_unmarked {x : RtlRange}
    (h : x.attributes &&& permissionMarks = 0) : entry.Authorizes alt x := by
  have hbit : ∀ mark, permissionMarks &&& mark = mark → x.attributes &&& mark = 0 := by
    intro mark hmark
    rw [← hmark, ← UInt8.and_assoc, h, UInt8.zero_and]
  exact ⟨fun hne => absurd (hbit _ rfl) hne, fun hne => absurd (hbit _ rfl) hne⟩

end

/-! ### One search -/

section

variable {env : Environment} {arb : ArbiterInstance} {st st' : AllocationState}
  {alt : ArbiterAlternative}

theorem sharesWindow_of_walk (halt : st.current = some alt) {e : NtError}
    {requester : DeviceObject} (hans : (st.openAttributes alt).answer env arb alt = .error e)
    (howne : st.owner = some requester)
    (hwalk : shareWalk env (st.openAttributes alt) alt requester arb.possibleAllocation
      (env.arbpReadRootEnumerated requester == some true) = true) :
    SharesWindow env arb st alt := by
  have halt' : (st.openAttributes alt).current = some alt := halt
  have howne' : (st.openAttributes alt).entry.physicalDeviceObject = some requester := howne
  refine ⟨by rw [hans]; rfl, ?_⟩
  rw [arbpShareDriverExclusive, halt', howne']
  simp only
  rw [if_pos hwalk]
  rfl

section

variable (h : Grant env arb st alt st') (halt : st.current = some alt)

include h halt

theorem Grant.tag_cases : st'.rangeAttributes = st.rangeAttributes ∨
      st'.rangeAttributes = st.rangeAttributes ||| arbiterRangeSharedDriver ∧
        SharesAsTagged env arb st alt := by
  cases h with
  | nothing | found | overridden => exact .inl rfl
  | shared requester e _ hans howne hwalk =>
    rw [shareWindow]
    split
    · rename_i hexcl
      exact .inr ⟨rfl, hexcl, sharesWindow_of_walk halt hans howne hwalk⟩
    · exact .inl rfl

variable (hlength : alt.length ≠ 0)

include hlength

/-- What is granted is tagged rightly exactly if the state was not tagged before, unless rightly
so. -/
theorem Grant.taggedWithin_iff : TaggedWithin env arb st ↔
      (st'.rangeAttributes &&& arbiterRangeSharedDriver ≠ 0 → SharesAsTagged env arb st alt) := by
  have htagg : TaggedWithin env arb st ↔
      st.rangeAttributes &&& arbiterRangeSharedDriver = 0 ∨ SharesAsTagged env arb st alt := by
    rw [TaggedWithin, halt]
    exact ⟨fun hst => hst alt rfl hlength, fun hst alt' halt' _ => by cases halt'; exact hst⟩
  rw [htagg]
  rcases h.tag_cases halt with heq | ⟨-, hshares⟩
  · rw [heq, Classical.or_iff_not_imp_left]
  · exact ⟨fun _ _ => hshares, fun _ => .inr hshares⟩

variable (hrtl : env.rtl.Lawful)

include hrtl

theorem Grant.not_overlaps {x : RtlRange} (hx : x ∈ arb.possibleAllocation)
    (hclos : ClosedTo env arb st alt x) : ¬ x.Overlaps st'.start st'.last := by
  obtain ⟨href, hfor, huns⟩ := hclos
  intro hov
  rcases h.permits_or_shares hrtl hlength hx hfor hov with
    hperm | ⟨requester, e, howne, hans, hwalk⟩
  · exact Bool.false_ne_true (href.symm.trans hperm)
  · exact huns (sharesWindow_of_walk halt hans howne hwalk)

theorem Grant.placedWithin (hwth : SearchesWithin env arb st) :
    st'.PlacedWithin alt arb.possibleAllocation := by
  intro x hx hov
  rw [h.entry_eq]
  rcases hwth alt halt hlength x hx (h.overlaps_window hrtl hlength hov) with
    hown | hclos
  · exact hown
  · exact absurd hov (h.not_overlaps halt hlength hrtl hx hclos)

theorem Grant.searchesWithin
    (hsingle : st.currentMaximum.toNat + 1 = st.currentMinimum.toNat + alt.length.toNat)
    (hpl : st'.PlacedWithin alt arb.possibleAllocation) : SearchesWithin env arb st := by
  intro alt' halt' _ x hx hov
  obtain rfl := Option.mem_unique halt halt'
  obtain ⟨hstar, hlast⟩ := h.window_of_single hrtl hlength hsingle
  rw [← hstar, ← hlast] at hov
  exact .inl (h.entry_eq ▸ hpl x hx hov)

end

theorem findSuitableRange_of_sharesWindow (halt : st.current = some alt)
    (hlength : alt.length ≠ 0) (hwin : st.currentMinimum ≤ st.currentMaximum)
    (h : SharesWindow env arb st alt) :
    arbpShareDriverExclusive env arb.possibleAllocation (st.openAttributes alt) =
      some (arbiterLibFindSuitableRange env arb st).1.2 := by
  obtain ⟨href, hshares⟩ := h
  obtain ⟨shared, hsh⟩ := Option.isSome_iff_exists.mp hshares
  rw [arbiterLibFindSuitableRange, halt]
  simp only
  rw [if_neg (UInt64.not_lt.mpr hwin), if_neg hlength]
  simp only [placeAlternative]
  cases hans : (st.openAttributes alt).answer env arb alt with
  | ok start =>
    rw [hans] at href
    cases href
  | error e =>
    simp only [answer] at hans
    rw [hans]
    simp only [escapeConflict, hsh]

/-- The marked ranges that the arbiters enter have no owner and are not shared. To a device that
does not share its window, such a range is closed exactly if no attribute of it has been made
available, now or before. -/
theorem closedTo_iff_of_unowned (hcb : arb.conflictCallback = none)
    (hnull : st.nullConflictOk = false) (howne : st.owner ≠ none) {x : RtlRange}
    (hunow : x.owner = none) (hsh : x.shared = false) : ClosedTo env arb st alt x ↔
      x.attributes &&& (st.rangeAvailableAttributes ||| st.permittedAttributes alt) = 0 ∧
        ¬ SharesWindow env arb st alt := by
  have hfor : x.owner ≠ st.owner := fun h => howne (h.symm.trans hunow)
  have hnull' : (st.openAttributes alt).nullConflictOk = false := hnull
  have hperm : ((st.openAttributes alt).terms arb alt).permits x =
      (x.attributes &&& (st.rangeAvailableAttributes ||| st.permittedAttributes alt) != 0) := by
    simp only [RangeList.Terms.permits, RangeList.Terms.waives, terms, hcb, hnull', hsh,
      openAttributes_available, Option.any_none, Bool.and_false, Bool.false_or, Bool.false_and,
      Bool.or_false]
  rw [ClosedTo, hperm, bne_eq_false_iff_eq]
  exact ⟨fun h => ⟨h.1, h.2.2⟩, fun h => ⟨h.1, hfor, h.2⟩⟩

end

/-! ### Along a search -/

section

variable (env : Environment) (kind : ResArbiter) (arb : ArbiterInstance) (st : AllocationState)
  (s : Search Unit)

/-- No record of a placement that is about to be withdrawn is mistaken for a marked range. -/
def WithdrawsUnmarked : Prop :=
  s.backtracking = true → ∀ current ∈ s.pending.head?, current.requestsRoom = true →
    ∀ x ∈ s.possible, ∀ c ∈ kind.claims current, x.key = c.key →
      x.attributes &&& permissionMarks = 0
deriving Decidable

/-- What a step of the search is to meet: nothing in the state lets the alternative in use overlap
a range that it does not permit itself, and no tag is left from before. -/
def PermitsWithinNext : Prop :=
  (∀ st world st', s.sought kind.ops arb = some (st, world) →
    Searches env (arb.withPossible s.possible) st kind st' →
    SearchesWithin env (arb.withPossible s.possible) st' ∧
      TaggedWithin env (arb.withPossible s.possible) st') ∧
  WithdrawsUnmarked kind s

/-- The states that a search grants to the alternative by sharing a window. -/
inductive PlacedBySharing (env : Environment) (kind : ResArbiter) (arb : ArbiterInstance)
    (s₀ : Search Unit) (alt : ArbiterAlternative) : AllocationState → Prop where
  | intro {s : Search Unit} {st st' : AllocationState} {world : Unit}
      (hreaches : Machine.Reaches (Search.step env kind.ops arb) s₀ s)
      (hsought : s.sought kind.ops arb = some (st, world))
      (hsearches : Searches env (arb.withPossible s.possible) st kind st')
      (hgranted : (kind.ops.findSuitableRange env (arb.withPossible s.possible) st
        world).granted = true)
      (hshares : arbpShareDriverExclusive env s.possible (st'.openAttributes alt) =
        some (kind.ops.findSuitableRange env (arb.withPossible s.possible) st world).state) :
      PlacedBySharing env kind arb s₀ alt
        (kind.ops.findSuitableRange env (arb.withPossible s.possible) st world).state

/-- A placement is permitted by its alternative, and tagged only where it was placed by sharing. -/
def PermittedPlacement (s₀ : Search Unit) (base : RtlRangeList) (st : AllocationState) : Prop :=
  st.requestsRoom = true → ∀ alt, st.current = some alt →
    st.PlacedWithin alt base ∧
      (st.rangeAttributes &&& arbiterRangeSharedDriver ≠ 0 →
        alt.descriptor.shareDisposition = .driverExclusive ∧
          PlacedBySharing env kind arb s₀ alt st)

def Unmarked : Prop :=
  Decodes kind.ops st ∧ st.rangeAttributes &&& permissionMarks = 0

def markImage (x : RtlRange) : (UInt64 × UInt64 × Option DeviceObject) × UInt8 :=
  (x.key, x.attributes &&& permissionMarks)

theorem AttributeStep.marks {st st' : AllocationState} (h : AttributeStep st st') :
    st'.rangeAttributes &&& permissionMarks = st.rangeAttributes &&& permissionMarks := by
  rcases h.tag with htag | ⟨-, -, -, htag⟩
  · rw [htag]
  · rw [htag, and_or_distrib]
    exact UInt8.or_zero

theorem rangeAttributes_openBootAttributes :
    st.openBootAttributes.rangeAttributes = st.rangeAttributes := by
  rw [openBootAttributes]
  split <;> rfl

theorem resFindSuitableRange_marks :
    (uacpiNtResFindSuitableRange env arb st).1.2.rangeAttributes &&& permissionMarks =
      st.rangeAttributes &&& permissionMarks := by
  rw [uacpiNtResFindSuitableRange, (findSuitableRange_attributes env arb _).marks,
    rangeAttributes_openBootAttributes]

theorem portRounds_marks (fuel : Nat) (st : AllocationState) :
    (portRounds env arb fuel st).1.2.rangeAttributes &&& permissionMarks =
      st.rangeAttributes &&& permissionMarks := by
  induction fuel generalizing st with
  | zero => rfl
  | succ fuel ih =>
    have hfd := resFindSuitableRange_marks env arb st
    simp only [portRounds]
    split
    · exact hfd
    split
    · exact hfd
    · split
      · exact hfd
      · exact (ih _).trans hfd

end

namespace ResArbiter

variable {kind : ResArbiter}

section

variable (kind) (env : Environment) (arb : ArbiterInstance)

theorem find_marks (st : AllocationState) (world : Unit) :
    (kind.ops.findSuitableRange env arb st world).state.rangeAttributes &&& permissionMarks =
      st.rangeAttributes &&& permissionMarks := by
  cases kind with
  | memory => exact resFindSuitableRange_marks env arb st
  | busNumber => exact (findSuitableRange_attributes env arb st).marks
  | port => exact portRounds_marks env arb _ st

theorem stable_unmarked : Stable env kind.ops arb (Unmarked kind) := by
  have hmarks : Stable env kind.ops arb fun st => st.rangeAttributes &&& permissionMarks = 0 := by
    refine stable_of_step kind.preprocess_eq kind.next_eq
      (fun _ _ hst _ hstep => hstep.marks.trans hst) fun possible st world hst => ?_
    exact (kind.find_marks env _ st world).trans hst
  exact ((kind.frames env).decodes arb).and hmarks

end

theorem marks_of_mem_claims {st : AllocationState}
    (h : st.rangeAttributes &&& permissionMarks = 0) {c : RtlRange} (hc : c ∈ kind.claims st) :
    c.attributes &&& permissionMarks = 0 := by
  cases kind with
  | memory | busNumber =>
    obtain rfl := mem_singleton.mp hc
    exact h
  | port =>
    rcases mem_cons.mp hc with rfl | hc
    · exact h
    obtain ⟨mirror, -, rfl⟩ := mem_map.mp hc
    change (st.rangeAttributes ||| arbiterRangePortAlias) &&& permissionMarks = 0
    rw [and_or_distrib, h]
    rfl

end ResArbiter

section

variable {env : Environment} {kind : ResArbiter} {arb : ArbiterInstance} {base : RtlRangeList}
  {s₀ s : Search Unit}

theorem permittedPlacement_of_granted (hrtl : env.rtl.Lawful)
    (hreac : Machine.Reaches (Search.step env kind.ops arb) s₀ s)
    (hnext : PermitsWithinNext env kind arb s)
    (hmarks : ∀ x ∈ base, ∃ y ∈ s.possible, markImage y = markImage x) {st : AllocationState}
    {world : Unit} (hso : s.sought kind.ops arb = some (st, world))
    (hgr : (kind.ops.findSuitableRange env (arb.withPossible s.possible) st world).granted = true) :
    PermittedPlacement env kind arb s₀ base
      (kind.ops.findSuitableRange env (arb.withPossible s.possible) st world).state := by
  intro hroom alt halt
  have hlength := (requestsRoom_iff halt).mp hroom
  rw [current_eq_of_unplaced (kind.find_unplaced env _ st world)] at halt
  obtain ⟨st', hsrs, heq⟩ := ResArbiter.searches hgr
  obtain ⟨hwth, htagg⟩ := hnext.1 st world st' hso hsrs
  obtain ⟨alt', halt', hwin, hgran⟩ := findSuitableRange_grant
    (show (arbiterLibFindSuitableRange env _ st').1.1 = true by rw [heq])
  have hcur := current_eq_of_unplaced hsrs.unplaced
  obtain rfl : alt' = alt := Option.some.inj (halt'.symm.trans (hcur.trans halt))
  have hstat := congrArg Prod.snd heq
  rw [hstat] at hgran
  constructor
  · intro x hx hov
    obtain ⟨y, hy, himage⟩ := hmarks x hx
    obtain ⟨hkey, hmark⟩ := Prod.mk.inj himage
    exact (hgran.placedWithin halt' hlength hrtl hwth y hy
      ((RangeList.Range.overlaps_of_key hkey).mpr hov)).of_marks hmark
  · intro htag
    obtain ⟨hexcl, hshares⟩ := (hgran.taggedWithin_iff halt' hlength).mp htagg htag
    refine ⟨hexcl, .intro hreac hso hsrs hgr ?_⟩
    have hsh := findSuitableRange_of_sharesWindow halt' hlength hwin hshares
    rw [hstat] at hsh
    exact hsh

theorem permittedPlacement_step (hrtl : env.rtl.Lawful)
    (hinv : s.Inv base markImage kind.claims (Unmarked kind)
      (fun st _ => PermittedPlacement env kind arb s₀ base st) fun _ => True)
    (hnext : PermitsWithinNext env kind arb s)
    (hreac : Machine.Reaches (Search.step env kind.ops arb) s₀ s) :
    s.StepOk env kind.ops arb markImage kind.claims (Unmarked kind)
      fun st _ => PermittedPlacement env kind arb s₀ base st := by
  have hstab := kind.stable_unmarked env arb
  refine ⟨?_, ?_, ?_⟩
  · intro hback current above hpend x hx c hc hkey
    obtain ⟨hroom, hc⟩ := mem_held.mp hc
    have hcur := hinv.pending_all current (hpend ▸ mem_cons_self)
    refine Prod.ext hkey ?_
    exact (hnext.2 hback current (by simp [hpend]) hroom x hx c hc hkey).trans
      (ResArbiter.marks_of_mem_claims hcur.2 hc).symm
  · intro st world hso hgr _
    have hst := hinv.sought hstab hso
    refine ⟨permittedPlacement_of_granted hrtl hreac hnext (fun x hx => ?_) hso hgr,
      ResArbiter.claims_width_of_granted hrtl hst.1 hgr⟩
    have hmem := hinv.booked.mem_iff.mpr (mem_append_right _ (mem_map_of_mem hx))
    obtain ⟨y, hy, himage⟩ := mem_map.mp hmem
    exact ⟨y, hy, himage⟩
  · intro st world hso _ hnone
    exact ⟨hstab.find s.possible st world (hinv.sought hstab hso),
      fun hroom => absurd (hnone.symm.trans hroom) Bool.false_ne_true⟩

end

/-- For every state that `ArbiterLibFindSuitableRange` grants: if the search keeps to the
permissions of the alternative in use, so does the placement, and in a window of one placement the
converse holds; the placement is tagged rightly exactly if no other tag was there before. In every
test of the arbiters whose steps keep to the permissions of the alternative in use, no placement
that is left overlaps a range that the selected alternative does not itself permit, or is tagged
unless it was placed by sharing for a driver-exclusive alternative. -/
theorem permissions_kept_apart {env : Environment} (hrtl : env.rtl.Lawful) :
    (∀ arb st alt, st.current = some alt → alt.length ≠ 0 →
      (arbiterLibFindSuitableRange env arb st).1.1 = true →
      (SearchesWithin env arb st → (arbiterLibFindSuitableRange env arb st).1.2.PlacedWithin alt
        arb.possibleAllocation) ∧
      (st.currentMaximum.toNat + 1 = st.currentMinimum.toNat + alt.length.toNat →
        (arbiterLibFindSuitableRange env arb st).1.2.PlacedWithin alt arb.possibleAllocation →
        SearchesWithin env arb st) ∧
      (TaggedWithin env arb st ↔
        ((arbiterLibFindSuitableRange env arb st).1.2.record.attributes &&&
          arbiterRangeSharedDriver ≠ 0 → SharesAsTagged env arb st alt))) ∧
    ∀ (kind : ResArbiter) fuel arb entries allocateFrom r,
      arbpTestAllocation env kind.ops fuel arb entries allocateFrom () = some r →
      r.status = .ok () →
      TestAlong env kind.ops fuel arb entries allocateFrom () (PermitsWithinNext env kind) →
      ∀ st ∈ r.stack, ∀ alt, st.current = some alt → alt.length ≠ 0 →
        st.entry.selectedAlternative = some alt.descriptor ∧
        st.PlacedWithin alt r.arbiter.possibleAllocation ∧
        (st.record.attributes &&& arbiterRangeSharedDriver ≠ 0 →
          alt.descriptor.shareDisposition = .driverExclusive ∧
          ∃ setup st₀, testSetup env kind.ops arb entries allocateFrom () = .ok setup ∧
            PlacedBySharing env kind setup.arbiter
              (Search.start env setup.arbiter setup.states ()) alt st₀ ∧
            st₀.record = st.record) := by
  constructor
  · intro arb st alt halt hlength hgranted
    obtain ⟨alt', halt', -, hgrant⟩ := findSuitableRange_grant hgranted
    obtain rfl : alt' = alt := Option.some.inj (halt'.symm.trans halt)
    exact ⟨hgrant.placedWithin halt hlength hrtl, hgrant.searchesWithin halt hlength hrtl,
      hgrant.taggedWithin_iff halt hlength⟩
  · intro kind fuel arb entries allocateFrom r htest hok halong st hst alt halt hlength
    obtain ⟨setup, -, hsetup, -⟩ := testAllocation_ok htest hok
    have halong' : TestAlong env kind.ops fuel arb entries allocateFrom () fun arb' s =>
        PermitsWithinNext env kind arb' s ∧ Machine.Reaches
          (Search.step env kind.ops setup.arbiter)
          (Search.start env setup.arbiter setup.states ()) s := by
      rw [TestAlong, hsetup] at halong ⊢
      exact halong.and (Machine.along_reaches _ fuel _)
    have hbuilt : ∀ st ∈ setup.states, Built kind.ops st → Unmarked kind st := by
      intro st _ hbuilt
      refine ⟨hbuilt.decodes, ?_⟩
      rw [hbuilt.fresh]
      exact UInt8.zero_and
    obtain ⟨placed, hplaced⟩ := solution_of_test (kind.books hrtl) (kind.frames env)
      (kind.stable_unmarked env setup.arbiter) (fun _ _ h => congrArg Prod.fst h)
      (fun _ _ _ _ _ _ _ _ _ => trivial)
      (fun s hinv hnext => permittedPlacement_step hrtl hinv hnext.1 hnext.2) hbuilt hsetup htest
      hok halong'
    obtain ⟨st₀, hst₀, hpacked⟩ := hplaced.exists_placed hst
    have halt₀ : st₀.current = some alt := hpacked.current ▸ halt
    obtain ⟨-, hpermitted⟩ := hplaced.stacked.exists_below hst₀
    obtain ⟨hwithin, htag⟩ := hpermitted ((requestsRoom_iff halt₀).mpr hlength) alt halt₀
    have hboot : st.entry.bootConfig = st₀.entry.bootConfig := by rw [hpacked.state]
    refine ⟨?_, ?_, ?_⟩
    · rw [hpacked.state]
      exact congrArg (Option.map _) halt₀
    · intro x hx hoverlaps
      rw [hpacked.start, hpacked.last] at hoverlaps
      have hmem := hplaced.booked.mem_iff.mp (List.mem_map_of_mem hx)
      rcases List.mem_append.mp hmem with hmem | hmem
      · obtain ⟨c, hc, himage⟩ := List.mem_map.mp hmem
        obtain ⟨b, hb, hheld⟩ := List.mem_flatMap.mp hc
        refine ArbiterListEntry.authorizes_of_unmarked _ alt ?_
        exact ((Prod.mk.inj himage).2.symm).trans
          (ResArbiter.marks_of_mem_claims (hplaced.all b hb).2 (mem_held.mp hheld).2)
      · obtain ⟨y, hy, himage⟩ := List.mem_map.mp hmem
        obtain ⟨hkey, hmark⟩ := Prod.mk.inj himage
        rw [← RangeList.Range.overlaps_of_key hkey] at hoverlaps
        rw [ArbiterListEntry.Authorizes, hboot]
        exact (hwithin y hy hoverlaps).of_marks hmark
    · intro htagged
      rw [hpacked.record] at htagged
      obtain ⟨hexclusive, hsharing⟩ := htag htagged
      exact ⟨hexclusive, setup, st₀, hsetup, hsharing, hpacked.record.symm⟩

def partlyInaccessible : ArbiterInstance :=
  .plainMemory [⟨0x1000, 0x1FFF, 0, false, some ⟨2⟩⟩,
    ⟨0x2000, 0x2FFF, arbiterRangeInaccessible, false, none⟩]

def compatiblePage (start last : UInt64) : IoResourceDescriptor :=
  { IoResourceDescriptor.ofMemory .deviceExclusive start last 0x1000 1 with flags := 0x0100 }

/-- The search of the memory arbiter starts from one state, so the condition on it can be
computed. -/
def MemoryPermitsNext (env : Environment) (arb : ArbiterInstance) (s : Search Unit) : Prop :=
  (∀ next ∈ s.sought memoryOps arb,
    SearchesWithin env (arb.withPossible s.possible) next.1.openBootAttributes ∧
      TaggedWithin env (arb.withPossible s.possible) next.1.openBootAttributes) ∧
  WithdrawsUnmarked .memory s

instance (env : Environment) (arb : ArbiterInstance) (s : Search Unit) :
    Decidable (MemoryPermitsNext env arb s) :=
  inferInstanceAs (Decidable ((∀ next ∈ s.sought memoryOps arb, _ ∧ _) ∧ _))

theorem MemoryPermitsNext.permitsWithinNext {env : Environment} {arb : ArbiterInstance}
    {s : Search Unit} (h : MemoryPermitsNext env arb s) : PermitsWithinNext env .memory arb s := by
  refine ⟨fun st world st' hso hsrs => ?_, h.2⟩
  cases hsrs
  exact h.1 (st, world) hso

/-- A device that is refused an inaccessible page gets it for an alternative that is compatible
with such pages. -/
theorem inaccessible_page_permitted :
    ∃ r st alt x, arbpTestAllocation .reference memoryOps 10 partlyInaccessible
        [.request ⟨1⟩ [.ofMemory .deviceExclusive 0x2000 0x2FFF 0x1000 1,
          compatiblePage 0x2000 0x2FFF]] none () = some r ∧
      r.status = .ok () ∧ r.stack = [st] ∧ st.current = some alt ∧
      x ∈ r.arbiter.possibleAllocation ∧ x.attributes = arbiterRangeInaccessible ∧
      x.Overlaps st.start st.last ∧ st.entry.Authorizes alt x := by
  have htest : arbpTestAllocation .reference memoryOps 10 partlyInaccessible
      [.request ⟨1⟩ [.ofMemory .deviceExclusive 0x2000 0x2FFF 0x1000 1,
        compatiblePage 0x2000 0x2FFF]] none () = some _ := rfl
  have hmemory : TestAlong .reference memoryOps 10 partlyInaccessible
      [.request ⟨1⟩ [.ofMemory .deviceExclusive 0x2000 0x2FFF 0x1000 1,
        compatiblePage 0x2000 0x2FFF]] none () (MemoryPermitsNext .reference) := by decide
  have hwithin := (permissions_kept_apart Environment.reference_lawful).2 .memory 10
    partlyInaccessible _ none _ htest rfl (hmemory.mono fun _ _ h => h.permitsWithinNext)
    _ List.mem_cons_self _ rfl (by decide)
  exact ⟨_, _, _, ⟨0x2000, 0x2FFF, arbiterRangeInaccessible, false, none⟩, htest, rfl, rfl, rfl,
    by decide, rfl, by decide, hwithin.2.1 _ (by decide) (by decide)⟩

/-- The permission of an alternative that was refused is left to the next one, which overlaps an
inaccessible page or ports outside the decode of the root without a permission of its own. A
placement that was shared and then given up leaves its tag to an alternative that is not driver
exclusive. -/
theorem permissions_left_behind :
    (∃ r st alt x, arbpTestAllocation .reference memoryOps 10 partlyInaccessible
        [.request ⟨1⟩ [compatiblePage 0x1000 0x1FFF,
          .ofMemory .deviceExclusive 0x2000 0x2FFF 0x1000 1]] none () = some r ∧
      r.status = .ok () ∧ r.stack = [st] ∧ st.current = some alt ∧
      st.entry.selectedAlternative = some (.ofMemory .deviceExclusive 0x2000 0x2FFF 0x1000 1) ∧
      x ∈ r.arbiter.possibleAllocation ∧ x.attributes = arbiterRangeInaccessible ∧
      x.Overlaps st.start st.last ∧ alt.inaccessibleOk = false) ∧
    (∃ r st alt x, arbpTestAllocation .reference portOps 10
        (.plainPort [⟨0x100, 0x10F, 0, false, some ⟨2⟩⟩,
          ⟨0x200, 0x2FF, uacpiNtRangeOutsideDecode, false, none⟩])
        [{ ArbiterListEntry.request ⟨1⟩ [.ofPort .deviceExclusive 0 0x100 0x10F 0x10,
          .ofPort .deviceExclusive 0 0x200 0x2FF 0x10] with bootConfig := true }] none () =
        some r ∧
      r.status = .ok () ∧ r.stack = [st] ∧ st.current = some alt ∧
      st.entry.selectedAlternative = some (.ofPort .deviceExclusive 0 0x200 0x2FF 0x10) ∧
      x ∈ r.arbiter.possibleAllocation ∧ x.attributes = uacpiNtRangeOutsideDecode ∧
      x.Overlaps st.start st.last ∧ alt.fixed = false) ∧
    ∃ r st below, arbpTestAllocation (.withDrivers fun d => if d.id = 2 then [] else [7])
        memoryOps 20 (.plainMemory [⟨0x1000, 0x1FFF, 0, false, some ⟨3⟩⟩])
        [.request ⟨1⟩ [.ofMemory .driverExclusive 0x1000 0x2FFF 0x2000 1,
            .ofMemory .deviceExclusive 0x5000 0x5FFF 0x1000 1],
          .request ⟨2⟩ (List.replicate 4 (.ofMemory .deviceExclusive 0x2000 0x2FFF 0x1000 1))]
        none () = some r ∧
      r.status = .ok () ∧ r.stack = st :: below ∧
      st.entry.selectedAlternative = some (.ofMemory .deviceExclusive 0x5000 0x5FFF 0x1000 1) ∧
      st.record = ⟨0x5000, 0x5FFF, arbiterRangeSharedDriver, false, some ⟨1⟩⟩ :=
  ⟨⟨_, _, _, ⟨0x2000, 0x2FFF, arbiterRangeInaccessible, false, none⟩, rfl, rfl, rfl, rfl, rfl,
      by decide, rfl, by decide, rfl⟩,
    ⟨_, _, _, ⟨0x200, 0x2FF, uacpiNtRangeOutsideDecode, false, none⟩, rfl, rfl, rfl, rfl, rfl,
      by decide, rfl, by decide, rfl⟩,
    _, _, _, rfl, rfl, rfl, rfl, rfl⟩

end UacpiNt
