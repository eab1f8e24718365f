import UacpiNt.Arbiter.Conflict
import UacpiNt.ResArb.Placement

/-!
# Decode mirrors

A port device that decodes 10 or 12 address bits also answers at the mirrors of its ports. Each
placement is entered with a record for every mirror below 64 KiB. A mirror is checked against the
records that are there when its device is placed, and its own record keeps later devices out,
unless one of them is let into a whole window because it shares a driver with some device there.
-/

namespace UacpiNt

open AllocationState List RangeList UInt64

/-! ### Where the mirrors are -/

variable {flags : UInt16} {stride : UInt64}

theorem toNat_portAliasStride (h : portAliasStride flags = some stride) :
    stride.toNat = 0x400 ∨ stride.toNat = 0x1000 := by
  rw [portAliasStride] at h
  split at h
  · cases h
    exact .inl rfl
  split at h
  · cases h
    exact .inr rfl
  · cases h

theorem nextPortAlias_of_le {last : UInt64} (hstr : portAliasStride flags = some stride)
    (hle : last.toNat + stride.toNat ≤ 0xFFFF) :
    uacpiNtNextPortAlias flags last = some (last + stride) := by
  have hsum : (last + stride).toNat = last.toNat + stride.toNat := by
    rw [UInt64.toNat_add]
    omega
  have hins : ¬ (last + stride > 0xFFFF ∨ last + stride < last) := by
    rw [gt_iff_lt, lt_iff_toNat_lt, lt_iff_toNat_lt]
    have htop : (0xFFFF : UInt64).toNat = 0xFFFF := rfl
    omega
  rw [uacpiNtNextPortAlias, hstr, Option.bind_some, if_neg hins]

theorem mem_portAliasesFrom (hstr : portAliasStride flags = some stride) {fuel k : Nat}
    (hk : k + 1 ≤ fuel) {last : UInt64} (hle : last.toNat + (k + 1) * stride.toNat ≤ 0xFFFF) :
    ofNat (last.toNat + (k + 1) * stride.toNat) ∈ portAliasesFrom flags fuel last := by
  induction fuel generalizing k last with
  | zero => omega
  | succ fuel ih =>
    have hfst : last.toNat + stride.toNat ≤ 0xFFFF := by
      rw [Nat.add_mul] at hle
      omega
    have hsum : (last + stride).toNat = last.toNat + stride.toNat := by
      rw [UInt64.toNat_add]
      omega
    rw [portAliasesFrom, nextPortAlias_of_le hstr hfst]
    cases k with
    | zero =>
      have hnext : ofNat (last.toNat + (0 + 1) * stride.toNat) = last + stride := by
        rw [← UInt64.toNat_inj, toNat_ofNat_of_lt' (by rw [UInt64.size]; omega)]
        omega
      rw [hnext]
      exact mem_cons_self
    | succ k =>
      have hshift : last.toNat + (k + 1 + 1) * stride.toNat =
          (last + stride).toNat + (k + 1) * stride.toNat := by
        rw [Nat.add_mul (k + 1)]
        omega
      rw [hshift] at hle ⊢
      exact mem_cons_of_mem _ (ih (by omega) hle)

theorem mem_portAliases (hstr : portAliasStride flags = some stride) {start : UInt64} {k : Nat}
    (hpos : 1 ≤ k) (hle : start.toNat + k * stride.toNat ≤ 0xFFFF) :
    ofNat (start.toNat + k * stride.toNat) ∈ portAliases flags start := by
  obtain ⟨k, rfl⟩ := Nat.exists_eq_add_of_le' hpos
  refine mem_portAliasesFrom hstr ?_ hle
  rcases toNat_portAliasStride hstr with h | h <;> rw [h] at hle <;> omega

/-! ### What is granted -/

section

variable {env : Environment} {arb : ArbiterInstance} {st : AllocationState}

theorem portAliasesAvailable_mem {mirrors : List UInt64}
    (h : (uacpiNtPortAliasesAvailable env arb st mirrors).1 = true) {mirror : UInt64}
    (hmir : mirror ∈ mirrors) :
    (env.rtl.isRangeAvailable arb.possibleAllocation mirror (st.aliasRecord mirror).last
        (st.aliasTerms arb)).1 = .ok true ∨ (arbiterLibOverrideConflict arb.possibleAllocation
        (st.withWindow (mirror, (st.aliasRecord mirror).last))).1 = true := by
  induction mirrors with
  | nil => cases hmir
  | cons first rest ih =>
    rw [uacpiNtPortAliasesAvailable] at h
    split at h
    · rename_i hfst
      rcases mem_cons.mp hmir with rfl | hmir
      · exact hfst
      · exact ih h hmir
    · cases h

theorem portRounds_mirrors {fuel : Nat} (h : (portRounds env arb fuel st).1.1 = true) :
    (uacpiNtPortAliasesAvailable env arb (portRounds env arb fuel st).1.2
      (portRounds env arb fuel st).1.2.aliases).1 = true := by
  induction fuel generalizing st with
  | zero => cases h
  | succ fuel ih =>
    simp only [portRounds] at h ⊢
    by_cases hgr : (uacpiNtResFindSuitableRange env arb st).1.1 = true
    · rw [if_neg (by simp [hgr])] at h ⊢
      split at h <;> rename_i hmirs
      · rw [if_pos hmirs]
        exact hmirs
      rw [if_neg hmirs]
      split at h
      · cases h
      · rename_i hstop
        rw [if_neg hstop]
        exact ih h
    · rw [if_pos (by simpa using hgr)] at h
      exact absurd h hgr

end

/-- A record may lie in a mirror of the placement. -/
def MirrorAllowed (st : AllocationState) (x : RtlRange) : Prop :=
  st.current.any (·.shared) = true ∧ x.shared = true ∨ x.owner = none ∨
    x.attributes &&& st.rangeAvailableAttributes ≠ 0
deriving Decidable

theorem mirrorAllowed_of_available {env : Environment} (hrtl : env.rtl.Lawful)
    {arb : ArbiterInstance} (hcb : arb.conflictCallback = none) {st : AllocationState}
    (h : (uacpiNtPortAliasesAvailable env arb st st.aliases).1 = true) {mirror : UInt64}
    (hmir : mirror ∈ st.aliases) {x : RtlRange} (hx : x ∈ arb.possibleAllocation)
    (hfor : x.owner ≠ st.owner) (hov : x.Overlaps mirror (st.aliasRecord mirror).last) :
    MirrorAllowed st x := by
  rcases portAliasesAvailable_mem h hmir with havail | hovr
  · have hperm := (hrtl.available_spec _ _ _ _).mp havail x hx hov
    simp only [Terms.permits, Terms.waives, aliasTerms, hcb,
      Option.any_none, Bool.or_false, Bool.true_and, Bool.or_eq_true, Bool.and_eq_true, bne_iff_ne,
      Option.isNone_iff_eq_none] at hperm
    rcases hperm with (hsh | hper) | hnone
    · exact .inl hsh
    · exact .inr (.inr hper)
    · exact .inr (.inl hnone)
  · obtain ⟨alt, halt⟩ : ∃ alt, st.current = some alt := by
      cases halt : st.current with
      | none =>
        rw [aliases, halt] at hmir
        cases hmir
      | some alt => exact ⟨alt, rfl⟩
    have halt' : (st.withWindow (mirror, (st.aliasRecord mirror).last)).current = some alt := halt
    obtain ⟨-, -, hself⟩ := overrideConflict_granted halt' hovr
    -- A record of another device does not contest the mirror, so its attributes are available.
    have hcont : (st.withWindow (mirror, (st.aliasRecord mirror).last)).contests x = false :=
      Bool.eq_false_iff.mpr fun hcont => hfor (hself x hx hcont)
    refine .inr (.inr ?_)
    simpa [contests, withWindow, hov] using hcont

/-! ### Attributes -/

def mirrorTags : UInt8 :=
  arbiterRangeSharedDriver ||| arbiterRangePortAlias

/-- A state of a test of the port arbiter: none of the tags it gives to its own records is one
that it accepts on others. -/
structure Quiet (st : AllocationState) : Prop where
  decodes : Decodes portOps st
  owner : st.owner ≠ none
  nullConflict : st.nullConflictOk = false
  tag : st.rangeAttributes = 0 ∨ st.rangeAttributes = arbiterRangeSharedDriver
  mask : st.rangeAvailableAttributes &&& mirrorTags = 0

namespace Quiet

variable {st st' : AllocationState}

theorem of_request (h : Quiet st) (hreq : st'.request = st.request)
    (htag : st'.rangeAttributes = st.rangeAttributes ∨
      st'.rangeAttributes = st.rangeAttributes ||| arbiterRangeSharedDriver)
    (hmask : st'.rangeAvailableAttributes &&& mirrorTags = 0) : Quiet st' := by
  refine ⟨?_, ?_, ?_, ?_, hmask⟩
  · rw [Decodes, requirements_eq_of_request hreq]
    exact h.decodes
  · rw [owner_eq_of_request hreq]
    exact h.owner
  · exact (congrArg nullConflictOk hreq).trans h.nullConflict
  rcases htag with htag | htag <;> rw [htag]
  · exact h.tag
  · rcases h.tag with heq | heq
    · exact .inr (heq ▸ UInt8.zero_or)
    · exact .inr (heq ▸ UInt8.or_self)

theorem step (h : Quiet st) (hreq : st'.request = st.request) (hstep : AttributeStep st st') :
    Quiet st' := by
  refine h.of_request hreq (hstep.tag.imp_right fun ⟨_, _, _, htag⟩ => htag) ?_
  rcases hstep.available with hsame | ⟨alt, -, hopen⟩
  · rw [hsame]
    exact h.mask
  · rw [hopen, and_or_distrib, h.mask, permittedAttributes]
    cases st.entry.requestSource.isLegacy <;> cases alt.inaccessibleOk <;> rfl

theorem openBootAttributes (h : Quiet st) : Quiet st.openBootAttributes := by
  rw [AllocationState.openBootAttributes]
  split
  · refine h.of_request rfl (.inl rfl) ?_
    rw [and_or_distrib, and_or_distrib, h.mask]
    cases st.current.any (·.fixed) <;> rfl
  · exact h

theorem resFindSuitableRange (h : Quiet st) (env : Environment) (arb : ArbiterInstance) :
    Quiet (uacpiNtResFindSuitableRange env arb st).1.2 :=
  h.openBootAttributes.step (findSuitableRange_request env arb _)
    (findSuitableRange_attributes env arb _)

theorem portRounds (h : Quiet st) (env : Environment) (arb : ArbiterInstance) (fuel : Nat) :
    Quiet (portRounds env arb fuel st).1.2 := by
  induction fuel generalizing st with
  | zero => exact h
  | succ fuel ih =>
    have hfd := h.resFindSuitableRange env arb
    simp only [UacpiNt.portRounds]
    split
    · exact hfd
    split
    · exact hfd
    · split
      · exact hfd
      · exact ih ⟨hfd.decodes, hfd.owner, hfd.nullConflict, hfd.tag, hfd.mask⟩

theorem portRound {env : Environment} {arb : ArbiterInstance} (h : Quiet st)
    (hround : PortRound env arb st st') : Quiet st' := by
  induction hround with
  | first => exact h
  | next _ _ _ next _ _ _ ih =>
    have hfd := ih.resFindSuitableRange env arb
    exact ⟨hfd.decodes, hfd.owner, hfd.nullConflict, hfd.tag, hfd.mask⟩

theorem not_available {b : AllocationState} (h : Quiet st) (hb : Quiet b) (mirror : UInt64) :
    (b.aliasRecord mirror).attributes &&& st.rangeAvailableAttributes = 0 := by
  have hbits : (b.aliasRecord mirror).attributes = mirrorTags &&&
      (b.aliasRecord mirror).attributes := by
    change b.rangeAttributes ||| arbiterRangePortAlias =
      mirrorTags &&& (b.rangeAttributes ||| arbiterRangePortAlias)
    rcases hb.tag with heq | heq <;> rw [heq] <;> rfl
  rw [hbits, UInt8.and_comm, ← UInt8.and_assoc, h.mask, UInt8.zero_and]

end Quiet

section

variable (env : Environment) (arb : ArbiterInstance) (s : Search Unit)

theorem stable_quiet : Stable env portOps arb Quiet :=
  stable_of_step rfl rfl (fun _ _ hst => hst.step) fun _ _ _ hst => hst.portRounds env _ _

/-! ### Along a test -/

/-- Where `RtlFindRange` refuses and a driver-exclusive range may be shared, no mirror of a device
that was placed before lies in the window, unless both are shared. -/
def SparesMirrors (placed : List AllocationState) (st : AllocationState) : Prop :=
  ∀ alt ∈ st.current, ∀ requester ∈ st.owner,
    ((st.openAttributes alt).answer env arb alt).toBool = false →
    shareWalk env (st.openAttributes alt) alt requester arb.possibleAllocation
      (env.arbpReadRootEnumerated requester == some true) = true →
    ∀ b ∈ placed, b.requestsRoom = true → b.owner ≠ st.owner → ∀ mirror ∈ b.aliases,
      (b.aliasRecord mirror).Overlaps st.currentMinimum st.currentMaximum →
      alt.shared = true ∧ (b.aliasRecord mirror).shared = true

/-- A placement that is about to be withdrawn is not mistaken for other records with the same
keys. -/
def WithdrawsExactly : Prop :=
  s.backtracking = true → ∀ current ∈ s.pending.head?, current.requestsRoom = true →
    ∀ x ∈ s.possible, ∀ c ∈ current.portClaims, x.key = c.key → x = c
deriving Decidable

/-- What a step of the search is to meet: the mirrors of the devices below are spared, and
withdrawals are exact. -/
def SparesMirrorsNext : Prop :=
  (∀ st world st', s.sought portOps arb = some (st, world) →
    PortRound env (arb.withPossible s.possible) st st' →
    SparesMirrors env (arb.withPossible s.possible) s.placed st'.openBootAttributes) ∧
  WithdrawsExactly s

end

/-- A placement, over the base and the placements below it: whatever lies in its mirrors is
allowed there, and its records are allowed in the mirrors of the others. -/
def MirrorsFree (base : RtlRangeList) (st : AllocationState) (below : List AllocationState) :
    Prop :=
  st.requestsRoom = true →
    (∀ mirror ∈ st.aliases, ∀ x ∈ base ++ below.flatMap (held portClaims), x.owner ≠ st.owner →
      x.Overlaps mirror (st.aliasRecord mirror).last → MirrorAllowed st x) ∧
    ∀ b ∈ below, b.requestsRoom = true → st.owner ≠ b.owner → ∀ mirror ∈ b.aliases,
      ∀ c ∈ st.portClaims, c.Overlaps mirror (b.aliasRecord mirror).last → MirrorAllowed b c

section

variable {env : Environment} {arb : ArbiterInstance} {st : AllocationState}

theorem owner_of_mem_portClaims {c : RtlRange} (h : c ∈ st.portClaims) : c.owner = st.owner := by
  rcases mem_cons.mp h with rfl | h
  · rfl
  · obtain ⟨mirror, -, rfl⟩ := mem_map.mp h
    rfl

theorem shared_of_mem_portClaims {c : RtlRange} (h : c ∈ st.portClaims) :
    c.shared = st.current.any (·.shared) := by
  rcases mem_cons.mp h with rfl | h
  · rfl
  · obtain ⟨mirror, -, rfl⟩ := mem_map.mp h
    rfl

variable {placed : List AllocationState}

theorem Grant.spares_mirror (hrtl : env.rtl.Lawful) (hcb : arb.conflictCallback = none)
    {st' b : AllocationState} {alt : ArbiterAlternative} (hst : Quiet st) (hst' : Quiet st')
    (hb : Quiet b) (hspar : SparesMirrors env arb placed st) (halt : st.current = some alt)
    (hlen : alt.length ≠ 0) (h : Grant env arb st alt st') (hmem : b ∈ placed)
    (hroom : b.requestsRoom = true) (hfor : b.owner ≠ st.owner) {mirror : UInt64}
    (hmir : mirror ∈ b.aliases) (hposs : b.aliasRecord mirror ∈ arb.possibleAllocation)
    (hov : (b.aliasRecord mirror).Overlaps st'.start st'.last) :
    alt.shared = true ∧ (b.aliasRecord mirror).shared = true := by
  have hmask : (b.aliasRecord mirror).attributes &&&
      (st.openAttributes alt).rangeAvailableAttributes = 0 := by
    rw [← h.available_eq hlen]
    exact hst'.not_available hb mirror
  rcases h.permits_or_shares hrtl hlen hposs hfor hov with
    hperm | ⟨requester, e, hown, hans, hwalk⟩
  · have hnull : (st.openAttributes alt).nullConflictOk = false := hst.nullConflict
    simpa [Terms.permits, Terms.waives, terms, hcb, hmask, hnull] using hperm
  · exact hspar alt halt requester hown (hans ▸ rfl) hwalk b hmem hroom hfor mirror
      hmir (h.overlaps_window hrtl hlen hov)

theorem mirrorsFree_of_granted (hrtl : env.rtl.Lawful) (hcb : arb.conflictCallback = none)
    {base : RtlRangeList} {world : Unit} (hpl : ∀ b ∈ placed, Quiet b) (hst : Quiet st)
    (hspar : ∀ st', PortRound env arb st st' → SparesMirrors env arb placed st'.openBootAttributes)
    (hposs : ∀ x ∈ base ++ placed.flatMap (held portClaims), x ∈ arb.possibleAllocation)
    (hgr : (portOps.findSuitableRange env arb st world).granted = true) :
    MirrorsFree base (portOps.findSuitableRange env arb st world).state placed := by
  have hmirs : ∀ mirror ∈ (portOps.findSuitableRange env arb st world).state.aliases,
      ∀ x ∈ base ++ placed.flatMap (held portClaims),
      x.owner ≠ (portOps.findSuitableRange env arb st world).state.owner →
      x.Overlaps mirror
        ((portOps.findSuitableRange env arb st world).state.aliasRecord mirror).last →
      MirrorAllowed (portOps.findSuitableRange env arb st world).state x :=
    fun mirror hmir x hx hfor hov => mirrorAllowed_of_available hrtl hcb
      (portRounds_mirrors hgr) hmir (hposs x hx) hfor hov
  have hst' : Quiet (portOps.findSuitableRange env arb st world).state := hst.portRounds env arb _
  intro hroom
  refine ⟨hmirs, ?_⟩
  intro b hb hroomb hfor mirror hmir c hc hov
  have hbq := hpl b hb
  have hmem : b.aliasRecord mirror ∈ base ++ placed.flatMap (held portClaims) := by
    refine mem_append_right _ (mem_flatMap.mpr ⟨b, hb, mem_held.mpr ⟨hroomb, ?_⟩⟩)
    exact mem_cons_of_mem _ (mem_map_of_mem hmir)
  -- In each case both devices share, since nothing else lets the later one into the mirror.
  suffices hsh : (portOps.findSuitableRange env arb st world).state.current.any (·.shared) =
      true ∧ (b.aliasRecord mirror).shared = true from
    .inl ⟨hsh.2, (shared_of_mem_portClaims hc).trans hsh.1⟩
  rcases mem_cons.mp hc with rfl | hc
  · have hgr' : (ResArbiter.port.ops.findSuitableRange env arb st world).granted = true := hgr
    obtain ⟨st', alt, hsrs, halt, -, hgran⟩ := ResArbiter.exists_grant hgr'
    have hunp := ResArbiter.port.find_unplaced env arb st world
    have hcur : (portOps.findSuitableRange env arb st world).state.current = some alt :=
      (current_eq_of_unplaced hunp).trans halt
    have hlen := (requestsRoom_iff hcur).mp hroom
    rw [hcur]
    cases hsrs with
    | port hround =>
      rename_i st'
      have hown : st'.openBootAttributes.owner =
          (portOps.findSuitableRange env arb st world).state.owner :=
        (owner_eq_of_request (request_eq_of_unplaced
          ((openBootAttributes_unplaced st').trans hround.unplaced))).trans
          (owner_eq_of_request (request_eq_of_unplaced hunp)).symm
      refine hgran.spares_mirror hrtl hcb (hst.portRound hround).openBootAttributes hst'
        hbq (hspar st' hround) ?_ hlen hb hroomb (hown ▸ hfor.symm) hmir
        (hposs _ hmem) ⟨hov.2, hov.1⟩
      rw [current_openBootAttributes, current_eq_of_unplaced hround.unplaced]
      exact halt
  · obtain ⟨mirror', hmir', rfl⟩ := mem_map.mp hc
    rcases hmirs mirror' hmir' _ hmem hfor.symm ⟨hov.2, hov.1⟩ with
      hsh | hnone | hper
    · exact hsh
    · exact absurd hnone hbq.owner
    · exact absurd (hst'.not_available hbq mirror) hper

end

section

variable {env : Environment} {arb : ArbiterInstance} {fuel : Nat}
  {entries : List ArbiterListEntry} {allocateFrom : Option (List CmPartialResourceDescriptor)}
  {r : TransactionResult Unit}

theorem port_frames (env : Environment) : Frames env portOps := ResArbiter.port.frames env

variable {st : AllocationState}

theorem portClaims_width (hrtl : env.rtl.Lawful) {world : Unit} (hst : Decodes portOps st)
    (hgr : (portOps.findSuitableRange env arb st world).granted = true) :
    ∀ c ∈ (portOps.findSuitableRange env arb st world).state.portClaims, c.start ≤ c.last :=
  ResArbiter.port.claims_width_of_granted hrtl hst hgr

theorem test_books_portClaims (hrtl : env.rtl.Lawful)
    (htest : arbpTestAllocation env portOps fuel arb entries allocateFrom () = some r)
    (hok : r.status = .ok ()) (hst : st ∈ r.stack) (hroom : st.requestsRoom = true) {c : RtlRange}
    (hc : c ∈ st.portClaims) : ∃ x ∈ r.arbiter.possibleAllocation, x.key = c.key := by
  obtain ⟨setup, -, hset, -⟩ := testAllocation_ok htest hok
  have hstab := (port_frames env).decodes setup.arbiter
  obtain ⟨placed, hpl⟩ : ∃ placed, TestSolution portOps setup Range.key portClaims
      (Decodes portOps) (fun _ _ => True) r placed := by
    refine solution_of_test (port_books hrtl) (port_frames env) hstab (fun _ _ h => h)
      (L := fun _ => True) (fun _ _ _ _ _ _ _ _ _ => trivial)
      (fun s hinv _ => ⟨fun _ _ _ _ _ _ _ _ h => h, ?_, ?_⟩)
      (fun _ _ hbuilt => hbuilt.decodes) hset htest hok (testAlong_of_forall fun _ _ => trivial)
    · intro st world hso hgr _
      exact ⟨trivial, portClaims_width hrtl (hinv.sought hstab hso) hgr⟩
    · intro st world hso _ _
      exact ⟨hstab.find s.possible st world (hinv.sought hstab hso), trivial⟩
  obtain ⟨st₀, hst₀, hpack⟩ := hpl.exists_placed hst
  have hcl : st.portClaims = st₀.portClaims := by
    rw [hpack.state]
    rfl
  exact hpl.exists_record hst₀ (hpack.requestsRoom ▸ hroom) (hcl ▸ hc)

theorem mirrorsFree_step (hrtl : env.rtl.Lawful) (hcb : arb.conflictCallback = none)
    {base : RtlRangeList} {s : Search Unit}
    (hinv : s.Inv base id portClaims Quiet (MirrorsFree base) fun _ => True)
    (hnext : SparesMirrorsNext env arb s) :
    s.StepOk env portOps arb id portClaims Quiet (MirrorsFree base) := by
  have hstab := stable_quiet env arb
  refine ⟨?_, ?_, ?_⟩
  · intro hback current above hpend x hx c hc hkey
    obtain ⟨hroom, hc⟩ := mem_held.mp hc
    exact hnext.2 hback current (by simp [hpend]) hroom x hx c hc hkey
  · intro st world hso hgr _
    have hst := hinv.sought hstab hso
    have hcb' : (arb.withPossible s.possible).conflictCallback = none := hcb
    refine ⟨mirrorsFree_of_granted hrtl hcb' hinv.placed_all hst
      (fun st' => hnext.1 st world st' hso) ?_ hgr,
      portClaims_width hrtl hst.decodes hgr⟩
    intro x hx
    have hmem : x ∈ s.possible.map id := by
      refine hinv.booked.mem_iff.mpr ?_
      rw [map_id, map_id]
      rcases mem_append.mp hx with hx | hx
      · exact mem_append_right _ hx
      · obtain ⟨b, hb, hx⟩ := mem_flatMap.mp hx
        exact mem_append_left _ (mem_flatMap.mpr ⟨b, mem_append_right _ hb, hx⟩)
    rwa [map_id] at hmem
  · intro st world hso _ hnone
    have h := hstab.find s.possible st world (hinv.sought hstab hso)
    exact ⟨⟨h.decodes, h.owner, h.nullConflict, h.tag, h.mask⟩,
      fun hroom => absurd (hnone.symm.trans hroom) Bool.false_ne_true⟩

theorem mirrorAllowed_of_stacked {base : RtlRangeList} {placed : List AllocationState}
    (h : Stacked (MirrorsFree base) placed) (hst : st ∈ placed) (hroom : st.requestsRoom = true)
    {mirror : UInt64} (hmir : mirror ∈ st.aliases) {x : RtlRange}
    (hx : x ∈ placed.flatMap (held portClaims) ++ base) (hfor : x.owner ≠ st.owner)
    (hov : x.Overlaps mirror (st.aliasRecord mirror).last) : MirrorAllowed st x := by
  rcases mem_append.mp hx with hx | hx
  · obtain ⟨b, hb, hheld⟩ := mem_flatMap.mp hx
    obtain ⟨hroom', hcl⟩ := mem_held.mp hheld
    rcases h.above_or_below hst hb with rfl | ⟨below, hfree, hmem⟩ | ⟨below, hfree, hmem⟩
    · exact absurd (owner_of_mem_portClaims hcl) hfor
    · exact (hfree hroom).1 mirror hmir x
        (mem_append_right _ (mem_flatMap.mpr ⟨b, hmem, hheld⟩)) hfor hov
    · rw [owner_of_mem_portClaims hcl] at hfor
      exact (hfree hroom').2 st hmem hroom hfor mirror hmir x hcl hov
  · obtain ⟨below, hfree⟩ := h.exists_below hst
    exact (hfree hroom).1 mirror hmir x (mem_append_left _ hx) hfor hov

/-- After every successful test of the port arbiter, each entry with 10 or 12 bit decode has a
record of its length at each of its mirrors. If every entry names a device and every step of the
search spares the mirrors of the devices placed before, whatever else lies in a mirror is shared
with it, has no owner or has an attribute that the entry accepts. -/
theorem port_mirrors_claimed_and_free (hrtl : env.rtl.Lawful)
    (hcallback : arb.conflictCallback = none)
    (htest : arbpTestAllocation env portOps fuel arb entries allocateFrom () = some r)
    (hok : r.status = .ok ()) {st : AllocationState} (hst : st ∈ r.stack)
    {alt : ArbiterAlternative} (halt : st.current = some alt) (hlength : alt.length ≠ 0)
    {stride : UInt64} (hstride : portAliasStride alt.descriptor.flags = some stride) {k : Nat}
    (hk : 1 ≤ k) (hmirror : st.start.toNat + k * stride.toNat ≤ 0xFFFF) :
    (∃ x ∈ r.arbiter.possibleAllocation, x.start.toNat = st.start.toNat + k * stride.toNat ∧
      x.last = x.start + alt.length - 1 ∧ x.owner = st.owner) ∧
    ((∀ e ∈ entries, e.physicalDeviceObject ≠ none) →
      TestAlong env portOps fuel arb entries allocateFrom () (SparesMirrorsNext env) →
      ∀ x ∈ r.arbiter.possibleAllocation, x.owner ≠ st.owner →
        x.Overlaps (.ofNat (st.start.toNat + k * stride.toNat))
          (.ofNat (st.start.toNat + k * stride.toNat) + alt.length - 1) →
        MirrorAllowed st x) := by
  have hroom : st.requestsRoom = true := (requestsRoom_iff halt).mpr hlength
  have hmem : UInt64.ofNat (st.start.toNat + k * stride.toNat) ∈ st.aliases := by
    rw [aliases, halt]
    simp only
    rw [if_neg hlength]
    exact mem_portAliases hstride hk hmirror
  have hlast : ∀ mirror, (st.aliasRecord mirror).last = mirror + alt.length - 1 := by
    intro mirror
    simp only [aliasRecord, halt, Option.elim_some]
  constructor
  · obtain ⟨x, hx, hkey⟩ := test_books_portClaims hrtl htest hok hst hroom
      (List.mem_cons_of_mem _ (List.mem_map_of_mem hmem))
    obtain ⟨hstart, hend, howner⟩ := RangeList.Range.fields_of_key hkey
    refine ⟨x, hx, ?_, ?_, howner⟩
    · rw [hstart]
      exact UInt64.toNat_ofNat_of_lt' (by rw [UInt64.size]; omega)
    · rw [hend, hlast, hstart]
      rfl
  · intro hdevices halong x hx hforeign hoverlaps
    obtain ⟨setup, -, hsetup, -⟩ := testAllocation_ok htest hok
    obtain ⟨-, -, size, -, -, harb, -, -⟩ := testSetup_ok hsetup
    have hcallback' : setup.arbiter.conflictCallback = none := by
      rw [harb]
      exact hcallback
    have hquiet : ∀ st ∈ setup.states, Built portOps st → Quiet st := by
      intro st hst hbuilt
      obtain ⟨-, e, he, hsame⟩ := mem_setup_states hsetup hst
      have hfresh := hbuilt.fresh
      refine ⟨hbuilt.decodes, ?_, ?_, .inl ?_, ?_⟩
      · rw [AllocationState.owner, hsame]
        exact hdevices e he
      · rw [hfresh]
        rfl
      · rw [hfresh]
        rfl
      · rw [hfresh]
        exact UInt8.zero_and
    obtain ⟨placed, hplaced⟩ := solution_of_test (port_books hrtl) (port_frames env)
      (stable_quiet env setup.arbiter) (fun _ _ h => congrArg RangeList.Range.key h)
      (fun _ _ _ _ _ _ _ _ _ => trivial) (fun s => mirrorsFree_step hrtl hcallback') hquiet
      hsetup htest hok halong
    obtain ⟨st₀, hst₀, hpacked⟩ := hplaced.exists_placed hst
    have hallowed : MirrorAllowed st₀ x ↔ MirrorAllowed st x := by
      rw [hpacked.state]
      rfl
    have haliases : st.aliases = st₀.aliases := by
      rw [hpacked.state]
      rfl
    have hrecord : st.aliasRecord = st₀.aliasRecord := by
      rw [hpacked.state]
      rfl
    have hbooked := hplaced.booked.mem_iff.mp (List.mem_map_of_mem hx)
    simp only [List.map_id'] at hbooked
    refine hallowed.mp (mirrorAllowed_of_stacked hplaced.stacked hst₀
      (hpacked.requestsRoom ▸ hroom) (haliases ▸ hmem) hbooked (hpacked.owner ▸ hforeign) ?_)
    rw [← hrecord, hlast]
    exact hoverlaps

end

def IoResourceDescriptor.ofPort (disposition : ShareDisposition) (flags : UInt16)
    (minimum maximum : UInt64) (length : UInt32) : IoResourceDescriptor :=
  ⟨0, disposition, flags, .port minimum maximum length 1⟩

def ArbiterInstance.plainPort (allocation : RtlRangeList) : ArbiterInstance :=
  { ArbiterInstance.initial .port .free .free none with allocation := allocation }

theorem sparesMirrors_reference (arb : ArbiterInstance) (placed : List AllocationState)
    (st : AllocationState) : SparesMirrors .reference arb placed st := by
  intro alt _ requester _ _ hwalk
  have hclos : (Environment.reference.arbpReadRootEnumerated requester == some true) = false :=
    rfl
  rw [hclos, shareWalk_reference] at hwalk
  cases hwalk

theorem mirror_over_shared_ports :
    ∃ r st x, arbpTestAllocation .reference portOps 10
        (.plainPort [⟨0x580, 0x58F, 0, true, some ⟨2⟩⟩])
        [.request ⟨3⟩ [.ofPort .shared 0x0004 0x180 0x18F 0x10]] none () = some r ∧
      r.status = .ok () ∧ r.stack = [st] ∧ st.start = 0x180 ∧
      (∃ y ∈ r.arbiter.possibleAllocation, y.start.toNat = 0x580 ∧ y.last = y.start + 0x10 - 1 ∧
        y.owner = some ⟨3⟩) ∧
      x ∈ r.arbiter.possibleAllocation ∧ x.owner = some ⟨2⟩ ∧ x.Overlaps 0x580 0x58F ∧
      MirrorAllowed st x := by
  have htest : arbpTestAllocation .reference portOps 10
      (.plainPort [⟨0x580, 0x58F, 0, true, some ⟨2⟩⟩])
      [.request ⟨3⟩ [.ofPort .shared 0x0004 0x180 0x18F 0x10]] none () = some _ := rfl
  have hexact : TestAlong .reference portOps 10
      (.plainPort [⟨0x580, 0x58F, 0, true, some ⟨2⟩⟩])
      [.request ⟨3⟩ [.ofPort .shared 0x0004 0x180 0x18F 0x10]] none ()
      (fun _ => WithdrawsExactly) := by decide
  have halong := hexact.mono fun arb s h => show SparesMirrorsNext .reference arb s from
    ⟨fun _ _ st' _ _ => sparesMirrors_reference _ _ st'.openBootAttributes, h⟩
  have hmirror := port_mirrors_claimed_and_free Environment.reference_lawful rfl htest rfl
    List.mem_cons_self rfl (by decide) (show portAliasStride 0x0004 = some 0x400 from rfl)
    (le_refl 1) (by decide)
  exact ⟨_, _, ⟨0x580, 0x58F, 0, true, some ⟨2⟩⟩, rfl, rfl, rfl, rfl, hmirror.1, by decide, rfl,
    by decide, hmirror.2 (by decide) halong _ (by decide) (by decide) (by decide)⟩

/-- Device 1 is let into a whole window because it shares a driver with device 2 there; the
mirror of device 3 in the same window is overlapped. -/
theorem mirror_overlapped_by_sharing :
    ∃ r st x, arbpTestAllocation (.withDrivers fun d => if d = ⟨3⟩ then [8] else [7]) portOps 10
        (.plainPort [⟨0x500, 0x50F, 0, false, some ⟨2⟩⟩])
        [.request ⟨3⟩ [.ofPort .deviceExclusive 0x0004 0x180 0x18F 0x10],
          .request ⟨1⟩ [.ofPort .driverExclusive 0 0x500 0x5FF 0x100]] none () = some r ∧
      r.status = .ok () ∧ st ∈ r.stack ∧ st.owner = some ⟨3⟩ ∧ st.start = 0x180 ∧
      x ∈ r.arbiter.possibleAllocation ∧ x.owner = some ⟨1⟩ ∧ x.Overlaps 0x580 0x58F ∧
      ¬ MirrorAllowed st x := by
  have hview : (arbpTestAllocation (.withDrivers fun d => if d = ⟨3⟩ then [8] else [7]) portOps 10
      (.plainPort [⟨0x500, 0x50F, 0, false, some ⟨2⟩⟩])
      [.request ⟨3⟩ [.ofPort .deviceExclusive 0x0004 0x180 0x18F 0x10],
        .request ⟨1⟩ [.ofPort .driverExclusive 0 0x500 0x5FF 0x100]] none ()).map
      (fun r => (r.status, r.stack.head?.map fun st => (st.owner, st.start, decide (MirrorAllowed st
        ⟨0x500, 0x5FF, arbiterRangeSharedDriver, false, some ⟨1⟩⟩)),
        r.arbiter.possibleAllocation.contains
          ⟨0x500, 0x5FF, arbiterRangeSharedDriver, false, some ⟨1⟩⟩)) =
      some (.ok (), some (some ⟨3⟩, 0x180, false), true) := rfl
  obtain ⟨r, hrun, hview⟩ := Option.map_eq_some_iff.mp hview
  obtain ⟨hstatus, hrest⟩ := Prod.mk.inj hview
  obtain ⟨hhead, hmem⟩ := Prod.mk.inj hrest
  obtain ⟨st, hst, hfields⟩ := Option.map_eq_some_iff.mp hhead
  obtain ⟨howner, hfields⟩ := Prod.mk.inj hfields
  obtain ⟨hstart, hallowed⟩ := Prod.mk.inj hfields
  exact ⟨r, st, _, hrun, hstatus, List.mem_of_mem_head? hst, howner, hstart,
    List.contains_iff_mem.mp hmem, rfl, by decide, of_decide_eq_false hallowed⟩

end UacpiNt
