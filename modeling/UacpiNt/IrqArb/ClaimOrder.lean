import UacpiNt.IrqArb.Counts
import UacpiNt.IrqLib.Reachable

/-!
# The order in which messages are claimed

A commit visits the placements from the lowest line number up, and each run gets the lowest
vectors that are free. So of the runs of one length that a device gets in one commit, a higher
placement has higher vectors. The connection data lists the higher placement first, but the HAL
is given the lower vectors first: the two orders are opposite.
-/

namespace UacpiNt

open List VectorState

variable {api : IdtApi} {grant : HalGrant} {host : IrqLibHost} {owner : DeviceObject}
  {count : UInt32} {s s' : VectorState}

/-! ### Runs of one length -/

def runsOf (s : VectorState) (owner : DeviceObject) (count : UInt32) :
    List (Fin maxMessageRuns) :=
  (List.finRange maxMessageRuns).filter fun i =>
    decide ((s.messageRuns i).owner = some owner ∧ (s.messageRuns i).count = count)

theorem mem_runsOf {i : Fin maxMessageRuns} : i ∈ runsOf s owner count ↔
    (s.messageRuns i).owner = some owner ∧ (s.messageRuns i).count = count := by
  simp [runsOf]

theorem mem_runsOf_setRun (hruns : s'.messageRuns = s.messageRuns) {i j : Fin maxMessageRuns}
    (hslot : (s.messageRuns i).owner = none) {run : MessageRun}
    (h : j ∈ runsOf (s'.setRun i run) owner count) :
    (j = i ∧ run.owner = some owner ∧ run.count = count) ∨ (j ≠ i ∧ j ∈ runsOf s owner count) := by
  rw [mem_runsOf] at h
  by_cases hj : j = i
  · subst hj
    rw [setRun_self] at h
    exact .inl ⟨rfl, h⟩
  · rw [setRun_of_ne s' run hj, hruns] at h
    exact .inr ⟨hj, mem_runsOf.mpr h⟩

theorem allocateVectorRange_le {base b : UInt32} (hcnt : count ≠ 0)
    (h : uacpiNtApicAllocateVectorRange api count s = (.ok base, s'))
    (hrun : RunAt api s count b) : base.toNat ≤ b.toNat := by
  obtain ⟨found, hfd, hle⟩ := hrun.search hcnt
  obtain ⟨hsearch, -⟩ := allocateVectorRange_ok h
  rw [defaultCount_of_ne_zero hcnt] at hsearch
  cases hsearch.symm.trans hfd
  exact hle

/-- The runs of an owner with a length, while a commit hands them out: higher placements have
higher vectors, and what is available is higher than all of them. -/
structure Rising (api : IdtApi) (host : IrqLibHost) (owner : DeviceObject) (count bound : UInt32)
    (s : VectorState) : Prop where
  below : ∀ i ∈ runsOf s owner count, ∀ b, RunAt api s count b →
    (s.messageRuns i).base.toNat < b.toNat
  bounded : ∀ i ∈ runsOf s owner count, (s.messageRuns i).messageGsiv ≤ bound
  rising : ∀ i ∈ runsOf s owner count, ∀ j ∈ runsOf s owner count,
    (s.messageRuns i).messageGsiv < (s.messageRuns j).messageGsiv →
      (s.messageRuns i).base.toNat < (s.messageRuns j).base.toNat
  distinct : ∀ i ∈ runsOf s owner count, ∀ j ∈ runsOf s owner count,
    (s.messageRuns i).base = (s.messageRuns j).base → i = j
  unclaimed : ∀ i ∈ runsOf s owner count, (s.messageRuns i).claimed = false
  apic : ∀ i ∈ runsOf s owner count, host.interruptModel = acpiNtApic

namespace Rising

variable {bound : UInt32}

theorem of_none (h : runsOf s owner count = []) (bound : UInt32) :
    Rising api host owner count bound s := by
  have hnone : ∀ i, i ∉ runsOf s owner count := fun i hi => by
    rw [h] at hi
    cases hi
  exact ⟨fun i hi => absurd hi (hnone i), fun i hi => absurd hi (hnone i),
    fun i hi => absurd hi (hnone i), fun i hi => absurd hi (hnone i),
    fun i hi => absurd hi (hnone i), fun i hi => absurd hi (hnone i)⟩

variable (h : Rising api host owner count bound s)

include h

theorem mono {bound' : UInt32} (hle : bound ≤ bound') : Rising api host owner count bound' s :=
  { h with bounded := fun i hi => UInt32.le_trans (h.bounded i hi) hle }

theorem of_grows (hgrows : Grows api s s') (hruns : s'.messageRuns = s.messageRuns) :
    Rising api host owner count bound s' := by
  have hmem : runsOf s' owner count = runsOf s owner count := by rw [runsOf, runsOf, hruns]
  constructor
  · intro i hi b hb
    rw [hmem] at hi
    rw [hruns]
    exact h.below i hi b (hgrows.runAt hb)
  · rw [hmem, hruns]
    exact h.bounded
  · rw [hmem, hruns]
    exact h.rising
  · rw [hmem, hruns]
    exact h.distinct
  · rw [hmem, hruns]
    exact h.unclaimed
  · rw [hmem]
    exact h.apic

theorem enter (hapi : api.Lawful) {lines : List (UInt32 × UInt32)}
    (hled : Ledger api grant lines s) (hwide : s.Wide)
    (hmodel : host.interruptModel = acpiNtApic) {owner' : DeviceObject} {gsiv given base : UInt32}
    (hbound : bound ≤ gsiv) (hgiven : given ≠ 0) (hsmall : given ≤ 0xFFFFFFB0)
    {i : Fin maxMessageRuns} (hslot : (s.messageRuns i).owner = none)
    (hrng : uacpiNtApicAllocateVectorRange api given s = (.ok base, s')) :
    Rising api host owner count gsiv (s'.setRun i ⟨some owner', gsiv, base, given, false⟩) := by
  have hruns := (allocateVectorRange_frame hrng).2.2
  have hgrows : Grows api s (s'.setRun i ⟨some owner', gsiv, base, given, false⟩) :=
    (grows_allocateVectorRange hapi hwide hgiven hrng).of_eq rfl
  have hbase := runAt_of_allocateVectorRange hgiven hsmall hrng
  have hself := setRun_self s' i ⟨some owner', gsiv, base, given, false⟩
  have hoth : ∀ j, j ≠ i → (s'.setRun i ⟨some owner', gsiv, base, given, false⟩).messageRuns j =
      s.messageRuns j := by
    intro j hj
    rw [setRun_of_ne s' _ hj, hruns]
  -- The new base is not free any more.
  have hused : uacpiNtVectorFreeEverywhere api
      (s'.setRun i ⟨some owner', gsiv, base, given, false⟩) base = false := by
    have hafter := hled.allocateVectorRange hapi hgiven hrng hslot owner' gsiv false
    have hpos : given.toNat ≠ 0 := fun h => hgiven (UInt32.toNat_inj.mp h)
    have hnot := hafter.run_not_free hapi (i := i) (v := base)
    rw [hself] at hnot
    refine hnot hbase.inBand ⟨Nat.le_refl _, ?_⟩
    exact Nat.lt_add_of_pos_right (Nat.pos_of_ne_zero hpos)
  have hlower : given = count → ∀ j ∈ runsOf s owner count,
      (s.messageRuns j).base.toNat < base.toNat := by
    rintro rfl j hj
    exact h.below j hj base hbase
  constructor
  · intro j hj b hb
    have hbef : RunAt api s count b := hgrows.runAt hb
    rcases mem_runsOf_setRun hruns hslot hj with ⟨rfl, -, rfl⟩ | ⟨hne, hj⟩
    · rw [hself]
      refine Nat.lt_of_le_of_ne (allocateVectorRange_le hgiven hrng hbef) fun heq => ?_
      have hfree := hb.free_base hgiven
      rw [← UInt32.toNat_inj.mp heq, hused] at hfree
      cases hfree
    · rw [hoth j hne]
      exact h.below j hj b hbef
  · intro j hj
    rcases mem_runsOf_setRun hruns hslot hj with ⟨rfl, -, -⟩ | ⟨hne, hj⟩
    · rw [hself]
      exact UInt32.le_refl _
    · rw [hoth j hne]
      exact UInt32.le_trans (h.bounded j hj) hbound
  · intro j hj k hk hlt
    rcases mem_runsOf_setRun hruns hslot hj with ⟨rfl, -, -⟩ | ⟨hne, hj'⟩
    · rw [hself] at hlt
      rcases mem_runsOf_setRun hruns hslot hk with ⟨rfl, -, -⟩ | ⟨hne', hk'⟩
      · rw [hself] at hlt
        exact absurd hlt (UInt32.lt_irrefl _)
      · rw [hoth k hne'] at hlt
        exact absurd (UInt32.le_trans (h.bounded k hk') hbound) (UInt32.not_le.mpr hlt)
    · rcases mem_runsOf_setRun hruns hslot hk with ⟨rfl, -, hlen⟩ | ⟨hne', hk'⟩
      · rw [hself, hoth j hne]
        exact hlower hlen j hj'
      · rw [hoth j hne, hoth k hne'] at hlt ⊢
        exact h.rising j hj' k hk' hlt
  · intro j hj k hk heq
    rcases mem_runsOf_setRun hruns hslot hj with ⟨rfl, -, hlen⟩ | ⟨hne, hj'⟩
    · rcases mem_runsOf_setRun hruns hslot hk with ⟨rfl, -, -⟩ | ⟨hne', hk'⟩
      · rfl
      rw [hself, hoth k hne'] at heq
      have hlt := hlower hlen k hk'
      simp only at heq
      rw [heq] at hlt
      exact absurd hlt (Nat.lt_irrefl _)
    · rcases mem_runsOf_setRun hruns hslot hk with ⟨rfl, -, hlen⟩ | ⟨hne', hk'⟩
      · rw [hself, hoth j hne] at heq
        have hlt := hlower hlen j hj'
        rw [heq] at hlt
        exact absurd hlt (Nat.lt_irrefl _)
      · rw [hoth j hne, hoth k hne'] at heq
        exact h.distinct j hj' k hk' heq
  · intro j hj
    rcases mem_runsOf_setRun hruns hslot hj with ⟨rfl, -, -⟩ | ⟨hne, hj⟩
    · rw [hself]
    · rw [hoth j hne]
      exact h.unclaimed j hj
  · exact fun _ _ => hmodel

theorem resolveMessage (hapi : api.Lawful) (hreach : s.Reachable api host grant)
    {owner' : DeviceObject} {gsiv count' : UInt32} (hbound : bound ≤ gsiv) (hcnt : count' ≠ 0)
    (hsmall : count' ≤ 32) : Rising api host owner count gsiv
      (uacpiNtIrqLibResolveMessageVector api host owner' gsiv count' s).2 := by
  obtain ⟨lines, hled⟩ := hreach.ledger hapi
  have hcall := (Prod.mk.eta (p := uacpiNtIrqLibResolveMessageVector api host owner' gsiv count'
    s)).symm
  cases hres : (uacpiNtIrqLibResolveMessageVector api host owner' gsiv count' s).1 with
  | error e =>
    rcases resolveMessageVector_cases api host owner' gsiv count' s with
      ⟨e', heq⟩ | ⟨i, -, heq⟩ | ⟨-, i, base, given, s₁, -, -, -, heq⟩
    · rw [heq]
      exact h.mono hbound
    · rw [heq] at hres
      cases hres
    · rw [heq] at hres
      cases hres
  | ok resolved =>
    rw [hres] at hcall
    rcases resolveMessage_ok hcall hcnt with
      ⟨i, -, hsame, -⟩ | ⟨-, i, given, s₁, hslot, hgiven, hrng, hst⟩
    · rw [hsame]
      exact h.mono hbound
    have hgiven' : given ≠ 0 ∧ given ≤ 0xFFFFFFB0 := by
      rcases hgiven with rfl | ⟨rfl, -⟩
      · exact ⟨hcnt, UInt32.le_trans hsmall (by decide)⟩
      · decide
    rw [hst]
    exact h.enter hapi hled (hreach.wide hapi) (apic_of_resolveMessage hcall) hbound
      hgiven'.1 hgiven'.2 hslot hrng

end Rising

/-! ### A commit -/

section

variable (api) (host) (write : PropertyWriter)

theorem writeConnectionData_vectors_eq (triggers : GsivTriggers) (owner : DeviceObject)
    (gsiv count : UInt32) (c : ConnectionState) :
    (uacpiNtIrqLibWriteConnectionData api host write triggers owner gsiv count c).2.vectors =
      if gsiv ≥ messageGsivBase then
        (uacpiNtIrqLibResolveMessageVector api host owner gsiv (defaultCount count) c.vectors).2
      else if uacpiNtOwnerHasMessages c.vectors owner then c.vectors
      else (uacpiNtIrqLibResolveVector api host triggers gsiv c.vectors).2 := by
  rw [uacpiNtIrqLibWriteConnectionData]
  split
  · rw [uacpiNtWriteMessageConnectionData]
    split <;> rename_i heq
    · rw [heq]
    · rw [setConnectionData_vectors, heq]
  · split
    · rfl
    · split <;> rename_i heq
      · rw [heq]
      · rw [setConnectionData_vectors, heq]

/-- The recorded counts are those of requirements. -/
def MessageCounts (records : List MsiRecord) : Prop :=
  ∀ r ∈ records, r.messageCount ≤ 32

theorem msiGsivBase_le {gsiv : UInt64} (hmsg : gsiv.toUInt32 ≥ messageGsivBase) :
    msiGsivBase ≤ gsiv := by
  have hbase : messageGsivBase.toNat = 0xFFF00000 := rfl
  have hbase' : msiGsivBase.toNat = 0xFFF00000 := rfl
  rw [ge_iff_le, UInt32.le_iff_toNat_le, UInt64.toNat_toUInt32] at hmsg
  rw [UInt64.le_iff_toNat_le]
  omega

theorem placementLength_message {records : List MsiRecord} (hcnts : MessageCounts records)
    {r : RtlRange} (hmsg : r.start.toUInt32 ≥ messageGsivBase) :
    placementLength records r ≠ 0 ∧ placementLength records r ≤ 32 := by
  rw [placementLength, if_neg (UInt64.not_lt.mpr (msiGsivBase_le hmsg))]
  refine ⟨defaultCount_ne_zero _, ?_⟩
  rw [defaultCount]
  split
  · decide
  rw [uacpiNtMsiCountLookup]
  cases hfind : records.find? fun x => x.start == r.start with
  | none => exact (by decide : (0 : UInt32) ≤ 32)
  | some x => exact hcnts x (mem_of_find?_eq_some hfind)

theorem commitRange_cases (self : DeviceObject) (sys : IrqSystem) (r : RtlRange) :
    (commitRange api host write self sys r).world = sys.world ∧
      ((commitRange api host write self sys r).connection.vectors = sys.connection.vectors ∨
        ∃ owner, r.owner = some owner ∧ ((r.start.toUInt32 ≥ messageGsivBase ∧
            (commitRange api host write self sys r).connection.vectors =
              (uacpiNtIrqLibResolveMessageVector api host owner r.start.toUInt32
                (defaultCount (placementLength sys.world.msiRecords r)) sys.connection.vectors).2) ∨
          (commitRange api host write self sys r).connection.vectors =
            (uacpiNtIrqLibResolveVector api host sys.world.triggers r.start.toUInt32
              sys.connection.vectors).2)) := by
  rw [commitRange]
  cases hown : r.owner with
  | none => exact ⟨rfl, .inl rfl⟩
  | some owner =>
    simp only
    split
    · exact ⟨rfl, .inl rfl⟩
    have hvec := writeConnectionData_vectors_eq api host write sys.world.triggers owner
      r.start.toUInt32 (placementLength sys.world.msiRecords r) sys.connection
    have hcases : ∀ c : ConnectionState,
        c.vectors = (uacpiNtIrqLibWriteConnectionData api host write sys.world.triggers owner
          r.start.toUInt32 (placementLength sys.world.msiRecords r)
          sys.connection).2.vectors →
        c.vectors = sys.connection.vectors ∨ ∃ owner', some owner = some owner' ∧
          ((r.start.toUInt32 ≥ messageGsivBase ∧
            c.vectors = (uacpiNtIrqLibResolveMessageVector api host owner' r.start.toUInt32
              (defaultCount (placementLength sys.world.msiRecords r))
              sys.connection.vectors).2) ∨
          c.vectors = (uacpiNtIrqLibResolveVector api host sys.world.triggers
            r.start.toUInt32 sys.connection.vectors).2) := by
      intro c hc
      rw [hc, hvec]
      split
      · exact .inr ⟨owner, rfl, .inl ⟨‹_›, rfl⟩⟩
      · split
        · exact .inl rfl
        · exact .inr ⟨owner, rfl, .inr rfl⟩
    split <;> rename_i heq <;> exact ⟨rfl, hcases _ (by rw [heq])⟩

end

theorem Rising.commitRanges (hapi : api.Lawful) (write : PropertyWriter) (self : DeviceObject)
    (sys : IrqSystem) {ranges : RtlRangeList} (hcnts : MessageCounts sys.world.msiRecords)
    (hasc : ranges.Pairwise fun x y => x.start.toUInt32 ≤ y.start.toUInt32)
    {bound : UInt32} (hbound : ∀ r ∈ ranges, bound ≤ r.start.toUInt32)
    (hreach : sys.connection.vectors.Reachable api host grant)
    (h : Rising api host owner count bound sys.connection.vectors) :
    ∃ bound', Rising api host owner count bound'
      (ranges.foldl (commitRange api host write self) sys).connection.vectors := by
  induction ranges generalizing sys bound with
  | nil => exact ⟨bound, h⟩
  | cons r rest ih =>
    rw [forall_mem_cons] at hbound
    obtain ⟨hfst, hrest⟩ := pairwise_cons.mp hasc
    obtain ⟨hworld, hvec⟩ := commitRange_cases api host write self sys r
    rcases hvec with hsame | ⟨owner', -, ⟨hmsg, hmes⟩ | hline⟩
    · refine ih _ (hworld ▸ hcnts) hrest hbound.2 ?_ ?_
      · rw [hsame]
        exact hreach
      · rw [hsame]
        exact h
    · obtain ⟨hne, hsmall⟩ := placementLength_message hcnts hmsg
      have hdef : defaultCount (placementLength sys.world.msiRecords r) =
          placementLength sys.world.msiRecords r := if_neg hne
      rw [hdef] at hmes
      refine ih _ (hworld ▸ hcnts) hrest hfst ?_ ?_
      · rw [hmes]
        exact hreach.apply (.resolveMessageVector owner' _ _)
      · rw [hmes]
        exact h.resolveMessage hapi hreach hbound.1 hne hsmall
    · refine ih _ (hworld ▸ hcnts) hrest hbound.2 ?_ ?_
      · rw [hline]
        exact hreach.apply (.resolveVector _ _)
      · rw [hline]
        exact h.of_grows (grows_resolveVector hapi (hreach.wide hapi) _ _)
          (resolveVector_messageRuns api host _ _ _)

/-! ### The claims of the HAL -/

/-- What the HAL is given for so many calls in a row. -/
def halClaims (api : IdtApi) (host : IrqLibHost) (owner : DeviceObject) (count : UInt32) :
    Nat → VectorState → List (Except NtError UInt32)
  | 0, _ => []
  | calls + 1, s =>
    let (r, s') := uacpiNtHalAllocateMessageTargetOverride api host true owner count s
    r.map (·.1) :: halClaims api host owner count calls s'

section

variable (s) (i j : Fin maxMessageRuns)

def lowerRun : Bool :=
  decide ((s.messageRuns i).base < (s.messageRuns j).base)

theorem lowerRun_irrefl : lowerRun s i i = false :=
  decide_eq_false (UInt32.lt_irrefl _)

theorem lowerRun_trans (k : Fin maxMessageRuns) (hij : lowerRun s i j = true)
    (hjk : lowerRun s j k = true) : lowerRun s i k = true :=
  decide_eq_true (UInt32.lt_trans (of_decide_eq_true hij) (of_decide_eq_true hjk))

end

theorem unclaimedRuns_claim {i : Fin maxMessageRuns} :
    unclaimedRuns (s.setRun i { s.messageRuns i with claimed := true }) owner count =
      (unclaimedRuns s owner count).erase i := by
  have hnd : (unclaimedRuns s owner count).Nodup := (nodup_finRange _).filter _
  rw [hnd.erase_eq_filter, unclaimedRuns, unclaimedRuns, filter_filter]
  refine filter_congr fun j _ => ?_
  by_cases hj : j = i
  · subst hj
    simp
  · simp [setRun_of_ne s _ hj, hj]

theorem halClaims_eq (api : IdtApi) (hmodel : host.interruptModel = acpiNtApic) (hcnt : count ≠ 0)
    {calls : Nat} (hcalls : calls ≤ (unclaimedRuns s owner count).length) :
    halClaims api host owner count calls s =
      (Selection.order (lowerRun s) calls (unclaimedRuns s owner count)).map
        fun i => .ok (s.messageRuns i).base := by
  have hdef := defaultCount_of_ne_zero hcnt
  induction calls generalizing s with
  | zero => rfl
  | succ calls ih =>
    obtain ⟨i, l, hl⟩ := exists_cons_of_length_pos (Nat.zero_lt_of_lt hcalls)
    obtain ⟨best, hmem, hbest, -⟩ := Selection.best_cons (lowerRun_irrefl s) (lowerRun_trans s) i l
    rw [← hl] at hmem hbest
    have hlow : lowestUnclaimedRun s owner (defaultCount count) = some best := by
      rw [hdef]
      exact hbest
    have hclaim : uacpiNtHalAllocateMessageTargetOverride api host true owner count s =
        (.ok ((s.messageRuns best).base, uacpiNtVectorToIrql host (s.messageRuns best).base),
          s.setRun best { s.messageRuns best with claimed := true }) := by
      simp [uacpiNtHalAllocateMessageTargetOverride, hmodel, hlow]
    have hbases : ∀ j, ((s.setRun best { s.messageRuns best with claimed := true }).messageRuns
        j).base = (s.messageRuns j).base := by
      intro j
      by_cases hj : j = best
      · subst hj
        rw [setRun_self]
      · rw [setRun_of_ne s _ hj]
    have hlower : lowerRun (s.setRun best { s.messageRuns best with claimed := true }) =
        lowerRun s := by
      funext j k
      rw [lowerRun, lowerRun, hbases, hbases]
    rw [halClaims, hclaim, Selection.order, hbest]
    simp only [map_cons]
    rw [ih, unclaimedRuns_claim, hlower]
    · simp only [hbases]
      rfl
    · rw [unclaimedRuns_claim, length_erase_of_mem hmem]
      omega

/-! ### The two orders -/

def publishedRunsOf (s : VectorState) (owner : DeviceObject) (count : UInt32) :
    List (Fin maxMessageRuns) :=
  (publishedRuns s owner).filter fun i => decide ((s.messageRuns i).count = count)

theorem publishedRunsOf_spec (s : VectorState) (owner : DeviceObject) (hcnt : count ≠ 0) :
    (publishedRunsOf s owner count).Perm (runsOf s owner count) ∧
      (publishedRunsOf s owner count).Pairwise fun i j =>
        uacpiNtMessageRunPrecedes (s.messageRuns j) (s.messageRuns i) = false := by
  obtain ⟨hperm, hpw⟩ := publishedRuns_spec s owner
  refine ⟨(hperm.filter _).trans ?_, hpw.filter _⟩
  rw [ownedRuns, filter_filter]
  refine Perm.of_eq (filter_congr fun i _ => ?_)
  simp only [← Bool.decide_and, decide_eq_decide]
  constructor
  · rintro ⟨hlen, hown, -⟩
    exact ⟨hown, hlen⟩
  · rintro ⟨hown, hlen⟩
    exact ⟨hlen, hown, hlen ▸ hcnt⟩

theorem Rising.claimed {bound : UInt32} (h : Rising api host owner count bound s) :
    unclaimedRuns s owner count = runsOf s owner count := by
  refine filter_congr fun i _ => ?_
  rw [decide_eq_decide]
  exact ⟨fun hi => ⟨hi.1, hi.2.1⟩, fun hi => ⟨hi.1, hi.2, h.unclaimed i (mem_runsOf.mpr hi)⟩⟩

/-- The HAL is given the runs in the order in which they are listed just where they are all at one
placement. -/
theorem Rising.claims_eq_iff {bound : UInt32} (h : Rising api host owner count bound s)
    (hcnt : count ≠ 0) : halClaims api host owner count (runsOf s owner count).length s =
        ((publishedRunsOf s owner count).map fun i => .ok (s.messageRuns i).base) ↔
      ∀ i ∈ runsOf s owner count, ∀ j ∈ runsOf s owner count,
        (s.messageRuns i).messageGsiv = (s.messageRuns j).messageGsiv := by
  obtain ⟨hperm, hpub⟩ := publishedRunsOf_spec s owner hcnt
  by_cases hemp : runsOf s owner count = []
  · rw [hemp] at hperm
    rw [hperm.eq_nil, hemp]
    exact ⟨fun _ i hi => absurd hi not_mem_nil, fun _ => rfl⟩
  obtain ⟨i₀, hi₀⟩ := exists_mem_of_ne_nil _ hemp
  have hmodel := h.apic i₀ hi₀
  have hcl := halClaims_eq api hmodel hcnt (Nat.le_of_eq (congrArg length h.claimed.symm))
  obtain ⟨hperm', hclai⟩ := Selection.order_spec (lowerRun_irrefl s) (lowerRun_trans s)
    (Nat.le_refl (runsOf s owner count).length)
  rw [h.claimed] at hcl
  rw [hcl]
  have hasc : (Selection.order (lowerRun s) (runsOf s owner count).length
      (runsOf s owner count)).Pairwise fun i j =>
        (s.messageRuns i).base ≤ (s.messageRuns j).base :=
    hclai.imp fun hij => UInt32.not_lt.mp (of_decide_eq_false hij)
  constructor
  · intro heq
    have hinj : Function.Injective (Except.ok : UInt32 → Except NtError UInt32) :=
      fun _ _ => Except.ok.inj
    have hbases : (Selection.order (lowerRun s) (runsOf s owner count).length
        (runsOf s owner count)).map (fun i => (s.messageRuns i).base) =
          (publishedRunsOf s owner count).map fun i => (s.messageRuns i).base := by
      refine map_injective_iff.mpr hinj ?_
      rw [map_map, map_map]
      exact heq
    have hpub' : (publishedRunsOf s owner count).Pairwise fun i j =>
        (s.messageRuns i).base ≤ (s.messageRuns j).base := by
      have hsor := pairwise_map.mpr hasc
      rw [hbases] at hsor
      exact pairwise_map.mp hsor
    -- Of two placements the higher one is listed first, and it has the higher vectors.
    have hnever : ∀ i ∈ runsOf s owner count, ∀ j ∈ runsOf s owner count,
        ¬ (s.messageRuns i).messageGsiv < (s.messageRuns j).messageGsiv := by
      intro i hi j hj hlt
      have hbase := h.rising i hi j hj hlt
      have hne : i ≠ j := by
        rintro rfl
        exact UInt32.lt_irrefl _ hlt
      rcases Selection.rel_or_rel (hpub'.and hpub) (hperm.mem_iff.mpr hi)
        (hperm.mem_iff.mpr hj) hne with hij | hji
      · exact Bool.false_ne_true (hij.2.symm.trans (precedes_iff.mpr (.inl hlt)))
      · exact Nat.not_le.mpr hbase (UInt32.le_iff_toNat_le.mp hji.1)
    intro i hi j hj
    exact UInt32.le_antisymm (UInt32.not_lt.mp (hnever j hj i hi))
      (UInt32.not_lt.mp (hnever i hi j hj))
  · intro hsame
    refine congrArg _ (Perm.eq_of_pairwise ?_ hasc ?_ (hperm'.trans hperm.symm))
    · intro i j hi hj hij hji
      exact h.distinct i (hperm'.mem_iff.mp hi) j (hperm.mem_iff.mp hj)
        (UInt32.le_antisymm hij hji)
    · refine hpub.imp_of_mem fun {i j} hi hj hij => UInt32.not_lt.mp fun hlt => ?_
      have hgsiv := hsame j (hperm.mem_iff.mp hj) i (hperm.mem_iff.mp hi)
      exact Bool.false_ne_true (hij.symm.trans (precedes_iff.mpr (.inr ⟨hgsiv, hlt⟩)))

/-- After a commit that visits the placements in ascending order, the HAL is given the runs of one
length that a device got in it in the order in which the connection data lists them, just where
they are all at one placement. -/
theorem claim_order_eq_published_iff (hapi : api.Lawful) (write : PropertyWriter)
    (self : DeviceObject) {iterate : RtlRangeList → RtlRangeList} {sys : IrqSystem}
    (hreach : sys.connection.vectors.Reachable api host grant)
    (hcounts : MessageCounts sys.world.msiRecords)
    (hascending : (iterate sys.arbiter.possibleAllocation).Pairwise fun x y =>
      x.start.toUInt32 ≤ y.start.toUInt32)
    (hnew : runsOf sys.connection.vectors owner count = []) (hcount : count ≠ 0)
    (hs : s = (uacpiNtIrqCommitAllocation api host write self iterate sys).connection.vectors) :
    halClaims api host owner count (runsOf s owner count).length s =
        ((publishedRunsOf s owner count).map fun i => .ok (s.messageRuns i).base) ↔
      ∀ i ∈ runsOf s owner count, ∀ j ∈ runsOf s owner count,
        (s.messageRuns i).messageGsiv = (s.messageRuns j).messageGsiv := by
  have hbound : ∀ r ∈ iterate sys.arbiter.possibleAllocation, (0 : UInt32) ≤ r.start.toUInt32 :=
    fun r _ => UInt32.le_iff_toNat_le.mpr (Nat.zero_le _)
  obtain ⟨bound, hrising⟩ := Rising.commitRanges hapi write self
    { sys with arbiter := arbiterLibCommitAllocation sys.arbiter } hcounts hascending hbound hreach
    (.of_none hnew 0)
  rw [hs]
  exact hrising.claims_eq_iff hcount

def IrqSystem.tentative (possible : RtlRangeList) (records : List MsiRecord) : IrqSystem where
  arbiter := (ArbiterInstance.initial .interrupt .free .free none).withPossible possible
  world := { IrqWorld.zero with msiRecords := records }
  connection := ⟨uacpiNtSeedProcessor .reference ⟨0, 0⟩ 0 .zero, fun _ => none⟩
  written := []

theorem one_placement_claimed_in_order :
    ∃ s, s = (uacpiNtIrqCommitAllocation .reference .plain (fun _ _ => .ok ()) ⟨0⟩ RangeList.sorted
        (.tentative [⟨0xFFFFFFFE, 0xFFFFFFFE, 0, false, some ⟨7⟩⟩]
          [⟨0xFFFFFFFE, 2⟩])).connection.vectors ∧
      halClaims .reference .plain ⟨7⟩ 2 (runsOf s ⟨7⟩ 2).length s =
        ((publishedRunsOf s ⟨7⟩ 2).map fun i => .ok (s.messageRuns i).base) ∧
      (publishedRunsOf s ⟨7⟩ 2).map (fun i => (s.messageRuns i).base) = [0x50] := by
  refine ⟨_, rfl, (claim_order_eq_published_iff IdtApi.reference_lawful _ _ ⟨0, [], rfl⟩ ?_ ?_ ?_ ?_
    rfl).mpr ?_, by decide +kernel⟩
  · exact List.forall_mem_singleton.mpr (by decide)
  · decide +kernel
  · decide +kernel
  · decide
  · decide +kernel

/-- Device 7 has two messages at each of two placements. -/
theorem two_placements_claimed_in_reverse :
    ∃ s, s = (uacpiNtIrqCommitAllocation .reference .plain (fun _ _ => .ok ()) ⟨0⟩ RangeList.sorted
        (.tentative [⟨0xFFFFFFFD, 0xFFFFFFFD, 0, false, some ⟨7⟩⟩,
          ⟨0xFFFFFFFE, 0xFFFFFFFE, 0, false, some ⟨7⟩⟩]
          [⟨0xFFFFFFFD, 2⟩, ⟨0xFFFFFFFE, 2⟩])).connection.vectors ∧
      halClaims .reference .plain ⟨7⟩ 2 2 s = [.ok 0x50, .ok 0x52] ∧
      (publishedRunsOf s ⟨7⟩ 2).map (fun i => (s.messageRuns i).base) = [0x52, 0x50] :=
  ⟨_, rfl, by decide +kernel, by decide +kernel⟩

end UacpiNt
