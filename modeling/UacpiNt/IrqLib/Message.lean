import UacpiNt.IrqLib.Ownership

/-!
# Asking for messages again

The run of a device at a placement is looked up by the count that is asked for. If only a single
vector was left, it is that vector which was entered, with a count of one, so the next call for
the same messages does not find it. A translation asks twice: for the vector, and again when the
connection data is written.
-/

namespace UacpiNt

open RangeList

variable {api : IdtApi} {grant : HalGrant} {host : IrqLibHost} {owner : DeviceObject}
  {messageGsiv count : UInt32} {s s' : VectorState}

/-! ### The table of runs -/

def MessageRun.isFor (owner : DeviceObject) (messageGsiv count : UInt32) (run : MessageRun) :
    Bool :=
  decide (run.owner = some owner ∧ run.messageGsiv = messageGsiv ∧ run.count = count)

variable {run : MessageRun} {base : UInt32} {resolved : UInt32 × UInt8 × UInt64}
  {lines : List (UInt32 × UInt32)}

theorem VectorState.findRun_setRun_self {p : MessageRun → Bool} (hnone : s.findRun p = none)
    (hruns : s'.messageRuns = s.messageRuns) (i : Fin maxMessageRuns) (hrun : p run = true) :
    (s'.setRun i run).findRun p = some i := by
  rw [findRun, Fin.find?_eq_none_iff] at hnone
  rw [findRun, Fin.find?_eq_some_iff]
  refine ⟨by rw [setRun_self]; exact hrun, fun j hj => ?_⟩
  rw [setRun_of_ne s' run (Fin.ne_of_lt hj), hruns]
  exact hnone j

theorem VectorState.findRun_setRun_none {p : MessageRun → Bool} (hnone : s.findRun p = none)
    (hruns : s'.messageRuns = s.messageRuns) (i : Fin maxMessageRuns) (hrun : p run = false) :
    (s'.setRun i run).findRun p = none := by
  rw [findRun, Fin.find?_eq_none_iff] at hnone ⊢
  exact forall_setRun (P := fun run => p run = false) (fun j => hruns.symm ▸ hnone j) hrun

/-! ### One call -/

theorem resolveMessage_of_found (hmodel : host.interruptModel = acpiNtApic) {i : Fin maxMessageRuns}
    (hfind : s.findRun (MessageRun.isFor owner messageGsiv (defaultCount count)) = some i) :
    uacpiNtIrqLibResolveMessageVector api host owner messageGsiv count s =
      (.ok ((s.messageRuns i).base, uacpiNtVectorToIrql host (s.messageRuns i).base,
        uacpiNtLowestProcessor host.activeProcessors), s) := by
  rw [uacpiNtIrqLibResolveMessageVector]
  rw [if_neg (not_not.mpr hmodel)]
  split
  · rename_i j hfind'
    cases hfind.symm.trans hfind'
    rfl
  · rename_i hnone
    cases hfind.symm.trans hnone

section

variable (h : uacpiNtIrqLibResolveMessageVector api host owner messageGsiv count s =
    (.ok resolved, s'))

include h

theorem apic_of_resolveMessage : host.interruptModel = acpiNtApic := by
  by_contra hmodel
  rw [uacpiNtIrqLibResolveMessageVector, if_pos hmodel] at h
  cases h

theorem resolveMessage_ok (hcnt : count ≠ 0) :
    (∃ i, s.findRun (MessageRun.isFor owner messageGsiv count) = some i ∧ s' = s ∧
      resolved.1 = (s.messageRuns i).base) ∨
    (s.findRun (MessageRun.isFor owner messageGsiv count) = none ∧
      ∃ i given s₁, (s.messageRuns i).owner = none ∧ (given = count ∨ given = 1 ∧ 1 < count ∧
          ∃ e, uacpiNtApicAllocateVectorRange api count s = (.error e, s)) ∧
        uacpiNtApicAllocateVectorRange api given s = (.ok resolved.1, s₁) ∧
        s' = s₁.setRun i ⟨some owner, messageGsiv, resolved.1, given, false⟩) := by
  have hdef := defaultCount_of_ne_zero hcnt
  rcases resolveMessageVector_cases api host owner messageGsiv count s with
    ⟨e, heq⟩ | ⟨i, hfind, heq⟩ | ⟨hnone, i, base, given, s₁, hslot, hgiven, hrng, heq⟩
    <;> rw [heq] at h
  · cases h
  · rw [hdef] at hfind
    cases h
    exact .inl ⟨i, hfind, rfl, rfl⟩
  · rw [hdef] at hnone hgiven
    cases h
    exact .inr ⟨hnone, i, given, s₁, hslot, hgiven, hrng, rfl⟩

theorem resolveMessage_answer : resolved = (resolved.1, uacpiNtVectorToIrql host resolved.1,
      uacpiNtLowestProcessor host.activeProcessors) := by
  rcases resolveMessageVector_cases api host owner messageGsiv count s with
    ⟨e, heq⟩ | ⟨i, -, heq⟩ | ⟨-, i, base, given, s₁, -, -, -, heq⟩ <;> rw [heq] at h
  · cases h
  · cases h
    rfl
  · cases h
    rfl

end

theorem Ledger.run_not_free (hapi : api.Lawful) (h : Ledger api grant lines s)
    {i : Fin maxMessageRuns} {v : UInt32}
    (hband : RunInBand (s.messageRuns i).base (s.messageRuns i).count)
    (hcon : (s.messageRuns i).Contains v) : uacpiNtVectorFreeEverywhere api s v = false := by
  refine h.not_free hapi (List.mem_append_right _ ?_) (hband.range_overlaps hcon)
  exact VectorState.mem_runRanges.mpr ⟨i, hband.held hcon.count_ne_zero, rfl⟩

theorem runAt_of_allocateVectorRange (hcnt : count ≠ 0) (hbound : count ≤ 0xFFFFFFB0)
    (h : uacpiNtApicAllocateVectorRange api count s = (.ok base, s')) : RunAt api s count base := by
  obtain ⟨hsearch, -⟩ := allocateVectorRange_ok h
  rw [defaultCount_of_ne_zero hcnt] at hsearch
  exact runAt_of_search hcnt hbound hsearch

theorem RunAt.free_base (h : RunAt api s count base) (hcnt : count ≠ 0) :
    uacpiNtVectorFreeEverywhere api s base = true := by
  have hpos := toNat_ne_zero hcnt
  have hfree := h.free
  rw [runFree, List.all_eq_true] at hfree
  simpa using hfree 0 (List.mem_range.mpr (Nat.pos_of_ne_zero hpos))

theorem RunAvailable.allocateVectorRange (h : RunAvailable api s count)
    (hprocs : s.processorIdt ≠ []) (hcnt : count ≠ 0) :
    ∃ base s', uacpiNtApicAllocateVectorRange api count s = (.ok base, s') := by
  have hdef := defaultCount_of_ne_zero hcnt
  obtain ⟨base, hbase⟩ := h
  obtain ⟨found, hfd, -⟩ := hbase.search hcnt
  rcases allocateVectorRange_cases api count s with ⟨hnone, e, -⟩ | ⟨-, base, -, heq⟩
  · have hnone := hnone.resolve_left hprocs
    rw [hdef] at hnone
    cases hfd.symm.trans hnone
  · exact ⟨base, _, heq⟩

/-! ### The call again -/

/-- The messages are resolved in full: they have their run, are a single one, or a run of their
length is available. -/
def ResolvesInFull (api : IdtApi) (s : VectorState) (owner : DeviceObject)
    (messageGsiv count : UInt32) : Prop :=
  (∃ i, (s.messageRuns i).isFor owner messageGsiv count = true) ∨ count = 1 ∨
    RunAvailable api s count

/-- A call that succeeded has the same result again, with nothing changed, just where the messages
were resolved in full. -/
theorem Ledger.resolveMessage_again_iff (hapi : api.Lawful) (h : Ledger api grant lines s)
    (hcnt : count ≠ 0) (hbound : count ≤ 0xFFFFFFB0)
    (hcall : uacpiNtIrqLibResolveMessageVector api host owner messageGsiv count s =
      (.ok resolved, s')) :
    uacpiNtIrqLibResolveMessageVector api host owner messageGsiv count s' = (.ok resolved, s') ↔
      ResolvesInFull api s owner messageGsiv count := by
  have hmodel := apic_of_resolveMessage hcall
  have hdef := defaultCount_of_ne_zero hcnt
  rcases resolveMessage_ok hcall hcnt with
    ⟨i, hfind, rfl, -⟩ | ⟨hnone, i, given, s₁, hslot, hgiven, hrng, rfl⟩
  · exact ⟨fun _ => .inl ⟨i, findRun_some hfind⟩, fun _ => hcall⟩
  have hruns := (allocateVectorRange_frame hrng).2.2
  by_cases hfull : given = count
  · -- The run was entered with the count that is asked for.
    subst hfull
    refine ⟨fun _ => .inr (.inr ⟨_, runAt_of_allocateVectorRange hcnt hbound hrng⟩),
      fun _ => ?_⟩
    have hrun : (⟨some owner, messageGsiv, resolved.1, given, false⟩ : MessageRun).isFor owner
        messageGsiv (defaultCount given) = true := by simp [MessageRun.isFor, hdef]
    rw [← hdef] at hnone
    rw [resolveMessage_of_found hmodel (VectorState.findRun_setRun_self hnone hruns i hrun),
      VectorState.setRun_self, ← resolveMessage_answer hcall]
  · obtain ⟨rfl, hlt, e, herr⟩ := hgiven.resolve_left hfull
    refine ⟨fun hagain => ?_, ?_⟩
    · exfalso
      rcases resolveMessage_ok hagain hcnt with
        ⟨j, hfind, -, -⟩ | ⟨-, j, given', s₂, -, hgiven', hrng', -⟩
      · have hrun : (⟨some owner, messageGsiv, resolved.1, 1, false⟩ : MessageRun).isFor owner
            messageGsiv count = false := by simp [MessageRun.isFor, hfull]
        cases hfind.symm.trans (VectorState.findRun_setRun_none hnone hruns i hrun)
      -- What is allocated now was free, the vector of the first call is not.
      have hsmall : given' ≠ 0 ∧ given' ≤ 0xFFFFFFB0 := by
        rcases hgiven' with rfl | ⟨rfl, -⟩
        · exact ⟨hcnt, hbound⟩
        · decide
      have hfree := (runAt_of_allocateVectorRange hsmall.1 hsmall.2 hrng').free_base hsmall.1
      have hafter := h.allocateVectorRange hapi (by decide) hrng hslot owner messageGsiv false
      have hrun := VectorState.setRun_self s₁ i ⟨some owner, messageGsiv, resolved.1, 1, false⟩
      have hband := (runAt_of_allocateVectorRange (by decide) (by decide) hrng).inBand
      have hused := hafter.run_not_free hapi (i := i) (v := resolved.1)
      rw [hrun] at hused
      cases hfree.symm.trans (hused hband ⟨Nat.le_refl _, Nat.lt_succ_self _⟩)
    · rintro (⟨j, hj⟩ | rfl | havail)
      · rw [VectorState.findRun, Fin.find?_eq_none_iff] at hnone
        cases hj.symm.trans (hnone j)
      · exact absurd rfl hfull
      · obtain ⟨base, s', hok⟩ := havail.allocateVectorRange h.processorIdt_ne_nil hcnt
        cases herr.symm.trans hok

/-! ### The order of the elements -/

theorem precedes_iff {other : MessageRun} : uacpiNtMessageRunPrecedes run other = true ↔
    other.messageGsiv < run.messageGsiv ∨
      run.messageGsiv = other.messageGsiv ∧ run.base < other.base := by
  rw [uacpiNtMessageRunPrecedes]
  by_cases hsame : run.messageGsiv = other.messageGsiv
  · simp [hsame]
  have hzero : (0 : UInt32).toNat = 0 := rfl
  rw [if_pos hsame]
  split
  · rename_i hnone
    rw [decide_eq_true_eq, UInt32.lt_iff_toNat_lt]
    rw [← UInt32.toNat_inj, ← UInt32.toNat_inj] at hnone
    rw [ne_eq, ← UInt32.toNat_inj]
    simp only [hsame, false_and, or_false]
    omega
  · simp [hsame]

theorem precedes_irrefl (run : MessageRun) : uacpiNtMessageRunPrecedes run run = false := by
  rw [Bool.eq_false_iff]
  intro h
  rcases precedes_iff.mp h with hlt | ⟨-, hlt⟩ <;> exact UInt32.lt_irrefl _ hlt

theorem precedes_trans {other last : MessageRun} (hoth : uacpiNtMessageRunPrecedes run other = true)
    (hlast : uacpiNtMessageRunPrecedes other last = true) :
    uacpiNtMessageRunPrecedes run last = true := by
  rw [precedes_iff] at hoth hlast ⊢
  rcases hoth with hoth | ⟨hsame, hoth⟩
  · rcases hlast with hlast | ⟨hsame', -⟩
    · exact .inl (UInt32.lt_trans hlast hoth)
    · exact .inl (hsame' ▸ hoth)
  · rcases hlast with hlast | ⟨hsame', hlast⟩
    · exact .inl (hsame ▸ hlast)
    · exact .inr ⟨hsame.trans hsame', UInt32.lt_trans hoth hlast⟩

theorem publishedRuns_spec (s : VectorState) (owner : DeviceObject) :
    (publishedRuns s owner).Perm (ownedRuns s owner) ∧ (publishedRuns s owner).Pairwise fun i j =>
        uacpiNtMessageRunPrecedes (s.messageRuns j) (s.messageRuns i) = false := by
  refine Selection.order_spec (fun i => precedes_irrefl (s.messageRuns i)) ?_ (Nat.le_refl _)
  exact fun i j k hij hjk => precedes_trans hij hjk

/-! ### A translation -/

theorem ownerHasMessages_of_resolve (hcnt : count ≠ 0)
    (h : uacpiNtIrqLibResolveMessageVector api host owner messageGsiv count s =
      (.ok resolved, s')) : uacpiNtOwnerHasMessages s' owner = true := by
  have hrun : ∃ i, (s'.messageRuns i).owner = some owner ∧ (s'.messageRuns i).count ≠ 0 := by
    rcases resolveMessage_ok h hcnt with ⟨i, hfind, rfl, -⟩ | ⟨-, i, given, s₁, -, hgiven, -, rfl⟩
    · obtain ⟨hown, -, hcnt'⟩ := of_decide_eq_true (findRun_some hfind)
      exact ⟨i, hown, hcnt' ▸ hcnt⟩
    refine ⟨i, ?_⟩
    rw [VectorState.setRun_self]
    refine ⟨rfl, ?_⟩
    rcases hgiven with rfl | ⟨rfl, -⟩
    · exact hcnt
    · exact (by decide : (1 : UInt32) ≠ 0)
  obtain ⟨i, hi⟩ := hrun
  rw [uacpiNtOwnerHasMessages, VectorState.findRun, Fin.isSome_find?_iff]
  exact ⟨i, decide_eq_true hi⟩

theorem setConnectionData_vectors (write : PropertyWriter) (pdo : DeviceObject)
    (data : InterruptConnectionData) (c : ConnectionState) :
    (uacpiNtSetConnectionData write pdo data c).2.vectors = c.vectors := by
  rw [uacpiNtSetConnectionData]
  split <;> rfl

theorem writeConnectionData_vectors (write : PropertyWriter) (triggers : GsivTriggers)
    (hcnt : count ≠ 0) {c : ConnectionState}
    (h : uacpiNtIrqLibResolveMessageVector api host owner messageGsiv count c.vectors =
      (.ok resolved, c.vectors)) :
    (uacpiNtIrqLibWriteConnectionData api host write triggers owner messageGsiv count
      c).2.vectors = c.vectors := by
  have hdef := defaultCount_of_ne_zero hcnt
  rw [uacpiNtIrqLibWriteConnectionData]
  split
  · rw [uacpiNtWriteMessageConnectionData, hdef, h]
    exact setConnectionData_vectors _ _ _ _
  · rw [if_pos (ownerHasMessages_of_resolve hcnt h)]

theorem translatedCount_ne_zero (level : UInt32) : translatedCount level ≠ 0 := by
  rw [translatedCount]
  split
  · decide
  · rename_i hsense
    exact fun hzero => hsense (.inl hzero)

theorem translateResources_vectors (write : PropertyWriter) {source : CmPartialResourceDescriptor}
    {level : UInt32} {affinity : UInt64} (hsour : source.u = .interrupt level messageGsiv affinity)
    (hmsg : source.isMessage = true ∨ messageGsiv ≥ messageGsivBase) {t : TranslatorState}
    (hcall : uacpiNtIrqLibResolveMessageVector api host owner messageGsiv (translatedCount level)
      t.connection.vectors = (.ok resolved, s'))
    (hagain : uacpiNtIrqLibResolveMessageVector api host owner messageGsiv (translatedCount level)
      s' = (.ok resolved, s')) :
    (uacpiNtTranslateResources api host write true source owner t).2.2.connection.vectors = s' := by
  unfold uacpiNtTranslateResources
  rw [hsour]
  simp only
  rw [if_pos hmsg, hcall]
  simp only
  rw [finishTranslation]
  split
  · rfl
  · exact writeConnectionData_vectors write _ (translatedCount_ne_zero level) hagain

/-- In every state that calls lead to, a call for up to 32 messages that succeeds has the same
result again, with nothing changed, and the translation that makes it stays with that run, just
where the messages were resolved in full. -/
theorem message_resolution_repeats_iff (hapi : api.Lawful) (grant : HalGrant) (processor : Nat)
    (calls : List VectorCall)
    (hs : s = applyCalls api host grant calls (uacpiNtSeedProcessor api grant processor .zero))
    (hpos : 1 ≤ count) (hbound : count ≤ 32) {resolved : UInt32 × UInt8 × UInt64}
    (hcall : uacpiNtIrqLibResolveMessageVector api host owner messageGsiv count s =
      (.ok resolved, s')) :
    (uacpiNtIrqLibResolveMessageVector api host owner messageGsiv count s' = (.ok resolved, s') ∧
      ∀ (write : PropertyWriter) (t : TranslatorState) (source : CmPartialResourceDescriptor)
        (level : UInt32) (affinity : UInt64), t.connection.vectors = s →
        source.u = .interrupt level messageGsiv affinity →
        (source.isMessage = true ∨ messageGsiv ≥ messageGsivBase) →
        translatedCount level = count →
        (uacpiNtTranslateResources api host write true source owner t).2.2.connection.vectors =
          s') ↔
      ResolvesInFull api s owner messageGsiv count := by
  obtain ⟨new, hledger⟩ := (Ledger.first hapi grant processor).applyCalls hapi host calls
  rw [← hs] at hledger
  have hcount : count ≠ 0 := by
    rintro rfl
    exact absurd hpos (by decide)
  have hagain := hledger.resolveMessage_again_iff hapi hcount
    (UInt32.le_trans hbound (by decide)) hcall
  refine ⟨fun h => hagain.mp h.1, fun h => ⟨hagain.mpr h, ?_⟩⟩
  rintro write t source level affinity rfl hsource hmessage rfl
  exact translateResources_vectors write hsource hmessage hcall (hagain.mpr h)

theorem messages_resolve_in_full :
    ∃ s s', s = uacpiNtSeedProcessor .reference ⟨0, 0⟩ 0 .zero ∧
      uacpiNtIrqLibResolveMessageVector .reference .plain ⟨7⟩ 0xFFFFFFFE 4 s =
        (.ok (0x50, 5, 1), s') ∧
      uacpiNtIrqLibResolveMessageVector .reference .plain ⟨7⟩ 0xFFFFFFFE 4 s' =
        (.ok (0x50, 5, 1), s') := by
  have hfirst : (uacpiNtIrqLibResolveMessageVector .reference .plain ⟨7⟩ 0xFFFFFFFE 4
      (uacpiNtSeedProcessor .reference ⟨0, 0⟩ 0 .zero)).1 = .ok (0x50, 5, 1) := by decide +kernel
  have hcall := (Prod.mk.eta (p := uacpiNtIrqLibResolveMessageVector .reference .plain ⟨7⟩
    0xFFFFFFFE 4 (uacpiNtSeedProcessor .reference ⟨0, 0⟩ 0 .zero))).symm
  rw [hfirst] at hcall
  have hfull : ResolvesInFull .reference (uacpiNtSeedProcessor .reference ⟨0, 0⟩ 0 .zero) ⟨7⟩
      0xFFFFFFFE 4 := .inr (.inr ⟨0x50, by decide, by decide, by decide +kernel⟩)
  have hrepeats := message_resolution_repeats_iff IdtApi.reference_lawful ⟨0, 0⟩ 0 [] rfl
    (by decide) (by decide) hcall
  exact ⟨_, _, rfl, hcall, (hrepeats.mpr hfull).1⟩

def crowdedCalls : List VectorCall :=
  [.resolveMessageVector ⟨1⟩ 0xFFFFFFFE 32, .resolveMessageVector ⟨1⟩ 0xFFFFFFFD 32,
    .resolveMessageVector ⟨1⟩ 0xFFFFFFFC 32, .resolveMessageVector ⟨1⟩ 0xFFFFFFFB 8,
    .resolveMessageVector ⟨1⟩ 0xFFFFFFFA 4, .resolveMessageVector ⟨1⟩ 0xFFFFFFF9 1,
    .resolveMessageVector ⟨1⟩ 0xFFFFFFF8 1]

/-- Four messages of device 7 then get a single vector, and another one with the next call. -/
theorem crowded_messages_move :
    ∃ s s', s = applyCalls .reference .plain ⟨0, 0⟩ crowdedCalls
        (uacpiNtSeedProcessor .reference ⟨0, 0⟩ 0 .zero) ∧
      s' = (uacpiNtIrqLibResolveMessageVector .reference .plain ⟨7⟩ 0xFFFFFFF7 4 s).2 ∧
      (uacpiNtIrqLibResolveMessageVector .reference .plain ⟨7⟩ 0xFFFFFFF7 4 s).1 =
        .ok (0x5E, 5, 1) ∧
      (uacpiNtIrqLibResolveMessageVector .reference .plain ⟨7⟩ 0xFFFFFFF7 4 s').1 =
        .ok (0x5F, 5, 1) ∧
      (ownedRuns (uacpiNtIrqLibResolveMessageVector .reference .plain ⟨7⟩ 0xFFFFFFF7 4 s').2
        ⟨7⟩).length = 2 :=
  ⟨_, _, rfl, rfl, by decide +kernel, by decide +kernel, by decide +kernel⟩

end UacpiNt
