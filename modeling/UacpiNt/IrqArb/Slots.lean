import UacpiNt.IrqArb.Frames

/-!
# The slots of the interrupt arbiter

If nothing is shared through a driver, a test of the interrupt arbiter gives each entry one line or
one slot of the message window, in the bounds of the alternative in use.
-/

namespace UacpiNt

open AllocationState List RangeList

def IoResourceDescriptor.maximumVector (d : IoResourceDescriptor) : UInt32 :=
  match d.u with
  | .interrupt _ maximum _ => maximum
  | _ => 0

def Untagged (x : RtlRange) : Prop :=
  x.attributes &&& arbiterRangeSharedDriver = 0
deriving Decidable

def MeetsMessages (x : RtlRange) : Prop :=
  x.Overlaps msiGsivBase msiGsivLast
deriving Decidable

/-- The ranges in the message window do not reach out of it, and those of different devices are
apart. -/
structure MessagesApart (l : RtlRangeList) : Prop where
  inside : ∀ x ∈ l, MeetsMessages x → msiGsivBase ≤ x.start ∧ x.last ≤ msiGsivLast
  apart : ∀ x ∈ l, ∀ y ∈ l, MeetsMessages x → MeetsMessages y → x.owner ≠ y.owner →
    ¬ x.Overlaps y.start y.last

theorem MessagesApart.of_keys {l l' : RtlRangeList} (h : MessagesApart l)
    (hkeys : ∀ x ∈ l', ∃ y ∈ l, y.key = x.key) : MessagesApart l' := by
  constructor
  · intro x hx hmeets
    obtain ⟨y, hy, hkey⟩ := hkeys x hx
    obtain ⟨hstar, hlast, -⟩ := Range.fields_of_key hkey
    rw [← hstar, ← hlast]
    exact h.inside y hy ((Range.overlaps_of_key hkey).mpr hmeets)
  · intro x hx z hz hmeets hmeets' hown
    obtain ⟨y, hy, hkey⟩ := hkeys x hx
    obtain ⟨w, hw, hkey'⟩ := hkeys z hz
    obtain ⟨-, -, hy'⟩ := Range.fields_of_key hkey
    obtain ⟨hstar, hlast, hw'⟩ := Range.fields_of_key hkey'
    rw [← hy', ← hw'] at hown
    rw [← Range.overlaps_of_key hkey, ← hstar, ← hlast]
    exact h.apart y hy w hw ((Range.overlaps_of_key hkey).mpr hmeets)
      ((Range.overlaps_of_key hkey').mpr hmeets') hown

/-! ### Steady states -/

/-- What the search keeps of a state of the interrupt arbiter whose requirements are listed. -/
structure Steady (host : IrqHost) (listed : List IoResourceDescriptor) (st : AllocationState) :
    Prop where
  decodes : Decodes (irqOps host) st
  listed : ∀ alt ∈ st.requirements, alt.descriptor ∈ listed
  result : st.entry.result ≠ .nullRequest
  untagged : st.rangeAttributes &&& arbiterRangeSharedDriver = 0

namespace Steady

variable {host : IrqHost} {listed : List IoResourceDescriptor} {st st' : AllocationState}
  {alt : ArbiterAlternative}

theorem of_request (h : Steady host listed st) (hrequ : st'.request = st.request)
    (hres : st'.entry.result = st.entry.result)
    (htag : st'.rangeAttributes &&& arbiterRangeSharedDriver = 0) : Steady host listed st' := by
  have hreqs := requirements_eq_of_request hrequ
  refine ⟨?_, ?_, ?_, htag⟩
  · rw [Decodes, hreqs]
    exact h.decodes
  · rw [hreqs]
    exact h.listed
  · rw [hres]
    exact h.result

theorem current_spec (h : Steady host listed st) (halt : st.current = some alt) :
    alt.length = 1 ∧ alt.effectiveAlignment = 1 ∧ alt.inaccessibleOk = false ∧
      alt.maximum.toNat < 2 ^ 32 ∧ alt.descriptor ∈ listed := by
  obtain ⟨hlen, hal, hok, hmax⟩ := h.decodes.irq_fields halt
  have hmem := h.listed _ (current_mem_requirements halt)
  exact ⟨hlen, hal, hok, hmax, hmem⟩

theorem requestsRoom (h : Steady host listed st) (halt : st.current = some alt) :
    st.requestsRoom = true := by
  rw [requestsRoom_iff halt, (h.current_spec halt).1]
  decide

theorem maximum_of_line (h : Steady host listed st) (halt : st.current = some alt)
    (hline : alt.descriptor.isMessage = false) :
    alt.maximum = alt.descriptor.maximumVector.toUInt64 := by
  have hreq := (h.decodes.fields halt).1
  change uacpiNtIrqUnpackRequirement host alt.descriptor = _ at hreq
  rw [uacpiNtIrqUnpackRequirement] at hreq
  split at hreq
  · rename_i minimum maximum targeted hu
    rw [if_pos (by simp [hline])] at hreq
    rw [IoResourceDescriptor.maximumVector, hu]
    exact (congrArg Requirement.maximum (Except.ok.inj hreq)).symm
  · cases hreq

end Steady

theorem tagTriggering_untagged (st : AllocationState)
    (h : st.rangeAttributes &&& arbiterRangeSharedDriver = 0) :
    st.tagTriggering.rangeAttributes &&& arbiterRangeSharedDriver = 0 := by
  have hkept : (st.rangeAttributes &&& ~~~(uacpiNtRangeLevel ||| uacpiNtRangeLatched)) &&&
      arbiterRangeSharedDriver = 0 := by
    rw [UInt8.and_assoc, UInt8.and_comm (~~~_), ← UInt8.and_assoc, h, UInt8.zero_and]
  rw [tagTriggering, and_or_distrib, hkept]
  split <;> rfl

theorem stable_steady {host : IrqHost} {listed : List IoResourceDescriptor}
    (hexcl : ∀ d ∈ listed, d.shareDisposition ≠ .driverExclusive) (env : Environment)
    (arb : ArbiterInstance) : Stable env (irqOps host) arb (Steady host listed) where
  preprocess := by
    intro st world st' world' status h heq
    obtain ⟨-, ⟨-, rfl⟩ | ⟨-, workSpace, rfl⟩⟩ := irqPreprocessEntry_spec heq
    · exact h
    · exact h.of_request rfl rfl (tagTriggering_untagged st h.untagged)
  next := by
    intro possible st world offered st' world' h heq
    obtain ⟨workSpace, hrew⟩ := irqGetNext_rewind (arb.withPossible possible) st world
    change uacpiNtIrqGetNextAllocationRange (arb.withPossible possible) st world = _ at heq
    rw [heq] at hrew
    have hrequ := request_eq_of_rewind hrew
    have hres := congrArg (fun st => st.entry.result) hrew
    have hattr := congrArg rangeAttributes hrew
    exact h.of_request hrequ hres ((congrArg (· &&& _) hattr).trans h.untagged)
  find := by
    intro possible st world h
    obtain ⟨hunp, hstep⟩ := irqFindSuitableRange_spec env (arb.withPossible possible) st world
    refine h.of_request (request_eq_of_unplaced hunp)
      (congrArg ArbiterListEntry.result (entry_eq_of_unplaced hunp)) ?_
    rcases hstep.tag with hsame | ⟨alt, halt, htag, -⟩
    · exact (congrArg (· &&& _) hsame).trans h.untagged
    · exact absurd htag (hexcl _ (h.current_spec halt).2.2.2.2)
  restart _ h := h.of_request rfl rfl h.untagged
  lowerWindow _ h := h.of_request rfl rfl h.untagged
  noRetry _ h := h.of_request rfl rfl h.untagged

/-! ### Grants -/

/-- One line or slot in the bounds of the alternative in use. -/
structure Slotted (st : AllocationState) : Prop where
  single : st.last = st.start
  bounds : InBounds st

section

variable {env : Environment} {arb : ArbiterInstance} {host : IrqHost}
  {listed : List IoResourceDescriptor} {st st' : AllocationState} {alt : ArbiterAlternative}

theorem Grant.slot (hexcl : ∀ d ∈ listed, d.shareDisposition ≠ .driverExclusive)
    (hst : Steady host listed st)
    (huntag : ∀ x ∈ arb.possibleAllocation, Untagged x) (h : Grant env arb st alt st')
    (halt : st.current = some alt) (hwin : st.currentMinimum ≤ st.currentMaximum)
    (hmin : alt.minimum ≤ st.currentMinimum) (hmax : st.currentMaximum ≤ alt.maximum) :
    st'.last = st'.start := by
  obtain ⟨hlen, -, -, -, hlist⟩ := hst.current_spec halt
  have hpos : alt.length ≠ 0 := by
    rw [hlen]
    decide
  cases h with
  | nothing hzero => exact absurd hzero hpos
  | found start =>
    change start + alt.length - 1 = start
    rw [hlen, UInt64.add_sub_cancel]
  | shared requester e _ hans hown hwalk =>
    rw [shareWalk_eq_false env requester _ (hexcl _ hlist) huntag] at hwalk
    cases hwalk
  | overridden e _ hans hfix hself =>
    have hspan := (hst.decodes.fields halt).2.2.1
    rw [hfix, hlen] at hspan
    have hwd : alt.maximum - alt.minimum + 1 = 1 := by simpa using hspan.symm
    have hle := UInt64.le_trans hmin (UInt64.le_trans hwin hmax)
    have hcnt := congrArg UInt64.toNat hwd
    rw [UInt64.toNat_add, UInt64.toNat_sub_of_le _ _ hle] at hcnt
    rw [UInt64.le_iff_toNat_le] at hmin hmax hwin hle
    have hlt := alt.maximum.toNat_lt
    apply UInt64.toNat_inj.mp
    change st.currentMaximum.toNat = st.currentMinimum.toNat
    omega

theorem slotted_of_granted (hrtl : env.rtl.Lawful)
    (hexcl : ∀ d ∈ listed, d.shareDisposition ≠ .driverExclusive) (hst : Steady host listed st)
    (hwth : Within st) (huntag : ∀ x ∈ arb.possibleAllocation, Untagged x) {world : IrqWorld}
    (hgr : (uacpiNtIrqFindSuitableRange env arb st world).granted = true) :
    Slotted (uacpiNtIrqFindSuitableRange env arb st world).state := by
  refine ⟨?_, inBounds_of_granted hrtl hwth hgr⟩
  obtain ⟨alt, halt, hmin, hmax⟩ := hwth
  rcases irqFindSuitableRange_cases hgr with ⟨alt', halt', hwin, hgran⟩ | ⟨gsiv, -, -, hstat⟩
  · obtain rfl := Option.mem_unique halt' halt
    exact hgran.slot hexcl hst huntag halt hwin hmin hmax
  · rw [hstat]

end

/-! ### Along a search -/

def slotImage (x : RtlRange) : (UInt64 × UInt64 × Option DeviceObject) × Prop :=
  (x.key, Untagged x)

section

variable {env : Environment} {host : IrqHost} {listed : List IoResourceDescriptor}

section

variable {st : AllocationState} {base possible : RtlRangeList} {holders : List AllocationState}

theorem untagged_of_booked (hbase : ∀ x ∈ base, Untagged x)
    (hall : ∀ st ∈ holders, Steady host listed st)
    (hbook : Search.Booked base slotImage (fun st => [st.record]) possible holders) :
    ∀ x ∈ possible, Untagged x := by
  intro x hx
  have hmem := hbook.mem_iff.mp (mem_map_of_mem hx)
  rcases mem_append.mp hmem with hmem | hmem <;> obtain ⟨y, hy, heq⟩ := mem_map.mp hmem
  · obtain ⟨st, hst, hheld⟩ := mem_flatMap.mp hy
    obtain rfl := mem_singleton.mp (mem_held.mp hheld).2
    exact (congrArg Prod.snd heq).mp (hall st hst).untagged
  · exact (congrArg Prod.snd heq).mp (hbase y hy)

theorem steady_of_built {entries : List ArbiterListEntry} (hbuilt : Built (irqOps host) st)
    {e : ArbiterListEntry} (he : e ∈ entries) (hsame : SameButScore e st.entry)
    (hres : e.result ≠ .nullRequest) : Steady host (entries.flatMap (·.alternatives)) st := by
  refine ⟨hbuilt.decodes, ?_, ?_, ?_⟩
  · intro alt halt
    obtain ⟨alt, hmem, rfl⟩ := mem_map.mp halt
    obtain ⟨d, hd, hbuild⟩ := exists_left_of_forall₂ hbuilt.decoded hmem
    obtain ⟨rfl, -⟩ := buildAlternative_ok hbuild
    rw [hsame] at hd
    exact mem_flatMap.mpr ⟨e, he, hd⟩
  · rw [hsame]
    exact hres
  · rw [hbuilt.fresh]
    exact UInt8.zero_and

end

variable {fuel : Nat} {arb : ArbiterInstance} {entries : List ArbiterListEntry}
  {world : IrqWorld} {r : TransactionResult IrqWorld}

theorem irq_solution_of_test (hrtl : env.rtl.Lawful)
    (hdevs : ∀ e ∈ entries, e.physicalDeviceObject.isSome)
    (hresu : ∀ e ∈ entries, e.result ≠ .nullRequest)
    (hexcl : ∀ d ∈ entries.flatMap (·.alternatives), d.shareDisposition ≠ .driverExclusive)
    (hcomm : ∀ x ∈ arb.allocation, Untagged x) {setup : TestSetup}
    (hset : testSetup env (irqOps host) arb entries none world = .ok setup)
    (htest : arbpTestAllocation env (irqOps host) fuel arb entries none world = some r)
    (hok : r.status = .ok ()) :
    ∃ placed, TestSolution (irqOps host) setup slotImage (fun st => [st.record])
      (Steady host (entries.flatMap (·.alternatives))) (fun st _ => Slotted st) r placed := by
  have hbase : ∀ x ∈ setup.arbiter.possibleAllocation, Untagged x := by
    intro x hx
    have hx' := (testSetup_possible hrtl hdevs hset).mem_iff.mp hx
    exact hcomm x (mem_filter.mp hx').1
  have hstab : Stable env (irqOps host) setup.arbiter
      (Steady host (entries.flatMap (·.alternatives))) := stable_steady hexcl env _
  refine solution_of_test (irq_books hrtl) (irq_frames env) hstab
    (fun _ _ h => congrArg Prod.fst h) (L := Within)
    (fun _ below current' hcur _ hsame _ hstar _ => within_lowerWindow hcur.bounds hsame hstar)
    (fun s hinv _ => ?_)
    (fun st hst hbuilt => by
      obtain ⟨-, e, he, hsame⟩ := mem_setup_states hset hst
      exact steady_of_built hbuilt he hsame (hresu e he))
    hset htest hok (testAlong_of_forall fun _ _ => trivial)
  have huntag := untagged_of_booked hbase hinv.holders_all hinv.booked
  have hgr : ∀ st world', s.sought (irqOps host) setup.arbiter = some (st, world') →
      (uacpiNtIrqFindSuitableRange env (setup.arbiter.withPossible s.possible) st
        world').granted = true →
      Slotted (uacpiNtIrqFindSuitableRange env (setup.arbiter.withPossible s.possible) st
        world').state := by
    intro st world' hso hgr
    have hst := hinv.sought hstab hso
    exact slotted_of_granted hrtl hexcl hst (within_of_sought hinv.retried hst.decodes hso) huntag
      hgr
  refine ⟨?_, ?_, ?_⟩
  · intro hback current above hpend x hx c hc hkey
    have hmem : current ∈ s.holders := by
      simp [Search.holders, hback, hpend]
    have hcur : Untagged current.record := (hinv.holders_all current hmem).untagged
    obtain rfl := mem_singleton.mp (mem_held.mp hc).2
    simp [slotImage, hkey, huntag x hx, hcur]
  · intro st world' hso hfd _
    have hslot := hgr st world' hso hfd
    refine ⟨hslot, forall_mem_singleton.mpr ?_⟩
    exact UInt64.le_of_eq hslot.single.symm
  · intro st world' hso hfd hnone
    -- Every alternative has length one, so none of them is a null request.
    obtain ⟨alt, halt, -⟩ := (hgr st world' hso hfd).bounds
    have hst := hstab.find s.possible st world' (hinv.sought hstab hso)
    exact absurd (hnone.symm.trans (hst.requestsRoom halt)) Bool.false_ne_true

end

end UacpiNt
