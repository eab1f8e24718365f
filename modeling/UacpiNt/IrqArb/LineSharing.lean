import UacpiNt.IrqArb.Retest

/-!
# Sharing a line

A line that another device holds is joined on four grounds: both sides are shared, the attributes
of the record are available, the callback accepts a shared level triggered record, or the device is
routed to the line, where nothing is checked at all. Only the callback looks at the triggering,
and only at that of the record. If every record that may be met on these grounds is level
triggered, and the alternative in use is so too, no edge triggered line gets a second owner.
-/

namespace UacpiNt

open AllocationState List RangeList

section

variable (env : Environment) (arb : ArbiterInstance) (st : AllocationState) (x : RtlRange)

def isLevelRange : Bool :=
  x.attributes &&& uacpiNtRangeLevel != 0

/-- A level triggered alternative is placed over a level triggered record. -/
def JoinsLevel : Prop :=
  isLevelRange x = true ∧ ∃ alt ∈ st.current, alt.descriptor.isLatched = false

/-- Every record of another device that a placement meets is joined as a level triggered line. -/
def LineSafe (possible : RtlRangeList) (st : AllocationState) : Prop :=
  ∀ x ∈ possible, x.owner ≠ st.owner → x.Overlaps st.start st.last → JoinsLevel st x

/-- The search of a window may place the state over the record. -/
def mayMeet (alt : ArbiterAlternative) (x : RtlRange) : Bool :=
  if wsPrt st.workSpace ≥ wsPrtBias then
    decide (st.currentMinimum ≤ st.routedLine ∧ st.routedLine ≤ st.currentMaximum) &&
      decide (x.Overlaps st.routedLine st.routedLine)
  else
    decide (x.Overlaps st.currentMinimum st.currentMaximum) &&
      (((st.openAttributes alt).terms arb alt).permits x ||
        !((st.openAttributes alt).answer env arb alt).toBool && st.owner.any fun requester =>
          shareWalk env (st.openAttributes alt) alt requester arb.possibleAllocation
            (env.arbpReadRootEnumerated requester == some true))

/-- Every record of another device that the search of a line window may meet is level triggered,
and so is the alternative in use. -/
def SharesSafely : Prop :=
  st.currentMinimum < msiGsivBase → ∀ alt ∈ st.current, ∀ x ∈ arb.possibleAllocation,
    x.owner ≠ st.owner → mayMeet env arb st alt x = true →
    isLevelRange x = true ∧ alt.descriptor.isLatched = false
deriving Decidable

end

/-! ### One search -/

section

variable {env : Environment} {host : IrqHost} {arb : ArbiterInstance} {st st' : AllocationState}
  {alt : ArbiterAlternative} {world : IrqWorld}

theorem Grant.eq_of_single (hrtl : env.rtl.Lawful) (hlen : alt.length = 1)
    (h : Grant env arb st alt st') (hsingle : st.currentMinimum = st.currentMaximum) :
    st'.start = st.currentMinimum ∧ st'.last = st.currentMinimum := by
  have hpos : alt.length ≠ 0 := by
    rw [hlen]
    decide
  have hwd : st.currentMaximum.toNat + 1 = st.currentMinimum.toNat + alt.length.toNat := by
    rw [hlen, hsingle]
    rfl
  obtain ⟨hstar, hlast⟩ := h.window_of_single hrtl hpos hwd
  exact ⟨hstar, hlast.trans hsingle.symm⟩

theorem Grant.mayMeet (hrtl : env.rtl.Lawful) (hlen : alt.length = 1)
    (hrout : wsPrt st.workSpace < wsPrtBias) (h : Grant env arb st alt st') {x : RtlRange}
    (hx : x ∈ arb.possibleAllocation) (hfor : x.owner ≠ st.owner)
    (hov : x.Overlaps st'.start st'.last) : mayMeet env arb st alt x = true := by
  have hpos : alt.length ≠ 0 := by
    rw [hlen]
    decide
  rw [UacpiNt.mayMeet, if_neg (Nat.not_le.mpr hrout), Bool.and_eq_true, decide_eq_true_eq,
    Bool.or_eq_true]
  refine ⟨h.overlaps_window hrtl hpos hov, ?_⟩
  rcases h.permits_or_shares hrtl hpos hx hfor hov with
    hperm | ⟨requester, e, hown, hans, hwalk⟩
  · exact .inl hperm
  · exact .inr (by simp [hans, hown, hwalk, Except.toBool])

variable (hrtl : env.rtl.Lawful)
  (hgranted : (uacpiNtIrqFindSuitableRange env arb st world).granted = true)
  (hline : (uacpiNtIrqFindSuitableRange env arb st world).state.start < msiGsivBase)

include hrtl hgranted hline

theorem irqFind_line_cases : st.currentMinimum < msiGsivBase ∧
      (wsPrt st.workSpace < wsPrtBias ∧ (∃ alt, st.current = some alt ∧
        Grant env arb st alt (uacpiNtIrqFindSuitableRange env arb st world).state) ∨
      wsPrtBias ≤ wsPrt st.workSpace ∧ st.currentMinimum ≤ st.routedLine ∧
        st.routedLine ≤ st.currentMaximum ∧ (uacpiNtIrqFindSuitableRange env arb st world).state =
          { st with start := st.routedLine, last := st.routedLine }) := by
  simp only [uacpiNtIrqFindSuitableRange] at hgranted hline ⊢
  by_cases hmsg : st.currentMinimum ≥ msiGsivBase
  · rw [if_pos hmsg] at hgranted hline
    obtain ⟨alt, -, -, hgr⟩ := findSuitableRange_grant hgranted
    have hle := UInt64.le_trans hmsg (hgr.minimum_le_start hrtl)
    exact absurd hline (UInt64.not_lt.mpr hle)
  · rw [if_neg hmsg] at hgranted ⊢
    refine ⟨UInt64.not_le.mp hmsg, ?_⟩
    by_cases hrout : wsPrt st.workSpace ≥ wsPrtBias
    · rw [if_pos hrout] at hgranted ⊢
      split at hgranted
      · cases hgranted
      rename_i hins
      rw [if_neg hins]
      rw [not_or] at hins
      exact .inr ⟨hrout, UInt64.not_lt.mp hins.1, UInt64.not_lt.mp hins.2, rfl⟩
    · rw [if_neg hrout] at hgranted ⊢
      split at hgranted
      · rename_i hfd
        rw [if_pos hfd]
        obtain ⟨alt, halt, -, hgr⟩ := findSuitableRange_grant hfd
        exact .inl ⟨Nat.not_le.mp hrout, alt, halt, hgr⟩
      · rename_i href
        exact absurd hgranted href

theorem lineSafe_of_sharesSafely (hdec : Decodes (irqOps host) st)
    (hsafe : SharesSafely env arb st) (hcur : st.current ≠ none) :
    LineSafe arb.possibleAllocation (uacpiNtIrqFindSuitableRange env arb st world).state := by
  have hunp := (irqFindSuitableRange_spec env arb st world).1
  obtain ⟨alt, halt⟩ := Option.ne_none_iff_exists'.mp hcur
  intro x hx hfor hov
  rw [owner_eq_of_request (request_eq_of_unplaced hunp)] at hfor
  obtain ⟨hmin, hcases⟩ := irqFind_line_cases hrtl hgranted hline
  have hmeets : mayMeet env arb st alt x = true := by
    rcases hcases with ⟨hrout, alt', halt', hgr⟩ | ⟨hrout, hlo, hhi, hstat⟩
    · obtain rfl := Option.mem_unique halt' halt
      exact hgr.mayMeet hrtl (hdec.irq_fields halt).1 hrout hx hfor hov
    · rw [hstat] at hov
      rw [mayMeet, if_pos hrout]
      simp [hlo, hhi, hov]
  obtain ⟨hlevel, hlat⟩ := hsafe hmin alt halt x hx hfor hmeets
  exact ⟨hlevel, alt, (current_eq_of_unplaced hunp).trans halt, hlat⟩

theorem sharesSafely_of_lineSafe (hdec : Decodes (irqOps host) st)
    (hsingle : st.currentMinimum = st.currentMaximum) (hsafe : LineSafe arb.possibleAllocation
      (uacpiNtIrqFindSuitableRange env arb st world).state) : SharesSafely env arb st := by
  have hunp := (irqFindSuitableRange_spec env arb st world).1
  have hown := owner_eq_of_request (request_eq_of_unplaced hunp)
  intro _ alt halt x hx hfor hmeets
  obtain ⟨-, hcases⟩ := irqFind_line_cases hrtl hgranted hline
  have hov : x.Overlaps (uacpiNtIrqFindSuitableRange env arb st world).state.start
      (uacpiNtIrqFindSuitableRange env arb st world).state.last := by
    rw [mayMeet] at hmeets
    rcases hcases with ⟨hrout, alt', halt', hgr⟩ | ⟨hrout, hlo, hhi, hstat⟩
    · rw [if_neg (Nat.not_le.mpr hrout), Bool.and_eq_true, decide_eq_true_eq] at hmeets
      obtain ⟨hstar, hlast⟩ := hgr.eq_of_single hrtl (hdec.irq_fields halt').1 hsingle
      rw [hstar, hlast]
      exact ⟨hsingle ▸ hmeets.1.1, hmeets.1.2⟩
    · rw [if_pos hrout, Bool.and_eq_true, decide_eq_true_eq, decide_eq_true_eq] at hmeets
      rw [hstat]
      exact hmeets.2
  obtain ⟨hlevel, alt', halt', hlat⟩ := hsafe x hx (hown ▸ hfor) hov
  rw [current_eq_of_unplaced hunp] at halt'
  obtain rfl := Option.mem_unique halt' halt
  exact ⟨hlevel, hlat⟩

end

/-! ### Along a test -/

section

variable (env : Environment) (host : IrqHost) (arb : ArbiterInstance) (s : Search IrqWorld)

def lineImage (x : RtlRange) : (UInt64 × UInt64 × Option DeviceObject) × Bool :=
  (x.key, isLevelRange x)

/-- What a step of the search is to meet: the window in hand is shared safely, and a placement
that is withdrawn is not mistaken for a record with the same key and another trigger tag. -/
def SharesSafelyNext : Prop :=
  (∀ next ∈ s.sought (irqOps host) arb,
    SharesSafely env (arb.withPossible s.possible) next.1) ∧
    (s.backtracking = true → ∀ current ∈ s.pending.head?, current.requestsRoom = true →
      ∀ x ∈ s.possible, x.key = current.record.key →
        isLevelRange x = isLevelRange current.record)
deriving Decidable

end

/-- A line placement joins the records of the base and of the placements below it as a level
triggered line. -/
def SafeOver (base : RtlRangeList) (st : AllocationState) (below : List AllocationState) : Prop :=
  st.requestsRoom = true → st.start < msiGsivBase →
    LineSafe (base ++ (below.filter (·.requestsRoom)).map (·.record)) st

theorem LineSafe.of_image {possible possible' : RtlRangeList} {st : AllocationState}
    (h : LineSafe possible st) (himage : ∀ x ∈ possible', lineImage x ∈ possible.map lineImage) :
    LineSafe possible' st := by
  intro x hx hfor hov
  obtain ⟨y, hy, heq⟩ := mem_map.mp (himage x hx)
  obtain ⟨hkey, hlevel⟩ := Prod.mk.inj heq
  obtain ⟨-, -, hown⟩ := Range.fields_of_key hkey
  obtain ⟨hy', halt⟩ := h y hy (hown ▸ hfor) ((Range.overlaps_of_key hkey).mpr hov)
  exact ⟨hlevel ▸ hy', halt⟩

section

variable {env : Environment} {host : IrqHost} {arb : ArbiterInstance} {fuel : Nat}
  {entries : List ArbiterListEntry} {allocateFrom : Option (List CmPartialResourceDescriptor)}
  {world : IrqWorld} {r : TransactionResult IrqWorld}

theorem safeOver_step (hrtl : env.rtl.Lawful) {base : RtlRangeList} {s : Search IrqWorld}
    (hinv : s.Inv base lineImage (fun st => [st.record]) (Decodes (irqOps host)) (SafeOver base)
      fun _ => True) (hnext : SharesSafelyNext env host arb s) :
    s.StepOk env (irqOps host) arb lineImage (fun st => [st.record]) (Decodes (irqOps host))
      (SafeOver base) := by
  have hfram : Frames env (irqOps host) := irq_frames env
  have hstab := hfram.decodes arb
  have hhrs : ∀ x ∈ base ++ (s.placed.filter (·.requestsRoom)).map (·.record),
      lineImage x ∈ s.possible.map lineImage := by
    intro x hx
    refine hinv.booked.mem_iff.mpr ?_
    rcases mem_append.mp hx with hx | hx
    · exact mem_append_right _ (mem_map_of_mem hx)
    rw [← flatMap_held_singleton AllocationState.record] at hx
    obtain ⟨b, hb, hx⟩ := mem_flatMap.mp hx
    exact mem_append_left _ (mem_map_of_mem
      (mem_flatMap.mpr ⟨b, mem_append_right _ hb, hx⟩))
  refine ⟨?_, ?_, ?_⟩
  · intro hback current above hpend x hx c hc hkey
    obtain ⟨hroom, hc⟩ := mem_held.mp hc
    obtain rfl := mem_singleton.mp hc
    exact Prod.ext hkey (hnext.2 hback current (by simp [hpend]) hroom x hx hkey)
  · intro st world' hso hgranted hroom
    have hdec := hinv.sought hstab hso
    have hunp := (irqFindSuitableRange_spec env (arb.withPossible s.possible) st world').1
    obtain ⟨alt, halt, -⟩ := Option.any_eq_true _ _ |>.mp hroom
    have halt' : st.current = some alt := (current_eq_of_unplaced hunp).symm.trans halt
    refine ⟨fun _ hline => ?_, forall_mem_singleton.mpr ?_⟩
    · have hsafe := lineSafe_of_sharesSafely hrtl hgranted hline hdec
        (hnext.1 (st, world') hso) (by simp [halt'])
      exact hsafe.of_image hhrs
    · exact irqFind_start_le_last hrtl hgranted
  · intro st world' hso hgranted hnone
    have hdec := hstab.find s.possible st world' (hinv.sought hstab hso)
    exact ⟨hdec, fun hroom => absurd (hnone.symm.trans hroom) Bool.false_ne_true⟩

/-- Whatever a line placement of a test meets, the later of the two has joined the earlier one as
a level triggered line. -/
theorem joinsLevel_of_stacked {base : RtlRangeList} {placed : List AllocationState}
    (h : Stacked (SafeOver base) placed) {st b : AllocationState} (hst : st ∈ placed)
    (hb : b ∈ placed) (hroom : st.requestsRoom = true) (hroom' : b.requestsRoom = true)
    (hline : st.start < msiGsivBase) (hline' : b.start < msiGsivBase)
    (hfor : b.owner ≠ st.owner) (hov : b.record.Overlaps st.start st.last) :
    JoinsLevel st b.record ∨ JoinsLevel b st.record := by
  have hrec : ∀ {b} {below : List AllocationState}, b ∈ below → b.requestsRoom = true →
      b.record ∈ base ++ (below.filter (·.requestsRoom)).map (·.record) := fun hb hroom =>
    mem_append_right _ (mem_map_of_mem (mem_filter.mpr ⟨hb, hroom⟩))
  rcases h.above_or_below hst hb with rfl | ⟨below, hsafe, hmem⟩ | ⟨below, hsafe, hmem⟩
  · exact absurd rfl hfor
  · exact .inl (hsafe hroom hline b.record (hrec hmem hroom') hfor hov)
  · exact .inr (hsafe hroom' hline' st.record (hrec hmem hroom) hfor.symm ⟨hov.2, hov.1⟩)

theorem Packed.joinsLevel {σ : Type} {ops : ArbiterOps σ} {st st' : AllocationState} {x : RtlRange}
    (h : Packed ops st st') : JoinsLevel st' x ↔ JoinsLevel st x := by
  rw [h.state]
  rfl

theorem test_joinsLevel (hrtl : env.rtl.Lawful)
    (halong : TestAlong env (irqOps host) fuel arb entries allocateFrom world
      (SharesSafelyNext env host))
    (htest : arbpTestAllocation env (irqOps host) fuel arb entries allocateFrom world = some r)
    (hok : r.status = .ok ()) {st : AllocationState} (hst : st ∈ r.stack)
    (hroom : st.requestsRoom = true) (hline : st.start < msiGsivBase) {x : RtlRange}
    (hx : x ∈ r.arbiter.possibleAllocation) (hlinex : x.start < msiGsivBase)
    (hfor : x.owner ≠ st.owner) (hov : x.Overlaps st.start st.last) : JoinsLevel st x ∨
      ∃ st' ∈ r.stack, lineImage st'.record = lineImage x ∧ JoinsLevel st' st.record := by
  obtain ⟨setup, -, hset, -⟩ := testAllocation_ok htest hok
  obtain ⟨placed, hpl⟩ := solution_of_test (irq_books hrtl) (irq_frames env)
    ((irq_frames env).decodes setup.arbiter) (fun _ _ h => congrArg Prod.fst h)
    (fun _ _ _ _ _ _ _ _ _ => trivial) (fun s => safeOver_step hrtl)
    (fun _ _ hbuilt => hbuilt.decodes) hset htest hok halong
  obtain ⟨st₀, hst₀, hpack⟩ := hpl.exists_placed hst
  rw [hpack.requestsRoom] at hroom
  rw [hpack.start] at hline
  rw [hpack.owner] at hfor
  rw [hpack.start, hpack.last] at hov
  have hmem := hpl.booked.mem_iff.mp (mem_map_of_mem hx)
  rcases mem_append.mp hmem with hmem | hmem
  · obtain ⟨y, hy, heq⟩ := mem_map.mp hmem
    rw [flatMap_held_singleton AllocationState.record] at hy
    obtain ⟨b, hb, rfl⟩ := mem_map.mp hy
    obtain ⟨hb, hroom'⟩ := mem_filter.mp hb
    obtain ⟨hkey, hlevel⟩ := Prod.mk.inj heq
    obtain ⟨hstar, -, hown⟩ := Range.fields_of_key hkey
    rw [← hown] at hfor
    rw [← Range.overlaps_of_key hkey] at hov
    rw [← hstar] at hlinex
    rcases joinsLevel_of_stacked hpl.stacked hst₀ hb hroom hroom' hline hlinex hfor
      hov with hjoins | hjoins
    · exact .inl (hpack.joinsLevel.mpr ⟨hlevel ▸ hjoins.1, hjoins.2⟩)
    obtain ⟨b', hb', hpack'⟩ := hpl.exists_packed hb
    refine .inr ⟨b', hb', ?_, ?_⟩
    · rw [hpack'.record]
      exact heq
    · rw [hpack'.joinsLevel, hpack.record]
      exact hjoins
  · obtain ⟨below, hsafe⟩ := hpl.stacked.exists_below hst₀
    have hbase : LineSafe [x] _ := (hsafe hroom hline).of_image (fun y hy => by
      obtain rfl := mem_singleton.mp hy
      rw [map_append]
      exact mem_append_left _ hmem)
    exact .inl (hpack.joinsLevel.mpr (hbase x mem_cons_self hfor hov))

/-- A line that is searched for is shared safely if the records it may meet and the alternative in
use are level triggered; in a window of one line, only then. In every test whose steps all meet
that condition, a line that has two owners was level triggered when it was joined, and was joined
by a level triggered alternative. -/
theorem irq_lines_shared_safely (hrtl : env.rtl.Lawful) (host : IrqHost) :
    (∀ (arb : ArbiterInstance) (st : AllocationState) (alt : ArbiterAlternative)
      (world : IrqWorld), Decodes (irqOps host) st → st.current = some alt →
      (uacpiNtIrqFindSuitableRange env arb st world).granted = true →
      (uacpiNtIrqFindSuitableRange env arb st world).state.start < msiGsivBase →
      (SharesSafely env arb st → LineSafe arb.possibleAllocation
        (uacpiNtIrqFindSuitableRange env arb st world).state) ∧
      (st.currentMinimum = st.currentMaximum → LineSafe arb.possibleAllocation
        (uacpiNtIrqFindSuitableRange env arb st world).state → SharesSafely env arb st)) ∧
    ∀ (fuel : Nat) (arb : ArbiterInstance) (entries : List ArbiterListEntry)
      (allocateFrom : Option (List CmPartialResourceDescriptor)) (world : IrqWorld)
      (r : TransactionResult IrqWorld),
      TestAlong env (irqOps host) fuel arb entries allocateFrom world
        (SharesSafelyNext env host) →
      arbpTestAllocation env (irqOps host) fuel arb entries allocateFrom world = some r →
      r.status = .ok () →
      ∀ st ∈ r.stack, st.requestsRoom = true → st.start < msiGsivBase →
      ∀ x ∈ r.arbiter.possibleAllocation, x.start < msiGsivBase → x.owner ≠ st.owner →
        x.Overlaps st.start st.last →
        JoinsLevel st x ∨
          ∃ st' ∈ r.stack, lineImage st'.record = lineImage x ∧ JoinsLevel st' st.record := by
  refine ⟨fun arb st alt world hdecodes halt hgranted hline => ⟨fun hsafe => ?_, ?_⟩, ?_⟩
  · exact lineSafe_of_sharesSafely hrtl hgranted hline hdecodes hsafe (by simp [halt])
  · exact fun hsingle => sharesSafely_of_lineSafe hrtl hgranted hline hdecodes hsingle
  · intro fuel arb entries allocateFrom world r halong htest hok st hst hroom hline x hx hlinex
    exact test_joinsLevel hrtl halong htest hok hst hroom hline hx hlinex

end

def IoResourceDescriptor.ofLine (share : ShareDisposition) (flags : UInt16) (gsiv : UInt32) :
    IoResourceDescriptor :=
  ⟨0, share, flags, .interrupt gsiv gsiv 0⟩

def IrqHost.routedTo (gsiv : UInt32) : IrqHost :=
  ⟨1, 64, fun _ _ links => (some gsiv, links)⟩

theorem level_line_joined :
    ∃ r st x, arbpTestAllocation .reference (irqOps .unrouted) 10
        (.plainInterrupt [⟨9, 9, uacpiNtRangeLevel, true, some ⟨3⟩⟩])
        [.request ⟨1⟩ [.ofLine .deviceExclusive 0 9]] none .zero = some r ∧
      r.status = .ok () ∧ r.stack = [st] ∧ x ∈ r.arbiter.possibleAllocation ∧
      x.owner = some ⟨3⟩ ∧ x.Overlaps st.start st.last ∧ JoinsLevel st x := by
  have htest : arbpTestAllocation .reference (irqOps .unrouted) 10
      (.plainInterrupt [⟨9, 9, uacpiNtRangeLevel, true, some ⟨3⟩⟩])
      [.request ⟨1⟩ [.ofLine .deviceExclusive 0 9]] none .zero = some _ := rfl
  have halong : TestAlong .reference (irqOps .unrouted) 10
      (.plainInterrupt [⟨9, 9, uacpiNtRangeLevel, true, some ⟨3⟩⟩])
      [.request ⟨1⟩ [.ofLine .deviceExclusive 0 9]] none .zero
      (SharesSafelyNext .reference .unrouted) := by decide
  have hjoins := (irq_lines_shared_safely Environment.reference_lawful .unrouted).2 10 _ _ none
    .zero _ halong htest rfl _ List.mem_cons_self rfl (by decide)
    ⟨9, 9, uacpiNtRangeLevel, true, some ⟨3⟩⟩ (by decide) (by decide) (by decide) (by decide)
  refine ⟨_, _, _, rfl, rfl, rfl, by decide, rfl, by decide, hjoins.resolve_right ?_⟩
  rintro ⟨st', hst', himage, -⟩
  obtain rfl := List.mem_singleton.mp hst'
  exact absurd himage (by decide)

/-- Two devices that are routed to line 10 both get it, though both ask for it exclusively and
edge triggered. Without routing, a shared edge triggered line is joined by a second edge
triggered device as well. -/
theorem edge_lines_get_second_owners :
    (∃ r, arbpTestAllocation .reference (irqOps (.routedTo 10)) 10 (.plainInterrupt [])
        [.request ⟨1⟩ [.ofLine .deviceExclusive 1 10],
          .request ⟨2⟩ [.ofLine .deviceExclusive 1 10]] none .zero = some r ∧
      r.status = .ok () ∧ r.arbiter.possibleAllocation =
        [⟨10, 10, uacpiNtRangeLatched, false, some ⟨2⟩⟩,
          ⟨10, 10, uacpiNtRangeLatched, false, some ⟨1⟩⟩]) ∧
    ∃ r, arbpTestAllocation .reference (irqOps .unrouted) 10
        (.plainInterrupt [⟨5, 5, uacpiNtRangeLatched, true, some ⟨2⟩⟩])
        [.request ⟨1⟩ [.ofLine .shared 1 5]] none .zero = some r ∧
      r.status = .ok () ∧ r.arbiter.possibleAllocation =
        [⟨5, 5, uacpiNtRangeLatched, true, some ⟨1⟩⟩,
          ⟨5, 5, uacpiNtRangeLatched, true, some ⟨2⟩⟩] :=
  ⟨⟨_, rfl, rfl, rfl⟩, _, rfl, rfl, rfl⟩

end UacpiNt
