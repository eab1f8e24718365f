import UacpiNt.ResArb.Mirrors

/-!
# The search for ports with free mirrors

`RtlFindRange` answers with the highest placement of a window. A placement whose mirrors are
taken is skipped by moving the lower end of the window above it, where no placement is left, so
the search comes down to the highest placement: it finds one with free mirrors if and only if
that one has them.
-/

namespace UacpiNt

namespace AllocationState

section

variable (env : Environment) (arb : ArbiterInstance) (st : AllocationState)
  (alt : ArbiterAlternative)

def portOpened : AllocationState :=
  st.openBootAttributes.openAttributes alt

def portPlaced (start : UInt64) : AllocationState :=
  { st.portOpened alt with start := start, last := start + alt.length - 1 }

/-- The starts of the aligned placements in the window whose own range is free. -/
def freePorts : Set UInt64 :=
  {s | RangeList.Placement arb.possibleAllocation st.currentMinimum st.currentMaximum alt.length
    (max alt.alignment 1) ((st.portOpened alt).terms arb alt) s}

def MirrorsAvailable : Prop :=
  (uacpiNtPortAliasesAvailable env arb st st.aliases).1 = true
deriving Decidable

/-- The search returned a placement whose own range is free and whose mirrors are available. -/
def FoundPorts (result : Bool × AllocationState) : Prop :=
  result.1 = true ∧ ∃ s ∈ st.freePorts arb alt, MirrorsAvailable env arb (st.portPlaced alt s) ∧
    result.2.start = s ∧ result.2.last = s + alt.length - 1

theorem portOpened_window : (st.portOpened alt).currentMinimum = st.currentMinimum ∧
      (st.portOpened alt).currentMaximum = st.currentMaximum := by
  rw [portOpened, openBootAttributes]
  split <;> exact ⟨rfl, rfl⟩

end

end AllocationState

open AllocationState

section

variable {env : Environment} {arb : ArbiterInstance} {st : AllocationState}
  {alt : ArbiterAlternative}

theorem answer_portOpened : (st.portOpened alt).answer env arb alt = (env.rtl.findRange
    arb.possibleAllocation st.currentMinimum st.currentMaximum alt.length (max alt.alignment 1)
    ((st.portOpened alt).terms arb alt)).1 := by
  rw [AllocationState.answer, (st.portOpened_window alt).1, (st.portOpened_window alt).2]

theorem resFind_eq_of_answer (halt : st.current = some alt) (hlen : alt.length ≠ 0)
    (hwin : st.currentMinimum ≤ st.currentMaximum) {top : UInt64}
    (h : (st.portOpened alt).answer env arb alt = .ok top) :
    (uacpiNtResFindSuitableRange env arb st).1 = (true, st.portPlaced alt top) := by
  have halt' : st.openBootAttributes.current = some alt := by
    rw [current_openBootAttributes, halt]
  have hopen : st.openBootAttributes.currentMinimum ≤ st.openBootAttributes.currentMaximum := by
    obtain ⟨hmin, hmax⟩ := st.portOpened_window alt
    exact (hmin ▸ hmax ▸ hwin :
      (st.portOpened alt).currentMinimum ≤ (st.portOpened alt).currentMaximum)
  have hgr : (uacpiNtResFindSuitableRange env arb st).1.1 = true := by
    by_contra href
    rw [Bool.not_eq_true] at href
    rcases findSuitableRange_refused halt' href with hemp | ⟨-, e, herr⟩
    · exact absurd hopen (UInt64.not_le.mpr hemp)
    · cases h.symm.trans herr
  refine Prod.ext hgr ?_
  obtain ⟨alt', hcur, -, hgran⟩ := findSuitableRange_grant hgr
  obtain rfl := Option.mem_unique hcur halt'
  change (arbiterLibFindSuitableRange env arb st.openBootAttributes).1.2 = st.portPlaced alt' top
  generalize (arbiterLibFindSuitableRange env arb st.openBootAttributes).1.2 = st' at hgran ⊢
  cases hgran with
  | nothing hzero => exact absurd hzero hlen
  | found start _ hans =>
    obtain rfl : start = top := Except.ok.inj (hans.symm.trans h)
    rfl
  | shared _ e _ hans => cases h.symm.trans hans
  | overridden e _ hans => cases h.symm.trans hans

theorem resFind_highest (hrtl : env.rtl.Lawful) (hhigh : env.rtl.Highest)
    (halt : st.current = some alt) (hlen : alt.length ≠ 0)
    (hfree : (st.freePorts arb alt).Nonempty) : ∃ top, IsGreatest (st.freePorts arb alt) top ∧
      (uacpiNtResFindSuitableRange env arb st).1 = (true, st.portPlaced alt top) := by
  have hal : max alt.alignment 1 ≠ 0 := by
    rw [max_one_eq_effectiveAlignment]
    exact alt.effectiveAlignment_ne_zero
  obtain ⟨s, hs⟩ := hfree
  have hwin : st.currentMinimum ≤ st.currentMaximum := UInt64.le_trans hs.minimum_le
      (UInt64.le_trans (hs.start_le_last hlen) (hs.last_le_maximum hlen))
  cases hans : (st.portOpened alt).answer env arb alt with
  | error e =>
    rw [answer_portOpened] at hans
    exact absurd hs (hhigh.not_placement _ _ _ _ _ _ e s hlen hal hans)
  | ok top =>
    have hfd := resFind_eq_of_answer halt hlen hwin hans
    rw [answer_portOpened] at hans
    refine ⟨top, ⟨?_, fun s' hs' => ?_⟩, hfd⟩
    · exact hrtl.find_spec _ _ _ _ _ _ top hlen hal hans
    · exact hhigh.le_found _ _ _ _ _ _ top s' hlen hal hans hs'

theorem PortRound.minimum_le (hrtl : env.rtl.Lawful) {st' : AllocationState}
    (h : PortRound env arb st st') : st.currentMinimum ≤ st'.currentMinimum := by
  induction h with
  | first => exact UInt64.le_refl _
  | next h hgr hroom next hnext hst hmax ih =>
    rename_i st'
    obtain ⟨alt, -, -, hgran⟩ := findSuitableRange_grant hgr
    have hfst := hgran.minimum_le_start hrtl
    rw [← (st'.portOpened_window alt).1] at ih
    exact UInt64.le_trans ih (UInt64.le_trans hfst (UInt64.le_of_lt hst))

theorem minimum_le_portRounds (hrtl : env.rtl.Lawful) {fuel : Nat}
    (h : (portRounds env arb fuel st).1.1 = true) :
    st.currentMinimum ≤ (portRounds env arb fuel st).1.2.start := by
  obtain ⟨st', hround, heq⟩ := (portRounds_cases env arb fuel .first).2 h
  have hgr : (uacpiNtResFindSuitableRange env arb st').1.1 = true := by
    rw [heq]
    exact h
  obtain ⟨alt, -, -, hgran⟩ := findSuitableRange_grant hgr
  have hfst := hgran.minimum_le_start hrtl
  have hmin := hround.minimum_le hrtl
  rw [← (st'.portOpened_window alt).1] at hmin
  rw [← heq]
  exact UInt64.le_trans hmin hfst

theorem portRounds_of_placed {top : UInt64} (fuel : Nat) (halt : st.current = some alt)
    (h : (uacpiNtResFindSuitableRange env arb st).1 = (true, st.portPlaced alt top)) :
    (MirrorsAvailable env arb (st.portPlaced alt top) ∧
        (portRounds env arb (fuel + 1) st).1 = (true, st.portPlaced alt top)) ∨
      (¬ MirrorsAvailable env arb (st.portPlaced alt top) ∧
        ((portRounds env arb (fuel + 1) st).1.1 = false ∨ top < top + alt.length ∧
          (portRounds env arb (fuel + 1) st).1 = (portRounds env arb fuel
            { st.portPlaced alt top with currentMinimum := top + alt.length }).1)) := by
  have hstat : (uacpiNtResFindSuitableRange env arb st).1.2 = st.portPlaced alt top := by rw [h]
  have hcur : (st.portPlaced alt top).current = some alt :=
    (current_openBootAttributes st).trans halt
  simp only [portRounds, hstat, hcur]
  rw [h]
  simp only [Bool.not_true, Bool.false_eq_true, if_false]
  by_cases hmirs : MirrorsAvailable env arb (st.portPlaced alt top)
  · rw [MirrorsAvailable] at hmirs
    rw [if_pos hmirs]
    exact .inl ⟨hmirs, rfl⟩
  refine .inr ⟨hmirs, ?_⟩
  rw [MirrorsAvailable] at hmirs
  rw [if_neg hmirs]
  split
  · exact .inl rfl
  · rename_i hgo
    rw [not_or, not_or, UInt64.not_le] at hgo
    exact .inr ⟨hgo.2.1, rfl⟩

end

/-- For every tentative list, window, length, alignment and decode flags: if some placement has
its own range free and its mirrors available, the search returns such a placement if and only if
the highest placement whose own range is free has its mirrors available. -/
theorem port_search_complete_iff {env : Environment} (hrtl : env.rtl.Lawful)
    (hhighest : env.rtl.Highest) {arb : ArbiterInstance} {st : AllocationState}
    {alt : ArbiterAlternative} (halt : st.current = some alt) (hlength : alt.length ≠ 0)
    (hgood : ∃ s ∈ st.freePorts arb alt, MirrorsAvailable env arb (st.portPlaced alt s)) :
    FoundPorts env arb st alt (uacpiNtResPortFindSuitableRange env arb st).1 ↔
      ∀ top, IsGreatest (st.freePorts arb alt) top →
        MirrorsAvailable env arb (st.portPlaced alt top) := by
  obtain ⟨s, hs, -⟩ := hgood
  obtain ⟨top, hgreatest, hfound⟩ := resFind_highest hrtl hhighest halt hlength ⟨s, hs⟩
  have hunique : ∀ top', IsGreatest (st.freePorts arb alt) top' → top' = top := fun top' h' =>
    UInt64.le_antisymm (hgreatest.2 h'.1) (h'.2 hgreatest.1)
  rw [uacpiNtResPortFindSuitableRange, portRoundsBound]
  rcases portRounds_of_placed _ halt hfound with ⟨hmirrors, hresult⟩ | ⟨hmirrors, hresult⟩
  · refine iff_of_true ?_ fun top' h' => ?_
    · rw [hresult]
      exact ⟨rfl, top, hgreatest.1, hmirrors, rfl, rfl⟩
    · rw [hunique top' h']
      exact hmirrors
  · refine iff_of_false ?_ fun h => hmirrors (h top hgreatest)
    rintro ⟨hgranted, s', hs', -, hstart, -⟩
    rcases hresult with hrefused | ⟨hlt, hlater⟩
    · cases hrefused.symm.trans hgranted
    · -- What is granted later starts above the highest free placement.
      rw [hlater] at hgranted hstart
      have hle := minimum_le_portRounds hrtl hgranted
      rw [hstart] at hle
      exact absurd (hgreatest.2 hs') (UInt64.not_le.mpr (UInt64.lt_of_lt_of_le hlt hle))

def portPair : ArbiterAlternative where
  minimum := 0x100
  maximum := 0x11F
  length := 0x10
  alignment := 0x10
  priority := arbiterPriorityReserved
  shared := false
  fixed := false
  badRange := false
  inaccessibleOk := false
  descriptor := .ofPort .deviceExclusive 0x0004 0x100 0x11F 0x10

def portPairState : AllocationState :=
  { AllocationState.zero (.request ⟨3⟩ []) with
    currentMinimum := 0x100
    currentMaximum := 0x11F
    currentAlternative := some 0
    alternatives := [portPair] }

def portsTaken (start last : UInt64) : ArbiterInstance :=
  (ArbiterInstance.plainPort []).withPossible [⟨start, last, 0, false, some ⟨2⟩⟩]

theorem mem_freePorts_portPair {start s : UInt64} (last : UInt64) (habove : 0x11F < start)
    (hs : s = 0x100 ∨ s = 0x110) :
    s ∈ portPairState.freePorts (portsTaken start last) portPair := by
  refine ⟨?_, ?_, ?_, ?_⟩
  · rcases hs with rfl | rfl <;> decide
  · rcases hs with rfl | rfl <;> decide
  · rcases hs with rfl | rfl <;> decide
  intro r hr hov
  obtain rfl := List.mem_singleton.mp hr
  have hst : start ≤ s + 0x10 - 1 := hov.1
  have hend : s + 0x10 - 1 ≤ 0x11F := by
    rcases hs with rfl | rfl <;> decide
  exact absurd (UInt64.le_trans hst hend) (UInt64.not_le.mpr habove)

theorem higher_ports_found :
    (uacpiNtResPortFindSuitableRange .reference (portsTaken 0x500 0x50F) portPairState).1.2.start =
        0x110 ∧
      FoundPorts .reference (portsTaken 0x500 0x50F) portPairState portPair
        (uacpiNtResPortFindSuitableRange .reference (portsTaken 0x500 0x50F) portPairState).1 := by
  have hfree := mem_freePorts_portPair 0x50F (show (0x11F : UInt64) < 0x500 by decide)
    (.inr rfl)
  refine ⟨by decide, (port_search_complete_iff Environment.reference_lawful
    Environment.reference_highest rfl (by decide) ⟨0x110, hfree, by decide⟩).mpr ?_⟩
  intro top htop
  have hle : top.toNat + 0x10 ≤ 0x11F + 1 := htop.1.fits
  have hge : (0x110 : UInt64).toNat ≤ top.toNat := UInt64.le_iff_toNat_le.mp (htop.2 hfree)
  have hnat : (0x110 : UInt64).toNat = 0x110 := rfl
  obtain rfl : top = 0x110 := UInt64.toNat_inj.mp (by omega)
  decide

/-- With a mirror of the higher placement taken, the search returns nothing, although the lower
placement and its mirrors are free. -/
theorem lower_ports_missed :
    (uacpiNtResPortFindSuitableRange .reference (portsTaken 0x510 0x51F) portPairState).1.1 =
        false ∧
      (0x100 : UInt64) ∈ portPairState.freePorts (portsTaken 0x510 0x51F) portPair ∧
      MirrorsAvailable .reference (portsTaken 0x510 0x51F)
        (portPairState.portPlaced portPair 0x100) := by
  have hfree := mem_freePorts_portPair 0x51F (show (0x11F : UInt64) < 0x510 by decide)
    (.inl rfl)
  exact ⟨by decide, hfree, by decide⟩

end UacpiNt
