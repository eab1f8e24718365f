import UacpiNt.Arbiter.Ordering.Coverage
import Mathlib.Order.CompletePartialOrder
import Mathlib.Order.Interval.Set.Disjoint
import Mathlib.Data.Nat.SuccPred
import Mathlib.Order.SuccPred.Archimedean

/-!
# The ladders of a packing problem

A stack of requests is a packing problem: each request is to be put at an aligned start of one of
its alternatives, clear of the other requests and of the base list. In a window the search tries the
highest clear start, and when the entries above cannot be placed, the highest one that ends below
the start it gave up. These starts are the rungs of a ladder. If no alternative is longer than its
alignment, all clear starts are.
-/

namespace UacpiNt

open UInt64
open RangeList (toNat_pos_of_ne_zero toNat_sub_one_of_lt)
open List (mem_cons mem_cons_self mem_filterMap mem_cons_of_mem mem_map mem_map_of_mem
  forall_mem_cons)

/-! ### The problem -/

def taken (l : RtlRangeList) : Set ℕ :=
  {a | ∃ r ∈ l, r.start.toNat ≤ a ∧ a ≤ r.last.toNat}

def ArbiterAlternative.cells (alt : ArbiterAlternative) (s : ℕ) : Set ℕ :=
  Set.Ico s (s + alt.length.toNat)

/-- One alternative and one aligned start in its window can be chosen for each entry, such that the
placements are disjoint from each other and from the base list. -/
def Feasible (states : List AllocationState) (base : RtlRangeList) : Prop :=
  ∃ choice : List (ArbiterAlternative × ℕ),
    List.Forall₂ (fun c st => c.1 ∈ st.alternatives ∧ c.2 ∈ c.1.starts (c.1.minimum, c.1.maximum))
      choice states ∧
    choice.Pairwise (fun c d => Disjoint (c.1.cells c.2) (d.1.cells d.2)) ∧
    ∀ c ∈ choice, Disjoint (c.1.cells c.2) (taken base)

/-! ### The ladders -/

/-- The numbers that are tried from a bound down: the highest clear one, and below one that varies,
in the same way from there. -/
inductive Ladder (clear : ℕ → Set ℕ) (varies : ℕ → Prop) : ℕ → ℕ → Prop where
  | top {bound s : ℕ} (h : IsGreatest (clear bound) s) : Ladder clear varies bound s
  | lower {bound start s : ℕ} (h : IsGreatest (clear bound) start) (hvaries : varies start)
      (hs : Ladder clear varies start s) : Ladder clear varies bound s

/-- The aligned starts from the least one that end below the bound, clear of what is taken. -/
def ArbiterAlternative.clearStarts (alt : ArbiterAlternative) (occupied : Set ℕ)
    (least bound : ℕ) : Set ℕ :=
  {s | alt.effectiveAlignment.toNat ∣ s ∧ least ≤ s ∧ s + alt.length.toNat ≤ bound ∧
    Disjoint (alt.cells s) occupied}

/-- What a window gives to the alternative: nothing, if it asks for nothing, and else the addresses
from a start on the ladder. A fixed alternative and the least start are not varied. -/
def ArbiterAlternative.rungs (alt : ArbiterAlternative) (occupied : Set ℕ)
    (window : UInt64 × UInt64) : Set (Set ℕ) :=
  {cells | alt.length = 0 ∧ window.1 ≤ window.2 ∧ cells = ∅ ∨
    alt.length ≠ 0 ∧ ∃ s, Ladder (alt.clearStarts occupied window.1.toNat)
      (fun start => alt.fixed = false ∧ window.1.toNat < start) (window.2.toNat + 1) s ∧
      cells = alt.cells s}

section

variable (orderings : List ArbiterOrdering)
  (counts : List ArbiterAlternative → ArbiterAlternative → Prop)

/-- What a request may be given, by the alternatives that count and the windows of the walk. -/
def gives (alternatives : List ArbiterAlternative) (occupied : Set ℕ) : Set (Set ℕ) :=
  {cells | ∃ alt ∈ alternatives, counts alternatives alt ∧
    ∃ window ∈ alt.trimmedWindows orderings, cells ∈ alt.rungs occupied window}

/-- The requests can be given something in turn, each clear of what was given before. -/
def FitsInTurn : List (List ArbiterAlternative) → Set ℕ → Prop
  | [], _ => True
  | alternatives :: requests, occupied =>
    ∃ cells ∈ gives orderings counts alternatives occupied, FitsInTurn requests (occupied ∪ cells)

/-- There is a solution on the ladders. -/
def OnLadders (states : List AllocationState) (base : RtlRangeList) : Prop :=
  FitsInTurn orderings counts (states.map (·.requirements)) (taken base)

end

/-- The walk is sure to offer the windows of the alternative: a fixed window has the size of the
alternative, every ordering window that is large enough can hold one that is not fixed, and the
entry does not end at an alternative that asks for nothing. -/
structure SurelyOffered (orderings : List ArbiterOrdering)
    (alternatives : List ArbiterAlternative) (alt : ArbiterAlternative) : Prop where
  sized : alt.fixed = true → alt.maximum.toNat + 1 = alt.minimum.toNat + alt.length.toNat
  usable : alt.fixed = false → alt.Usable orderings
  alone : alt.length = 0 ∨ ∀ a ∈ alternatives, a.length ≠ 0

theorem Ladder.eq_or_below {clear : ℕ → Set ℕ} {varies : ℕ → Prop} {bound start s : ℕ}
    (h : Ladder clear varies bound s) (hstart : IsGreatest (clear bound) start) :
    s = start ∨ varies start ∧ Ladder clear varies start s := by
  cases h with
  | top hs => exact .inl (hs.unique hstart)
  | lower htop hvar hs =>
    obtain rfl := htop.unique hstart
    exact .inr ⟨hvar, hs⟩

theorem Ladder.nonempty {clear : ℕ → Set ℕ} {varies : ℕ → Prop} {bound s : ℕ}
    (h : Ladder clear varies bound s) : (clear bound).Nonempty := by
  cases h with
  | top hs => exact ⟨_, hs.1⟩
  | lower htop => exact ⟨_, htop.1⟩

/-! ### Placements -/

section

variable {l l' : RtlRangeList} {alt : ArbiterAlternative} {s : ℕ} {occupied : Set ℕ}

theorem taken_eq_of_perm (h : (l.map (·.key)).Perm (l'.map (·.key))) : taken l = taken l' := by
  have hkeys : ∀ l : RtlRangeList, taken l =
      {a | ∃ k ∈ l.map (·.key), k.1.toNat ≤ a ∧ a ≤ k.2.1.toNat} := by
    intro l
    ext a
    simp [taken, RangeList.Range.key]
  rw [hkeys, hkeys l']
  ext a
  simp only [h.mem_iff]

theorem taken_cons (r : RtlRange) (l : RtlRangeList) :
    taken (r :: l) = taken l ∪ Set.Icc r.start.toNat r.last.toNat := by
  ext a
  simp [taken, or_comm]

theorem cells_eq_Icc (hleng : alt.length ≠ 0) (s : ℕ) :
    alt.cells s = Set.Icc s (s + alt.length.toNat - 1) := by
  have hlen := toNat_pos_of_ne_zero hleng
  ext a
  simp only [ArbiterAlternative.cells, Set.mem_Ico, Set.mem_Icc]
  omega

theorem overlaps_iff_not_disjoint {start : UInt64} (hfwd : ∀ r ∈ l, r.start ≤ r.last)
    (hleng : alt.length ≠ 0) (hend : start.toNat + alt.length.toNat ≤ 2 ^ 64) :
    (∀ r ∈ l, ¬ r.Overlaps start (start + alt.length - 1)) ↔
      Disjoint (alt.cells start.toNat) (taken l) := by
  have hlen := toNat_pos_of_ne_zero hleng
  have hlast : (start + alt.length - 1).toNat = start.toNat + alt.length.toNat - 1 := by
    simp only [UInt64.toNat_sub, UInt64.toNat_add, toNat_one]
    omega
  rw [cells_eq_Icc hleng, Set.disjoint_left]
  constructor
  · rintro h a ⟨hfst, hlst⟩ ⟨r, hr, hstar, hrec⟩
    refine h r hr ⟨le_iff_toNat_le.mpr ?_, le_iff_toNat_le.mpr ?_⟩ <;> omega
  · rintro h r hr ⟨hstar, hrec⟩
    rw [le_iff_toNat_le] at hstar hrec
    have hfwd' := le_iff_toNat_le.mp (hfwd r hr)
    -- The higher of the two starts belongs to both.
    exact h (a := max start.toNat r.start.toNat) ⟨le_max_left _ _, by omega⟩
      ⟨r, hr, le_max_right _ _, by omega⟩

theorem placement_iff_mem_clearStarts {minimum maximum start : UInt64} {t : RtlTerms}
    (ht : ∀ r ∈ l, t.permits r = false) (hfwd : ∀ r ∈ l, r.start ≤ r.last)
    (hleng : alt.length ≠ 0) :
    RangeList.Placement l minimum maximum alt.length (max alt.alignment 1) t start ↔
      start.toNat ∈ alt.clearStarts (taken l) minimum.toNat (maximum.toNat + 1) := by
  have hmax := maximum.toNat_lt
  rw [max_one_eq_effectiveAlignment]
  have hal : start % alt.effectiveAlignment = 0 ↔
      alt.effectiveAlignment.toNat ∣ start.toNat := by
    rw [← UInt64.toNat_inj, UInt64.toNat_mod, Nat.dvd_iff_mod_eq_zero]
    rfl
  constructor
  · rintro ⟨hmin, halig, hfits, hper⟩
    refine ⟨hal.mp halig, le_iff_toNat_le.mp hmin, hfits,
      (overlaps_iff_not_disjoint hfwd hleng (by omega)).mp fun r hr hov => ?_⟩
    exact Bool.false_ne_true ((ht r hr).symm.trans (hper r hr hov))
  · rintro ⟨hdvd, hmin, hfits, hdisj⟩
    refine ⟨le_iff_toNat_le.mpr hmin, hal.mpr hdvd, hfits, fun r hr hov => ?_⟩
    exact absurd hov ((overlaps_iff_not_disjoint hfwd hleng (by omega)).mpr hdisj r hr)

theorem toNat_sub_one_succ {x y : UInt64} (h : x < y) : (y - 1).toNat + 1 = y.toNat := by
  rw [toNat_sub_one_of_lt h]
  exact Nat.succ_pred_eq_of_pos (Nat.zero_lt_of_lt (lt_iff_toNat_lt.mp h))

theorem exists_toNat_of_mem_clearStarts {least : ℕ} {maximum : UInt64} (hleng : alt.length ≠ 0)
    (h : s ∈ alt.clearStarts occupied least (maximum.toNat + 1)) :
    ∃ start : UInt64, start.toNat = s := by
  have hlen := toNat_pos_of_ne_zero hleng
  have hmax := maximum.toNat_lt
  have hfits := h.2.2.1
  exact ⟨.ofNat s, Nat.mod_eq_of_lt (by omega)⟩

end

section

variable {orderings : List ArbiterOrdering} {alt : ArbiterAlternative}

theorem clip_sized (h : alt.maximum.toNat + 1 = alt.minimum.toNat + alt.length.toNat)
    {o : ArbiterOrdering} (hfits : alt.fitsOrdering o = true) :
    alt.clip o = (alt.minimum, alt.maximum) := by
  rw [ArbiterAlternative.fitsOrdering, Bool.and_eq_true, Bool.not_eq_true', Bool.or_eq_false_iff,
    decide_eq_false_iff_not, decide_eq_false_iff_not, decide_eq_true_eq] at hfits
  obtain ⟨⟨hstar, hlast⟩, hroom⟩ := hfits
  rw [UInt64.not_lt, le_iff_toNat_le] at hstar hlast
  have hmin : (alt.clip o).1.toNat = max alt.minimum.toNat o.start.toNat := toNat_max _ _
  have hmax : (alt.clip o).2.toNat = min alt.maximum.toNat o.last.toNat := toNat_min _ _
  have horder := le_iff_toNat_le.mp o.start_le_last
  suffices (alt.clip o).1.toNat = alt.minimum.toNat ∧ (alt.clip o).2.toNat = alt.maximum.toNat from
    Prod.ext (UInt64.toNat_inj.mp this.1) (UInt64.toNat_inj.mp this.2)
  by_cases hemp : alt.maximum.toNat < alt.minimum.toNat
  · omega
  have hle : (alt.clip o).1 ≤ (alt.clip o).2 := le_iff_toNat_le.mpr (by omega)
  rw [ge_iff_le, le_iff_toNat_le, UInt64.toNat_add, UInt64.toNat_sub_of_le _ _ hle,
    toNat_one] at hroom
  omega

theorem windows_sized (h : alt.maximum.toNat + 1 = alt.minimum.toNat + alt.length.toNat)
    {window : UInt64 × UInt64} (hwin : window ∈ alt.windows orderings) :
    window = (alt.minimum, alt.maximum) := by
  rcases mem_cons.mp hwin with rfl | hwin
  · rfl
  · obtain ⟨o, ho, rfl⟩ := mem_map.mp hwin
    exact clip_sized h (List.mem_filter.mp ho).2

end

/-! ### A condition on the requests -/

/-- What the requests can be looked at for: all windows are sure to be offered and can be rounded,
and of an entry that has others above it, no alternative that may be varied is longer than its
alignment. -/
structure Tractable (orderings : List ArbiterOrdering) (requests : List (List ArbiterAlternative)) :
    Prop where
  offered : ∀ alternatives ∈ requests, ∀ alt ∈ alternatives,
    SurelyOffered orderings alternatives alt
  rounds : ∀ alternatives ∈ requests, ∀ alt ∈ alternatives, alt.length ≠ 0 → alt.RoundsHeld []
  stepped : ∀ alternatives ∈ requests.dropLast, ∀ alt ∈ alternatives, alt.fixed = false →
    alt.length ≤ alt.effectiveAlignment

section

variable {orderings : List ArbiterOrdering} {alt : ArbiterAlternative} {occupied : Set ℕ} {s : ℕ}

theorem end_le_of_dvd {length alignment start : ℕ} (hleng : length ≤ alignment)
    (hs : alignment ∣ s) (hstar : alignment ∣ start) (hlt : s < start) : s + length ≤ start := by
  obtain ⟨i, rfl⟩ := hs
  obtain ⟨j, rfl⟩ := hstar
  have hij : i + 1 ≤ j := Nat.lt_of_mul_lt_mul_left hlt
  have hnext := Nat.mul_le_mul_left alignment hij
  rw [Nat.mul_add] at hnext
  omega

theorem exists_isGreatest_clearStarts {least bound : ℕ}
    (hs : s ∈ alt.clearStarts occupied least bound) :
    ∃ start, IsGreatest (alt.clearStarts occupied least bound) start := by
  have hbdd : BddAbove (alt.clearStarts occupied least bound) :=
    ⟨bound, fun start hstart => (Nat.le_add_right _ _).trans hstart.2.2.1⟩
  exact hbdd.exists_isGreatest_of_nonempty ⟨s, hs⟩

/-- Placements of an alternative that is not longer than its alignment do not overlap, so all clear
starts are on the ladder. -/
theorem ladder_of_stepped {least bound : ℕ} (hleng : alt.length ≠ 0) (hfix : alt.fixed = false)
    (hstep : alt.length ≤ alt.effectiveAlignment)
    (hs : s ∈ alt.clearStarts occupied least bound) :
    Ladder (alt.clearStarts occupied least) (fun start => alt.fixed = false ∧ least < start)
      bound s := by
  induction bound using Nat.strongRecOn with
  | ind bound ih =>
    obtain ⟨start, hgreat⟩ := exists_isGreatest_clearStarts hs
    rcases (hgreat.2 hs).eq_or_lt with rfl | hlt
    · exact .top hgreat
    have hlen := toNat_pos_of_ne_zero hleng
    have hend := end_le_of_dvd (le_iff_toNat_le.mp hstep) hs.1 hgreat.1.1 hlt
    have hfits := hgreat.1.2.2.1
    exact .lower hgreat ⟨hfix, hs.2.1.trans_lt hlt⟩
      (ih start (by omega) ⟨hs.1, hs.2.1, hend, hs.2.2.2⟩)

/-- An entry is given something where one of its alternatives has a clear start, and it can be given
that start, if placements of the alternative do not overlap. -/
theorem exists_gives {alternatives : List ArbiterAlternative} (halt : alt ∈ alternatives)
    (hoff : SurelyOffered orderings alternatives alt) (hround : alt.length ≠ 0 → alt.RoundsHeld [])
    (hs : s ∈ alt.starts (alt.minimum, alt.maximum)) (hclear : Disjoint (alt.cells s) occupied) :
    ∃ cells ∈ gives orderings (SurelyOffered orderings) alternatives occupied,
      (alt.fixed = false → alt.length ≤ alt.effectiveAlignment) → cells = alt.cells s := by
  have hwhole : (alt.minimum, alt.maximum) ∈ alt.windows orderings := mem_cons_self
  by_cases hleng : alt.length = 0
  · have htrim : trimWindow alt (alt.minimum, alt.maximum) = some (alt.minimum, alt.maximum) := by
      rw [trimWindow, if_pos hleng]
    refine ⟨∅, ⟨alt, halt, hoff, _, mem_filterMap.mpr ⟨_, hwhole, htrim⟩,
      .inl ⟨hleng, ?_, rfl⟩⟩, ?_⟩
    · exact le_iff_toNat_le.mpr (hs.2.1.trans hs.2.2.1)
    · intro _
      simp [ArbiterAlternative.cells, hleng]
  have hheld := hround hleng _ mem_cons_self s hs
  obtain ⟨w, htrim, hspans⟩ := spans_trimWindow hheld hleng hs
  have hw : w ∈ alt.trimmedWindows orderings := mem_filterMap.mpr ⟨_, hwhole, htrim⟩
  have hs' := mem_starts_of_trimWindow hheld htrim hs
  have hmem : s ∈ alt.clearStarts occupied w.1.toNat (w.2.toNat + 1) :=
    ⟨hs'.1, hs'.2.1, hs'.2.2.2, hclear⟩
  by_cases hvary : alt.fixed = false ∧ alt.length ≤ alt.effectiveAlignment
  · exact ⟨_, ⟨alt, halt, hoff, w, hw, .inr ⟨hleng, s, ladder_of_stepped hleng hvary.1 hvary.2 hmem,
      rfl⟩⟩, fun _ => rfl⟩
  obtain ⟨start, hgreat⟩ := exists_isGreatest_clearStarts hmem
  refine ⟨_, ⟨alt, halt, hoff, w, hw, .inr ⟨hleng, start, .top hgreat, rfl⟩⟩, fun hstep => ?_⟩
  -- A fixed window holds one start.
  have hfix : alt.fixed = true := by
    rw [← Bool.not_eq_false]
    exact fun hfix => hvary ⟨hfix, hstep hfix⟩
  obtain ⟨top, htop, hlast⟩ := hspans.last
  have hsized := hoff.sized hfix
  have hle := hgreat.2 hmem
  have hbelow := htop.1.2.2.2
  have hfits := hgreat.1.2.2.1
  have hmin := hs.2.1
  simp only at hbelow hmin
  rw [show start = s by omega]

theorem onLadders_of_feasible {states : List AllocationState} {base : RtlRangeList}
    (htract : Tractable orderings (states.map (·.requirements))) (h : Feasible states base) :
    OnLadders orderings (SurelyOffered orderings) states base := by
  obtain ⟨choice, hchoi, hpw, hclr⟩ := h
  rw [OnLadders]
  generalize taken base = occupied at hclr
  induction hchoi generalizing occupied with
  | nil => trivial
  | @cons c st choice states hc hrest ih =>
    obtain ⟨hfst, hclr⟩ := forall_mem_cons.mp hclr
    obtain ⟨hapart, hpw⟩ := List.pairwise_cons.mp hpw
    have hmem : c.1.withPriority arbiterPriorityNull ∈ st.requirements :=
      mem_map_of_mem hc.1
    obtain ⟨cells, hcells, hsame⟩ := exists_gives hmem
      (htract.offered _ mem_cons_self _ hmem) (htract.rounds _ mem_cons_self _ hmem)
      hc.2 hfst
    refine ⟨cells, hcells, ?_⟩
    cases hrest with
    | nil => trivial
    | cons hc' hrest =>
      rw [hsame fun hfix => htract.stepped _ mem_cons_self _ hmem hfix]
      refine ih ⟨fun a ha => htract.offered a (mem_cons_of_mem _ ha),
        fun a ha => htract.rounds a (mem_cons_of_mem _ ha),
        fun a ha => htract.stepped a (mem_cons_of_mem _ ha)⟩ hpw _ fun d hd => ?_
      exact Set.disjoint_union_right.mpr ⟨hclr d hd, (hapart d hd).symm⟩

end

end UacpiNt
