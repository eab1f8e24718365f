import UacpiNt.IrqLib.Message

/-!
# Reachable vector states

In a state that calls lead to, the records of every processor are proper ranges. So a run whose
vectors are all free meets no record, on any processor, and a call that resolves a line or
messages only ever takes vectors away from what is free.
-/

namespace UacpiNt

open List RangeList

variable {api : IdtApi} {grant : HalGrant} {host : IrqLibHost} {s s' : VectorState}

def VectorState.Reachable (api : IdtApi) (host : IrqLibHost) (grant : HalGrant)
    (s : VectorState) : Prop :=
  ∃ processor calls,
    s = applyCalls api host grant calls (uacpiNtSeedProcessor api grant processor .zero)

theorem VectorState.Reachable.apply (h : s.Reachable api host grant) (call : VectorCall) :
    (call.apply api host grant s).Reachable api host grant := by
  obtain ⟨processor, calls, rfl⟩ := h
  refine ⟨processor, calls ++ [call], ?_⟩
  rw [applyCalls, applyCalls, foldl_append, foldl_cons, foldl_nil]

theorem VectorState.Reachable.ledger (hapi : api.Lawful) (h : s.Reachable api host grant) :
    ∃ lines, Ledger api grant lines s := by
  obtain ⟨processor, calls, rfl⟩ := h
  obtain ⟨new, hnew⟩ := (Ledger.first hapi grant processor).applyCalls hapi host calls
  exact ⟨_, hnew⟩

/-- No record of a processor ends before it starts. -/
def VectorState.Wide (s : VectorState) : Prop :=
  ∀ used, some used ∈ s.processorIdt → ∀ x ∈ used, x.start ≤ x.last

/-- From one state to the next, the records stay proper and no vector becomes free. -/
structure Grows (api : IdtApi) (s s' : VectorState) : Prop where
  wide : s'.Wide
  free : ∀ v, uacpiNtVectorFreeEverywhere api s' v = true →
    uacpiNtVectorFreeEverywhere api s v = true

namespace Grows

theorem refl (h : s.Wide) : Grows api s s := ⟨h, fun _ hfree => hfree⟩

theorem trans {s'' : VectorState} (h : Grows api s s') (h' : Grows api s' s'') : Grows api s s'' :=
  ⟨h'.wide, fun v hfree => h.free v (h'.free v hfree)⟩

theorem of_eq {s'' : VectorState} (h : Grows api s s')
    (heq : s''.processorIdt = s'.processorIdt) : Grows api s s'' := by
  refine ⟨fun used hused => h.wide used (heq ▸ hused), fun v hfree => h.free v ?_⟩
  rw [uacpiNtVectorFreeEverywhere] at hfree ⊢
  rw [← heq]
  exact hfree

theorem runAt (h : Grows api s s') {count base : UInt32} (hrun : RunAt api s' count base) :
    RunAt api s count base :=
  hrun.mono h.free

end Grows

section

variable (hapi : api.Lawful) (hwide : s.Wide)

include hapi hwide

theorem grows_claim {first last : UInt32} (owner : Option UInt32)
    (hle : first.toUInt64 ≤ last.toUInt64) (hfree : ∀ used, some used ∈ s.processorIdt →
      ∀ x ∈ used, ¬ x.Overlaps first.toUInt64 last.toUInt64) :
    Grows api s (uacpiNtClaimVectors api first last owner s) := by
  constructor
  · intro used' hused'
    obtain ⟨idt, hidt, heq⟩ := mem_map.mp hused'
    obtain ⟨used, rfl, rfl⟩ := Option.map_eq_some_iff.mp heq
    exact hapi.forall_addRange'_free hle (hfree used hidt) hle (hwide used hidt)
  · intro v hv
    rw [vectorFreeEverywhere_iff hapi] at hv ⊢
    intro used hused hcov
    refine hv _ (mem_map_of_mem hused) ?_
    exact (hapi.covers_addRange'_free hle (hfree used hused) _).mpr (.inr hcov)

theorem grows_allocateVector (gsiv : UInt32) :
    Grows api s (uacpiNtApicAllocateVector api gsiv s).2 := by
  rcases allocateVector_cases api gsiv s with ⟨-, heq⟩ | ⟨-, -, e, heq⟩ |
    ⟨-, -, vector, -, hfree, heq⟩ <;> rw [heq]
  · exact .refl hwide
  · exact .refl hwide
  refine Grows.of_eq (grows_claim hapi hwide (lineRangeOwner gsiv) (UInt64.le_refl _) ?_)
    (VectorState.assignVector_processorIdt _ _ _)
  intro used hused x hx hover
  exact (vectorFreeEverywhere_iff hapi s vector).mp hfree used hused ⟨x, hx, hover⟩

theorem grows_allocateVectorRange {count base : UInt32} (hcnt : count ≠ 0)
    (h : uacpiNtApicAllocateVectorRange api count s = (.ok base, s')) : Grows api s s' := by
  obtain ⟨hsearch, rfl⟩ := allocateVectorRange_ok h
  rw [defaultCount_of_ne_zero hcnt] at hsearch ⊢
  rcases search_cases hcnt hsearch with hband | ⟨-, hback, -⟩
  · have hheld : (⟨none, 0, base, count, false⟩ : MessageRun).Held := hband.held hcnt
    have hle : base.toUInt64 ≤ (base + count - 1).toUInt64 := MessageRun.range_wide_iff.mpr hheld.2
    refine grows_claim hapi hwide msiRangeOwner hle fun used hused => ?_
    exact not_overlaps_of_runFree hapi hcnt hband (searchRun_some hsearch).2 hused
      (hwide used hused)
  · rw [claimVectors_backwards hapi s msiRangeOwner (UInt32.not_le.mpr hback)]
    exact .refl hwide

theorem grows_resolveVector (triggers : GsivTriggers) (gsiv : UInt32) :
    Grows api s (uacpiNtIrqLibResolveVector api host triggers gsiv s).2 := by
  refine resolveVector_state (.refl hwide) ?_ fun gsiv' s' h =>
    h.trans (grows_allocateVector hapi h.wide gsiv')
  obtain ⟨secondary, hst⟩ := allocateSecondaryVector_state gsiv s
  rw [hst]
  exact (Grows.refl hwide).of_eq rfl

theorem wide_freeVectorRange (base count : UInt32) :
    (uacpiNtApicFreeVectorRange api base count s).Wide := by
  intro used' hused' x hx
  obtain ⟨idt, hidt, heq⟩ := mem_map.mp hused'
  obtain ⟨used, rfl, rfl⟩ := Option.map_eq_some_iff.mp heq
  exact hwide used hidt x (hapi.mem_of_mem_deleteRange' (c := ⟨_, _, 0, false, _⟩) hx)

theorem wide_seedProcessor (processor : Nat) :
    (uacpiNtSeedProcessor api grant processor s).Wide := by
  rw [uacpiNtSeedProcessor]
  split
  · exact hwide
  intro used hused x hx
  rcases mem_or_eq_of_mem_set hused with hmem | heq
  · rcases mem_append.mp hmem with hmem | hmem
    · exact hwide used hmem x hx
    · cases eq_of_mem_replicate hmem
  · cases heq
    exact (seedIdtState_seeded hapi grant).wide x hx

theorem VectorState.Wide.apply (call : VectorCall) : (call.apply api host grant s).Wide := by
  refine VectorCall.apply_state (P := VectorState.Wide) hwide
    (fun triggers gsiv _ => (grows_resolveVector hapi hwide triggers gsiv).wide) ?_
    (fun _ _ => hwide) (fun _ _ => wide_freeVectorRange hapi hwide _ _)
    (wide_seedProcessor hapi hwide)
  intro i owner messageGsiv base given claimed s₁ _ hgiven _ hrng
  exact (grows_allocateVectorRange hapi hwide hgiven hrng).wide

end

theorem VectorState.Reachable.wide (hapi : api.Lawful) (h : s.Reachable api host grant) :
    s.Wide := by
  obtain ⟨processor, calls, rfl⟩ := h
  have hfst : (uacpiNtSeedProcessor api grant processor .zero).Wide :=
    wide_seedProcessor hapi (fun used hused => absurd hused not_mem_nil) processor
  generalize uacpiNtSeedProcessor api grant processor .zero = s at hfst
  induction calls generalizing s with
  | nil => exact hfst
  | cons call calls ih => exact ih _ (hfst.apply hapi call)

end UacpiNt
