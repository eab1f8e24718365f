import UacpiNt.IrqLib.Ownership
import Mathlib.Data.List.Infix

/-!
# Asking for a line again

A lower line keeps its vector, and a secondary line its number. A line that has no entry in the
table of lines gets a new vector with every call; this is also what happens to the line of the
controller behind a secondary line. No two lines are ever given the same vector.
-/

namespace UacpiNt

open List RangeList VectorState

variable {api : IdtApi} {grant : HalGrant} {host : IrqLibHost}

variable {gsiv vector : UInt32} {s : VectorState} {lines : List (UInt32 × UInt32)}

/-! ### What calls do not take back -/

/-- The later state keeps the vectors of the lines and the numbers of the secondary lines. -/
structure Extends (s s' : VectorState) : Prop where
  assigned : ∀ gsiv, s.assignedVector gsiv ≠ 0 →
    s'.assignedVector gsiv = s.assignedVector gsiv
  secondary : s.secondaryVectorGsiv <+: s'.secondaryVectorGsiv
  length : s.secondaryVectorGsiv.length ≤ secondaryVectorCount →
    s'.secondaryVectorGsiv.length ≤ secondaryVectorCount

namespace Extends

variable {s' s'' : VectorState}

theorem of_eq (hvect : s'.gsivVector = s.gsivVector)
    (hsec : s'.secondaryVectorGsiv = s.secondaryVectorGsiv) : Extends s s' := by
  refine ⟨fun gsiv _ => ?_, hsec ▸ prefix_refl _, fun h => hsec ▸ h⟩
  rw [assignedVector, assignedVector, hvect]

theorem trans (h : Extends s s') (h' : Extends s' s'') : Extends s s'' := by
  refine ⟨fun gsiv hne => ?_, h.secondary.trans h'.secondary, fun hle => h'.length (h.length hle)⟩
  have hkept := h.assigned gsiv hne
  rw [h'.assigned gsiv (hkept ▸ hne), hkept]

end Extends

theorem assignVector_secondaryVectorGsiv (s : VectorState) (gsiv vector : UInt32) :
    (s.assignVector gsiv vector).secondaryVectorGsiv = s.secondaryVectorGsiv := by
  rw [assignVector]
  split <;> rfl

section

variable (api) (host) (gsiv) (s)

theorem allocateVector_extends : Extends s (uacpiNtApicAllocateVector api gsiv s).2 := by
  rcases allocateVector_cases api gsiv s with ⟨-, heq⟩ | ⟨-, -, e, heq⟩ |
    ⟨hnone, -, vector, -, -, heq⟩ <;> rw [heq]
  · exact .of_eq rfl rfl
  · exact .of_eq rfl rfl
  refine ⟨fun other hne => ?_, ?_, fun hle => ?_⟩
  · rw [assignedVector_assignVector, if_neg]
    · rfl
    · rintro ⟨rfl, -⟩
      exact hne hnone
  · rw [assignVector_secondaryVectorGsiv]
    exact prefix_refl _
  · rw [assignVector_secondaryVectorGsiv]
    exact hle

theorem allocateSecondaryVector_extends : Extends s (uacpiNtAllocateSecondaryVector gsiv s).2 := by
  rcases allocateSecondaryVector_cases gsiv s with ⟨index, -, heq⟩ | ⟨-, hlt, heq⟩ | ⟨e, heq⟩
    <;> rw [heq]
  · exact .of_eq rfl rfl
  · refine ⟨fun _ _ => rfl, prefix_append _ _, fun _ => ?_⟩
    rw [length_append]
    exact hlt
  · exact .of_eq rfl rfl

theorem resolveVector_extends (triggers : GsivTriggers) (gsiv : UInt32) (s : VectorState) :
    Extends s (uacpiNtIrqLibResolveVector api host triggers gsiv s).2 :=
  resolveVector_state (P := Extends s) (.of_eq rfl rfl) (allocateSecondaryVector_extends gsiv s)
    fun gsiv' s' h => h.trans (allocateVector_extends api gsiv' s')

theorem resolveMessage_extends (owner : DeviceObject) (messageGsiv count : UInt32)
    (s : VectorState) :
    Extends s (uacpiNtIrqLibResolveMessageVector api host owner messageGsiv count s).2 := by
  rcases resolveMessageVector_cases api host owner messageGsiv count s with
    ⟨e, heq⟩ | ⟨i, -, heq⟩ | ⟨-, i, base, given, s₁, -, -, hrng, heq⟩ <;> rw [heq]
  · exact .of_eq rfl rfl
  · exact .of_eq rfl rfl
  · obtain ⟨hvect, hsec, -⟩ := allocateVectorRange_frame hrng
    exact .of_eq hvect hsec

end

theorem VectorCall.apply_extends (call : VectorCall) (s : VectorState) :
    Extends s (call.apply api host grant s) := by
  refine VectorCall.apply_state (P := Extends s) (.of_eq rfl rfl)
    (fun triggers gsiv _ => resolveVector_extends api host triggers gsiv s) ?_
    (fun _ _ => .of_eq rfl rfl) (fun _ _ => .of_eq rfl rfl) fun processor => ?_
  · intro i owner messageGsiv base given claimed s₁ _ _ _ hrng
    obtain ⟨hvect, hsec, -⟩ := allocateVectorRange_frame hrng
    exact .of_eq hvect hsec
  · rw [uacpiNtSeedProcessor]
    split <;> exact .of_eq rfl rfl

/-! ### What a call leaves of a line -/

def Numbered (s : VectorState) (gsiv vector : UInt32) : Prop :=
  ∃ index, s.secondaryVectorGsiv.findIdx? (· = gsiv) = some index ∧
    vector = secondaryVectorBase + .ofNat index

theorem Numbered.mono {s' : VectorState} (h : Numbered s gsiv vector) (hext : Extends s s') :
    Numbered s' gsiv vector := by
  obtain ⟨index, hidx, hvec⟩ := h
  obtain ⟨rest, hrest⟩ := hext.secondary
  refine ⟨index, ?_, hvec⟩
  rw [← hrest, findIdx?_append, hidx]
  rfl

theorem numbered_of_allocated (h : (uacpiNtAllocateSecondaryVector gsiv s).1 = .ok vector) :
    Numbered (uacpiNtAllocateSecondaryVector gsiv s).2 gsiv vector := by
  rcases allocateSecondaryVector_cases gsiv s with
    ⟨index, hidx, heq⟩ | ⟨hnone, -, heq⟩ | ⟨e, heq⟩
  · rw [heq] at h ⊢
    exact ⟨index, hidx, (Except.ok.inj h).symm⟩
  · rw [heq] at h ⊢
    refine ⟨s.secondaryVectorGsiv.length, ?_, (Except.ok.inj h).symm⟩
    simp [hnone]
  · rw [heq] at h
    cases h

theorem numbered_of_resolved (api : IdtApi) (hsec : host.isSecondary gsiv = true)
    (triggers : GsivTriggers) {line : LineVector}
    (h : (uacpiNtIrqLibResolveVector api host triggers gsiv s).1 = .ok line) :
    Numbered (uacpiNtIrqLibResolveVector api host triggers gsiv s).2 gsiv line.vector := by
  obtain ⟨hvec, hok, -⟩ := resolveVector_of_secondary api hsec triggers s
  rw [h] at hvec
  have hnumb := numbered_of_allocated hvec.symm
  rw [hok line.vector hvec.symm]
  cases host.primary gsiv with
  | none => exact hnumb
  | some primary => exact hnumb.mono (allocateVector_extends api primary _)

theorem RunInBand.ne_zero (h : RunInBand vector 1) : vector ≠ 0 := by
  rintro rfl
  exact absurd h.1 (by decide)

theorem assigned_of_resolved (api : IdtApi) (hmodel : host.interruptModel = acpiNtApic)
    (hprim : host.isSecondary gsiv = false) (hlt : gsiv.toNat < uacpiNtMaxGsiv)
    (triggers : GsivTriggers) {line : LineVector}
    (h : (uacpiNtIrqLibResolveVector api host triggers gsiv s).1 = .ok line) :
    (uacpiNtIrqLibResolveVector api host triggers gsiv s).2.assignedVector gsiv = line.vector ∧
      line.vector ≠ 0 := by
  obtain ⟨hvec, hst⟩ := resolveVector_of_primary api hmodel hprim triggers s
  rw [h] at hvec
  rw [hst]
  rcases allocateVector_cases api gsiv s with ⟨hne, heq⟩ | ⟨-, -, e, heq⟩ |
    ⟨-, -, vector, hband, -, heq⟩
  · rw [heq] at hvec ⊢
    have hvec := Except.ok.inj hvec
    exact ⟨hvec.symm, fun hzero => hne (hvec.symm.trans hzero)⟩
  · rw [heq] at hvec
    cases hvec
  rw [heq] at hvec ⊢
  have hvec := Except.ok.inj hvec
  rw [assignedVector_assignVector, if_pos ⟨rfl, hlt⟩]
  exact ⟨hvec.symm, fun hzero => hband.ne_zero (hvec.symm.trans hzero)⟩

/-! ### The lines that were resolved -/

/-- The line that a call resolves, with its vector. -/
def VectorCall.resolved (api : IdtApi) (host : IrqLibHost) :
    VectorCall → VectorState → List (UInt32 × UInt32)
  | .resolveVector triggers gsiv, s =>
    match (uacpiNtIrqLibResolveVector api host triggers gsiv s).1 with
    | .ok line => [(gsiv, line.vector)]
    | .error _ => []
  | _, _ => []

def resolvedLines (api : IdtApi) (host : IrqLibHost) (grant : HalGrant) :
    List VectorCall → VectorState → List (UInt32 × UInt32)
  | [], _ => []
  | call :: calls, s => call.resolved api host s ++
      resolvedLines api host grant calls (call.apply api host grant s)

/-- What the state knows about a line that was resolved. -/
def Remembers (host : IrqLibHost) (lines : List (UInt32 × UInt32)) (s : VectorState)
    (line : UInt32 × UInt32) : Prop :=
  if host.isSecondary line.1 then
    ∃ index, s.secondaryVectorGsiv.findIdx? (· = line.1) = some index ∧
      line.2 = secondaryVectorBase + .ofNat index
  else line ∈ lines ∧ (line.1.toNat < uacpiNtMaxGsiv → s.assignedVector line.1 = line.2)

theorem Remembers.mono {new : List (UInt32 × UInt32)} {s' : VectorState} {line : UInt32 × UInt32}
    (h : Remembers host lines s line) (hled : Ledger api grant lines s)
    (hext : Extends s s') : Remembers host (new ++ lines) s' line := by
  rw [Remembers] at h ⊢
  split at h
  · rename_i hsec
    rw [if_pos hsec]
    exact Numbered.mono h hext
  rename_i hprim
  rw [if_neg hprim]
  refine ⟨mem_append_right _ h.1, fun hlt => ?_⟩
  have hasgd := h.2 hlt
  have hne : s.assignedVector line.1 ≠ 0 := by
    rw [hasgd]
    exact (hled.lines_band line h.1).ne_zero
  rw [hext.assigned line.1 hne, hasgd]

theorem remembers_resolved (hapi : api.Lawful) (hmodel : host.interruptModel = acpiNtApic)
    (h : Ledger api grant lines s) (call : VectorCall) :
    ∃ new, Ledger api grant (new ++ lines) (call.apply api host grant s) ∧
      ∀ line ∈ call.resolved api host s,
        Remembers host (new ++ lines) (call.apply api host grant s) line := by
  cases call with
  | resolveVector triggers gsiv =>
    obtain ⟨new, hnew, hmem⟩ := h.resolveVector hapi host triggers gsiv
    refine ⟨new, hnew, fun line hline => ?_⟩
    rw [VectorCall.resolved] at hline
    split at hline
    · rename_i found hfd
      obtain rfl := mem_singleton.mp hline
      rw [Remembers]
      by_cases hsec : host.isSecondary gsiv = true
      · rw [if_pos hsec]
        exact numbered_of_resolved api hsec triggers hfd
      have hprim := Bool.eq_false_iff.mpr hsec
      rw [if_neg hsec]
      refine ⟨hmem hprim hmodel found hfd, fun hlt => ?_⟩
      exact (assigned_of_resolved api hmodel hprim hlt triggers hfd).1
    · cases hline
  | resolveMessageVector | allocateMessageTarget | freeMessageTarget | addProcessor =>
    obtain ⟨new, hnew⟩ := h.apply hapi host _
    exact ⟨new, hnew, fun _ hline => by cases hline⟩

theorem remembers_resolvedLines (hapi : api.Lawful) (hmodel : host.interruptModel = acpiNtApic)
    (calls : List VectorCall) (h : Ledger api grant lines s) {past : List (UInt32 × UInt32)}
    (hpast : ∀ line ∈ past, Remembers host lines s line)
    (hlen : s.secondaryVectorGsiv.length ≤ secondaryVectorCount) :
    ∃ lines', Ledger api grant lines' (applyCalls api host grant calls s) ∧
      (∀ line ∈ past ++ resolvedLines api host grant calls s,
        Remembers host lines' (applyCalls api host grant calls s) line) ∧
      (applyCalls api host grant calls s).secondaryVectorGsiv.length ≤ secondaryVectorCount := by
  induction calls generalizing s lines past with
  | nil =>
    refine ⟨lines, h, fun line hline => ?_, hlen⟩
    rw [resolvedLines, append_nil] at hline
    exact hpast line hline
  | cons call calls ih =>
    obtain ⟨new, hnew, hreso⟩ := remembers_resolved hapi hmodel h call
    have hext : Extends s (call.apply api host grant s) := call.apply_extends s
    have hpast' : ∀ line ∈ past ++ call.resolved api host s,
        Remembers host (new ++ lines) (call.apply api host grant s) line := by
      intro line hline
      rcases mem_append.mp hline with hline | hline
      · exact (hpast line hline).mono h hext
      · exact hreso line hline
    have hrest := ih hnew hpast' (hext.length hlen)
    rw [append_assoc] at hrest
    exact hrest

/-! ### Asking again -/

theorem Ledger.line_not_free (hapi : api.Lawful) (h : Ledger api grant lines s)
    (hline : (gsiv, vector) ∈ lines) : uacpiNtVectorFreeEverywhere api s vector = false := by
  exact h.not_free hapi (mem_append_left _ (mem_map_of_mem hline))
    ⟨UInt64.le_refl _, UInt64.le_refl _⟩

theorem Ledger.allocateVector_same_iff (hapi : api.Lawful) (h : Ledger api grant lines s)
    (gsiv : UInt32) : (uacpiNtApicAllocateVector api gsiv s).2 = s ↔ s.assignedVector gsiv ≠ 0 ∨
      ∀ v : Nat, 0x50 ≤ v → v < 0xC0 → uacpiNtVectorFreeEverywhere api s (.ofNat v) = false := by
  rcases allocateVector_cases api gsiv s with ⟨hne, heq⟩ | ⟨-, hnone, e, heq⟩ |
    ⟨hnone, -, vector, hband, hfree, heq⟩ <;> rw [heq]
  · exact ⟨fun _ => .inl hne, fun _ => rfl⟩
  · exact ⟨fun _ => .inr (hnone.resolve_left h.processorIdt_ne_nil), fun _ => rfl⟩
  constructor
  · intro hsame
    have hafter : Ledger api grant ((gsiv, vector) :: lines) _ := h.claimLine hapi hband hfree
    have hclai := hafter.line_not_free hapi mem_cons_self
    simp only at hsame
    rw [hsame, hfree] at hclai
    cases hclai
  · rintro (hne | hfull)
    · exact absurd hnone hne
    have hvec := hfull vector.toNat hband.1 (by
      have hend := hband.2
      rw [UInt32.toNat_one] at hend
      omega)
    rw [UInt32.ofNat_toNat, hfree] at hvec
    cases hvec

/-- Another call for the line leaves everything as it is: the line is in the table or, for a
secondary line, the line of its controller has a vector already or cannot get one. -/
def ResolvesAgain (api : IdtApi) (host : IrqLibHost) (s : VectorState) (gsiv : UInt32) : Prop :=
  if host.isSecondary gsiv then
    ∀ primary ∈ host.primary gsiv, s.assignedVector primary ≠ 0 ∨
      ∀ v : Nat, 0x50 ≤ v → v < 0xC0 → uacpiNtVectorFreeEverywhere api s (.ofNat v) = false
  else gsiv.toNat < uacpiNtMaxGsiv

/-- A line that is remembered resolves to its vector again, with nothing changed, just where it
resolves again. -/
theorem Remembers.resolves_iff (hapi : api.Lawful) (hmodel : host.interruptModel = acpiNtApic)
    (hled : Ledger api grant lines s) (h : Remembers host lines s (gsiv, vector))
    (triggers : GsivTriggers) :
    ((uacpiNtIrqLibResolveVector api host triggers gsiv s).1.map (·.vector) = .ok vector ∧
        (uacpiNtIrqLibResolveVector api host triggers gsiv s).2 = s) ↔
      ResolvesAgain api host s gsiv := by
  rw [Remembers] at h
  rw [ResolvesAgain]
  by_cases hsec : host.isSecondary gsiv = true
  · rw [if_pos hsec] at h ⊢
    obtain ⟨index, hidx, hvec⟩ := h
    obtain ⟨hres, hok, -⟩ := resolveVector_of_secondary api hsec triggers s
    have hall : uacpiNtAllocateSecondaryVector gsiv s =
        (.ok (secondaryVectorBase + .ofNat index), s) := by
      rw [uacpiNtAllocateSecondaryVector, hidx]
    rw [hall] at hres hok
    rw [hres, hok _ rfl, ← hvec]
    cases host.primary gsiv with
    | none => exact ⟨fun _ _ h => (by cases h), fun _ => ⟨rfl, rfl⟩⟩
    | some primary =>
      rw [Option.elim_some, hled.allocateVector_same_iff hapi]
      simp
  · rw [if_neg hsec] at h ⊢
    have hprim := Bool.eq_false_iff.mpr hsec
    obtain ⟨hres, hst⟩ := resolveVector_of_primary api hmodel hprim triggers s
    rw [hres, hst]
    constructor
    · rintro ⟨hvec, hsame⟩
      by_contra hge
      have hnone : s.assignedVector gsiv = 0 := dif_neg hge
      rcases allocateVector_cases api gsiv s with ⟨hne, -⟩ | ⟨-, -, e, heq⟩ |
        ⟨-, -, v, hband, hfree, heq⟩
      · exact hne hnone
      · rw [heq] at hvec
        cases hvec
      -- A new vector was free, the one that was given before is not.
      rw [heq] at hvec
      obtain rfl : v = vector := Except.ok.inj hvec
      rw [hled.line_not_free hapi h.1] at hfree
      cases hfree
    · intro hlt
      have hasgd := h.2 hlt
      have hne : s.assignedVector gsiv ≠ 0 := by
        rw [hasgd]
        exact (hled.lines_band _ h.1).ne_zero
      rcases allocateVector_cases api gsiv s with ⟨-, heq⟩ | ⟨hnone, -⟩ | ⟨hnone, -⟩
      · rw [heq, hasgd]
        exact ⟨rfl, rfl⟩
      · exact absurd hnone hne
      · exact absurd hnone hne

theorem Remembers.unique (hled : Ledger api grant lines s)
    (hlen : s.secondaryVectorGsiv.length ≤ secondaryVectorCount) {gsiv' : UInt32}
    (h : Remembers host lines s (gsiv, vector)) (h' : Remembers host lines s (gsiv', vector)) :
    gsiv = gsiv' := by
  have hnum : ∀ gsiv, host.isSecondary gsiv = true → Remembers host lines s (gsiv, vector) →
      ∃ index, s.secondaryVectorGsiv[index]? = some gsiv ∧ vector.toNat = 256 + index := by
    intro gsiv hsec h
    rw [Remembers, if_pos hsec] at h
    obtain ⟨index, hidx, hvec⟩ := h
    obtain ⟨hlt, hfd, -⟩ := findIdx?_eq_some_iff_getElem.mp hidx
    refine ⟨index, ?_, ?_⟩
    · rw [getElem?_eq_getElem hlt]
      exact congrArg some (of_decide_eq_true hfd)
    have hbase : secondaryVectorBase.toNat = 256 := rfl
    have hidx' : index < 256 := Nat.lt_of_lt_of_le hlt hlen
    simp only at hvec
    rw [hvec, UInt32.toNat_add, UInt32.toNat_ofNat_of_lt' (by rw [UInt32.size]; omega)]
    omega
  have hline : ∀ gsiv, ¬ host.isSecondary gsiv = true →
      Remembers host lines s (gsiv, vector) → (gsiv, vector) ∈ lines ∧ vector.toNat < 0xC0 := by
    intro gsiv hprim h
    rw [Remembers, if_neg hprim] at h
    have hend := (hled.lines_band _ h.1).2
    exact ⟨h.1, hend⟩
  by_cases hsec : host.isSecondary gsiv = true
  · obtain ⟨index, hidx, hvec⟩ := hnum gsiv hsec h
    by_cases hsec' : host.isSecondary gsiv' = true
    · obtain ⟨index', hidx', hvec'⟩ := hnum gsiv' hsec' h'
      obtain rfl : index = index' := by omega
      exact Option.some.inj (hidx.symm.trans hidx')
    · obtain ⟨-, hlt⟩ := hline gsiv' hsec' h'
      omega
  · obtain ⟨hmem, hlt⟩ := hline gsiv hsec h
    by_cases hsec' : host.isSecondary gsiv' = true
    · obtain ⟨index', -, hvec'⟩ := hnum gsiv' hsec' h'
      omega
    · exact hled.line_unique hmem (hline gsiv' hsec' h').1

/-- After every run of calls, a line that was resolved in it resolves to the same vector again,
with nothing changed, just where the state lets it; and no two lines were given one vector. -/
theorem line_resolution_repeats_iff (hapi : api.Lawful)
    (hmodel : host.interruptModel = acpiNtApic) (grant : HalGrant) (processor : Nat)
    (calls : List VectorCall) {s : VectorState}
    (hs : s = applyCalls api host grant calls (uacpiNtSeedProcessor api grant processor .zero)) :
    (∀ line ∈ resolvedLines api host grant calls
        (uacpiNtSeedProcessor api grant processor .zero), ∀ triggers,
      ((uacpiNtIrqLibResolveVector api host triggers line.1 s).1.map (·.vector) = .ok line.2 ∧
          (uacpiNtIrqLibResolveVector api host triggers line.1 s).2 = s) ↔
        ResolvesAgain api host s line.1) ∧
    ∀ line ∈ resolvedLines api host grant calls
        (uacpiNtSeedProcessor api grant processor .zero),
      ∀ line' ∈ resolvedLines api host grant calls
          (uacpiNtSeedProcessor api grant processor .zero),
        line.2 = line'.2 → line.1 = line'.1 := by
  have hempty : (uacpiNtSeedProcessor api grant processor .zero).secondaryVectorGsiv.length ≤
      secondaryVectorCount := Nat.zero_le _
  have hpast : ∀ line ∈ ([] : List (UInt32 × UInt32)), Remembers host []
      (uacpiNtSeedProcessor api grant processor .zero) line := nofun
  obtain ⟨lines, hledger, hremembers, hlength⟩ := remembers_resolvedLines hapi hmodel calls
    (Ledger.first hapi grant processor) hpast hempty
  rw [← hs] at hledger hremembers hlength
  refine ⟨fun line hline triggers => ?_, fun line hline line' hline' hvector => ?_⟩
  · exact (hremembers line hline).resolves_iff hapi hmodel hledger triggers
  · obtain ⟨gsiv, vector⟩ := line
    obtain ⟨gsiv', vector'⟩ := line'
    obtain rfl : vector = vector' := hvector
    exact (hremembers _ hline).unique hledger hlength (hremembers _ hline')

theorem lower_line_repeats :
    ∃ s, s = applyCalls .reference .plain ⟨0, 0⟩ lineAndRunCalls
        (uacpiNtSeedProcessor .reference ⟨0, 0⟩ 0 .zero) ∧
      (uacpiNtIrqLibResolveVector .reference .plain .zero 5 s).1.map (·.vector) = .ok 0x51 ∧
      (uacpiNtIrqLibResolveVector .reference .plain .zero 5 s).2 = s := by
  have hmodel : IrqLibHost.plain.interruptModel = acpiNtApic := rfl
  obtain ⟨hrepeats, -⟩ := line_resolution_repeats_iff IdtApi.reference_lawful hmodel ⟨0, 0⟩ 0
    lineAndRunCalls rfl
  have hline : ((5, 0x51) : UInt32 × UInt32) ∈ resolvedLines .reference .plain ⟨0, 0⟩
      lineAndRunCalls (uacpiNtSeedProcessor .reference ⟨0, 0⟩ 0 .zero) := by decide +kernel
  refine ⟨_, rfl, (hrepeats _ hline .zero).mpr ?_⟩
  rw [ResolvesAgain]
  decide

/-- Line 300 is not in the table: the second call gives it another vector and keeps the first one
in use. -/
theorem upper_line_moves :
    ∃ s, s = applyCalls .reference .plain ⟨0, 0⟩ [.resolveVector .zero 300]
        (uacpiNtSeedProcessor .reference ⟨0, 0⟩ 0 .zero) ∧
      resolvedLines .reference .plain ⟨0, 0⟩ [.resolveVector .zero 300]
        (uacpiNtSeedProcessor .reference ⟨0, 0⟩ 0 .zero) = [(300, 0x50)] ∧
      (uacpiNtIrqLibResolveVector .reference .plain .zero 300 s).1.map (·.vector) = .ok 0x51 ∧
      (uacpiNtIrqLibResolveVector .reference .plain .zero 300 s).2.processorIdt ≠
        s.processorIdt :=
  ⟨_, rfl, by decide +kernel, by decide +kernel, by decide +kernel⟩

end UacpiNt
