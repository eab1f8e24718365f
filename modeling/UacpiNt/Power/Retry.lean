import UacpiNt.Power.Order

/-!
# Resources that failed to turn on

A reference evaluates `_ON` if it is the first one and the resource is off. While a resource whose
`_ON` failed is still referenced, a further reference makes no attempt, so another device can enter
a state with the resource off although nobody tried to turn it on for that device.

`attempted` notes for each device the resources that `_ON` was evaluated for when the device took
the reference that it has.
-/

namespace UacpiNt

open List

section

variable {ρ : Type} [DecidableEq ρ]

section

variable (succeeds : ρ → Bool) (list : List ρ) (s : PowerResources ρ) {r : ρ}

/-- Each reference to a resource that is off when it is taken evaluates `_ON`. -/
def Retries (succeeds : ρ → Bool) : List ρ → PowerResources ρ → Prop
  | [], _ => True
  | r :: rest, s => (s.on r = false → r ∈ (referenceEvaluating succeeds s r).2) ∧
      Retries succeeds rest (referenceEvaluating succeeds s r).1

theorem referenceEvaluating_of_ne {q : ρ} (h : q ≠ r) :
    (referenceEvaluating succeeds s r).1.on q = s.on q ∧
      (referenceEvaluating succeeds s r).1.refCount q = s.refCount q := by
  rw [referenceEvaluating, uacpiNtPowerResReference]
  split
  · simp [h]
  · split <;> simp [h]

def Unreferenced : Prop :=
  ∀ r ∈ list, s.on r = false → s.refCount r = 0

theorem retries_iff {list : List ρ} (hnd : list.Nodup) (s : PowerResources ρ) :
    Retries succeeds list s ↔ Unreferenced list s := by
  induction list generalizing s with
  | nil => simp [Retries, Unreferenced]
  | cons r rest ih =>
    obtain ⟨hr, hrest⟩ := nodup_cons.1 hnd
    have hhead : (s.on r = false → r ∈ (referenceEvaluating succeeds s r).2) ↔
        (s.on r = false → s.refCount r = 0) := by
      rw [referenceEvaluating]
      refine forall_congr' fun hoff => ?_
      split <;> simp_all
    have htail : Unreferenced rest (referenceEvaluating succeeds s r).1 ↔ Unreferenced rest s := by
      refine forall₂_congr fun q hq => ?_
      obtain ⟨hon, hcnt⟩ := referenceEvaluating_of_ne succeeds s (ne_of_mem_of_not_mem hq hr)
      rw [hon, hcnt]
    rw [Retries, ih hrest, hhead, htail]
    simp only [Unreferenced, forall_mem_cons]

/-- What is referenced is on afterwards, or `_ON` was evaluated for it, or it was off and had a
reference; and nothing is turned off. -/
theorem referenceAll_on {list : List ρ} (hnd : list.Nodup) (s : PowerResources ρ) :
    (∀ r, s.on r = true → (referenceAll succeeds list s).1.on r = true) ∧
      ∀ r ∈ list, s.on r = false → s.refCount r = 0 → r ∈ (referenceAll succeeds list s).2 := by
  induction list generalizing s with
  | nil => simp [referenceAll]
  | cons q rest ih =>
    obtain ⟨hq, hrest⟩ := nodup_cons.1 hnd
    obtain ⟨hon, htried⟩ := ih hrest (referenceEvaluating succeeds s q).1
    refine ⟨fun r hr => hon r ?_, fun r hr hoff hzero => ?_⟩
    · rw [referenceEvaluating, uacpiNtPowerResReference]
      split
      · exact hr
      · split
        · by_cases hrq : r = q <;> simp [hrq, hr]
        · exact hr
    · simp only [referenceAll]
      rcases mem_cons.1 hr with rfl | hr
      · rw [referenceEvaluating, if_pos ⟨hzero, hoff⟩]
        exact mem_cons_self
      · obtain ⟨hsame, hcnt⟩ := referenceEvaluating_of_ne succeeds s (ne_of_mem_of_not_mem hr hq)
        exact mem_append_right _ (htried r hr (hsame.trans hoff) (hcnt.trans hzero))

theorem dereferenceAll_on {s : PowerResources ρ} (hon : s.on r = true) :
    (dereferenceAll succeeds list s).1.on r = true ∨ r ∈ (dereferenceAll succeeds list s).2 := by
  induction list generalizing s with
  | nil => exact .inl hon
  | cons q rest ih =>
    have hone : (uacpiNtPowerResDereference succeeds s q).1.on r = true ∨
        r ∈ (uacpiNtPowerResDereference succeeds s q).2 := by
      rw [dereference_eq]
      dsimp only
      split
      · exact .inl hon
      · split
        · by_cases hrq : r = q <;> simp [hrq, hon]
        · exact .inl hon
    simp only [dereferenceAll, mem_append]
    rcases hone with hone | hone
    · exact (ih hone).imp id .inr
    · exact .inr (.inl hone)

end

end

/-! ### Runs -/

/-- The power resources and their holders, with the resources that `_ON` was evaluated for on behalf
of each device. -/
structure PowerHistory (π ω ρ : Type) where
  system : PowerSystem π ω ρ
  attempted : π → List ρ

namespace PowerHistory

variable {π ω ρ : Type} [DecidableEq ρ] [DecidableEq π] [DecidableEq ω]

/-- The attempts after a section: those for what a device holds still, and those of its acquire. -/
def attemptedAfter (order : ρ → UInt16) (h : PowerHistory π ω ρ) : PowerOp π ω ρ → π → List ρ
  | .acquireForState p package succeeds =>
    Function.update h.attempted p ((h.attempted p).filter (· ∈ h.system.pdoHeld p) ++
      h.system.onEvaluated order (.acquireForState p package succeeds))
  | .init _ | .releaseDelta _ _ | .acquireWake _ _ _ | .releaseWake _ _ => h.attempted

def step (order : ρ → UInt16) (h : PowerHistory π ω ρ) (op : PowerOp π ω ρ) :
    Option (PowerHistory π ω ρ) :=
  (h.system.step order op).map fun system => ⟨system, h.attemptedAfter order op⟩

def initial : PowerHistory π ω ρ := ⟨.initial, fun _ => []⟩

/-- The references of a section retry. -/
def SectionRetries (order : ρ → UInt16) (h : PowerHistory π ω ρ) (op : PowerOp π ω ρ) : Prop :=
  match op with
  | .acquireForState _ _ succeeds | .acquireWake _ _ succeeds =>
    Retries succeeds (h.system.references order op) h.system.resources
  | .init _ | .releaseDelta _ _ | .releaseWake _ _ => True

/-- After the acquire half of a state change, when `_PSx` is about to run, every resource of the new
state is on or was tried for the device. -/
def EntersTried (op : PowerOp π ω ρ) (h' : PowerHistory π ω ρ) : Prop :=
  match op with
  | .acquireForState p _ _ => ∀ r ∈ PowerSystem.optionEntries (h'.system.newList p),
      h'.system.resources.on r = true ∨ r ∈ h'.attempted p
  | .init _ | .releaseDelta _ _ | .acquireWake _ _ _ | .releaseWake _ _ => True

/-- A section that references a resource that is off finds it without a reference. -/
def FindsUnreferenced (order : ρ → UInt16) (h : PowerHistory π ω ρ) (op : PowerOp π ω ρ) : Prop :=
  Unreferenced (h.system.references order op) h.system.resources

omit [DecidableEq π] [DecidableEq ω] in
theorem sectionRetries_iff (order : ρ → UInt16) (h : PowerHistory π ω ρ) (op : PowerOp π ω ρ) :
    h.SectionRetries order op ↔ h.FindsUnreferenced order op := by
  cases op with
  | acquireForState p package succeeds =>
    exact retries_iff succeeds (ResourceList.nodup _ |>.filter _) h.system.resources
  | acquireWake w package succeeds =>
    exact retries_iff succeeds (ResourceList.nodup _) h.system.resources
  | init | releaseDelta | releaseWake =>
    simp [SectionRetries, FindsUnreferenced, Unreferenced, PowerSystem.references]

variable [Fintype π] [Fintype ω] {order : ρ → UInt16} {h h' : PowerHistory π ω ρ}

/-- The counts are right, and what a device has referenced is on or was tried for it. -/
structure Tried (h : PowerHistory π ω ρ) : Prop where
  accounted : h.system.Accounted
  tried : ∀ p, ∀ r ∈ h.system.pdoClaims p,
    h.system.resources.on r = true ∨ r ∈ h.attempted p

omit [DecidableEq π] [DecidableEq ω] in
theorem Tried.of_kept (hs : h.Tried) (hsys : h'.system.Accounted)
    (hatt : h'.attempted = h.attempted)
    (hcl : ∀ p, ∀ r ∈ h'.system.pdoClaims p, r ∈ h.system.pdoClaims p)
    (hon : ∀ p, ∀ r ∈ h'.system.pdoClaims p, h.system.resources.on r = true →
      h'.system.resources.on r = true) : h'.Tried := by
  refine ⟨hsys, fun p r hr => ?_⟩
  rw [hatt]
  exact (hs.tried p r (hcl p r hr)).imp_left (hon p r hr)

omit [DecidableEq π] [DecidableEq ω] in
theorem on_of_claimed {s' : PowerSystem π ω ρ} (hs' : s'.Accounted) {p : π} {r : ρ}
    (hr : r ∈ s'.pdoClaims p) (h : s'.resources.on r = true ∨ r ∈ s'.off) :
    s'.resources.on r = true := by
  refine h.resolve_right fun hoff => ?_
  exact absurd (hs'.off r hoff) (hs'.balanced.pos (k := .inl p) hr).ne'

theorem Tried.acquireForState {p : π} {package : Option (List (Option ρ))} {succeeds : ρ → Bool}
    (hs : h.Tried) (hstep : step order h (.acquireForState p package succeeds) = some h')
    (hfst : h.FindsUnreferenced order (.acquireForState p package succeeds)) : h'.Tried := by
  obtain ⟨system, hsys, rfl⟩ := Option.map_eq_some_iff.1 hstep
  have hacc := hs.accounted.step hsys
  obtain ⟨-, rfl⟩ := PowerSystem.step_acquireForState hsys
  obtain ⟨hmono, htried⟩ := referenceAll_on succeeds
    ((ResourceList.nodup _).filter (· ∉ (h.system.heldResources p).entries) : Nodup
      (h.system.references order (.acquireForState p package succeeds))) h.system.resources
  rw [referenceAll_fst] at hmono
  refine ⟨hacc, fun q r hr => ?_⟩
  by_cases hq : q = p
  · subst hq
    simp only [PowerSystem.pdoClaims, Function.update_self, mem_append] at hr
    simp only [attemptedAfter, Function.update_self, mem_append, mem_filter,
      decide_eq_true_eq]
    by_cases hheld : r ∈ h.system.pdoHeld q
    · -- What the device held before is on still, or was tried then.
      refine (hs.tried q r (mem_append_right _ hheld)).imp (hmono r) fun hr => ?_
      exact .inl ⟨hr, hheld⟩
    have href : r ∈ h.system.references order (.acquireForState q package succeeds) :=
      mem_filter.2 ⟨hr.resolve_right hheld, decide_eq_true hheld⟩
    cases hon : h.system.resources.on r with
    | true => exact .inl (hmono r hon)
    | false => exact .inr (.inr (htried r href hon (hfst r href hon)))
  · have hclaim : r ∈ h.system.pdoClaims q := by
      simpa [PowerSystem.pdoClaims, PowerSystem.pdoHeld, hq] using hr
    simp only [attemptedAfter, Function.update_of_ne hq]
    exact (hs.tried q r hclaim).imp_left (hmono r)

theorem Tried.step {op : PowerOp π ω ρ} (hs : h.Tried) (hstep : step order h op = some h')
    (hfst : h.FindsUnreferenced order op) : h'.Tried := by
  cases op with
  | acquireForState p package succeeds => exact hs.acquireForState hstep hfst
  | init sta =>
    obtain ⟨system, hsys, rfl⟩ := Option.map_eq_some_iff.1 hstep
    have hacc := hs.accounted.step hsys
    cases hsys
    refine hs.of_kept hacc rfl (fun _ _ hr => hr) fun p r hr hon => ?_
    rw [uacpiNtPowerResInit]
    split
    · exact hon
    rename_i hready
    have hnone : h.system.pdoClaims p = [] :=
      hs.accounted.collected (by simpa using hready) (.inl p)
    exact absurd (hnone ▸ hr : r ∈ []) not_mem_nil
  | releaseDelta p succeeds =>
    obtain ⟨system, hsys, rfl⟩ := Option.map_eq_some_iff.1 hstep
    have hacc := hs.accounted.step hsys
    obtain ⟨newList, hnew, rfl⟩ := PowerSystem.step_releaseDelta hsys
    refine hs.of_kept hacc rfl (fun q r hr => ?_) fun q r hr hon => ?_
    · by_cases hq : q = p
      · subst hq
        simp only [PowerSystem.pdoClaims, PowerSystem.pdoHeld, uacpiNtPowerResReleaseDelta,
          Function.update_self, hnew] at hr ⊢
        split at hr <;> simp_all
      · simpa [PowerSystem.pdoClaims, PowerSystem.pdoHeld, hq] using hr
    · refine on_of_claimed hacc hr ?_
      simp only [uacpiNtPowerResReleaseDelta]
      split
      · exact dereferenceAll_on succeeds _ hon
      · exact .inl hon
  | acquireWake w package succeeds =>
    obtain ⟨system, hsys, rfl⟩ := Option.map_eq_some_iff.1 hstep
    have hacc := hs.accounted.step hsys
    obtain ⟨-, rfl⟩ := PowerSystem.step_acquireWake hsys
    refine hs.of_kept hacc rfl (fun _ _ hr => hr) fun p r _ hon => ?_
    have hmono := (referenceAll_on succeeds (uacpiNtPowerResAcquireWake order succeeds package
      h.system.resources).2.nodup h.system.resources).1
    rw [referenceAll_fst] at hmono
    exact hmono r hon
  | releaseWake w succeeds =>
    obtain ⟨system, hsys, rfl⟩ := Option.map_eq_some_iff.1 hstep
    have hacc := hs.accounted.step hsys
    obtain ⟨list, -, rfl⟩ := PowerSystem.step_releaseWake hsys
    refine hs.of_kept hacc rfl (fun _ _ hr => hr) fun p r hr hon => ?_
    refine on_of_claimed hacc hr ?_
    simp only [uacpiNtPowerResReleaseWake]
    split
    · exact dereferenceAll_on succeeds _ hon
    · exact .inl hon

omit [DecidableEq π] [DecidableEq ω] in
theorem tried_initial : (initial : PowerHistory π ω ρ).Tried where
  accounted := PowerSystem.initial_accounted
  tried p r hr := by simp [initial, PowerSystem.initial, PowerSystem.pdoClaims,
    PowerSystem.pdoHeld] at hr

omit [DecidableEq ρ] [DecidableEq π] [DecidableEq ω] [Fintype π] [Fintype ω] in
theorem entersTried_of_tried {op : PowerOp π ω ρ} (h : ∀ p, ∀ r ∈ h'.system.pdoClaims p,
    h'.system.resources.on r = true ∨ r ∈ h'.attempted p) : EntersTried op h' := by
  cases op with
  | acquireForState p package succeeds => exact fun r hr => h p r (mem_append_left _ hr)
  | init | releaseDelta | acquireWake | releaseWake => trivial

/-- In a run of sections, each reference to a resource that is off evaluates `_ON`, and each device
enters its states with their resources on or tried, exactly if each section finds the resources that
it references on or without a reference. -/
theorem failed_resources_retried_iff (order : ρ → UInt16) (ops : List (PowerOp π ω ρ)) :
    Machine.Throughout (step order) (fun h op h' => h.SectionRetries order op ∧ EntersTried op h')
        ops initial ↔
      Machine.Throughout (step order) (fun h op _ => h.FindsUnreferenced order op) ops initial := by
  constructor
  · refine Machine.Throughout.imp (I := fun _ => True) (fun h op h' _ _ hretries => ?_) trivial
    exact ⟨trivial, (sectionRetries_iff order h op).1 hretries.1⟩
  · refine Machine.Throughout.imp (I := Tried) (fun h op h' hs hstep hfirst => ?_) tried_initial
    have hs' := hs.step hstep hfirst
    exact ⟨hs', (sectionRetries_iff order h op).2 hfirst, entersTried_of_tried hs'.tried⟩

/-- The resource fails to turn on for the first device. The second device enters its state with the
resource off, and `_ON` is not evaluated for it. -/
theorem failed_resource_not_retried :
    ∃ h ∈ Machine.exec (step fun _ => 0)
        [.init fun _ => false, .acquireForState 0 (some [some 0]) fun _ => false,
          .releaseDelta 0 fun _ => true, .acquireForState 1 (some [some 0]) fun _ => true]
        (initial : PowerHistory (Fin 2) (Fin 1) (Fin 1)),
      0 ∈ PowerSystem.optionEntries (h.system.newList 1) ∧ h.system.resources.on 0 = false ∧
        h.attempted 1 = [] ∧ h.attempted 0 = [0] :=
  ⟨_, rfl, by decide, rfl, rfl, rfl⟩

end PowerHistory

end UacpiNt
