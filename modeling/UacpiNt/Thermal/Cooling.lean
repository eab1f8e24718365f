import UacpiNt.Power.Resources
import UacpiNt.Thermal.Basic

/-!
# Active cooling

The devices of a zone are in the lists `_AL0`, `_AL1` and so on. A cooling level turns the devices
of the lists from that level on on, and those of the lists before it off. The lists are applied in
ascending order, so the last list that names a device decides.
-/

namespace UacpiNt

inductive DevicePowerState where
  | unspecified
  | d0
  | d1
  | d2
  | d3
  | maximum
deriving DecidableEq, Repr

structure Children (π ν : Type) where
  list : List π
  node : π → Option ν

def Children.uacpiNtFindPdoByNode {π ν : Type} [DecidableEq ν] (children : Children π ν)
    (node : ν) : Option π :=
  children.list.find? fun p => decide (children.node p = some node)

/-- The devices and the power resources. `changes` counts the changes of state. -/
structure DevicePower (π ρ : Type) where
  resources : PowerResources ρ
  heldResources : π → ResourceList ρ
  currentDState : π → DevicePowerState
  dStateKnown : π → Bool
  changes : Nat

/-- What a change of state finds: the package of `_PRx`, and the resources whose `_ON` and whose
`_OFF` succeed. -/
structure ChangeAnswers (ρ : Type) where
  package : Option (List (Option ρ))
  onSucceeds : ρ → Bool
  offSucceeds : ρ → Bool

section

variable {π ν ρ : Type} [DecidableEq π] [DecidableEq ν] [DecidableEq ρ]
  (order : ρ → UInt16) (answers : Nat → ChangeAnswers ρ) (children : Children π ν)

/-- `_PSx` itself changes nothing that is modelled. -/
def uacpiNtPowerSetDeviceState (p : π) (state : DevicePowerState) (s : DevicePower π ρ) :
    DevicePower π ρ :=
  if children.node p = none ∨ state ∉ [.d0, .d1, .d2, .d3] then s
  else
    let answer := answers s.changes
    let (resources, newList) := uacpiNtPowerResAcquireForState order answer.onSucceeds
      answer.package (s.heldResources p) s.resources
    let (resources, heldResources, _) := uacpiNtPowerResReleaseDelta answer.offSucceeds newList
      (s.heldResources p) resources
    ⟨resources, Function.update s.heldResources p heldResources,
      Function.update s.currentDState p state, Function.update s.dStateKnown p true,
      s.changes + 1⟩

/-- The PDO of an element of a list, which is a reference to a node if it resolves. -/
def cooler (element : Option ν) : Option π :=
  element.bind children.uacpiNtFindPdoByNode

def applyElement (state : DevicePowerState) (s : DevicePower π ρ) (element : Option ν) :
    DevicePower π ρ :=
  match cooler children element with
  | none => s
  | some p =>
    if s.dStateKnown p = false ∨ s.currentDState p ≠ state then
      uacpiNtPowerSetDeviceState order answers children p state s
    else s

def uacpiNtThermalApplyActiveList (elements : List (Option ν)) (state : DevicePowerState)
    (s : DevicePower π ρ) : DevicePower π ρ :=
  elements.foldl (applyElement order answers children state) s

/-- The loop of `UacpiNtThermalRunActive` from an index on. A list that is absent or cannot be
evaluated ends it. -/
def runActiveFrom (lists : Nat → Option (List (Option ν))) (level : UInt8) :
    Nat → Nat → DevicePower π ρ → DevicePower π ρ
  | 0, _, s => s
  | rounds + 1, index, s =>
    match lists index with
    | none => s
    | some elements =>
      runActiveFrom lists level rounds (index + 1)
        (uacpiNtThermalApplyActiveList order answers children elements
          (if level.toNat ≤ index then .d0 else .d3) s)

def uacpiNtThermalRunActive (lists : Nat → Option (List (Option ν))) (level : UInt8)
    (s : DevicePower π ρ) : DevicePower π ρ :=
  runActiveFrom order answers children lists level maxActiveCoolingLevels 0 s

end

/-! ### What becomes of a device -/

section

variable {π ν ρ : Type} {s s' s'' : DevicePower π ρ} {p : π} {state : DevicePowerState}

def DevicePower.Recorded (s : DevicePower π ρ) (p : π) (state : DevicePowerState) : Prop :=
  s.dStateKnown p = true ∧ s.currentDState p = state

def DevicePower.Unchanged (s s' : DevicePower π ρ) (p : π) : Prop :=
  s'.dStateKnown p = s.dStateKnown p ∧ s'.currentDState p = s.currentDState p ∧
    s'.heldResources p = s.heldResources p

theorem DevicePower.Unchanged.trans (h : s.Unchanged s' p) (h' : s'.Unchanged s'' p) :
    s.Unchanged s'' p :=
  ⟨h'.1.trans h.1, h'.2.1.trans h.2.1, h'.2.2.trans h.2.2⟩

theorem DevicePower.Recorded.of_unchanged (h : s.Recorded p state) (h' : s.Unchanged s' p) :
    s'.Recorded p state :=
  ⟨h'.1.trans h.1, h'.2.1.trans h.2⟩

variable [DecidableEq π] [DecidableEq ν] [DecidableEq ρ] (order : ρ → UInt16)
  (answers : Nat → ChangeAnswers ρ) (children : Children π ν)

omit [DecidableEq π] in
theorem node_of_cooler {element : Option ν} (h : cooler children element = some p) :
    children.node p ≠ none := by
  obtain ⟨node, -, hfind⟩ := Option.bind_eq_some_iff.mp h
  have hnode := List.find?_some hfind
  rw [decide_eq_true_eq] at hnode
  simp [hnode]

omit [DecidableEq ν] in
theorem setDeviceState_spec (hnode : children.node p ≠ none)
    (hst : state ∈ [DevicePowerState.d0, .d1, .d2, .d3]) (s : DevicePower π ρ) :
    (uacpiNtPowerSetDeviceState order answers children p state s).Recorded p state ∧
      ∀ q ≠ p, s.Unchanged (uacpiNtPowerSetDeviceState order answers children p state s) q := by
  rw [uacpiNtPowerSetDeviceState, if_neg (by simp [hnode, hst])]
  refine ⟨⟨Function.update_self .., Function.update_self ..⟩, fun q hq => ?_⟩
  exact ⟨Function.update_of_ne hq .., Function.update_of_ne hq .., Function.update_of_ne hq ..⟩

/-- The device is recorded in the state if it is listed, and otherwise as it was. -/
def Applied (listed : Prop) (state : DevicePowerState) (s s' : DevicePower π ρ) (p : π) : Prop :=
  (listed → s'.Recorded p state) ∧ (¬ listed → s.Unchanged s' p)

theorem applyElement_applied (hst : state ∈ [DevicePowerState.d0, .d1, .d2, .d3])
    (element : Option ν) (s : DevicePower π ρ) (p : π) :
    Applied (cooler children element = some p) state s
      (applyElement order answers children state s element) p := by
  unfold applyElement
  split
  · rename_i hnone
    exact ⟨fun h => (by cases hnone.symm.trans h), fun _ => ⟨rfl, rfl, rfl⟩⟩
  rename_i q hq
  split
  · obtain ⟨hself, hoth⟩ := setDeviceState_spec order answers children
      (node_of_cooler children hq) hst s
    refine ⟨fun h => ?_, fun h => hoth p fun hpq => h (hpq ▸ hq)⟩
    obtain rfl := Option.some.inj (hq.symm.trans h)
    exact hself
  · rename_i hsame
    rw [not_or, Bool.not_eq_false, not_not] at hsame
    refine ⟨fun h => ?_, fun _ => ⟨rfl, rfl, rfl⟩⟩
    obtain rfl := Option.some.inj (hq.symm.trans h)
    exact hsame

theorem applyActiveList_applied (hst : state ∈ [DevicePowerState.d0, .d1, .d2, .d3])
    (elements : List (Option ν)) (s : DevicePower π ρ) (p : π) :
    Applied (∃ element ∈ elements, cooler children element = some p) state s
      (uacpiNtThermalApplyActiveList order answers children elements state s) p := by
  induction elements generalizing s with
  | nil => exact ⟨fun ⟨_, h, _⟩ => (by cases h), fun _ => ⟨rfl, rfl, rfl⟩⟩
  | cons element rest ih =>
    obtain ⟨hfst, hothe⟩ := applyElement_applied order answers children hst element s p
    obtain ⟨hrest, hkept⟩ := ih (applyElement order answers children state s element)
    simp only [List.exists_mem_cons_iff]
    refine ⟨fun h => ?_, fun h => ?_⟩
    · by_cases hlater : ∃ element ∈ rest, cooler children element = some p
      · exact hrest hlater
      · exact (hfst (h.resolve_right hlater)).of_unchanged (hkept hlater)
    · rw [not_or] at h
      exact (hothe h.1).trans (hkept h.2)

/-! ### The loop -/

variable (lists : Nat → Option (List (Option ν)))

def ListedAt (p : π) (x : Nat) : Prop :=
  ∃ elements ∈ lists x, ∃ element ∈ elements, cooler children element = some p

/-- A loop of so many rounds from `index` on comes to a list with a property. -/
def SomeList (index rounds : Nat) (P : Nat → Prop) : Prop :=
  ∃ x, index ≤ x ∧ x < index + rounds ∧ (∀ y, index ≤ y → y ≤ x → lists y ≠ none) ∧ P x

/-- A device that a list from the level on names is on, one that only lists before the level name
is off, and the others are as they were. -/
structure Configured (level : UInt8) (index rounds : Nat) (s s' : DevicePower π ρ) (p : π) :
    Prop where
  on : (SomeList lists index rounds fun x => level.toNat ≤ x ∧ ListedAt children lists p x) →
    s'.Recorded p .d0
  off : SomeList lists index rounds (ListedAt children lists p) →
    (¬ SomeList lists index rounds fun x => level.toNat ≤ x ∧ ListedAt children lists p x) →
    s'.Recorded p .d3
  others : ¬ SomeList lists index rounds (ListedAt children lists p) → s.Unchanged s' p

omit [DecidableEq ν] in
theorem someList_succ_iff {index rounds : Nat} {P : Nat → Prop} (h : lists index ≠ none) :
    SomeList lists index (rounds + 1) P ↔ P index ∨ SomeList lists (index + 1) rounds P := by
  constructor
  · rintro ⟨x, hle, hlt, hall, hx⟩
    by_cases hidx : x = index
    · exact .inl (hidx ▸ hx)
    · exact .inr ⟨x, by omega, by omega, fun y hy => hall y (by omega), hx⟩
  · rintro (hx | ⟨x, hle, hlt, hall, hx⟩)
    · refine ⟨index, Nat.le_refl _, by omega, fun y hy hyx => ?_, hx⟩
      rwa [Nat.le_antisymm hyx hy]
    refine ⟨x, by omega, by omega, fun y hy hyx => ?_, hx⟩
    by_cases hidx : y = index
    · rwa [hidx]
    · exact hall y (by omega) hyx

omit [DecidableEq ν] in
theorem SomeList.ne_none {index rounds : Nat} {P : Nat → Prop}
    (h : SomeList lists index rounds P) : lists index ≠ none ∧ rounds ≠ 0 := by
  obtain ⟨x, hle, hlt, hall, -⟩ := h
  exact ⟨hall index (Nat.le_refl _) hle, by omega⟩

theorem runActiveFrom_configured (level : UInt8) (p : π) (rounds index : Nat)
    (s : DevicePower π ρ) : Configured children lists level index rounds s
      (runActiveFrom order answers children lists level rounds index s) p := by
  have hstop : ∀ index rounds, lists index = none ∨ rounds = 0 →
      ∀ s : DevicePower π ρ, Configured children lists level index rounds s s p := by
    intro index rounds hend s
    have hnone : ∀ P, ¬ SomeList lists index rounds P := fun P h =>
      hend.elim h.ne_none.1 h.ne_none.2
    exact ⟨fun h => absurd h (hnone _), fun h => absurd h (hnone _), fun _ => ⟨rfl, rfl, rfl⟩⟩
  induction rounds generalizing index s with
  | zero => exact hstop index 0 (.inr rfl) s
  | succ rounds ih =>
    rw [runActiveFrom]
    split
    · exact hstop index _ (.inl ‹_›) s
    rename_i elements hlist
    have hne : lists index ≠ none := by simp [hlist]
    have hst : (if level.toNat ≤ index then DevicePowerState.d0 else .d3) ∈
        [DevicePowerState.d0, .d1, .d2, .d3] := by
      split <;> simp
    obtain ⟨happ, hkept⟩ := applyActiveList_applied order answers children hst elements s p
    generalize uacpiNtThermalApplyActiveList order answers children elements
      (if level.toNat ≤ index then .d0 else .d3) s = s₁ at happ hkept ⊢
    have hrest := ih (index + 1) s₁
    have hlis : ListedAt children lists p index ↔
        ∃ element ∈ elements, cooler children element = some p := by
      simp [ListedAt, hlist]
    rw [← hlis] at happ hkept
    -- Lists behind one from the level on are from the level on, too.
    have hlater : level.toNat ≤ index → SomeList lists (index + 1) rounds
        (ListedAt children lists p) → SomeList lists (index + 1) rounds fun x =>
          level.toNat ≤ x ∧ ListedAt children lists p x :=
      fun hlevel ⟨x, hle, hlt, hall, hx⟩ => ⟨x, hle, hlt, hall, by omega, hx⟩
    refine ⟨fun h => ?_, fun h hlow => ?_, fun h => ?_⟩
    · rw [someList_succ_iff lists hne] at h
      by_cases hon : SomeList lists (index + 1) rounds fun x =>
          level.toNat ≤ x ∧ ListedAt children lists p x
      · exact hrest.on hon
      obtain ⟨hlevel, hnow⟩ := h.resolve_right hon
      have hrec := happ hnow
      rw [if_pos hlevel] at hrec
      exact hrec.of_unchanged (hrest.others fun h => hon (hlater hlevel h))
    · rw [someList_succ_iff lists hne] at h hlow
      obtain ⟨hnow, hon⟩ := not_or.mp hlow
      by_cases hoff : SomeList lists (index + 1) rounds (ListedAt children lists p)
      · exact hrest.off hoff hon
      · have hrec := happ (h.resolve_right hoff)
        rw [if_neg fun hlevel => hnow ⟨hlevel, h.resolve_right hoff⟩] at hrec
        exact hrec.of_unchanged (hrest.others hoff)
    · rw [someList_succ_iff lists hne, not_or] at h
      exact (hkept h.1).trans (hrest.others h.2)

/-- After a run of active cooling, every device with a PDO that an evaluated list names is recorded
in D0 if a list from the level on names it and in D3 otherwise, and no other device changes. -/
theorem active_cooling_configured (level : UInt8) (s : DevicePower π ρ) (p : π) :
    Configured children lists level 0 maxActiveCoolingLevels s
      (uacpiNtThermalRunActive order answers children lists level s) p :=
  runActiveFrom_configured order answers children lists level p maxActiveCoolingLevels 0 s

end

end UacpiNt
