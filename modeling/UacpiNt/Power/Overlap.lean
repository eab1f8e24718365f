import UacpiNt.Machine.Operations
import UacpiNt.Power.Resources

/-!
# Two state changes of one device at once

A power request and the thermal worker may change the state of one device at the same time. Each
call references its new list against what the device holds at that moment, and later drops what its
new list does not have. When the calls overlap, the second one to acquire takes no reference for a
resource the device held before, the first one to release may drop the only one, and the second
release then records the resource as held.
-/

namespace UacpiNt

open Holding Machine
open Function (update_self update_of_ne)

/-- One device, with the new list of each of the two calls that is in its `_PSx`. -/
structure DeviceChanges (ρ : Type) where
  resources : PowerResources ρ
  heldResources : ResourceList ρ
  newList : Bool → Option (ResourceList ρ)

/-- The halves of a call of `UacpiNtPowerSetDeviceState`. `_PSx` itself changes nothing that is
modelled. -/
inductive ChangeHalf (ρ : Type) where
  | acquire (call : Bool) (package : Option (List (Option ρ))) (succeeds : ρ → Bool)
  | release (call : Bool) (succeeds : ρ → Bool)

namespace DeviceChanges

variable {ρ : Type} [DecidableEq ρ]

def step (order : ρ → UInt16) (s : DeviceChanges ρ) : ChangeHalf ρ → Option (DeviceChanges ρ)
  | .acquire call package succeeds =>
    match s.newList call with
    | some _ => none
    | none =>
      let (resources, newList) := uacpiNtPowerResAcquireForState order succeeds package
        s.heldResources s.resources
      some ⟨resources, s.heldResources, Function.update s.newList call (some newList)⟩
  | .release call succeeds =>
    (s.newList call).map fun newList =>
      let (resources, heldResources, _) := uacpiNtPowerResReleaseDelta succeeds newList
        s.heldResources s.resources
      ⟨resources, heldResources, Function.update s.newList call none⟩

/-- What the device holds is referenced, and nothing else is counted for it. `base` is the count
of the other holders. -/
def Kept (base : ρ → Nat) (s : DeviceChanges ρ) : Prop :=
  (∀ r ∈ s.heldResources.entries, 1 ≤ s.resources.refCount r) ∧
    ∀ r ∉ s.heldResources.entries, s.resources.refCount r = base r

/-- A release while the other call is in its `_PSx` drops nothing that the other call needs and
nobody else holds. -/
def Spared (base : ρ → Nat) (s : DeviceChanges ρ) : ChangeHalf ρ → Prop
  | .acquire .. => True
  | .release call _ => ∀ newList ∈ s.newList call, ∀ other ∈ s.newList (!call),
      ∀ r ∈ s.heldResources.entries, r ∈ other.entries → r ∉ newList.entries → 1 ≤ base r

/-! ### The halves -/

variable (order : ρ → UInt16) {s : DeviceChanges ρ} {call : Bool}

theorem step_acquire (package : Option (List (Option ρ))) (succeeds : ρ → Bool)
    (hidle : s.newList call = none) :
    ∃ s', step order s (.acquire call package succeeds) = some s' ∧
      s'.heldResources = s.heldResources ∧ s'.resources.ready = s.resources.ready ∧
      s'.newList = Function.update s.newList call
        (some (uacpiNtPowerResEvalList order package s.resources)) ∧
      ∀ r, s'.resources.refCount r + held s.heldResources.entries r = s.resources.refCount r +
        held ((uacpiNtPowerResEvalList order package s.resources).entries ++
          s.heldResources.entries) r := by
  have hstep : step order s (.acquire call package succeeds) =
      some ⟨(uacpiNtPowerResAcquireForState order succeeds package s.heldResources s.resources).1,
        s.heldResources, Function.update s.newList call
          (some (uacpiNtPowerResEvalList order package s.resources))⟩ := by
    simp only [step, hidle]
    rfl
  refine ⟨_, hstep, rfl, foldl_reference_ready _ _ _, rfl, fun r => ?_⟩
  have hnd := (uacpiNtPowerResEvalList order package s.resources).nodup
  simp only [uacpiNtPowerResAcquireForState]
  rw [foldl_reference_refCount succeeds (hnd.filter _), Nat.add_assoc, held_filter_add]

theorem step_release (succeeds : ρ → Bool) {newList : ResourceList ρ}
    (hnew : s.newList call = some newList) : ∃ s', step order s (.release call succeeds) = some s' ∧
      s'.heldResources = (if s.resources.ready then newList else s.heldResources) ∧
      s'.resources.ready = s.resources.ready ∧ s'.newList = Function.update s.newList call none ∧
      ∀ r, s'.resources.refCount r = s.resources.refCount r - if s.resources.ready then
        held (s.heldResources.entries.reverse.filter (· ∉ newList.entries)) r else 0 := by
  have hnd := (List.nodup_reverse.2 s.heldResources.nodup).filter (· ∉ newList.entries)
  have hstep : step order s (.release call succeeds) =
      some ⟨(uacpiNtPowerResReleaseDelta succeeds newList s.heldResources s.resources).1,
        (uacpiNtPowerResReleaseDelta succeeds newList s.heldResources s.resources).2.1,
        Function.update s.newList call none⟩ := by
    simp only [step, hnew, Option.map_some]
  refine ⟨_, hstep, ?_, ?_, rfl, fun r => ?_⟩
  all_goals simp only [uacpiNtPowerResReleaseDelta]
  all_goals split
  · rfl
  · rfl
  · exact dereferenceAll_ready _ _ _
  · rfl
  · exact dereferenceAll_refCount succeeds hnd s.resources r
  · rfl

/-! ### The orders of the halves -/

section

variable (package : Bool → Option (List (Option ρ))) (on off : Bool → ρ → Bool)

def acquireHalf (call : Bool) : ChangeHalf ρ := .acquire call (package call) (on call)

def releaseHalf (call : Bool) : ChangeHalf ρ := .release call (off call)

variable {base : ρ → Nat}

omit order [DecidableEq ρ] in
@[simp] theorem spared_acquireHalf : Spared base s (acquireHalf package on call) := trivial

omit order [DecidableEq ρ] in
theorem spared_of_alone (h : s.newList (!call) = none) : Spared base s (releaseHalf off call) := by
  intro newList _ other hoth
  rw [h] at hoth
  cases hoth

omit order in
/-- The count of a resource after both releases, from what was held and the two new lists. -/
theorem overlapped_count_iff {start first second : List ρ} {acquired final : ρ → Nat}
    (hacq : ∀ r, acquired r + held start r =
      base r + held (first ++ start) r + held (second ++ start) r)
    (hfinal : ∀ r, final r = acquired r - held (start.reverse.filter (· ∉ first)) r -
      held (first.reverse.filter (· ∉ second)) r) :
    ((∀ r ∈ second, 1 ≤ final r) ∧ ∀ r ∉ second, final r = base r) ↔
      ∀ r ∈ start, r ∈ second → r ∉ first → 1 ≤ base r := by
  have hspar : ∀ r ∈ start, r ∈ second → r ∉ first → final r = base r := by
    intro r hst hsecond hfst
    have hboth := hacq r
    simp only [held, List.mem_append, hst, or_true, if_true] at hboth
    simp [hfinal r, hst, hfst]
    omega
  have hdrop : ∀ r ∉ second, final r = base r := by
    intro r hsecond
    have hboth := hacq r
    rw [hfinal r]
    by_cases hst : r ∈ start <;> by_cases hfst : r ∈ first <;>
      simp [hst, hsecond, hfst] at hboth ⊢ <;> omega
  constructor
  · rintro ⟨href, -⟩ r hst hsecond hfst
    exact hspar r hst hsecond hfst ▸ href r hsecond
  intro hcond
  refine ⟨fun r hsecond => ?_, hdrop⟩
  have hboth := hacq r
  by_cases hlost : r ∈ start ∧ r ∉ first
  · rw [hspar r hlost.1 hsecond hlost.2]
    exact hcond r hlost.1 hsecond hlost.2
  · by_cases hst : r ∈ start <;> by_cases hfst : r ∈ first <;>
      simp_all [held]

section

variable (hcount : ∀ r, s.resources.refCount r = base r + held s.heldResources.entries r)

include hcount

theorem kept_of_counted : Kept base s := by
  refine ⟨fun r hr => ?_, fun r hr => ?_⟩
  · rw [hcount r, held_of_mem hr]
    exact Nat.le_add_left 1 _
  · rw [hcount r, held_of_not_mem hr, Nat.add_zero]

variable (hidle : ∀ c, s.newList c = none)

include hidle

theorem alone_counted (call : Bool) : ∃ t s', step order s (acquireHalf package on call) = some t ∧
      step order t (releaseHalf off call) = some s' ∧ (∀ c, s'.newList c = none) ∧
      t.newList (!call) = none ∧
      ∀ r, s'.resources.refCount r = base r + held s'.heldResources.entries r := by
  obtain ⟨t, ht, hheld, hready, hnew, hacq⟩ :=
    step_acquire order (package call) (on call) (hidle call)
  set list := uacpiNtPowerResEvalList order (package call) s.resources with hlist
  have hins : t.newList call = some list := by rw [hnew, update_self]
  obtain ⟨s', hs', hheld', -, hnew', hrel⟩ := step_release order (off call) hins
  refine ⟨t, s', ht, hs', fun c => ?_, ?_, fun r => ?_⟩
  · by_cases hc : c = call
    · rw [hnew', hc, update_self]
    · rw [hnew', update_of_ne hc, hnew, update_of_ne hc, hidle]
  · rw [hnew, update_of_ne (Bool.not_ne_self call), hidle]
  have hbef := hcount r
  have hfst := hacq r
  rw [hrel, hheld', hheld, hready]
  cases hr : s.resources.ready with
  | false =>
    have hemp : list.entries = [] := by simp [hlist, uacpiNtPowerResEvalList, hr]
    simp only [hemp, List.nil_append, Bool.false_eq_true, if_false] at hfst ⊢
    omega
  | true =>
    have hdrop := held_filter_add s.heldResources.entries.reverse list.entries r
    have hsame : held (s.heldResources.entries.reverse ++ list.entries) r =
        held (list.entries ++ s.heldResources.entries) r := held_congr (by simp [or_comm])
    simp only [if_true]
    omega

/-- Both calls have acquired: the device is in both changes at once, and each resource is counted
for every list that is new to the device. -/
theorem both_acquired (c d : Bool) : ∃ t s', step order s (acquireHalf package on c) = some t ∧
      step order t (acquireHalf package on (!c)) = some s' ∧
      s'.heldResources = s.heldResources ∧ s'.resources.ready = s.resources.ready ∧
      (∀ c, s'.newList c = some (uacpiNtPowerResEvalList order (package c) s.resources)) ∧
      ∀ r, s'.resources.refCount r + held s.heldResources.entries r = base r +
        held ((uacpiNtPowerResEvalList order (package d) s.resources).entries ++
          s.heldResources.entries) r +
        held ((uacpiNtPowerResEvalList order (package !d) s.resources).entries ++
          s.heldResources.entries) r := by
  obtain ⟨t, ht, hheld, hready, hnew, hfst⟩ := step_acquire order (package c) (on c) (hidle c)
  have hoth : t.newList (!c) = none := by
    rw [hnew, update_of_ne (Bool.not_ne_self c), hidle]
  obtain ⟨s', hs', hheld', hready', hnew', hsecond⟩ := step_acquire order (package !c) (on !c) hoth
  have hlist : uacpiNtPowerResEvalList order (package !c) t.resources =
      uacpiNtPowerResEvalList order (package !c) s.resources := by
    simp only [uacpiNtPowerResEvalList, hready]
  rw [hlist] at hnew' hsecond
  rw [hheld] at hsecond
  refine ⟨t, s', ht, hs', hheld'.trans hheld, hready'.trans hready, fun e => ?_, fun r => ?_⟩
  · by_cases he : e = !c
    · rw [hnew', he, update_self]
    · obtain rfl : e = c := by simpa using he
      rw [hnew', update_of_ne he, hnew, update_self]
  · have hbef := hcount r
    have hone := hfst r
    have htwo := hsecond r
    cases c <;> cases d <;> simp only [Bool.not_false, Bool.not_true] at hone htwo ⊢ <;> omega

/-- When both calls acquire before one of them releases, the device keeps its resources exactly if
the first release spares what the other call needs. -/
theorem overlapped_kept_iff (c d : Bool) :
    ∃ s', exec (step order) [acquireHalf package on c, acquireHalf package on (!c),
        releaseHalf off d, releaseHalf off (!d)] s = some s' ∧ (∀ c, s'.newList c = none) ∧
      (Kept base s' ↔ Throughout (step order) (fun s o _ => Spared base s o)
        [acquireHalf package on c, acquireHalf package on (!c), releaseHalf off d,
          releaseHalf off (!d)] s) := by
  obtain ⟨s₁, s₂, h₁, h₂, hheld, hready, hnew, hacq⟩ :=
    both_acquired order package on hcount hidle c d
  set first := uacpiNtPowerResEvalList order (package d) s.resources with hfst
  set second := uacpiNtPowerResEvalList order (package !d) s.resources with hsecond
  obtain ⟨s₃, h₃, hheld₃, hready₃, hnew₃, hcount₃⟩ := step_release order (off d) (hnew d)
  change step order s₂ (releaseHalf off d) = some s₃ at h₃
  have hins : s₃.newList (!d) = some second := by
    rw [hnew₃, update_of_ne (Bool.not_ne_self d), hnew]
  obtain ⟨s₄, h₄, hheld₄, -, hnew₄, hcount₄⟩ := step_release order (off !d) hins
  change step order s₃ (releaseHalf off (!d)) = some s₄ at h₄
  refine ⟨s₄, ?_, fun e => ?_, ?_⟩
  · simp only [exec, h₁, h₂, h₃, h₄, Option.bind_some]
  · by_cases he : e = !d
    · rw [hnew₄, he, update_self]
    · obtain rfl : e = d := by simpa using he
      rw [hnew₄, update_of_ne he, hnew₃, update_self]
  · -- The first call has finished when the second one releases.
    have hsec : Spared base s₃ (releaseHalf off (!d)) :=
      spared_of_alone off (by rw [hnew₃, Bool.not_not, update_self])
    have hcond : Throughout (step order) (fun s o _ => Spared base s o)
        [acquireHalf package on c, acquireHalf package on (!c), releaseHalf off d,
          releaseHalf off (!d)] s ↔ Spared base s₂ (releaseHalf off d) := by
      rw [throughout_cons_of_step h₁, throughout_cons_of_step h₂, throughout_cons_of_step h₃]
      simp [hsec, Throughout]
    have hspar : Spared base s₂ (releaseHalf off d) ↔ ∀ r ∈ s.heldResources.entries,
        r ∈ second.entries → r ∉ first.entries → 1 ≤ base r := by
      simp [Spared, releaseHalf, hnew, hheld, ← hfst, ← hsecond]
    rw [hcond, hspar, Kept, hheld₄, hready₃, hheld₃, hready]
    cases hr : s.resources.ready with
    | false =>
      have hemp : first.entries = [] ∧ second.entries = [] := by
        simp [hfst, hsecond, uacpiNtPowerResEvalList, hr]
      have hcoun : ∀ r, s₄.resources.refCount r = base r + held s.heldResources.entries r := by
        intro r
        have hboth := hacq r
        simp only [hcount₄, hcount₃, hready₃, hready, hr, hemp, List.nil_append,
          Bool.false_eq_true, if_false] at hboth ⊢
        omega
      have hkept := kept_of_counted (s := ⟨s₄.resources, s.heldResources, s₄.newList⟩) hcoun
      simpa [Kept, hemp, hheld] using hkept
    | true =>
      refine overlapped_count_iff hacq fun r => ?_
      rw [hcount₄, hcount₃, hready₃, hheld₃, hready, hheld, hr]
      rfl

end

/-- For every interleaving of the halves of two calls on one device that is counted for what it
holds, both calls finish, and then what the device holds is referenced and nothing else is counted
for it, exactly if no release in the `_PSx` of the other call drops a resource that the other call
needs and nobody else holds. -/
theorem overlapping_changes_keep_resources_iff (base : ρ → Nat) (s : DeviceChanges ρ)
    (hidle : ∀ c, s.newList c = none)
    (hcount : ∀ r, s.resources.refCount r = base r + held s.heldResources.entries r)
    (ops : List (ChangeHalf ρ))
    (hops : Interleaves [acquireHalf package on false, releaseHalf off false]
      [acquireHalf package on true, releaseHalf off true] ops) :
    ∃ s', exec (step order) ops s = some s' ∧ (∀ c, s'.newList c = none) ∧
      (Kept base s' ↔ Throughout (step order) (fun s o _ => Spared base s o) ops s) := by
  obtain ⟨c, rfl⟩ | ⟨c, d, rfl⟩ := hops.two_cases
  · obtain ⟨t, s₁, h₁, h₂, hidle₁, hinside, hcount₁⟩ :=
      alone_counted order package on off hcount hidle c
    obtain ⟨t', s₂, h₃, h₄, hidle₂, hinside', hcount₂⟩ :=
      alone_counted order package on off hcount₁ hidle₁ (!c)
    refine ⟨s₂, by simp only [exec, h₁, h₂, h₃, h₄, Option.bind_some], hidle₂, ?_⟩
    rw [throughout_cons_of_step h₁, throughout_cons_of_step h₂, throughout_cons_of_step h₃]
    simp [kept_of_counted hcount₂, spared_of_alone off hinside, spared_of_alone off hinside',
      Throughout]
  · exact overlapped_kept_iff order package on off hcount hidle c d

end

/-! ### A resource that is dropped under the other call -/

def holdingOne (others : Nat) : DeviceChanges (Fin 1) :=
  ⟨⟨true, fun _ => others + 1, fun _ => true⟩, ⟨[.last 0], by decide, by decide⟩, fun _ => none⟩

def oneNeeds : Bool → Option (List (Option (Fin 1))) := Bool.rec none (some [some (.last 0)])

theorem shared_resource_survives :
    ∃ s', exec (step fun _ => 0)
      [acquireHalf oneNeeds (fun _ _ => true) false, acquireHalf oneNeeds (fun _ _ => true) true,
        releaseHalf (fun _ _ => true) false, releaseHalf (fun _ _ => true) true]
      (holdingOne 1) = some s' ∧ Kept (fun _ => 1) s' := by
  have hops : Interleaves
      [acquireHalf oneNeeds (fun _ _ => true) false, releaseHalf (fun _ _ => true) false]
      [acquireHalf oneNeeds (fun _ _ => true) true, releaseHalf (fun _ _ => true) true]
      [acquireHalf oneNeeds (fun _ _ => true) false, acquireHalf oneNeeds (fun _ _ => true) true,
        releaseHalf (fun _ _ => true) false, releaseHalf (fun _ _ => true) true] :=
    .left _ (.right _ (.left _ (.right _ .nil)))
  obtain ⟨s', hrun, -, hkept⟩ := overlapping_changes_keep_resources_iff (fun _ => 0) oneNeeds
    (fun _ _ => true) (fun _ _ => true) (fun _ => 1) (holdingOne 1) (fun _ => rfl) (by decide) _
    hops
  refine ⟨s', hrun, hkept.2 (throughout_of_forall fun s o _ => ?_)⟩
  cases o <;> simp [Spared]

/-- Nobody else holds the resource: the call that needs nothing turns it off, and the other one
records it as held. -/
theorem held_resource_turned_off :
    ∃ s' ∈ exec (step fun _ => 0)
      [acquireHalf oneNeeds (fun _ _ => true) false, acquireHalf oneNeeds (fun _ _ => true) true,
        releaseHalf (fun _ _ => true) false, releaseHalf (fun _ _ => true) true]
      (holdingOne 0),
      0 ∈ s'.heldResources.entries ∧ s'.resources.refCount 0 = 0 ∧ s'.resources.on 0 = false := by
  decide +kernel

end DeviceChanges

end UacpiNt
