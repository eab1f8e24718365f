import UacpiNt.Machine.Operations
import UacpiNt.Power.Resources

/-!
# The accounting of power resources

Device state changes and wake blocks take and drop references in sections that hold the mutex of
the power resources. Between the two sections of a state change the device has referenced what
the new state needs beyond what it holds, so it counts as holding both lists. With that, the
count of a resource is the number of its holders after every section.
-/

namespace UacpiNt

open Function Holding

/-- The power resources, the list every device holds, the list of the new state of every device
whose change is in flight, and the list every armed wake block holds. `off` are the resources
whose `_OFF` the last section evaluated. -/
structure PowerSystem (π ω ρ : Type) where
  resources : PowerResources ρ
  heldResources : π → ResourceList ρ
  newList : π → Option (ResourceList ρ)
  wakeResources : ω → Option (ResourceList ρ)
  off : List ρ

/-- The sections that hold the mutex. The package is what `_PRx` or `_PRW` returns, and
`succeeds` says for which resources `_ON` or `_OFF` succeeds. -/
inductive PowerOp (π ω ρ : Type) where
  | init (sta : ρ → Bool)
  | acquireForState (p : π) (package : Option (List (Option ρ))) (succeeds : ρ → Bool)
  | releaseDelta (p : π) (succeeds : ρ → Bool)
  | acquireWake (w : ω) (package : Option (List (Option ρ))) (succeeds : ρ → Bool)
  | releaseWake (w : ω) (succeeds : ρ → Bool)

namespace PowerSystem

variable {π ω ρ : Type} [DecidableEq ρ]

def initial : PowerSystem π ω ρ :=
  ⟨⟨false, fun _ => 0, fun _ => false⟩, fun _ => ∅, fun _ => none, fun _ => none, []⟩

section

variable [DecidableEq π] [DecidableEq ω]

/-- One section. A device changes its state only when no change of it is in flight, and a wake
block releases what it acquired. -/
def step (order : ρ → UInt16) (s : PowerSystem π ω ρ) :
    PowerOp π ω ρ → Option (PowerSystem π ω ρ)
  | .init sta => some { s with resources := uacpiNtPowerResInit sta s.resources, off := [] }
  | .acquireForState p package succeeds =>
    match s.newList p with
    | some _ => none
    | none =>
      let (resources, newList) := uacpiNtPowerResAcquireForState order succeeds package
        (s.heldResources p) s.resources
      some { s with
        resources := resources
        newList := Function.update s.newList p (some newList)
        off := [] }
  | .releaseDelta p succeeds =>
    (s.newList p).map fun newList =>
      let (resources, heldResources, off) := uacpiNtPowerResReleaseDelta succeeds newList
        (s.heldResources p) s.resources
      { s with
        resources := resources
        heldResources := Function.update s.heldResources p heldResources
        newList := Function.update s.newList p none
        off := off }
  | .acquireWake w package succeeds =>
    match s.wakeResources w with
    | some _ => none
    | none =>
      let (resources, list) := uacpiNtPowerResAcquireWake order succeeds package s.resources
      some { s with
        resources := resources
        wakeResources := Function.update s.wakeResources w (some list)
        off := [] }
  | .releaseWake w succeeds =>
    (s.wakeResources w).map fun list =>
      let (resources, off) := uacpiNtPowerResReleaseWake succeeds list s.resources
      { s with
        resources := resources
        wakeResources := Function.update s.wakeResources w none
        off := off }

variable {order : ρ → UInt16} {s s' : PowerSystem π ω ρ} {p : π} {w : ω}
  {package : Option (List (Option ρ))} {succeeds : ρ → Bool}

theorem step_acquireForState (h : step order s (.acquireForState p package succeeds) = some s') :
    s.newList p = none ∧ s' = { s with
        resources := (uacpiNtPowerResAcquireForState order succeeds package (s.heldResources p)
          s.resources).1
        newList := update s.newList p
          (some (uacpiNtPowerResEvalList order package s.resources))
        off := [] } := by
  cases hnew : s.newList p with
  | some list => simp [step, hnew] at h
  | none =>
    simp only [step, hnew, Option.some.injEq] at h
    exact ⟨rfl, h.symm⟩

theorem step_releaseDelta (h : step order s (.releaseDelta p succeeds) = some s') :
    ∃ newList, s.newList p = some newList ∧ s' = { s with
        resources := (uacpiNtPowerResReleaseDelta succeeds newList (s.heldResources p)
          s.resources).1
        heldResources := update s.heldResources p
          (uacpiNtPowerResReleaseDelta succeeds newList (s.heldResources p) s.resources).2.1
        newList := update s.newList p none
        off := (uacpiNtPowerResReleaseDelta succeeds newList (s.heldResources p)
          s.resources).2.2 } := by
  obtain ⟨newList, hnew, rfl⟩ := Option.map_eq_some_iff.1 h
  exact ⟨newList, hnew, rfl⟩

theorem step_acquireWake (h : step order s (.acquireWake w package succeeds) = some s') :
    s.wakeResources w = none ∧ s' = { s with
        resources := (uacpiNtPowerResAcquireWake order succeeds package s.resources).1
        wakeResources := update s.wakeResources w
          (some (uacpiNtPowerResAcquireWake order succeeds package s.resources).2)
        off := [] } := by
  cases hwake : s.wakeResources w with
  | some list => simp [step, hwake] at h
  | none =>
    simp only [step, hwake, Option.some.injEq] at h
    exact ⟨rfl, h.symm⟩

theorem step_releaseWake (h : step order s (.releaseWake w succeeds) = some s') :
    ∃ list, s.wakeResources w = some list ∧ s' = { s with
        resources := (uacpiNtPowerResReleaseWake succeeds list s.resources).1
        wakeResources := update s.wakeResources w none
        off := (uacpiNtPowerResReleaseWake succeeds list s.resources).2 } := by
  obtain ⟨list, hwake, rfl⟩ := Option.map_eq_some_iff.1 h
  exact ⟨list, hwake, rfl⟩

end

section

variable (s : PowerSystem π ω ρ) (p : π)

def pdoHeld : List ρ := (s.heldResources p).entries

def wakeHeld (w : ω) : List ρ := ((s.wakeResources w).getD ∅).entries

def pdoClaims : List ρ :=
  ((s.newList p).getD ∅).entries ++ s.pdoHeld p

def claims : π ⊕ ω → List ρ := Sum.elim s.pdoClaims s.wakeHeld

end

/-! ### The invariant -/

variable [Fintype π] [Fintype ω]

/-- Every count is the number of holders, `_OFF` was evaluated only on resources nobody holds, and
nobody holds anything before the resources were collected. -/
structure Accounted (s : PowerSystem π ω ρ) : Prop where
  balanced : Balanced s.resources.refCount s.claims
  off : ∀ r ∈ s.off, s.resources.refCount r = 0
  collected : s.resources.ready = false → ∀ k, s.claims k = []

theorem initial_accounted : (initial : PowerSystem π ω ρ).Accounted where
  balanced r := (holders_eq_zero_iff.2 fun k => by
    cases k <;> simp [claims, pdoClaims, pdoHeld, wakeHeld, initial]).symm
  off r hr := by simp [initial] at hr
  collected _ k := by cases k <;> simp [claims, pdoClaims, pdoHeld, wakeHeld, initial]

omit [Fintype π] [Fintype ω] in
theorem evalList_of_not_ready (order : ρ → UInt16) (package : Option (List (Option ρ)))
    {s : PowerResources ρ} (h : s.ready = false) : uacpiNtPowerResEvalList order package s = ∅ := by
  simp [uacpiNtPowerResEvalList, h]

theorem Accounted.init {s : PowerSystem π ω ρ} (hs : s.Accounted) (sta : ρ → Bool) :
    Accounted { s with resources := uacpiNtPowerResInit sta s.resources, off := [] } := by
  cases hready : s.resources.ready with
  | true =>
    rw [uacpiNtPowerResInit, if_pos hready]
    exact ⟨hs.balanced, by simp, hs.collected⟩
  | false =>
    rw [uacpiNtPowerResInit, if_neg (by simp [hready])]
    refine ⟨fun r => ?_, by simp, by simp⟩
    exact (holders_eq_zero_iff.2 fun k => by
      change r ∉ s.claims k
      simp [hs.collected hready k]).symm

variable [DecidableEq π] [DecidableEq ω]

theorem Accounted.move {s s' : PowerSystem π ω ρ} (hs : s.Accounted) (k : π ⊕ ω) {list : List ρ}
    (hcl : s'.claims = update s.claims k list)
    (hready : s'.resources.ready = s.resources.ready)
    (hlist : s.resources.ready = false → list = [])
    (hcnt : ∀ r, s'.resources.refCount r + held (s.claims k) r =
      s.resources.refCount r + held list r)
    (hoff : ∀ r ∈ s'.off, s'.resources.refCount r = 0) : s'.Accounted where
  balanced := hcl ▸ hs.balanced.update hcnt
  off := hoff
  collected h j := by
    rw [hready] at h
    rw [hcl]
    by_cases hj : j = k
    · rw [hj, update_self, hlist h]
    · rw [update_of_ne hj, hs.collected h j]

/-! ### The sections keep it -/

variable {order : ρ → UInt16} {s s' : PowerSystem π ω ρ}

omit [DecidableEq ρ] [Fintype π] [Fintype ω] in
theorem claims_update_pdo (resources : PowerResources ρ) (p : π) (heldResources : ResourceList ρ)
    (newList : Option (ResourceList ρ)) (off : List ρ) : claims { s with
      resources := resources
      heldResources := update s.heldResources p heldResources
      newList := update s.newList p newList
      off := off } =
      update s.claims (.inl p) ((newList.getD ∅).entries ++ heldResources.entries) := by
  rw [claims, claims, Sum.update_elim_inl]
  congr 1
  funext q
  by_cases hq : q = p
  · subst hq
    simp [pdoClaims, pdoHeld]
  · simp [pdoClaims, pdoHeld, hq]

omit [DecidableEq ρ] [Fintype π] [Fintype ω] in
theorem claims_update_wake (resources : PowerResources ρ) (w : ω)
    (list : Option (ResourceList ρ)) (off : List ρ) : claims { s with
      resources := resources
      wakeResources := update s.wakeResources w list
      off := off } =
      update s.claims (.inr w) (list.getD ∅).entries := by
  rw [claims, claims, Sum.update_elim_inr]
  congr 1
  funext v
  by_cases hv : v = w
  · subst hv
    simp [wakeHeld]
  · simp [wakeHeld, hv]

variable {package : Option (List (Option ρ))} {succeeds : ρ → Bool}

theorem Accounted.acquireForState {p : π} (hs : s.Accounted)
    (h : step order s (.acquireForState p package succeeds) = some s') : s'.Accounted := by
  obtain ⟨hnew, h⟩ := step_acquireForState h
  set newList := uacpiNtPowerResEvalList order package s.resources with hlist
  have hbef : s.claims (.inl p) = s.pdoHeld p := by simp [claims, pdoClaims, hnew]
  have hcl := claims_update_pdo (s := s) s'.resources p (s.heldResources p) (some newList) s'.off
  subst h
  rw [update_eq_self] at hcl
  refine hs.move (.inl p) hcl (foldl_reference_ready _ _ _) ?_ ?_ (by simp)
  · intro hready
    have hemp : (s.heldResources p).entries = [] := hbef.symm.trans (hs.collected hready _)
    simpa [hlist, evalList_of_not_ready order package hready] using hemp
  intro r
  rw [uacpiNtPowerResAcquireForState, foldl_reference_refCount succeeds (newList.nodup.filter _),
    hbef, Nat.add_assoc]
  exact congrArg _ (held_filter_add newList.entries (s.pdoHeld p) r)

theorem Accounted.releaseDelta {p : π} (hs : s.Accounted)
    (h : step order s (.releaseDelta p succeeds) = some s') : s'.Accounted := by
  obtain ⟨newList, hnew, rfl⟩ := step_releaseDelta h
  have hbef : s.claims (.inl p) = newList.entries ++ s.pdoHeld p := by
    simp [claims, pdoClaims, hnew]
  cases hready : s.resources.ready with
  | false =>
    have hemp := hbef.symm.trans (hs.collected hready _)
    have hheld : (s.heldResources p).entries = [] := (List.append_eq_nil_iff.1 hemp).2
    simp only [uacpiNtPowerResReleaseDelta, hready]
    refine hs.move (.inl p) (claims_update_pdo _ p _ none _) rfl (fun _ => ?_) (fun r => ?_)
      (by simp)
    · simp [hheld]
    · simp [hbef, hemp, hheld]
  | true =>
    have hnd : ((s.pdoHeld p).reverse.filter (· ∉ newList.entries)).Nodup :=
      (List.nodup_reverse.2 (s.heldResources p).nodup).filter _
    simp only [uacpiNtPowerResReleaseDelta, hready, if_true]
    refine hs.move (.inl p) (claims_update_pdo _ p _ none _) (dereferenceAll_ready _ _ _)
      (by simp [hready]) (fun r => ?_) fun r hr => (dereferenceAll_off hnd hr).2
    have hdrop := held_filter_add (s.pdoHeld p).reverse newList.entries r
    have hsame : held ((s.pdoHeld p).reverse ++ newList.entries) r =
        held (newList.entries ++ s.pdoHeld p) r := held_congr (by simp [or_comm])
    have hcoun : held ((s.pdoHeld p).reverse.filter (· ∉ newList.entries)) r ≤
        s.resources.refCount r := by
      refine hs.balanced.held_le (.inl p) fun hr => ?_
      simp_all
    have hcnt := dereferenceAll_refCount succeeds hnd s.resources r
    simp only [pdoHeld] at hcnt hdrop hsame hcoun
    simp only [hbef, pdoHeld, Option.getD_none, ResourceList.entries_empty, List.nil_append]
    omega

theorem Accounted.acquireWake {w : ω} (hs : s.Accounted)
    (h : step order s (.acquireWake w package succeeds) = some s') : s'.Accounted := by
  obtain ⟨hwake, h⟩ := step_acquireWake h
  simp only [uacpiNtPowerResAcquireWake] at h
  set list := uacpiNtPowerResEvalList order _ s.resources with hlist
  subst h
  refine hs.move (.inr w) (claims_update_wake _ w (some list) _)
    (foldl_reference_ready _ _ _) ?_ ?_ (by simp)
  · intro hready
    simp [hlist, evalList_of_not_ready order _ hready]
  · intro r
    have hbef : s.claims (.inr w) = [] := by simp [claims, wakeHeld, hwake]
    simp [hbef, foldl_reference_refCount succeeds list.nodup]

theorem Accounted.releaseWake {w : ω} (hs : s.Accounted)
    (h : step order s (.releaseWake w succeeds) = some s') : s'.Accounted := by
  obtain ⟨list, hwake, rfl⟩ := step_releaseWake h
  have hbef : s.claims (.inr w) = list.entries := by simp [claims, wakeHeld, hwake]
  cases hready : s.resources.ready with
  | false =>
    simp only [uacpiNtPowerResReleaseWake, hready]
    refine hs.move (.inr w) (claims_update_wake _ w none _) rfl (fun _ => rfl) (fun r => ?_)
      (by simp)
    simp [hs.collected hready]
  | true =>
    have hnd : list.entries.reverse.Nodup := List.nodup_reverse.2 list.nodup
    simp only [uacpiNtPowerResReleaseWake, hready, if_true]
    refine hs.move (.inr w) (claims_update_wake _ w none _) (dereferenceAll_ready _ _ _)
      (fun _ => rfl) (fun r => ?_) fun r hr => (dereferenceAll_off hnd hr).2
    have hsame : held list.entries.reverse r = held list.entries r := held_congr (by simp)
    have hcoun : held list.entries r ≤ s.resources.refCount r :=
      hs.balanced.held_le (.inr w) (hbef ▸ id)
    simp only [hbef, dereferenceAll_refCount succeeds hnd, hsame, Option.getD_none,
      ResourceList.entries_empty]
    simp only [held, List.not_mem_nil, if_false] at hcoun ⊢
    omega

theorem Accounted.step {op : PowerOp π ω ρ} (hs : s.Accounted) (h : step order s op = some s') :
    s'.Accounted := by
  cases op with
  | init sta =>
    cases h
    exact hs.init sta
  | acquireForState p package succeeds => exact hs.acquireForState h
  | releaseDelta p succeeds => exact hs.releaseDelta h
  | acquireWake w package succeeds => exact hs.acquireWake h
  | releaseWake w succeeds => exact hs.releaseWake h

/-- After every interleaving of the sections, `_OFF` was evaluated only on resources that nobody
holds, and with no change in flight a resource is counted once for each device and each wake block
that holds it. -/
theorem power_resources_accounted (order : ρ → UInt16) (ops : List (PowerOp π ω ρ))
    (s : PowerSystem π ω ρ) (hrun : Machine.exec (PowerSystem.step order) ops initial = some s) :
    (∀ r ∈ s.off, (∀ p, r ∉ s.pdoHeld p) ∧ ∀ w, r ∉ s.wakeHeld w) ∧
      ((∀ p, s.newList p = none) →
        ∀ r, s.resources.refCount r = holders s.pdoHeld r + holders s.wakeHeld r) := by
  have hs : s.Accounted := Machine.exec_preserves (fun _ _ _ hinv h => hinv.step h) hrun
    initial_accounted
  constructor
  · intro r hr
    have hnobody := hs.balanced.not_mem (hs.off r hr)
    refine ⟨fun p hp => hnobody (.inl p) ?_, fun w => hnobody (.inr w)⟩
    exact List.mem_append_right _ hp
  · intro hidle r
    have hheld : s.pdoClaims = s.pdoHeld := by
      funext p
      simp [pdoClaims, hidle p]
    rw [hs.balanced r, claims, holders_sum, hheld]

def sharingRun : List (PowerOp (Fin 2) (Fin 1) (Fin 2)) :=
  [.init fun _ => false,
    .acquireForState 0 (some [some 0]) fun _ => true, .releaseDelta 0 fun _ => true,
    .acquireForState 1 (some [some 0, some 1, some 0]) fun _ => true,
    .acquireWake 0 (some [none, none, some 0]) fun _ => true,
    .releaseDelta 1 fun _ => true,
    .acquireForState 0 none fun _ => true, .releaseDelta 0 fun _ => true,
    .acquireForState 1 (some [some 0]) fun _ => true, .releaseDelta 1 fun _ => true]

theorem shared_resource_counted :
    ∃ s ∈ Machine.exec (PowerSystem.step fun _ => 0) sharingRun initial,
      (∀ p, s.newList p = none) ∧ s.off = [1] ∧ s.resources.refCount 0 = 2 ∧
        s.resources.refCount 0 = holders s.pdoHeld 0 + holders s.wakeHeld 0 := by
  have hfacts : ∃ s ∈ Machine.exec (PowerSystem.step fun _ => 0) sharingRun initial,
      (∀ p, (s.newList p).isNone) ∧ s.off = [1] ∧ s.resources.refCount 0 = 2 := by
    decide +kernel
  obtain ⟨s, hrun, hidle, hoff, hcount⟩ := hfacts
  have hidle' : ∀ p, s.newList p = none := fun p => Option.isNone_iff_eq_none.1 (hidle p)
  exact ⟨s, hrun, hidle', hoff, hcount, (power_resources_accounted _ _ s hrun).2 hidle' 0⟩

end PowerSystem

end UacpiNt
