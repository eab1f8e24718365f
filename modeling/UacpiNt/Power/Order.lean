import UacpiNt.Power.Accounting
import UacpiNt.Sorting.Insertion

/-!
# The order in which power resources are switched

The lists of a package are sorted by `PowerOnOrder`, so what a section switches on comes in that
order, and what it switches off, from the end of a stored list, in the reverse one. The resume
pass walks the list of all power resources instead, which is in the order of the namespace.
-/

namespace UacpiNt

section

variable {ρ : Type} [DecidableEq ρ]

/-- `UacpiNtPowerResReference`, with the resources whose `_ON` it evaluates. -/
def referenceEvaluating (succeeds : ρ → Bool) (s : PowerResources ρ) (r : ρ) :
    PowerResources ρ × List ρ :=
  (uacpiNtPowerResReference succeeds s r, if s.refCount r = 0 ∧ s.on r = false then [r] else [])

def referenceAll (succeeds : ρ → Bool) : List ρ → PowerResources ρ → PowerResources ρ × List ρ
  | [], s => (s, [])
  | r :: rest, s =>
    let (s, on) := referenceEvaluating succeeds s r
    let (s, ons) := referenceAll succeeds rest s
    (s, on ++ ons)

/-- The resources whose `_ON` it evaluates. `collected` is `PowerResourceList`. -/
def uacpiNtPowerResResume (collected : List ρ) (s : PowerResources ρ) : List ρ :=
  if s.ready then collected.filter s.on else []

variable (succeeds : ρ → Bool) (list : List ρ) (s : PowerResources ρ)

theorem referenceAll_fst :
    (referenceAll succeeds list s).1 = list.foldl (uacpiNtPowerResReference succeeds) s := by
  induction list generalizing s with
  | nil => rfl
  | cons r rest ih => exact ih (uacpiNtPowerResReference succeeds s r)

theorem referenceAll_snd_sublist : List.Sublist (referenceAll succeeds list s).2 list := by
  induction list generalizing s with
  | nil => exact List.Sublist.refl _
  | cons r rest ih =>
    simp only [referenceAll, referenceEvaluating]
    split
    · exact (ih _).cons_cons r
    · exact (ih _).cons r

theorem dereferenceAll_snd_sublist : List.Sublist (dereferenceAll succeeds list s).2 list := by
  induction list generalizing s with
  | nil => exact List.Sublist.refl _
  | cons r rest ih =>
    have hone : (uacpiNtPowerResDereference succeeds s r).2 = [] ∨
        (uacpiNtPowerResDereference succeeds s r).2 = [r] := by
      rw [dereference_eq]
      dsimp only
      split
      · exact .inl rfl
      · split <;> exact .inr rfl
    simp only [dereferenceAll]
    rcases hone with hnone | hone
    · rw [hnone]
      exact (ih _).cons r
    · rw [hone]
      exact (ih _).cons_cons r

/-! ### Sorted lists -/

def SwitchOrder (rel : UInt16 → UInt16 → Prop) (order : ρ → UInt16) (list : List ρ) : Prop :=
  list.Pairwise fun r q => rel (order r) (order q)

abbrev OnOrder (order : ρ → UInt16) (list : List ρ) : Prop := SwitchOrder (· ≤ ·) order list

abbrev OffOrder (order : ρ → UInt16) (list : List ρ) : Prop := SwitchOrder (· ≥ ·) order list

variable {order : ρ → UInt16}

omit [DecidableEq ρ] in
theorem onOrder_iff_ascending {list : List ρ} :
    OnOrder order list ↔ InsertionSort.Ascending (fun r => (order r).toNat) list := Iff.rfl

omit [DecidableEq ρ] in
theorem onOrder_insertByOrder {sorted : List ρ} (h : OnOrder order sorted) (r : ρ) :
    OnOrder order (insertByOrder order sorted r) := by
  exact InsertionSort.ascending_insertFromEnd r (onOrder_iff_ascending.1 h)

theorem onOrder_resolve (order : ρ → UInt16) (elements : List (Option ρ)) :
    OnOrder order (uacpiNtPowerResResolve order elements).entries := by
  have hfold : ∀ list sorted : List ρ, OnOrder order sorted →
      OnOrder order (list.foldl (insertByOrder order) sorted) := by
    intro list
    induction list with
    | nil => exact fun _ h => h
    | cons r rest ih => exact fun sorted h => ih _ (onOrder_insertByOrder h r)
  exact hfold _ [] List.Pairwise.nil

theorem onOrder_evalList (order : ρ → UInt16) (package : Option (List (Option ρ)))
    (s : PowerResources ρ) : OnOrder order (uacpiNtPowerResEvalList order package s).entries := by
  unfold uacpiNtPowerResEvalList
  split
  · exact onOrder_resolve order _
  · exact List.Pairwise.nil

omit [DecidableEq ρ] in
theorem offOrder_reverse {list : List ρ} (h : OnOrder order list) :
    OffOrder order list.reverse := List.pairwise_reverse.2 h

end

namespace PowerSystem

variable {π ω ρ : Type} [DecidableEq ρ]

/-! ### The passes -/

def references (order : ρ → UInt16) (s : PowerSystem π ω ρ) : PowerOp π ω ρ → List ρ
  | .acquireForState p package _ =>
    (uacpiNtPowerResEvalList order package s.resources).entries.filter
      (· ∉ (s.heldResources p).entries)
  | .acquireWake _ package succeeds =>
    (uacpiNtPowerResAcquireWake order succeeds package s.resources).2.entries
  | .init _ | .releaseDelta _ _ | .releaseWake _ _ => []

/-- The resources whose `_ON` a section evaluates, in turn. -/
def onEvaluated (order : ρ → UInt16) (s : PowerSystem π ω ρ) (op : PowerOp π ω ρ) : List ρ :=
  match op with
  | .acquireForState _ _ succeeds | .acquireWake _ _ succeeds =>
    (referenceAll succeeds (s.references order op) s.resources).2
  | .init _ | .releaseDelta _ _ | .releaseWake _ _ => []

end PowerSystem

inductive PowerPass (π ω ρ : Type) where
  | op (op : PowerOp π ω ρ)
  | resume

namespace PowerSystem

variable {π ω ρ : Type} [DecidableEq ρ] [DecidableEq π] [DecidableEq ω]

def evaluated (order : ρ → UInt16) (collected : List ρ) (s : PowerSystem π ω ρ) :
    PowerPass π ω ρ → Option (List ρ × List ρ)
  | .op op => (step order s op).map fun s' => (s.onEvaluated order op, s'.off)
  | .resume => some (uacpiNtPowerResResume collected s.resources, [])

def optionEntries {ρ : Type} (list : Option (ResourceList ρ)) : List ρ := (list.getD ∅).entries

structure ListsSorted (order : ρ → UInt16) (s : PowerSystem π ω ρ) : Prop where
  heldResources : ∀ p, OnOrder order (s.heldResources p).entries
  newList : ∀ p, OnOrder order (optionEntries (s.newList p))
  wakeResources : ∀ w, OnOrder order (optionEntries (s.wakeResources w))

variable {order : ρ → UInt16} {s s' : PowerSystem π ω ρ}

omit [DecidableEq ρ] [DecidableEq π] [DecidableEq ω] in
theorem listsSorted_initial : (initial : PowerSystem π ω ρ).ListsSorted order where
  heldResources _ := List.Pairwise.nil
  newList _ := List.Pairwise.nil
  wakeResources _ := List.Pairwise.nil

omit [DecidableEq ρ] [DecidableEq π] [DecidableEq ω] in
theorem onOrder_update {κ α : Type} [DecidableEq κ] (entries : α → List ρ) {lists : κ → α} {k : κ}
    {new : α} (h : ∀ j, OnOrder order (entries (lists j))) (hnew : OnOrder order (entries new))
    (j : κ) : OnOrder order (entries (Function.update lists k new j)) := by
  by_cases hj : j = k
  · rwa [hj, Function.update_self]
  · rw [Function.update_of_ne hj]
    exact h j

theorem ListsSorted.step {op : PowerOp π ω ρ} (hs : s.ListsSorted order)
    (h : step order s op = some s') : s'.ListsSorted order := by
  cases op with
  | init sta =>
    cases h
    exact ⟨hs.heldResources, hs.newList, hs.wakeResources⟩
  | acquireForState p package succeeds =>
    obtain ⟨-, rfl⟩ := step_acquireForState h
    exact ⟨hs.heldResources, onOrder_update optionEntries hs.newList
      (onOrder_evalList order package s.resources), hs.wakeResources⟩
  | releaseDelta p succeeds =>
    obtain ⟨newList, hnew, rfl⟩ := step_releaseDelta h
    refine ⟨onOrder_update ResourceList.entries hs.heldResources ?_,
      onOrder_update optionEntries hs.newList List.Pairwise.nil,
      hs.wakeResources⟩
    have hlist := hs.newList p
    rw [hnew] at hlist
    rw [uacpiNtPowerResReleaseDelta]
    split
    · exact hlist
    · exact hs.heldResources p
  | acquireWake w package succeeds =>
    obtain ⟨-, rfl⟩ := step_acquireWake h
    exact ⟨hs.heldResources, hs.newList, onOrder_update optionEntries
      hs.wakeResources (onOrder_evalList order _ s.resources)⟩
  | releaseWake w succeeds =>
    obtain ⟨list, -, rfl⟩ := step_releaseWake h
    exact ⟨hs.heldResources, hs.newList, onOrder_update optionEntries
      hs.wakeResources List.Pairwise.nil⟩

omit [DecidableEq π] [DecidableEq ω] in
theorem onOrder_onEvaluated (order : ρ → UInt16) (s : PowerSystem π ω ρ) (op : PowerOp π ω ρ) :
    OnOrder order (s.onEvaluated order op) := by
  cases op with
  | acquireForState p package succeeds =>
    have hlist : OnOrder order (s.references order (.acquireForState p package succeeds)) :=
      (onOrder_evalList order package s.resources).filter _
    exact hlist.sublist (referenceAll_snd_sublist succeeds _ s.resources)
  | acquireWake w package succeeds =>
    exact (onOrder_evalList order _ s.resources).sublist
      (referenceAll_snd_sublist succeeds _ s.resources)
  | init | releaseDelta | releaseWake => exact List.Pairwise.nil

theorem ListsSorted.offOrder {op : PowerOp π ω ρ} (hs : s.ListsSorted order)
    (h : PowerSystem.step order s op = some s') : OffOrder order s'.off := by
  cases op with
  | init sta =>
    cases h
    exact List.Pairwise.nil
  | acquireForState p package succeeds =>
    obtain ⟨-, rfl⟩ := step_acquireForState h
    exact List.Pairwise.nil
  | releaseDelta p succeeds =>
    obtain ⟨newList, -, rfl⟩ := step_releaseDelta h
    rw [uacpiNtPowerResReleaseDelta]
    split
    · exact ((offOrder_reverse (hs.heldResources p)).filter _).sublist
        (dereferenceAll_snd_sublist succeeds _ s.resources)
    · exact List.Pairwise.nil
  | acquireWake w package succeeds =>
    obtain ⟨-, rfl⟩ := step_acquireWake h
    exact List.Pairwise.nil
  | releaseWake w succeeds =>
    obtain ⟨list, hwake, rfl⟩ := step_releaseWake h
    have hlist := hs.wakeResources w
    rw [hwake] at hlist
    rw [uacpiNtPowerResReleaseWake]
    split
    · exact (offOrder_reverse hlist).sublist (dereferenceAll_snd_sublist succeeds _ s.resources)
    · exact List.Pairwise.nil

/-- In every state that sections lead to, a pass evaluates `_ON` in the order of the resources and
`_OFF` in the reverse order; the resume pass does so exactly if, once the resources were collected,
those that are on were collected in their order. -/
theorem power_passes_ordered_iff (order : ρ → UInt16) (collected : List ρ)
    {ops : List (PowerOp π ω ρ)} (hrun : Machine.exec (PowerSystem.step order) ops initial = some s)
    {pass : PowerPass π ω ρ} {on off : List ρ}
    (hpass : s.evaluated order collected pass = some (on, off)) :
    (OnOrder order on ∧ OffOrder order off) ↔
      (pass = .resume → s.resources.ready = true →
        OnOrder order (collected.filter s.resources.on)) := by
  have hs : s.ListsSorted order :=
    Machine.exec_preserves (fun _ _ _ hinv h => hinv.step h) hrun listsSorted_initial
  cases pass with
  | op op =>
    obtain ⟨s', hstep, hevaluated⟩ := Option.map_eq_some_iff.1 hpass
    cases hevaluated
    exact iff_of_true ⟨onOrder_onEvaluated order s op, hs.offOrder hstep⟩ (by simp)
  | resume =>
    cases hpass
    have hoff : OffOrder order ([] : List ρ) := List.Pairwise.nil
    cases hready : s.resources.ready with
    | true => simp [uacpiNtPowerResResume, hready, hoff]
    | false => simp [uacpiNtPowerResResume, hready, SwitchOrder]

theorem resume_in_order :
    OnOrder (fun r : Fin 2 => if r = 0 then 1 else 5) [0, 1] := by
  have hrun : Machine.exec (PowerSystem.step fun r : Fin 2 => if r = 0 then 1 else 5)
      [.init fun _ => true] (initial : PowerSystem (Fin 1) (Fin 1) (Fin 2)) = some _ := rfl
  refine ((power_passes_ordered_iff _ [0, 1] hrun
    (show PowerSystem.evaluated _ _ _ PowerPass.resume = some _ from rfl)).2 fun _ _ => ?_).1
  simp [SwitchOrder, uacpiNtPowerResInit, initial]

/-- The namespace has the resource with order 5 before the one with order 1: the resume pass
switches on the first one first. -/
theorem resume_against_order :
    ∃ s ∈ Machine.exec (PowerSystem.step fun r : Fin 2 => if r = 0 then 5 else 1)
        [.init fun _ => true] (initial : PowerSystem (Fin 1) (Fin 1) (Fin 2)),
      s.evaluated (fun r => if r = 0 then 5 else 1) [0, 1] .resume = some ([0, 1], []) ∧
        ¬ OnOrder (fun r : Fin 2 => if r = 0 then 5 else 1) [0, 1] :=
  ⟨_, rfl, rfl, by simp [SwitchOrder]⟩

end PowerSystem

end UacpiNt
