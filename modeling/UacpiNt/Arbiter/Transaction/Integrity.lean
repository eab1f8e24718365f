import UacpiNt.Arbiter.Transaction.Effect
import UacpiNt.ResArb.Basic

/-!
# Transaction integrity

The tentative allocation is one scratch list that all actions share. The committed list
is safe from failures: only a commit or a boot allocation that succeeds replaces it. The
tentative list is not safe from the actions that come between a test and its commit, and
the last theorem says exactly when a commit installs what was tested.
-/

namespace UacpiNt

variable {σ : Type}

def ArbiterAction.stages : ArbiterAction → Bool
  | testAllocation .. | retestAllocation .. | bootAllocation .. => true
  | _ => false

/-- Whatever fails inside an action, the committed list changes only by a commit or a boot
allocation that succeeds, a failed test, retest or boot allocation and every conflict query
leave the tentative list empty, and a conflict query leaves the callback as it was. -/
theorem handler_changes_committed_only_by_success (env : Environment) (ops : ArbiterOps σ)
    (arb : ArbiterInstance) (world : σ) (action : ArbiterAction) (r : HandlerResult σ)
    (h : arbiterLibHandler env ops arb world action = some r) :
    (r.arbiter.allocation = arb.allocation ∨ r.status = .ok () ∧
      (action = .commitAllocation ∨ ∃ entries, action = .bootAllocation entries)) ∧
    (action.stages = true → r.status ≠ .ok () → r.arbiter.possibleAllocation = []) ∧
    (∀ fuel device resource, action = .queryConflict fuel device resource →
      r.arbiter.possibleAllocation = [] ∧
      r.arbiter.conflictCallback = arb.conflictCallback ∧
      r.arbiter.conflictCallbackContext = arb.conflictCallbackContext) := by
  obtain ⟨heffect, hcallback⟩ := handler_effect env ops arb world action r h
  refine ⟨?_, ?_, ?_⟩
  · generalize r.arbiter.allocation = a', r.arbiter.possibleAllocation = p',
      r.status = status at heffect
    cases heffect with
    | committed => exact .inr ⟨rfl, .inl rfl⟩
    | booted entries staged => exact .inr ⟨rfl, .inr ⟨entries, rfl⟩⟩
    | proposed | refused | rolledBack | bootRefused | queried | idle => exact .inl rfl
  · intro hstages hfailed
    generalize r.arbiter.allocation = a', r.arbiter.possibleAllocation = p',
      r.status = status at heffect hfailed
    cases heffect with
    | proposed | booted => exact absurd rfl hfailed
    | refused | bootRefused | queried | committed | rolledBack => rfl
    | idle _ _ hidle => cases action <;> cases hstages <;> cases hidle
  · rintro fuel device resource rfl
    refine ⟨?_, hcallback⟩
    generalize r.arbiter.allocation = a', r.arbiter.possibleAllocation = p',
      r.status = status at heffect
    cases heffect with
    | proposed _ _ hp => cases hp
    | refused | queried => rfl
    | idle _ _ hidle => cases hidle

theorem conflictQuery_keeps_committed :
    ∃ r, arbiterLibHandler .reference memoryOps
        (.plainMemory [⟨0x1000, 0x1FFF, 0, false, some ⟨1⟩⟩]) ()
        (.queryConflict 2 (some ⟨2⟩) (.ofMemory .deviceExclusive 0x1000 0x1FFF 0x1000 1)) = some r ∧
      r.conflicts = [⟨some ⟨1⟩, 0x1000, 0x1FFF⟩] ∧ r.arbiter.possibleAllocation = [] := by
  refine ⟨_, rfl, by decide, ?_⟩
  exact ((handler_changes_committed_only_by_success .reference memoryOps
    (.plainMemory [⟨0x1000, 0x1FFF, 0, false, some ⟨1⟩⟩]) ()
    (.queryConflict 2 (some ⟨2⟩) (.ofMemory .deviceExclusive 0x1000 0x1FFF 0x1000 1)) _ rfl).2.2
    _ _ _ rfl).1

/-! ### Histories -/

structure Handled where
  action : ArbiterAction
  status : NtStatus
  tentative : RtlRangeList

/-- The list built by the last successful test or retest that was not committed or rolled
back since. Histories are read from the last action back. -/
def pendingSolution : List Handled → Option RtlRangeList
  | [] => none
  | e :: history =>
    if e.status.success then
      if e.action.proposes then some e.tentative
      else if e.action.resolves then none
      else pendingSolution history
    else pendingSolution history

def undisturbed : List Handled → Bool
  | [] => false
  | e :: history =>
    if e.action.isIdle then undisturbed history else e.action.proposes && e.status.success

/-- The arbiters a history of handled actions can lead to, from a fresh instance. Every
action comes with the environment it met. -/
inductive Reached (ops : ArbiterOps σ) : List Handled → ArbiterInstance → σ → Prop where
  | fresh (arb : ArbiterInstance) (world : σ) (h : arb.possibleAllocation = []) :
      Reached ops [] arb world
  | handle {history : List Handled} {arb : ArbiterInstance} {world : σ} (env : Environment)
      (action : ArbiterAction) (r : HandlerResult σ) (hreached : Reached ops history arb world)
      (h : arbiterLibHandler env ops arb world action = some r) :
      Reached ops (⟨action, r.status, r.arbiter.possibleAllocation⟩ :: history)
        r.arbiter r.world

/-- What the history says about the tentative list: it is the pending solution as long as
that is undisturbed, and empty otherwise. -/
theorem Reached.possibleAllocation {ops : ArbiterOps σ} {history : List Handled}
    {arb : ArbiterInstance} {world : σ} (h : Reached ops history arb world) :
    if undisturbed history then pendingSolution history = some arb.possibleAllocation
    else arb.possibleAllocation = [] := by
  induction h with
  | fresh arb world h => exact h
  | handle env action r hreac h ih =>
    obtain ⟨heff, -⟩ := handler_effect env ops _ _ action r h
    generalize r.arbiter.allocation = a', r.arbiter.possibleAllocation = p',
      r.status = status at heff
    cases heff with
    | proposed _ _ hp =>
      have hidle : action.isIdle = false := by
        cases action <;> cases hp <;> rfl
      simp [undisturbed, pendingSolution, hp, hidle]
    | refused _ e hp =>
      have hidle : action.isIdle = false := by
        cases action <;> cases hp <;> rfl
      simp [undisturbed, hidle]
    | committed | rolledBack | booted | bootRefused | queried =>
      simp [undisturbed, ArbiterAction.isIdle, ArbiterAction.proposes]
    | idle _ _ hidle =>
      have hprop : action.proposes = false := by
        cases action <;> cases hidle <;> rfl
      have hres : action.resolves = false := by
        cases action <;> cases hidle <;> rfl
      simpa [undisturbed, pendingSolution, hidle, hprop, hres] using ih

/-- A commit installs the pending solution exactly when that solution is undisturbed, or
empty. -/
theorem commit_installs_pending_iff {ops : ArbiterOps σ} {history : List Handled}
    {arb : ArbiterInstance} {world : σ} (hreached : Reached ops history arb world)
    (env : Environment) (r : HandlerResult σ)
    (h : arbiterLibHandler env ops arb world .commitAllocation = some r) :
    pendingSolution history = some r.arbiter.allocation ↔
      undisturbed history = true ∨ pendingSolution history = some [] := by
  have hpossible := hreached.possibleAllocation
  have hinstalled : r.arbiter.allocation = arb.possibleAllocation := by
    cases h
    rfl
  rw [hinstalled]
  cases hu : undisturbed history with
  | true =>
    rw [hu, if_pos rfl] at hpossible
    simp [hpossible]
  | false =>
    rw [hu, if_neg Bool.false_ne_true] at hpossible
    simp [hpossible]

def testOne : ArbiterAction :=
  .testAllocation 3 [.request ⟨1⟩ [.ofMemory .deviceExclusive 0x1000 0x1FFF 0x1000 1]] none

def queryOne : ArbiterAction :=
  .queryConflict 2 (some ⟨2⟩) (.ofMemory .deviceExclusive 0x1000 0x1FFF 0x1000 1)

def placedOne : RtlRange :=
  ⟨0x1000, 0x1FFF, 0, false, some ⟨1⟩⟩

theorem commit_installs_tested :
    ∃ history arb r, Reached memoryOps history arb () ∧
      arbiterLibHandler .reference memoryOps arb () .commitAllocation = some r ∧
      pendingSolution history = some [placedOne] ∧ r.arbiter.allocation = [placedOne] := by
  have hreached := Reached.handle .reference testOne _
    (Reached.fresh (.plainMemory []) () rfl : Reached memoryOps _ _ _) rfl
  have hiff := commit_installs_pending_iff hreached .reference _ rfl
  have hpending := hiff.mpr (.inl (by decide))
  exact ⟨_, _, _, hreached, rfl, by decide, Option.some.inj (hpending.symm.trans (by decide))⟩

theorem commit_after_query_installs_nothing :
    ∃ history arb r, Reached memoryOps history arb () ∧
      arbiterLibHandler .reference memoryOps arb () .commitAllocation = some r ∧
      history.map (·.action) = [queryOne, testOne] ∧
      pendingSolution history = some [placedOne] ∧ r.arbiter.allocation = [] := by
  have htested := Reached.handle .reference testOne _
    (Reached.fresh (.plainMemory []) () rfl : Reached memoryOps _ _ _) rfl
  have hqueried := Reached.handle .reference queryOne _ htested rfl
  exact ⟨_, _, _, hqueried, rfl, rfl, by decide, by decide⟩

end UacpiNt
