import Mathlib.Algebra.Group.Int.Defs
import Mathlib.Algebra.Group.Nat.Defs
import Mathlib.Tactic.ByContra
import UacpiNt.Machine.Operations

/-!
# Semaphore units given above DISPATCH_LEVEL

A semaphore cannot be released above DISPATCH_LEVEL. A unit given there is counted in
`DeferredUnits`, and the signal that finds the count zero queues the semaphore's entry on a pending
list. A DPC pops the entry, reads the count, releases as many units and subtracts them, and queues
the entry again if more units were counted meanwhile. So the count is the number of units and also
the mark that the entry is on its way: while it is not zero there is one party that is about to
queue the entry, one place on the list, or one flush.

The count is a 32-bit integer, and a unit that overflows it is lost.
-/

namespace UacpiNt

open List Machine

def dispatchLevel : UInt8 := 2

/-- How far a run of `UacpiNtHostSemaphoreFlush` has come, with the units it has read. -/
inductive FlushStage where
  | popped
  | counted (units : Int32)
  | released (units : Int32)
deriving DecidableEq, Repr

/-- The units a flush has released and not subtracted yet. -/
def FlushStage.inFlight : FlushStage → Int
  | .popped | .counted _ => 0
  | .released units => units.toInt

/-- `UACPINT_HOST_SEMAPHORE`, with the number of parties that are about to queue its entry, of
places the entry has on the pending list, of units released to the kernel semaphore and of signals,
and with the flushes that are under way. -/
structure HostSemaphore where
  deferredUnits : Int32
  queueing : Nat
  pending : Nat
  flushes : List FlushStage
  released : Int
  signals : Nat
deriving DecidableEq, Repr

inductive SemaphoreOp where
  | signal (irql : UInt8)
  | deferQueue
  | pop
  | flush (k : Nat)
deriving DecidableEq, Repr

namespace HostSemaphore

section

variable (s : HostSemaphore)

def created : HostSemaphore := ⟨0, 0, 0, [], 0, 0⟩

def uacpiKernelSignalSemaphore (irql : UInt8) : HostSemaphore :=
  if irql ≤ dispatchLevel then { s with released := s.released + 1, signals := s.signals + 1 }
  else
    { s with
      deferredUnits := s.deferredUnits + 1
      queueing := if s.deferredUnits + 1 = 1 then s.queueing + 1 else s.queueing
      signals := s.signals + 1 }

/-- The next step of `UacpiNtHostSemaphoreFlush` in the flush at `k`. -/
def uacpiNtHostSemaphoreFlush (k : Nat) : FlushStage → HostSemaphore
  | .popped => { s with flushes := s.flushes.set k (.counted s.deferredUnits) }
  | .counted units =>
    { s with flushes := s.flushes.set k (.released units), released := s.released + units.toInt }
  | .released units =>
    { s with
      deferredUnits := s.deferredUnits + -units
      flushes := s.flushes.eraseIdx k
      -- Units given meanwhile found the count nonzero and did not queue the entry.
      queueing := if s.deferredUnits ≠ units then s.queueing + 1 else s.queueing }

/-- One step. `deferQueue` is the push of `UacpiNtHostDeferQueue`, and `pop` takes the entry off
the list in `UacpiNtHostDeferRoutine`. -/
def step : SemaphoreOp → Option HostSemaphore
  | .signal irql => some (s.uacpiKernelSignalSemaphore irql)
  | .deferQueue =>
    if 0 < s.queueing then some { s with queueing := s.queueing - 1, pending := s.pending + 1 }
    else none
  | .pop =>
    if 0 < s.pending then
      some { s with pending := s.pending - 1, flushes := .popped :: s.flushes }
    else none
  | .flush k => s.flushes[k]?.map (s.uacpiNtHostSemaphoreFlush k)

def Countable : SemaphoreOp → Prop
  | .signal irql => dispatchLevel < irql → s.deferredUnits.toInt + 1 < 2 ^ 31
  | .deferQueue | .pop | .flush _ => True

instance : DecidablePred s.Countable
  | .signal _ => inferInstanceAs (Decidable (_ < _ → _ < (2 : Int) ^ 31))
  | .deferQueue | .pop | .flush _ => .isTrue trivial

end

/-! ### The way of the entry -/

end HostSemaphore

def FlushStage.Within (units : Int32) : FlushStage → Prop
  | .popped => True
  | .counted read | .released read => 0 < read.toInt ∧ read.toInt ≤ units.toInt

theorem FlushStage.Within.mono {units units' : Int32} {stage : FlushStage}
    (h : stage.Within units) (hle : units.toInt ≤ units'.toInt) : stage.Within units' := by
  cases stage with
  | popped => trivial
  | counted read | released read => exact ⟨h.1, Int.le_trans h.2 hle⟩

theorem toInt_add_one {x : Int32} (hneg : 0 ≤ x.toInt) (h : x.toInt + 1 < 2 ^ 31) :
    (x + 1).toInt = x.toInt + 1 := by
  rw [Int32.toInt_add]
  exact Int.bmod_eq_of_le (by simp; omega) (by simp; omega)

theorem toInt_add_neg {x y : Int32} (hy : 0 ≤ y.toInt) (h : y.toInt ≤ x.toInt) :
    (x + -y).toInt = x.toInt - y.toInt := by
  have hx := x.toInt_lt
  rw [← Int32.sub_eq_add_neg, Int32.toInt_sub]
  exact Int.bmod_eq_of_le (by simp; omega) (by simp; omega)

namespace HostSemaphore

/-- The entry is in one place exactly while units are counted, and every signal is counted or
released. -/
structure HandedOff (s : HostSemaphore) : Prop where
  nonneg : 0 ≤ s.deferredUnits.toInt
  place : s.queueing + s.pending + s.flushes.length = if s.deferredUnits = 0 then 0 else 1
  within : ∀ stage ∈ s.flushes, stage.Within s.deferredUnits
  accounted : s.released + s.deferredUnits.toInt =
    s.signals + s.flushes.foldr (fun stage total => stage.inFlight + total) 0

variable {s s' : HostSemaphore}

theorem handedOff_created : created.HandedOff where
  nonneg := by decide
  place := by decide
  within := fun _ h => by cases h
  accounted := by decide

theorem HandedOff.eq_zero_iff (hs : s.HandedOff) :
    s.deferredUnits = 0 ↔ s.queueing = 0 ∧ s.pending = 0 ∧ s.flushes = [] := by
  have hplace := hs.place
  constructor
  · intro hzero
    rw [if_pos hzero] at hplace
    exact ⟨by omega, by omega, length_eq_zero_iff.1 (by omega)⟩
  rintro ⟨hqu, hpend, hflush⟩
  by_contra hne
  rw [if_neg hne, hqu, hpend, hflush] at hplace
  cases hplace

theorem HandedOff.of_flush (hs : s.HandedOff) {k : Nat} {stage : FlushStage}
    (h : s.flushes[k]? = some stage) :
    k = 0 ∧ s.flushes = [stage] ∧ s.queueing = 0 ∧ s.pending = 0 ∧ s.deferredUnits ≠ 0 := by
  have hplace := hs.place
  have hmem := mem_of_getElem? h
  have hpos := length_pos_of_mem hmem
  have hne : s.deferredUnits ≠ 0 := by
    intro hzero
    rw [if_pos hzero] at hplace
    omega
  rw [if_neg hne] at hplace
  obtain ⟨only, honly⟩ := length_eq_one_iff.1 (by omega : s.flushes.length = 1)
  rw [honly] at h hmem
  obtain rfl := mem_singleton.1 hmem
  have hk : k = 0 := by
    have hlt := (List.getElem?_eq_some_iff.1 h).1
    simpa using hlt
  exact ⟨hk, honly, by omega, by omega, hne⟩

theorem HandedOff.signal (hs : s.HandedOff) {irql : UInt8}
    (hcnt : s.Countable (.signal irql)) : (s.uacpiKernelSignalSemaphore irql).HandedOff := by
  have hacc := hs.accounted
  rw [uacpiKernelSignalSemaphore]
  split
  · refine ⟨hs.nonneg, hs.place, hs.within, ?_⟩
    dsimp only
    omega
  rename_i habove
  have hplace := hs.place
  have hnext := toInt_add_one hs.nonneg (hcnt (UInt8.not_le.1 habove))
  have hnn := hs.nonneg
  -- The count was zero exactly if this unit is the first.
  have hfst : s.deferredUnits + 1 = 1 ↔ s.deferredUnits = 0 := by
    rw [← Int32.toInt_inj, ← Int32.toInt_inj (y := 0)]
    have hone : (1 : Int32).toInt = 1 := rfl
    have hzero : (0 : Int32).toInt = 0 := rfl
    omega
  have hposi : s.deferredUnits + 1 ≠ 0 := by
    intro hzero
    rw [hzero] at hnext
    have hzero' : (0 : Int32).toInt = 0 := rfl
    omega
  refine ⟨?_, ?_, fun stage hstage => (hs.within stage hstage).mono ?_, ?_⟩
  · dsimp only
    omega
  · dsimp only
    rw [if_neg hposi]
    by_cases hzero : s.deferredUnits = 0
    · rw [if_pos hzero] at hplace
      rw [if_pos (hfst.2 hzero)]
      omega
    · rw [if_neg hzero] at hplace
      rw [if_neg fun h => hzero (hfst.1 h)]
      exact hplace
  · dsimp only
    omega
  · dsimp only
    omega

theorem HandedOff.flush (hs : s.HandedOff) {k : Nat} {stage : FlushStage}
    (h : s.flushes[k]? = some stage) : (s.uacpiNtHostSemaphoreFlush k stage).HandedOff := by
  obtain ⟨rfl, hflush, hqu, hpend, hne⟩ := hs.of_flush h
  have hnn := hs.nonneg
  have hwth := hs.within stage (mem_of_getElem? h)
  have hacc := hs.accounted
  have hplace := hs.place
  rw [hflush] at hacc hplace
  have hposi : 0 < s.deferredUnits.toInt := by
    have hzero : (0 : Int32).toInt = 0 := rfl
    have htoInt : s.deferredUnits.toInt ≠ (0 : Int32).toInt := fun h => hne (Int32.toInt_inj.1 h)
    omega
  cases stage with
  | popped =>
    refine ⟨hnn, ?_, ?_, ?_⟩
    · simpa [uacpiNtHostSemaphoreFlush, hflush] using hplace
    · simp [uacpiNtHostSemaphoreFlush, hflush, FlushStage.Within, hposi]
    · simpa [uacpiNtHostSemaphoreFlush, hflush, FlushStage.inFlight] using hacc
  | counted units =>
    refine ⟨hnn, ?_, ?_, ?_⟩
    · simpa [uacpiNtHostSemaphoreFlush, hflush] using hplace
    · simpa [uacpiNtHostSemaphoreFlush, hflush, FlushStage.Within] using hwth
    · simp only [uacpiNtHostSemaphoreFlush, hflush, set_cons_zero, foldr_cons,
        FlushStage.inFlight] at hacc ⊢
      omega
  | released units =>
    have hleft := toInt_add_neg (Int.le_of_lt hwth.1) hwth.2
    -- Nothing is left exactly if no unit was counted since the flush read the count.
    have hdone : s.deferredUnits + -units = 0 ↔ s.deferredUnits = units := by
      rw [← Int32.toInt_inj, ← Int32.toInt_inj (y := units)]
      have hzero : (0 : Int32).toInt = 0 := rfl
      omega
    simp only [uacpiNtHostSemaphoreFlush, hflush, eraseIdx_cons_zero]
    refine ⟨?_, ?_, fun _ hmem => (by cases hmem), ?_⟩
    · have hle := hwth.2
      dsimp only
      omega
    · by_cases hsame : s.deferredUnits = units
      · rw [if_pos (hdone.2 hsame), if_neg (not_not.2 hsame), hqu, hpend]
        rfl
      · rw [if_neg (mt hdone.1 hsame), if_pos hsame, hqu, hpend]
        rfl
    · simp only [foldr_cons, FlushStage.inFlight] at hacc ⊢
      omega

theorem HandedOff.step {op : SemaphoreOp} (hs : s.HandedOff) (h : step s op = some s')
    (hcnt : s.Countable op) : s'.HandedOff := by
  cases op with
  | signal irql =>
    cases h
    exact hs.signal hcnt
  | deferQueue =>
    obtain ⟨hqu, rfl⟩ : 0 < s.queueing ∧
        { s with queueing := s.queueing - 1, pending := s.pending + 1 } = s' := by
      simpa [HostSemaphore.step] using h
    have hplace := hs.place
    exact ⟨hs.nonneg, by dsimp only; omega, hs.within, hs.accounted⟩
  | pop =>
    obtain ⟨hpend, rfl⟩ : 0 < s.pending ∧
        { s with pending := s.pending - 1, flushes := .popped :: s.flushes } = s' := by
      simpa [HostSemaphore.step] using h
    have hplace := hs.place
    refine ⟨hs.nonneg, ?_, ?_, ?_⟩
    · simp only [length_cons]
      omega
    · rintro stage (_ | ⟨_, hmem⟩)
      · trivial
      · exact hs.within stage hmem
    · simpa [FlushStage.inFlight] using hs.accounted
  | flush k =>
    obtain ⟨stage, hstage, rfl⟩ := Option.map_eq_some_iff.1 h
    exact hs.flush hstage

theorem inFlight_eq_zero {flushes : List FlushStage} (h : ∀ units, .released units ∉ flushes) :
    flushes.foldr (fun stage total => stage.inFlight + total) 0 = 0 := by
  induction flushes with
  | nil => rfl
  | cons stage rest ih =>
    have hrest := ih fun units hmem => h units (mem_cons_of_mem stage hmem)
    cases stage with
    | popped | counted _ => simpa [FlushStage.inFlight] using hrest
    | released units => exact absurd mem_cons_self (h units)

/-- As long as every deferred unit fits the count, no unit is lost or given twice, the entry is on
the pending list once at most, and a count of zero means that nothing refers to the semaphore, so
that only another signal can touch it. -/
theorem deferred_units_kept (ops : List SemaphoreOp) (s : HostSemaphore)
    (hrun : exec step ops created = some s)
    (hcount : Throughout step (fun s op _ => s.Countable op) ops created) :
    ((∀ units, .released units ∉ s.flushes) →
      s.released + s.deferredUnits.toInt = s.signals) ∧
    s.pending ≤ 1 ∧
    (s.deferredUnits = 0 → s.queueing = 0 ∧ s.pending = 0 ∧ s.flushes = [] ∧
      ∀ op, (∀ irql, op ≠ .signal irql) → step s op = none) := by
  have hs : s.HandedOff :=
    exec_invariant (fun _ _ _ hs h hcount => hs.step h hcount) hrun handedOff_created hcount
  refine ⟨fun hnone => ?_, ?_, fun hzero => ?_⟩
  · rw [hs.accounted, inFlight_eq_zero hnone, Int.add_zero]
  · have hplace := hs.place
    split at hplace <;> omega
  · obtain ⟨hqueueing, hpending, hflushes⟩ := hs.eq_zero_iff.1 hzero
    refine ⟨hqueueing, hpending, hflushes, fun op hop => ?_⟩
    cases op with
    | signal irql => exact absurd rfl (hop irql)
    | deferQueue => simp [HostSemaphore.step, hqueueing]
    | pop => simp [HostSemaphore.step, hpending]
    | flush k => simp [HostSemaphore.step, hflushes]

/-- A unit that is counted between the read and the subtraction of a flush queues the entry
again. -/
theorem unit_during_flush_kept :
    ∃ s, exec step [.signal 5, .deferQueue, .pop, .flush 0, .signal 5, .flush 0, .flush 0] created =
        some s ∧
      s.queueing = 1 ∧ s.deferredUnits = 1 ∧ s.released + s.deferredUnits.toInt = s.signals := by
  refine ⟨_, rfl, rfl, rfl, (deferred_units_kept
    [.signal 5, .deferQueue, .pop, .flush 0, .signal 5, .flush 0, .flush 0] _ rfl ?_).1
      fun _ h => by cases h⟩
  decide

theorem exec_signals (n j : Nat) (s : HostSemaphore) (hunits : s.deferredUnits = .ofNat (j + 1))
    (hn : j + 1 + n ≤ 2 ^ 32) : exec step (replicate n (.signal 5)) s =
      some { s with deferredUnits := .ofNat (j + 1 + n), signals := s.signals + n } := by
  induction n generalizing j s with
  | zero =>
    rw [← hunits]
    rfl
  | succ n ih =>
    have hnext : s.deferredUnits + 1 = .ofNat (j + 1 + 1) := by
      rw [hunits]
      exact (Int32.ofNat_add (j + 1) 1).symm
    have hne : s.deferredUnits + 1 ≠ 1 := by
      rw [hnext]
      intro hone
      have hv := congrArg (fun x : Int32 => x.toBitVec.toNat) hone
      simp at hv
      omega
    have hsig : s.uacpiKernelSignalSemaphore 5 =
        { s with deferredUnits := .ofNat (j + 1 + 1), signals := s.signals + 1 } := by
      rw [uacpiKernelSignalSemaphore, if_neg (by decide), if_neg hne, hnext]
    rw [replicate_succ, exec, HostSemaphore.step, Option.bind_some, hsig,
      ih (j + 1) _ rfl (by omega)]
    simp only [Option.some.injEq, HostSemaphore.mk.injEq, true_and]
    exact ⟨congrArg Int32.ofNat (by omega), by omega⟩

/-- The count comes round to zero after 2³² signals, and the next one queues the entry again while
it is on the pending list. -/
theorem count_overflows :
    ∃ s, exec step ([.signal 5, .deferQueue] ++ List.replicate (2 ^ 32 - 1) (.signal 5) ++
        [.signal 5, .deferQueue]) created = some s ∧
      s.flushes = [] ∧ s.pending = 2 ∧ s.released + s.deferredUnits.toInt ≠ s.signals := by
  have hfirst : exec step [.signal 5, .deferQueue] created = some ⟨1, 0, 1, [], 0, 1⟩ := rfl
  have hround := exec_signals (2 ^ 32 - 1) 0 ⟨1, 0, 1, [], 0, 1⟩ rfl (by decide)
  refine ⟨⟨1, 0, 2, [], 0, 1 + (2 ^ 32 - 1) + 1⟩, ?_, rfl, rfl, by decide⟩
  rw [exec_append, exec_append, hfirst, Option.bind_some, hround]
  rfl

end HostSemaphore

end UacpiNt
