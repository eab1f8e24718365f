import UacpiNt.Cancelable.Pool
import UacpiNt.Machine.Operations
import UacpiNt.Nt.Basic

/-!
# Button events

A request for a button event takes the events that are latched, or it waits. An event that is
delivered completes the request at the head of the queue if its cancel routine has not been taken,
and is latched otherwise. The removal of the button completes the requests that wait, except those
whose cancel routines are about to run.

Each delivery has a number, so that a result says which delivery it returns.
-/

namespace UacpiNt

open Cancelable List Machine

/-- What an event request is completed with: the event of a delivery, the events that were latched
after a number of deliveries, or a failure. -/
inductive ButtonResult where
  | event (delivery : Nat) (event : UInt32)
  | latched (deliveries : Nat) (events : UInt32)
  | cancelled
  | deletePending
deriving DecidableEq, Repr

/-- The button state of a `UACPINT_PDO`: its event requests, the latched events, and the events that
were delivered so far. -/
structure ButtonSystem (ι : Type) where
  irps : Pool ι ButtonResult
  buttonEvents : UInt32
  deliveries : List UInt32

/-- What happens to a button; `complete` is the completion of a request after the lock was
released. -/
inductive ButtonOp (ι : Type) where
  | wait (irp : ι)
  | cancel (irp : ι)
  | cancelRoutine (irp : ι)
  | deliver (event : UInt32)
  | remove
  | complete (k : Nat)

def HasBit (events : UInt32) (b : Nat) : Prop := events.toNat.testBit b = true

theorem hasBit_or {x y : UInt32} {b : Nat} : HasBit (x ||| y) b ↔ HasBit x b ∨ HasBit y b := by
  rw [HasBit, HasBit, HasBit, UInt32.toNat_or, Nat.testBit_or, Bool.or_eq_true]

namespace ButtonSystem

variable {ι : Type} [DecidableEq ι]

section

variable (s : ButtonSystem ι)

def uacpiNtButtonWaitForEvent (irp : ι) : ButtonSystem ι :=
  if s.buttonEvents ≠ 0 then
    { s with
      irps := s.irps.reject irp (.latched s.deliveries.length s.buttonEvents)
      buttonEvents := 0 }
  else if (s.irps.requests irp).cancel then { s with irps := s.irps.reject irp .cancelled }
  else { s with irps := s.irps.pend irp true }

/-- The request that `UacpiNtButtonDeliverEvent` completes: the one at the head of the queue, if its
cancel routine has not been taken. -/
def waiter : Option ι :=
  s.irps.queue.head?.filter fun irp => (s.irps.requests irp).routine

def uacpiNtButtonDeliverEvent (event : UInt32) : ButtonSystem ι :=
  let deliveries := s.deliveries ++ [event]
  match s.waiter with
  | some irp =>
    { s with
      irps := s.irps.claim irp (.event s.deliveries.length event)
      deliveries := deliveries }
  | none => { s with buttonEvents := s.buttonEvents ||| event, deliveries := deliveries }

def uacpiNtButtonRemove : ButtonSystem ι :=
  { s with
    irps := s.irps.sweep (fun _ => false) true (fun _ => .deletePending) s.irps.queue }

/-- One operation. A request is sent once, and `UacpiNtButtonCancel` runs when a cancellation has
taken it. -/
def step : ButtonOp ι → Option (ButtonSystem ι)
  | .wait irp =>
    if (s.irps.requests irp).submitted then none else some (s.uacpiNtButtonWaitForEvent irp)
  | .cancel irp => some { s with irps := s.irps.requestCancel irp }
  | .cancelRoutine irp =>
    if (s.irps.requests irp).cancelling then
      some { s with irps := s.irps.runRoutine irp .cancelled }
    else none
  | .deliver event => some (s.uacpiNtButtonDeliverEvent event)
  | .remove => some s.uacpiNtButtonRemove
  | .complete k => (s.irps.finish k).map fun irps => { s with irps := irps }

end

structure Fresh (s : ButtonSystem ι) : Prop where
  irps : s.irps.Fresh
  deliveries : s.deliveries = []

def idle : ButtonSystem ι where
  irps :=
    { requests := fun _ =>
        { submitted := false, cancel := false, routine := false, cancelling := false,
          completions := [] }
      queue := []
      claimed := [] }
  buttonEvents := 0
  deliveries := []

variable {s s' : ButtonSystem ι} {op : ButtonOp ι}

omit [DecidableEq ι] in
theorem fresh_idle : (idle : ButtonSystem ι).Fresh :=
  ⟨⟨rfl, rfl, fun _ => ⟨rfl, rfl, rfl, rfl⟩⟩, rfl⟩

/-! ### The requests -/

omit [DecidableEq ι] in
theorem waiter_eq_some {irp : ι} (h : s.waiter = some irp) :
    irp ∈ s.irps.queue ∧ (s.irps.requests irp).routine = true := by
  obtain ⟨hhead, hrout⟩ := Option.filter_eq_some_iff.1 h
  exact ⟨mem_of_mem_head? hhead, hrout⟩

theorem step_wait {irp : ι} (h : step s (.wait irp) = some s') :
    (s.irps.requests irp).submitted = false ∧ s.uacpiNtButtonWaitForEvent irp = s' := by
  simpa [step] using h

theorem step_cancelRoutine {irp : ι} (h : step s (.cancelRoutine irp) = some s') :
    (s.irps.requests irp).cancelling = true ∧
      { s with irps := s.irps.runRoutine irp .cancelled } = s' := by
  simpa [step] using h

theorem sound_step (hs : s.irps.Sound fun _ => false) (h : step s op = some s') :
    s'.irps.Sound fun _ => false := by
  cases op with
  | wait irp =>
    obtain ⟨hnew, rfl⟩ := step_wait h
    rw [uacpiNtButtonWaitForEvent]
    split
    · exact hs.reject hnew _
    · split
      · exact hs.reject hnew _
      · exact hs.pend hnew
  | cancel irp =>
    cases h
    exact hs.requestCancel irp
  | cancelRoutine irp =>
    obtain ⟨hcanc, rfl⟩ := step_cancelRoutine h
    exact hs.runRoutine hcanc _
  | deliver event =>
    cases h
    rw [uacpiNtButtonDeliverEvent]
    split
    · rename_i irp hwait
      obtain ⟨hqueue, hrout⟩ := waiter_eq_some hwait
      exact hs.claim hqueue (hs.routine irp hrout).2 _
    · exact hs
  | remove =>
    cases h
    exact (hs.sweep true _ hs.nodup fun _ hi => hi).1
  | complete k =>
    obtain ⟨irps, hfin, rfl⟩ := Option.map_eq_some_iff.1 h
    exact hs.finish hfin

/-! ### The events -/

section

variable (s) (n : Nat) (event : UInt32)

def NotReturned : Prop :=
  ∀ irp event, ¬ s.irps.Returns irp (.event n event)

/-- The bits of a delivery that no request returned are latched, or were returned by a request that
took the latched events after the delivery. -/
def Latched : Prop :=
  s.NotReturned n ∧ ∀ b, HasBit event b → HasBit s.buttonEvents b ∨
    ∃ irp m events, n < m ∧ s.irps.Returns irp (.latched m events) ∧ HasBit events b

def ReturnedOnce : Prop :=
  ∃ irp, ∀ irp' event', s.irps.Returns irp' (.event n event') ↔ irp' = irp ∧ event' = event

end

/-- Every delivery is returned by one request or latched, and there are no others. -/
structure Accounted (s : ButtonSystem ι) : Prop where
  delivered : ∀ n event, s.deliveries[n]? = some event →
    s.ReturnedOnce n event ∨ s.Latched n event
  none : ∀ n, s.deliveries.length ≤ n → s.NotReturned n

omit [DecidableEq ι] in
theorem accounted_of_fresh (hs : s.Fresh) : s.Accounted where
  delivered := fun n event h => by simp [hs.deliveries] at h
  none := fun n _ irp event h => by
    rcases h with h | h
    · simp [hs.irps.claimed] at h
    · simp [(hs.irps.requests irp).2.2.2] at h

omit [DecidableEq ι] in
theorem Accounted.of_returns (hs : s.Accounted) (hdel : s'.deliveries = s.deliveries)
    (heven : s'.buttonEvents = s.buttonEvents)
    (hret : ∀ irp result, result ≠ .cancelled → result ≠ .deletePending →
      (s'.irps.Returns irp result ↔ s.irps.Returns irp result)) : s'.Accounted := by
  have hevent : ∀ irp n event,
      s'.irps.Returns irp (.event n event) ↔ s.irps.Returns irp (.event n event) :=
    fun irp n event => hret irp _ (by simp) (by simp)
  have hlat : ∀ irp n events,
      s'.irps.Returns irp (.latched n events) ↔ s.irps.Returns irp (.latched n events) :=
    fun irp n events => hret irp _ (by simp) (by simp)
  refine ⟨fun n event h => ?_, fun n hn irp event => ?_⟩
  · rw [hdel] at h
    simpa only [ReturnedOnce, Latched, NotReturned, hevent, hlat, heven] using
      hs.delivered n event h
  · rw [hdel] at hn
    rw [hevent]
    exact hs.none n hn irp event

theorem Accounted.wait (hs : s.Accounted) (irp : ι) :
    (s.uacpiNtButtonWaitForEvent irp).Accounted := by
  rw [uacpiNtButtonWaitForEvent]
  split
  · -- The latched bits are returned by this request.
    have hevent : ∀ irp' n event, (s.irps.reject irp (.latched s.deliveries.length
        s.buttonEvents)).Returns irp' (.event n event) ↔ s.irps.Returns irp' (.event n event) := by
      intro irp' n event
      simp [Pool.returns_reject]
    refine ⟨fun n event h => ?_, fun n hn irp' event => ?_⟩
    · have hlt : n < s.deliveries.length := (List.getElem?_eq_some_iff.1 h).1
      refine (hs.delivered n event h).imp (fun hretu => ?_) fun hlat => ?_
      · simpa only [ReturnedOnce, hevent] using hretu
      refine ⟨by simpa only [NotReturned, hevent] using hlat.1, fun b hb => .inr ?_⟩
      rcases hlat.2 b hb with hb | ⟨irp', m, events, hm, hret, hb⟩
      · exact ⟨irp, _, _, hlt, (Pool.returns_reject ..).2 (.inr ⟨rfl, rfl⟩), hb⟩
      · exact ⟨irp', m, events, hm, (Pool.returns_reject ..).2 (.inl hret), hb⟩
    · rw [hevent]
      exact hs.none n hn irp' event
  · split
    · refine hs.of_returns rfl rfl fun irp' result hcan _ => ?_
      simp [Pool.returns_reject, hcan]
    · exact hs.of_returns rfl rfl fun irp' result _ _ => Pool.returns_pend ..

theorem delivery_cases {deliveries : List UInt32} {event event' : UInt32} {n : Nat}
    (h : (deliveries ++ [event])[n]? = some event') :
    n < deliveries.length ∧ deliveries[n]? = some event' ∨
      n = deliveries.length ∧ event' = event := by
  rw [getElem?_append] at h
  split at h
  · exact .inl ⟨‹_›, h⟩
  obtain ⟨hlt, hget⟩ := List.getElem?_eq_some_iff.1 h
  rw [length_singleton] at hlt
  simp only [getElem_singleton] at hget
  exact .inr ⟨by omega, hget.symm⟩

theorem Accounted.deliver (hs : s.Accounted) (event : UInt32) :
    (s.uacpiNtButtonDeliverEvent event).Accounted := by
  have hnew := hs.none s.deliveries.length (Nat.le_refl _)
  rw [uacpiNtButtonDeliverEvent]
  split
  · rename_i irp hwait
    have hret : ∀ irp' n event', (s.irps.claim irp (.event s.deliveries.length event)).Returns
        irp' (.event n event') ↔ s.irps.Returns irp' (.event n event') ∨
          n = s.deliveries.length ∧ irp' = irp ∧ event' = event := by
      intro irp' n event'
      rw [Pool.returns_claim]
      simp only [ButtonResult.event.injEq]
      tauto
    have hlat : ∀ irp' m events, (s.irps.claim irp (.event s.deliveries.length event)).Returns
        irp' (.latched m events) ↔ s.irps.Returns irp' (.latched m events) := by
      intro irp' m events
      simp [Pool.returns_claim]
    refine ⟨fun n event' h => ?_, fun n hn irp' event' => ?_⟩
    · rcases delivery_cases h with ⟨hlt, h⟩ | ⟨rfl, rfl⟩
      · have hne : n ≠ s.deliveries.length := Nat.ne_of_lt hlt
        simpa only [ReturnedOnce, Latched, NotReturned, hret, hlat, hne, false_and,
          or_false] using hs.delivered n event' h
      refine .inl ⟨irp, fun irp' event' => ?_⟩
      rw [hret]
      constructor
      · rintro (hold | ⟨-, h⟩)
        · exact absurd hold (hnew irp' event')
        · exact h
      · exact fun h => .inr ⟨rfl, h⟩
    · simp only [length_append, length_singleton] at hn
      rw [hret]
      rintro (hold | ⟨hsame, -⟩)
      · exact hs.none n (by omega) irp' event' hold
      · omega
  · refine ⟨fun n event' h => ?_, fun n hn => hs.none n ?_⟩
    · rcases delivery_cases h with ⟨-, h⟩ | ⟨rfl, rfl⟩
      · refine (hs.delivered n event' h).imp id fun hlat => ⟨hlat.1, fun b hb => ?_⟩
        exact (hlat.2 b hb).imp (fun hb => hasBit_or.2 (.inl hb)) id
      · exact .inr ⟨hnew, fun b hb => .inl (hasBit_or.2 (.inr hb))⟩
    · simp only [length_append] at hn
      omega

theorem accounted_step (hs : s.Accounted) (h : step s op = some s') : s'.Accounted := by
  cases op with
  | wait irp =>
    obtain ⟨-, rfl⟩ := step_wait h
    exact hs.wait irp
  | cancel irp =>
    cases h
    exact hs.of_returns rfl rfl fun irp' result _ _ => Pool.returns_requestCancel ..
  | cancelRoutine irp =>
    obtain ⟨-, rfl⟩ := step_cancelRoutine h
    refine hs.of_returns rfl rfl fun irp' result hcan _ => ?_
    simp [Pool.returns_runRoutine, hcan]
  | deliver event =>
    cases h
    exact hs.deliver event
  | remove =>
    cases h
    exact hs.of_returns rfl rfl fun irp' result _ hdelete =>
      Pool.returns_sweep _ _ _ _ _ _ hdelete
  | complete k =>
    obtain ⟨irps, hfin, rfl⟩ := Option.map_eq_some_iff.1 h
    exact hs.of_returns rfl rfl fun irp' result _ _ => Pool.returns_finish hfin irp' result

/-- The latched bits stay latched, or a request is completed with all of them. -/
def KeepsEvents (s : ButtonSystem ι) (op : ButtonOp ι) (s' : ButtonSystem ι) : Prop :=
  (∀ b, HasBit s.buttonEvents b → HasBit s'.buttonEvents b) ∨
    ∃ irp, op = .wait irp ∧
      .latched s.deliveries.length s.buttonEvents ∈ (s'.irps.requests irp).completions

theorem keepsEvents_step (h : step s op = some s') : KeepsEvents s op s' := by
  cases op with
  | wait irp =>
    obtain ⟨-, rfl⟩ := step_wait h
    rw [uacpiNtButtonWaitForEvent]
    split
    · exact .inr ⟨irp, rfl, by simp [Pool.reject, Pool.set]⟩
    · split <;> exact .inl fun b hb => hb
  | cancel | remove =>
    cases h
    exact .inl fun b hb => hb
  | cancelRoutine irp =>
    obtain ⟨-, rfl⟩ := step_cancelRoutine h
    exact .inl fun b hb => hb
  | deliver event =>
    cases h
    refine .inl fun b hb => ?_
    rw [uacpiNtButtonDeliverEvent]
    split
    · exact hb
    · exact hasBit_or.2 (.inl hb)
  | complete k =>
    obtain ⟨irps, -, rfl⟩ := Option.map_eq_some_iff.1 h
    exact .inl fun b hb => hb

theorem queue_eq_nil_of_remove (hs : s.irps.Sound fun _ => false) :
    s.uacpiNtButtonRemove.irps.queue = [] := by
  refine eq_nil_iff_forall_not_mem.2 fun irp hirp => ?_
  obtain ⟨hqueue, hkept⟩ :=
    (hs.sweep true (fun _ => .deletePending) hs.nodup fun _ hi => hi).2 irp hirp
  cases (hkept hqueue).1

/-- After any sequence of event requests, cancellations, deliveries and removals, a request that was
sent waits, is about to be completed or was completed, one of these and once; a removal leaves none
in the queue; each delivery is returned by one request, or its bits are latched until a request
returns them; and latched bits are cleared only by a request that is completed with them. -/
theorem button_requests {ops : List (ButtonOp ι)} (hs : s.Fresh)
    (hexec : exec step ops s = some s') :
    (∀ irp, (s'.irps.requests irp).completions.length + s'.irps.claims irp +
      (s'.irps.waits irp).toNat = (s'.irps.requests irp).submitted.toNat) ∧
    s'.uacpiNtButtonRemove.irps.queue = [] ∧
    (∀ n event, s'.deliveries[n]? = some event → s'.ReturnedOnce n event ∨ s'.Latched n event) ∧
    Throughout step KeepsEvents ops s := by
  have hsound : s'.irps.Sound fun _ => false :=
    exec_preserves (I := fun s => s.irps.Sound fun _ => false) (fun _ _ _ hs h => sound_step hs h)
      hexec (Pool.sound_of_fresh hs.irps _)
  have haccounted : s'.Accounted :=
    exec_preserves (fun _ _ _ hs h => accounted_step hs h) hexec (accounted_of_fresh hs)
  refine ⟨hsound.counted, queue_eq_nil_of_remove hsound, haccounted.delivered, ?_⟩
  exact throughout_of_step fun _ _ _ h => keepsEvents_step h

theorem latched_event_then_waiting_request :
    ∃ s' : ButtonSystem Bool,
      exec step [.deliver 1, .wait false, .wait true, .deliver 2, .complete 0] idle = some s' ∧
      (∀ irp, (s'.irps.requests irp).completions.length + s'.irps.claims irp +
        (s'.irps.waits irp).toNat = (s'.irps.requests irp).submitted.toNat) ∧
      s'.uacpiNtButtonRemove.irps.queue = [] ∧
      (∀ n event, s'.deliveries[n]? = some event →
        s'.ReturnedOnce n event ∨ s'.Latched n event) ∧
      Throughout step KeepsEvents
        [.deliver 1, .wait false, .wait true, .deliver 2, .complete 0] (idle (ι := Bool)) :=
  ⟨_, rfl, button_requests fresh_idle rfl⟩

end ButtonSystem

/-! ### Events behind a live request -/

namespace ButtonSystem

variable {ι : Type}

/-- While an event is latched, every request in the queue was cancelled. -/
def NoneLive (s : ButtonSystem ι) : Prop :=
  s.buttonEvents ≠ 0 → ∀ irp ∈ s.irps.queue, (s.irps.requests irp).cancel = true

/-- An event that is latched because the head of the queue is being cancelled finds every request
behind the head cancelled as well. -/
def LatchesRightly (s : ButtonSystem ι) : ButtonOp ι → Prop
  | .deliver event =>
    event ≠ 0 → s.waiter = none → ∀ irp ∈ s.irps.queue, (s.irps.requests irp).cancel = true
  | _ => True

instance [DecidableEq ι] (s : ButtonSystem ι) : DecidablePred s.LatchesRightly
  | .deliver event => inferInstanceAs (Decidable (event ≠ 0 → _ → ∀ irp ∈ s.irps.queue, _))
  | .wait _ | .cancel _ | .cancelRoutine _ | .remove | .complete _ => .isTrue trivial

variable {s s' : ButtonSystem ι}

theorem noneLive_of_buttonEvents (h : s.buttonEvents = 0) : s.NoneLive :=
  fun heven => absurd h heven

theorem NoneLive.of_kept (hs : s.NoneLive) (heven : s'.buttonEvents = s.buttonEvents)
    (hqueue : ∀ irp ∈ s'.irps.queue, irp ∈ s.irps.queue)
    (hcan : ∀ irp, (s.irps.requests irp).cancel = true →
      (s'.irps.requests irp).cancel = true) : s'.NoneLive := by
  intro hlat irp hirp
  rw [heven] at hlat
  exact hcan irp (hs hlat irp (hqueue irp hirp))

theorem uint32_or_ne_zero {x y : UInt32} : x ||| y ≠ 0 ↔ x ≠ 0 ∨ y ≠ 0 := by
  rw [ne_eq, UInt32.or_eq_zero_iff, Classical.not_and_iff_not_or_not]

variable [DecidableEq ι]

theorem noneLive_wait (s : ButtonSystem ι) (irp : ι) :
    (s.uacpiNtButtonWaitForEvent irp).NoneLive := by
  apply noneLive_of_buttonEvents
  rw [uacpiNtButtonWaitForEvent]
  split
  · rfl
  · rename_i heven
    have hzero : s.buttonEvents = 0 := Decidable.not_not.1 heven
    split <;> exact hzero

theorem noneLive_deliver_iff (hs : s.NoneLive) (event : UInt32) :
    (s.uacpiNtButtonDeliverEvent event).NoneLive ↔ s.LatchesRightly (.deliver event) := by
  rw [uacpiNtButtonDeliverEvent, LatchesRightly]
  cases hwait : s.waiter with
  | some irp =>
    refine iff_of_true ?_ fun _ h => absurd h (by simp)
    refine hs.of_kept rfl (fun irp' h => List.mem_of_mem_erase h) fun irp' h => ?_
    by_cases hsame : irp' = irp
    · subst hsame
      simpa [Pool.claim, Pool.set] using h
    · simpa [Pool.claim, Pool.set, hsame] using h
  | none =>
    constructor
    · intro h hevent _
      exact h (uint32_or_ne_zero.2 (.inr hevent))
    intro h hlat
    rcases uint32_or_ne_zero.1 hlat with hold | hnew
    · exact hs hold
    · exact h hnew rfl

theorem noneLive_step_iff {op : ButtonOp ι} (hsound : s.irps.Sound fun _ => false)
    (hs : s.NoneLive) (h : step s op = some s') : s'.NoneLive ↔ s.LatchesRightly op := by
  cases op with
  | wait irp =>
    obtain ⟨-, rfl⟩ := step_wait h
    exact iff_of_true (noneLive_wait s irp) trivial
  | cancel irp =>
    cases h
    refine iff_of_true (hs.of_kept rfl (fun irp' hirp => ?_) fun irp' hcan => ?_) trivial
    · rw [Pool.requestCancel] at hirp
      split at hirp <;> exact hirp
    rw [Pool.requestCancel]
    by_cases hsame : irp' = irp
    · subst hsame
      split <;> simp [Pool.set]
    · split <;> simpa [Pool.set, hsame] using hcan
  | cancelRoutine irp =>
    obtain ⟨-, rfl⟩ := step_cancelRoutine h
    refine iff_of_true (hs.of_kept rfl (fun irp' hirp => ?_) fun irp' hcan => ?_) trivial
    · exact List.mem_of_mem_erase hirp
    by_cases hsame : irp' = irp
    · subst hsame
      simpa [Pool.runRoutine, Pool.set] using hcan
    · simpa [Pool.runRoutine, Pool.set, hsame] using hcan
  | deliver event =>
    cases h
    exact noneLive_deliver_iff hs event
  | remove =>
    cases h
    refine iff_of_true (fun _ irp hirp => ?_) trivial
    rw [queue_eq_nil_of_remove hsound] at hirp
    cases hirp
  | complete k =>
    obtain ⟨irps, hfin, rfl⟩ := Option.map_eq_some_iff.1 h
    obtain ⟨c, -, rfl⟩ := Option.map_eq_some_iff.1 hfin
    refine iff_of_true (hs.of_kept rfl (fun irp' hirp => hirp) fun irp' hcan => ?_) trivial
    by_cases hsame : irp' = c.1
    · subst hsame
      simpa [Pool.set] using hcan
    · simpa [Pool.set, hsame] using hcan

/-- In a run of event requests, cancellations, deliveries and removals, no request that was not
cancelled ever waits behind a latched event, exactly if every delivery latches rightly. -/
theorem no_event_behind_live_request_iff {ops : List (ButtonOp ι)} (hs : s.Fresh) :
    Throughout step (fun _ _ s' => s'.NoneLive) ops s ↔
      Throughout step (fun s op _ => s.LatchesRightly op) ops s := by
  have hstart : s.NoneLive := by
    intro _ irp hirp
    rw [hs.irps.queue] at hirp
    cases hirp
  have hgiven : Throughout step (fun _ _ _ => True) ops s :=
    throughout_of_forall fun _ _ _ => trivial
  refine throughout_iff (I := fun s => s.irps.Sound fun _ => false)
    (fun s op s' hsound hlive h _ => ?_) (Pool.sound_of_fresh hs.irps _) hstart hgiven
  exact ⟨sound_step hsound h, noneLive_step_iff hsound hlive h⟩

theorem event_behind_cancelled_requests :
    Throughout step (fun _ _ s' => s'.NoneLive)
      [.wait false, .wait true, .cancel false, .cancel true, .deliver 1] (idle (ι := Bool)) :=
  (no_event_behind_live_request_iff fresh_idle).2 (by decide)

/-- Two requests wait and the first is cancelled. Before its cancel routine has run, an event is
delivered: it is latched, and the second request goes on waiting. -/
theorem event_behind_live_request :
    ∃ s' : ButtonSystem Bool,
      exec step [.wait false, .wait true, .cancel false, .deliver 1] idle = some s' ∧
      s'.buttonEvents = 1 ∧ true ∈ s'.irps.queue ∧ (s'.irps.requests true).cancel = false :=
  ⟨_, rfl, rfl, by decide, rfl⟩

end ButtonSystem

end UacpiNt
