import UacpiNt.Eval.Wire
import UacpiNt.Power.Resources

/-!
# Wake blocks

A device that can wake the machine has a wake block. `_PRW` names its GPE line, the deepest sleep
state it wakes from and the power resources it needs for that. Arming the block enables the line
for wake and at run time and references the resources; disarming it takes all of that back.

The library keeps one bit for wake for each line, which is set and cleared, and counts the run time
enables. Its calls may fail. `_PSW` and `_DSW` change nothing that is modelled.
-/

namespace UacpiNt

inductive SystemPowerState where
  | unspecified
  | working
  | sleeping1
  | sleeping2
  | sleeping3
  | hibernate
  | shutdown
  | maximum
deriving DecidableEq, Repr

namespace SystemPowerState

def value : SystemPowerState → Nat
  | unspecified => 0
  | working => 1
  | sleeping1 => 2
  | sleeping2 => 3
  | sleeping3 => 4
  | hibernate => 5
  | shutdown => 6
  | maximum => 7

/-- `PowerSystemWorking` plus the number of a sleep state from 1 to 5. -/
def ofSleepState : Nat → SystemPowerState
  | 1 => sleeping1
  | 2 => sleeping2
  | 3 => sleeping3
  | 4 => hibernate
  | 5 => shutdown
  | _ => unspecified

end SystemPowerState

def NtError.invalidDeviceState : NtError := .other 0xC0000184

def NtError.deviceBusy : NtError := .other 0x80000011

def NtError.cancelled : NtError := .other 0xC0000120

/-- `UACPINT_WAKE`, without the pended request and its lock. -/
structure WakeBlock (ρ : Type) where
  node : Bool
  gpeLine : UInt8
  gpeParsed : Bool
  gpeValid : Bool
  systemWake : SystemPowerState
  requestedSystemState : SystemPowerState
  setupDone : Bool
  armed : Bool
  depthSuspended : Bool
  wakeResources : ResourceList ρ

/-- What a wake block acts on: the wake bit of each line, the number of run time enables minus
disables of each line, and the power resources. -/
structure WakeHost (ρ : Type) where
  forWake : UInt8 → Bool
  enables : UInt8 → Int
  resources : PowerResources ρ

namespace WakeHost

variable {ρ : Type}

def enableGpe (h : WakeHost ρ) (line : UInt8) : WakeHost ρ :=
  { h with enables := Function.update h.enables line (h.enables line + 1) }

def disableGpe (h : WakeHost ρ) (line : UInt8) : WakeHost ρ :=
  { h with enables := Function.update h.enables line (h.enables line - 1) }

def enableGpeForWake (h : WakeHost ρ) (line : UInt8) : WakeHost ρ :=
  { h with forWake := Function.update h.forWake line true }

def disableGpeForWake (h : WakeHost ρ) (line : UInt8) : WakeHost ρ :=
  { h with forWake := Function.update h.forWake line false }

end WakeHost

/-- What one call of `UacpiNtWakeArm` meets: the value of `_PRW` when it is parsed, the supported
sleep states, which library calls succeed, the resources `_PRW` names when they are acquired, and
for which resources `_ON` and `_OFF` succeed. -/
structure ArmEnv (ρ : Type) where
  prw : Option (List UacpiObject)
  sleepStateSupported : Nat → Bool
  setup : Bool
  enableForWake : Bool
  enable : Bool
  wakePrw : Option (List (Option ρ))
  on : ρ → Bool
  off : ρ → Bool

section

variable {ρ : Type}

def uacpiNtPrwSleepState : UacpiObject → Nat
  | .integer deepest => if deepest < 1 ∨ deepest > 5 then 0 else deepest.toNat
  | _ => 0

/-- The line that the first element of `_PRW` names, if it is one of the `\_GPE` block. -/
def prwGpeLine : UacpiObject → Option UInt8
  | .integer line => if line ≤ 0xFF then some line.toUInt8 else none
  | _ => none

def uacpiNtWakeParsePrw (env : ArmEnv ρ) (b : WakeBlock ρ) : WakeBlock ρ :=
  if b.gpeParsed then b
  else
    match b.node, env.prw with
    | true, some (gpe :: deepest :: _) =>
      let sleepState := uacpiNtPrwSleepState deepest
      { b with
        gpeParsed := true
        gpeLine := (prwGpeLine gpe).getD b.gpeLine
        gpeValid := b.gpeValid || (prwGpeLine gpe).isSome
        systemWake := if sleepState ≠ 0 ∧ env.sleepStateSupported sleepState then
            .ofSleepState sleepState
          else b.systemWake }
    | _, _ => { b with gpeParsed := true }

/-- The first part of `UacpiNtWakeArm`, up to the setup of the line: the block and why the request
is refused, if it is. -/
def wakeArmPrepare (env : ArmEnv ρ) (requested : SystemPowerState) (busy : Bool)
    (b : WakeBlock ρ) : WakeBlock ρ × Option NtError :=
  let b := uacpiNtWakeParsePrw env b
  if b.gpeValid = false then (b, some .notSupported)
  else if b.systemWake ≠ .unspecified ∧ b.systemWake.value < requested.value then
    (b, some .invalidDeviceState)
  else
    -- The state is recorded before the request is found to be one too many.
    let b := { b with requestedSystemState := requested }
    if busy then (b, some .deviceBusy)
    else if b.setupDone then (b, none)
    else if env.setup then ({ b with setupDone := true }, none)
    else (b, some .notSupported)

variable [DecidableEq ρ]

section

variable (off : ρ → Bool) (order : ρ → UInt16) (env : ArmEnv ρ) (b : WakeBlock ρ)

def uacpiNtWakeReleaseHardware (h : WakeHost ρ) : WakeBlock ρ × WakeHost ρ :=
  let h := (h.disableGpe b.gpeLine).disableGpeForWake b.gpeLine
  ({ b with wakeResources := ∅ },
    { h with resources := (uacpiNtPowerResReleaseWake off b.wakeResources h.resources).1 })

def uacpiNtWakeDisarm (h : WakeHost ρ) : WakeBlock ρ × WakeHost ρ :=
  if b.armed then uacpiNtWakeReleaseHardware off { b with armed := false } h else (b, h)

def wakeArmEngage (h : WakeHost ρ) : WakeBlock ρ × WakeHost ρ :=
  let h := h.enableGpe b.gpeLine
  let (resources, list) := uacpiNtPowerResAcquireWake order env.on env.wakePrw h.resources
  ({ b with armed := true, wakeResources := list }, { h with resources := resources })

/-- `UacpiNtWakeArm`, with why the request is completed at once; it is pended if there is no
reason. `busy` says that another request is pended and `cancel` that this one was cancelled. -/
def uacpiNtWakeArm (requested : SystemPowerState) (busy cancel : Bool) (b : WakeBlock ρ)
    (h : WakeHost ρ) : WakeBlock ρ × WakeHost ρ × Option NtError :=
  match wakeArmPrepare env requested busy b with
  | (b, some e) => (b, h, some e)
  | (b, none) =>
    if env.enableForWake = false then (b, h, some .notSupported)
    else
      let h := h.enableGpeForWake b.gpeLine
      if env.enable = false then (b, h.disableGpeForWake b.gpeLine, some .notSupported)
      else
        let (b, h) := wakeArmEngage order env b h
        if cancel then
          let (b, h) := uacpiNtWakeDisarm env.off b h
          (b, h, some .cancelled)
        else (b, h, none)

end

end

/-! ### What arming does -/

structure WakeBlock.Parses {ρ : Type} (b b' : WakeBlock ρ) : Prop where
  node : b'.node = b.node
  depthSuspended : b'.depthSuspended = b.depthSuspended
  parsed : b'.gpeParsed = true
  gpe : b.gpeParsed = true → b'.gpeValid = b.gpeValid ∧ b'.gpeLine = b.gpeLine
  valid : b'.gpeValid = true → b.gpeValid = true ∨ b.node = true

structure WakeBlock.Prepares {ρ : Type} (b b' : WakeBlock ρ) : Prop extends b.Parses b' where
  armed : b'.armed = b.armed
  wakeResources : b'.wakeResources = b.wakeResources

section

variable {ρ : Type}

theorem parsePrw_prepares (env : ArmEnv ρ) (b : WakeBlock ρ) :
    b.Prepares (uacpiNtWakeParsePrw env b) := by
  rw [uacpiNtWakeParsePrw]
  split <;> rename_i hpar
  · exact ⟨⟨rfl, rfl, hpar, fun _ => ⟨rfl, rfl⟩, .inl⟩, rfl, rfl⟩
  split
  · rename_i hnode _
    exact ⟨⟨rfl, rfl, rfl, fun h => absurd h hpar, fun _ => .inr hnode⟩, rfl, rfl⟩
  · exact ⟨⟨rfl, rfl, rfl, fun h => absurd h hpar, .inl⟩, rfl, rfl⟩

variable {b : WakeBlock ρ}

theorem WakeBlock.Prepares.record {b' : WakeBlock ρ} (h : b.Prepares b')
    (requested : SystemPowerState) (setupDone : Bool) :
    b.Prepares { b' with requestedSystemState := requested, setupDone := setupDone } :=
  ⟨⟨h.node, h.depthSuspended, h.parsed, h.gpe, h.valid⟩, h.armed, h.wakeResources⟩

theorem wakeArmPrepare_prepares (env : ArmEnv ρ) (requested : SystemPowerState) (busy : Bool)
    (b : WakeBlock ρ) : b.Prepares (wakeArmPrepare env requested busy b).1 := by
  have hparse := parsePrw_prepares env b
  rw [wakeArmPrepare]
  dsimp only
  split
  · exact hparse
  split
  · exact hparse
  split
  · exact hparse.record requested _
  split
  · exact hparse.record requested _
  · split
    · exact hparse.record requested true
    · exact hparse.record requested _

variable {requested : SystemPowerState}

theorem wakeArmPrepare_accepts {env : ArmEnv ρ} {busy : Bool}
    (h : (wakeArmPrepare env requested busy b).2 = none) :
    (wakeArmPrepare env requested busy b).1.gpeValid = true ∧ busy = false := by
  rw [wakeArmPrepare] at h ⊢
  split at h
  · cases h
  rename_i hval
  split at h
  · cases h
  rename_i hdeep
  split at h
  · cases h
  rename_i hbusy
  rw [if_neg hval, if_neg hdeep, if_neg hbusy]
  refine ⟨?_, by simpa using hbusy⟩
  split <;> try split
  all_goals simpa using hval

variable [DecidableEq ρ]

/-- What a call of `UacpiNtWakeArm` comes to, from a block that is prepared: the request is refused
before the line is touched, or because the run time enable fails, or the block is armed and the
request pended, or the block is armed and, since the request was cancelled, disarmed again. -/
inductive ArmResult (order : ρ → UInt16) (env : ArmEnv ρ) (busy cancel : Bool) (b : WakeBlock ρ)
    (h : WakeHost ρ) : WakeBlock ρ × WakeHost ρ × Option NtError → Prop
  | refused (e : NtError) : ArmResult order env busy cancel b h (b, h, some e)
  | notEnabled (hbusy : busy = false) (hvalid : b.gpeValid = true) :
      ArmResult order env busy cancel b h
        (b, (h.enableGpeForWake b.gpeLine).disableGpeForWake b.gpeLine, some .notSupported)
  | pended {armed : WakeBlock ρ} {host : WakeHost ρ} (hbusy : busy = false)
      (hvalid : b.gpeValid = true) (hcancel : cancel = false)
      (hengage : wakeArmEngage order env b (h.enableGpeForWake b.gpeLine) = (armed, host)) :
      ArmResult order env busy cancel b h (armed, host, none)
  | cancelled {armed : WakeBlock ρ} {host : WakeHost ρ} (hbusy : busy = false)
      (hvalid : b.gpeValid = true) (hcancel : cancel = true)
      (hengage : wakeArmEngage order env b (h.enableGpeForWake b.gpeLine) = (armed, host)) :
      ArmResult order env busy cancel b h ((uacpiNtWakeDisarm env.off armed host).1,
        (uacpiNtWakeDisarm env.off armed host).2, some .cancelled)

theorem wakeArm_result (order : ρ → UInt16) (env : ArmEnv ρ) (requested : SystemPowerState)
    (busy cancel : Bool) (b : WakeBlock ρ) (h : WakeHost ρ) :
    ∃ b', b.Prepares b' ∧ ArmResult order env busy cancel b' h
      (uacpiNtWakeArm order env requested busy cancel b h) := by
  refine ⟨_, wakeArmPrepare_prepares env requested busy b, ?_⟩
  rw [uacpiNtWakeArm]
  split
  · rename_i b' e hprepa
    rw [hprepa]
    exact .refused e
  rename_i b' hprepa
  obtain ⟨hval, hbusy⟩ := wakeArmPrepare_accepts (congrArg Prod.snd hprepa)
  rw [hprepa] at hval ⊢
  split
  · exact .refused _
  split
  · exact .notEnabled hbusy hval
  · split <;> rename_i hcan
    · exact .cancelled hbusy hval hcan rfl
    · exact .pended hbusy hval (by simpa using hcan) rfl

theorem disarm_of_armed (off : ρ → Bool) (h : WakeHost ρ) (harme : b.armed = true) :
    (uacpiNtWakeDisarm off b h).1 = { b with armed := false, wakeResources := ∅ } ∧
      (uacpiNtWakeDisarm off b h).2.forWake = Function.update h.forWake b.gpeLine false := by
  rw [uacpiNtWakeDisarm, if_pos harme]
  exact ⟨rfl, rfl⟩

theorem disarm_of_not_armed (off : ρ → Bool) (h : WakeHost ρ) (harme : b.armed = false) :
    uacpiNtWakeDisarm off b h = (b, h) := by
  rw [uacpiNtWakeDisarm, if_neg (by simp [harme])]

/-- What a call of `UacpiNtWakeArm` does to the wake bits, if the block is armed exactly while a
request is pended. -/
inductive ArmEffect (b : WakeBlock ρ) (h : WakeHost ρ) (b' : WakeBlock ρ) (h' : WakeHost ρ) :
    Option NtError → Prop
  | refused (e : NtError) (harmed : b'.armed = b.armed) (hbits : h'.forWake = h.forWake) :
      ArmEffect b h b' h' (some e)
  | undone (e : NtError) (hidle : b.armed = false) (hvalid : b'.gpeValid = true)
      (harmed : b'.armed = false) (hbits : h'.forWake =
        Function.update (Function.update h.forWake b'.gpeLine true) b'.gpeLine false) :
      ArmEffect b h b' h' (some e)
  | pended (hidle : b.armed = false) (hvalid : b'.gpeValid = true) (harmed : b'.armed = true)
      (hbits : h'.forWake = Function.update h.forWake b'.gpeLine true) :
      ArmEffect b h b' h' none

theorem wakeArm_effect {order : ρ → UInt16} {env : ArmEnv ρ} {busy cancel : Bool} {b' : WakeBlock ρ}
    {h h' : WakeHost ρ} {refused : Option NtError} (hbusy : busy = b.armed)
    (hres : uacpiNtWakeArm order env requested busy cancel b h = (b', h', refused)) :
    b.Parses b' ∧ ArmEffect b h b' h' refused := by
  obtain ⟨prepared, hprep, harm⟩ := wakeArm_result order env requested busy cancel b h
  rw [hres] at harm
  cases harm with
  | refused e => exact ⟨hprep.toParses, .refused e hprep.armed rfl⟩
  | notEnabled hidle hval =>
    have hunar : b.armed = false := hbusy.symm.trans hidle
    exact ⟨hprep.toParses, .undone _ hunar hval (hprep.armed.trans hunar) rfl⟩
  | pended hidle hval hcan heng =>
    have hunar : b.armed = false := hbusy.symm.trans hidle
    cases heng
    have hpars := hprep.toParses
    exact ⟨⟨hpars.node, hpars.depthSuspended, hpars.parsed, hpars.gpe, hpars.valid⟩,
      .pended hunar hval rfl rfl⟩
  | cancelled hidle hval hcan heng =>
    have hunar : b.armed = false := hbusy.symm.trans hidle
    cases heng
    have hpars := hprep.toParses
    exact ⟨⟨hpars.node, hpars.depthSuspended, hpars.parsed, hpars.gpe, hpars.valid⟩,
      .undone _ hunar hval rfl rfl⟩

end

/-! ### A plain block -/

def WakeBlock.plain : WakeBlock (Fin 1) :=
  ⟨true, 0, false, false, .unspecified, .unspecified, false, false, false, ∅⟩

def WakeHost.plain : WakeHost (Fin 1) :=
  ⟨fun _ => false, fun _ => 0, ⟨true, fun _ => 0, fun _ => false⟩⟩

def ArmEnv.plain (line : UInt64) : ArmEnv (Fin 1) :=
  ⟨some [.integer line, .integer 3, .other], fun _ => true, true, true, true,
    some [none, none, some (.last 0)], fun _ => true, fun _ => true⟩

/-! ### What an armed block has taken -/

open Holding

variable {ρ : Type} [DecidableEq ρ]

/-- The host is `base` but for `n` run time enables of the line of the block and a reference to
each of its wake resources. -/
structure Engaged (base : WakeHost ρ) (n : Nat) (b : WakeBlock ρ) (h : WakeHost ρ) : Prop where
  enables : ∀ line, h.enables line = base.enables line + if line = b.gpeLine then (n : Int) else 0
  refCount : ∀ r, h.resources.refCount r =
    base.resources.refCount r + Holding.held b.wakeResources.entries r
  ready : h.resources.ready = base.resources.ready
  collected : h.resources.ready = false → b.wakeResources.entries = []
  idle : n = 0 → b.wakeResources.entries = []
  parsed : n ≠ 0 → b.gpeParsed = true

namespace Engaged

variable {base h : WakeHost ρ} {b b' : WakeBlock ρ} {n : Nat}

theorem of_idle (b : WakeBlock ρ) (h : WakeHost ρ) (hemp : b.wakeResources.entries = []) :
    Engaged h 0 b h :=
  ⟨fun line => by simp, fun r => by simp [hemp, Holding.held], rfl, fun _ => hemp,
    fun _ => hemp,
    fun hzero => absurd rfl hzero⟩

theorem wakeBits (forWake : UInt8 → Bool) (hs : Engaged base n b h) :
    Engaged base n b { h with forWake := forWake } :=
  ⟨hs.enables, hs.refCount, hs.ready, hs.collected, hs.idle, hs.parsed⟩

theorem prepare (hs : Engaged base n b h) (hprep : b.Prepares b') : Engaged base n b' h := by
  refine ⟨fun line => ?_, fun r => ?_, hs.ready, fun hready => ?_, fun hn => ?_,
    fun _ => hprep.parsed⟩
  · by_cases hn : n = 0
    · simpa [hn] using hs.enables line
    · rw [(hprep.gpe (hs.parsed hn)).2]
      exact hs.enables line
  · rw [hprep.wakeResources]
    exact hs.refCount r
  · rw [hprep.wakeResources]
    exact hs.collected hready
  · rw [hprep.wakeResources]
    exact hs.idle hn

theorem enable (hs : Engaged base 0 b h) (hpars : b.gpeParsed = true) :
    Engaged base 1 { b with armed := true } (h.enableGpe b.gpeLine) := by
  refine ⟨fun line => ?_, hs.refCount, hs.ready, hs.collected, fun hn => absurd hn one_ne_zero,
    fun _ => hpars⟩
  have henab := hs.enables line
  by_cases hline : line = b.gpeLine
  · subst hline
    simpa [WakeHost.enableGpe] using henab
  · simpa [WakeHost.enableGpe, hline] using henab

theorem acquire (order : ρ → UInt16) (env : ArmEnv ρ) (hs : Engaged base 1 b h)
    (hemp : b.wakeResources.entries = []) :
    Engaged base 1 { b with
        wakeResources := (uacpiNtPowerResAcquireWake order env.on env.wakePrw h.resources).2 }
      { h with
        resources := (uacpiNtPowerResAcquireWake order env.on env.wakePrw h.resources).1 } := by
  simp only [uacpiNtPowerResAcquireWake]
  set list := uacpiNtPowerResEvalList order _ h.resources with hlist
  refine ⟨hs.enables, fun r => ?_, ?_, fun hready => ?_, fun hn => absurd hn one_ne_zero, hs.parsed⟩
  · rw [foldl_reference_refCount env.on list.nodup, hs.refCount r, hemp]
    simp [Holding.held]
  · rw [foldl_reference_ready]
    exact hs.ready
  · rw [foldl_reference_ready] at hready
    simp [hlist, uacpiNtPowerResEvalList, hready]

theorem engage (order : ρ → UInt16) (env : ArmEnv ρ) (hs : Engaged base 0 b h)
    (hpars : b.gpeParsed = true) :
    Engaged base 1 (wakeArmEngage order env b h).1 (wakeArmEngage order env b h).2 :=
  (hs.enable hpars).acquire order env (hs.idle rfl)

theorem release (off : ρ → Bool) (hs : Engaged base 1 b h) :
    Engaged base 0 (uacpiNtWakeReleaseHardware off b h).1
      (uacpiNtWakeReleaseHardware off b h).2 := by
  simp only [uacpiNtWakeReleaseHardware, WakeHost.disableGpe, WakeHost.disableGpeForWake]
  refine ⟨fun line => ?_, fun r => ?_, ?_, fun _ => rfl, fun _ => rfl,
    fun hn => absurd rfl hn⟩
  · have henab := hs.enables line
    by_cases hline : line = b.gpeLine
    · subst hline
      simp at henab ⊢
      omega
    · simpa [hline] using henab
  · have hcnt := hs.refCount r
    have hemp : Holding.held (∅ : ResourceList ρ).entries r = 0 := held_of_not_mem (by simp)
    rw [uacpiNtPowerResReleaseWake, hemp]
    cases hready : h.resources.ready with
    | false =>
      rw [hs.collected hready] at hcnt
      simpa [hready] using hcnt
    | true =>
      have hsame : Holding.held b.wakeResources.entries.reverse r =
          Holding.held b.wakeResources.entries r :=
        held_congr (by simp)
      rw [if_pos rfl, dereferenceAll_refCount off (List.nodup_reverse.2 b.wakeResources.nodup)]
      omega
  · rw [uacpiNtPowerResReleaseWake]
    split
    · rw [dereferenceAll_ready]
      exact hs.ready
    · exact hs.ready

theorem disarm (off : ρ → Bool) (hs : Engaged base b.armed.toNat b h) :
    Engaged base 0 (uacpiNtWakeDisarm off b h).1 (uacpiNtWakeDisarm off b h).2 := by
  rw [uacpiNtWakeDisarm]
  cases harme : b.armed with
  | false =>
    rw [harme] at hs
    exact hs
  | true =>
    rw [harme] at hs
    -- The flag plays no part in what the block has taken.
    have hclr : Engaged base 1 { b with armed := false } h :=
      ⟨hs.enables, hs.refCount, hs.ready, hs.collected, hs.idle, hs.parsed⟩
    exact hclr.release off

end Engaged

end UacpiNt
