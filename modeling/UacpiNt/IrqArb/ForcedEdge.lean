import UacpiNt.IrqArb.Retest
import UacpiNt.IrqLib.Madt
import UacpiNt.IrqLib.Message
import UacpiNt.IrqLib.Repeat

/-!
# Lines that are forced to be edge triggered

The tables of the trigger modes are written by the MADT parser, the resource hub, the routing of
PCI devices, the registration of the SCI, the placements of the arbiter and the translator, in any
order. The mode that is reported for a line reads the level table only, and of all the writers
only the placements of the arbiter look at the forced lines first.
-/

namespace UacpiNt

open GsivTriggers (gsivIsLevel_noteLevelGsiv gsivMode_eq_latched)

/-! ### The writers -/

structure LineSystem where
  world : IrqWorld
  connection : ConnectionState

namespace LineSystem

def fresh (vectors : VectorState) : LineSystem :=
  ⟨.zero, vectors, fun _ => none⟩

def mapTriggers (sys : LineSystem) (f : GsivTriggers → GsivTriggers) : LineSystem :=
  { sys with world := { sys.world with triggers := f sys.world.triggers } }

end LineSystem

inductive LineEvent where
  | parseMadt (bytes : List UInt8)
  | setInterruptProperties (gsiv : UInt32) (mode : KInterruptMode)
  | resolvePrt (device : DeviceObject)
  | registerSci (gsiv : UInt32)
  | place (st : AllocationState)
  | publish (pdo : DeviceObject) (gsiv count : UInt32)
  | translate (childToParent : Bool) (source : CmPartialResourceDescriptor) (pdo : DeviceObject)

section

variable (irqHost : IrqHost) (api : IdtApi) (host : IrqLibHost) (write : PropertyWriter)

namespace LineEvent

def apply (sys : LineSystem) : LineEvent → LineSystem
  | parseMadt bytes => sys.mapTriggers (uacpiNtParseMadt bytes)
  | setInterruptProperties gsiv mode =>
    sys.mapTriggers (uacpiNtRhSetInterruptProperties gsiv mode)
  | resolvePrt device =>
    { sys with world := (uacpiNtPrtResolveGsiv irqHost device sys.world).2 }
  | registerSci gsiv => sys.mapTriggers (·.noteLevelGsiv gsiv)
  | place st => { sys with world := uacpiNtNotePlacedTriggering st sys.world }
  | publish pdo gsiv count =>
    { sys with
      connection := (uacpiNtIrqLibWriteConnectionData api host write sys.world.triggers pdo gsiv
        count sys.connection).2 }
  | translate childToParent source pdo =>
    let t := (uacpiNtTranslateResources api host write childToParent source pdo
      ⟨sys.world.triggers, sys.connection⟩).2.2
    ⟨{ sys.world with triggers := t.triggers }, t.connection⟩

def NotesLevel (sys : LineSystem) (gsiv : UInt32) : LineEvent → Prop
  | parseMadt bytes => ∃ o ∈ madtOverrides bytes, o.remaps ∧ o.isLevel ∧ o.gsi = gsiv
  | setInterruptProperties gsiv' mode => gsiv' = gsiv ∧ mode = .levelSensitive
  | resolvePrt device =>
    (irqHost.prtWalk device sys.world.linkRotation sys.world.links).1 = some gsiv
  | registerSci gsiv' => gsiv' = gsiv
  | place st => st.start < msiGsivBase ∧ st.start.toUInt32 = gsiv ∧
      sys.world.triggers.gsivForcedEdge gsiv = false ∧
      ∃ alt, st.current = some alt ∧ alt.descriptor.isLatched = false
  | publish .. => False
  | translate childToParent source _ => childToParent = true ∧ source.isMessage = false ∧
      source.isLatched = false ∧ ∃ level affinity, source.u = .interrupt level gsiv affinity

def NotesEdge (gsiv : UInt32) : LineEvent → Prop
  | parseMadt bytes => ∃ o ∈ madtOverrides bytes, o.remaps ∧ o.isEdge ∧ o.gsi = gsiv
  | setInterruptProperties gsiv' mode => gsiv' = gsiv ∧ mode = .latched
  | _ => False

end LineEvent

def runLines (sys : LineSystem) (events : List LineEvent) : LineSystem :=
  events.foldl (LineEvent.apply irqHost api host write) sys

def Occurs (Notes : LineSystem → LineEvent → Prop) (sys : LineSystem) (events : List LineEvent) :
    Prop :=
  ∃ before event after, events = before ++ event :: after ∧
    Notes (runLines irqHost api host write sys before) event

/-- The line is reported as latched, by the resolver and in all published data. -/
def ReportedLatched (sys : LineSystem) (gsiv : UInt32) : Prop :=
  (∀ s line, (uacpiNtIrqLibResolveVector api host sys.world.triggers gsiv s).1 = .ok line →
    line.mode = .latched) ∧
  ∀ pdo data, sys.connection.properties pdo = some data →
    ∀ e ∈ data, e.controllerInput = some gsiv → e.mode = .latched

/-- There is no way to a vector for the line: under the PIC the HAL has none, and no base is
known. -/
def IrqLibHost.Unresolved (gsiv : UInt32) : Prop :=
  host.isSecondary gsiv = false ∧ host.interruptModel ≠ acpiNtApic ∧
    (host.picVector gsiv).1 = 0 ∧ host.picVectorBase = none

end

/-! ### What the resolver reports -/

section

variable {api : IdtApi} {host : IrqLibHost} {triggers : GsivTriggers} {gsiv : UInt32}

theorem resolveVector_mode {s : VectorState} {line : LineVector}
    (h : (uacpiNtIrqLibResolveVector api host triggers gsiv s).1 = .ok line) :
    line.mode = triggers.gsivMode gsiv := by
  rw [uacpiNtIrqLibResolveVector] at h
  repeat' split at h
  all_goals cases h
  all_goals rfl

theorem IrqLibHost.Unresolved.not_ok (hhost : host.Unresolved gsiv) {s : VectorState}
    {line : LineVector} : (uacpiNtIrqLibResolveVector api host triggers gsiv s).1 ≠ .ok line := by
  obtain ⟨hsec, hmodel, hvec, hbase⟩ := hhost
  rw [uacpiNtIrqLibResolveVector]
  simp [hsec, hmodel, hvec, hbase]

theorem exists_of_map_eq_ok {ε α β : Type} {f : α → β} {x : Except ε α} {b : β}
    (h : x.map f = .ok b) : ∃ a, x = .ok a := by
  cases x with
  | error e => cases h
  | ok a => exact ⟨a, rfl⟩

/-- A vector state in which a line was resolved before, as a line of a controller or of the
APIC. -/
def VectorState.resolvedBefore (gsiv : UInt32) : VectorState :=
  ⟨[], fun _ => 1, fun _ => .zero, [gsiv]⟩

theorem exists_resolveVector_ok (hgsiv : gsiv.toNat < uacpiNtMaxGsiv)
    (hhost : ¬ host.Unresolved gsiv) :
    ∃ s line, (uacpiNtIrqLibResolveVector api host triggers gsiv s).1 = .ok line := by
  refine ⟨.resolvedBefore gsiv, ?_⟩
  have hasgd : (VectorState.resolvedBefore gsiv).assignedVector gsiv = 1 := by
    rw [VectorState.assignedVector, dif_pos hgsiv]
    rfl
  have hsec : (uacpiNtAllocateSecondaryVector gsiv (.resolvedBefore gsiv)).1 =
      .ok secondaryVectorBase := by
    simp [uacpiNtAllocateSecondaryVector, VectorState.resolvedBefore]
  cases hcon : host.isSecondary gsiv with
  | true =>
    have hvec := (resolveVector_of_secondary api hcon triggers (.resolvedBefore gsiv)).1
    rw [hsec] at hvec
    exact exists_of_map_eq_ok hvec
  | false =>
    rw [uacpiNtIrqLibResolveVector]
    simp only [hcon, Bool.false_eq_true, if_false]
    split
    · rw [uacpiNtApicAllocateVector, hasgd]
      exact ⟨_, rfl⟩
    rename_i hmodel
    split
    · exact ⟨_, rfl⟩
    rename_i hvec
    split
    · rename_i hbase
      exact absurd ⟨hcon, hmodel, not_not.mp hvec, hbase⟩ hhost
    · exact ⟨_, rfl⟩

end

/-! ### What is published -/

def ConnectionState.Published (c : ConnectionState) (e : InterruptVectorData) : Prop :=
  ∃ pdo data, c.properties pdo = some data ∧ e ∈ data

section

variable {api : IdtApi} {host : IrqLibHost} {write : PropertyWriter} {triggers : GsivTriggers}
  {e : InterruptVectorData} {gsiv : UInt32}

variable {pdo : DeviceObject}

theorem published_setConnectionData {data : InterruptConnectionData} {c : ConnectionState}
    (h : (uacpiNtSetConnectionData write pdo data c).2.Published e) : c.Published e ∨ e ∈ data := by
  rw [uacpiNtSetConnectionData] at h
  split at h
  · obtain ⟨pdo', data', hdata, he⟩ := h
    simp only at hdata
    by_cases hpdo : pdo' = pdo
    · subst hpdo
      rw [Function.update_self] at hdata
      cases hdata
      exact .inr he
    · rw [Function.update_of_ne hpdo] at hdata
      exact .inl ⟨pdo', data', hdata, he⟩
  · exact .inl h

theorem controllerInput_messageConnectionData {s : VectorState} {owner : DeviceObject}
    {count : UInt32} {target : UInt64}
    (h : e ∈ messageConnectionData host s owner count target) : e.controllerInput = none := by
  unfold messageConnectionData at h
  generalize (if totalMessages s owner = 0 then count else totalMessages s owner) = total at h
  simp only at h
  split at h
  · rw [List.eq_of_mem_replicate h]
  have hmem := List.mem_of_mem_take h
  rw [List.mem_flatMap] at hmem
  obtain ⟨i, -, he⟩ := hmem
  rw [MessageRun.elements, List.mem_map] at he
  obtain ⟨message, -, rfl⟩ := he
  rfl

theorem published_writeConnectionData {gsiv' count : UInt32} {c : ConnectionState}
    (hline : e.controllerInput = some gsiv)
    (h : (uacpiNtIrqLibWriteConnectionData api host write triggers pdo gsiv' count c).2.Published
      e) : c.Published e ∨ ∃ s line,
      (uacpiNtIrqLibResolveVector api host triggers gsiv s).1 = .ok line ∧ e.mode = line.mode := by
  rw [uacpiNtIrqLibWriteConnectionData] at h
  split at h
  · rw [uacpiNtWriteMessageConnectionData] at h
    split at h
    · exact .inl h
    rcases published_setConnectionData h with h | h
    · exact .inl h
    · rw [controllerInput_messageConnectionData h] at hline
      cases hline
  · split at h
    · exact .inl h
    split at h
    · exact .inl h
    rename_i line s hres
    rcases published_setConnectionData h with h | h
    · exact .inl h
    · rw [List.mem_singleton.mp h] at hline ⊢
      cases hline
      exact .inr ⟨c.vectors, line, by rw [hres], rfl⟩

/-- The tables that a translation leaves: a level descriptor makes its line level triggered. -/
def translatedTriggers (childToParent : Bool) (source : CmPartialResourceDescriptor)
    (t : GsivTriggers) : GsivTriggers :=
  match childToParent, source.u with
  | true, .interrupt _ gsiv _ =>
    if source.isMessage ∨ gsiv ≥ messageGsivBase then t
    else if source.isLatched then t else t.noteLevelGsiv gsiv
  | _, _ => t

theorem translateResources_cases (api : IdtApi) (host : IrqLibHost) (write : PropertyWriter)
    (childToParent : Bool) (source : CmPartialResourceDescriptor) (pdo : DeviceObject)
    (t : TranslatorState) :
    ∃ t₀ : TranslatorState, t₀.connection.properties = t.connection.properties ∧
      t₀.triggers = translatedTriggers childToParent source t.triggers ∧
      ((uacpiNtTranslateResources api host write childToParent source pdo t).2.2 = t₀ ∨
        ∃ gsiv count, (uacpiNtTranslateResources api host write childToParent source pdo t).2.2 =
          { t₀ with
            connection := (uacpiNtIrqLibWriteConnectionData api host write t₀.triggers pdo gsiv
              count t₀.connection).2 }) := by
  have hfin : ∀ (t₀ : TranslatorState) gsiv count vector irql affinity,
      (finishTranslation api host write source pdo gsiv count vector irql affinity t₀).2.2 = t₀ ∨
        (finishTranslation api host write source pdo gsiv count vector irql affinity t₀).2.2 =
          { t₀ with
            connection := (uacpiNtIrqLibWriteConnectionData api host write t₀.triggers pdo gsiv
              count t₀.connection).2 } := by
    intro t₀ gsiv count vector irql affinity
    rw [finishTranslation]
    split
    · exact .inl rfl
    · exact .inr rfl
  cases childToParent with
  | false => exact ⟨t, rfl, rfl, .inl rfl⟩
  | true =>
    unfold uacpiNtTranslateResources translatedTriggers
    cases source.u with
    | interrupt level gsiv affinity =>
      simp only
      by_cases hmsg : source.isMessage = true ∨ gsiv ≥ messageGsivBase
      · rw [if_pos hmsg, if_pos hmsg]
        split
        · rename_i e s hres
          exact ⟨t.setVectors s, rfl, rfl, .inl rfl⟩
        · rename_i vector irql processors s hres
          exact ⟨t.setVectors s, rfl, rfl, (hfin _ _ _ _ _ _).imp_right fun h => ⟨_, _, h⟩⟩
      · rw [if_neg hmsg, if_neg hmsg]
        generalize (if source.isLatched then t.triggers else t.triggers.noteLevelGsiv gsiv) = noted
        split
        · rename_i e s hres
          exact ⟨({ t with triggers := noted } : TranslatorState).setVectors s, rfl, rfl, .inl rfl⟩
        · rename_i line s hres
          exact ⟨({ t with triggers := noted } : TranslatorState).setVectors s, rfl, rfl,
            (hfin _ _ _ _ _ _).imp_right fun h => ⟨_, _, h⟩⟩
    | _ => exact ⟨t, rfl, rfl, .inl rfl⟩

theorem published_translateResources {childToParent : Bool} {source : CmPartialResourceDescriptor}
    {t : TranslatorState} (hline : e.controllerInput = some gsiv)
    (h : (uacpiNtTranslateResources api host write childToParent source pdo
      t).2.2.connection.Published e) : t.connection.Published e ∨ ∃ s line,
      (uacpiNtIrqLibResolveVector api host (translatedTriggers childToParent source t.triggers)
        gsiv s).1 = .ok line ∧ e.mode = line.mode := by
  obtain ⟨t₀, hprops, htrig, hcases⟩ := translateResources_cases api host write
    childToParent source pdo t
  have hbef : t₀.connection.Published e → t.connection.Published e := by
    rintro ⟨pdo', data, hdata, he⟩
    exact ⟨pdo', data, hprops ▸ hdata, he⟩
  rcases hcases with heq | ⟨gsiv', count, heq⟩ <;> rw [heq] at h
  · exact .inl (hbef h)
  · rw [← htrig]
    exact (published_writeConnectionData hline h).imp_left hbef

end

/-! ### What one event does -/

section

variable {irqHost : IrqHost} {api : IdtApi} {host : IrqLibHost} {write : PropertyWriter}
  {gsiv : UInt32}

theorem gsivIsLevel_translatedTriggers (hgsiv : gsiv.toNat < uacpiNtMaxGsiv)
    (childToParent : Bool) (source : CmPartialResourceDescriptor) (t : GsivTriggers) :
    (translatedTriggers childToParent source t).gsivIsLevel gsiv = true ↔
      t.gsivIsLevel gsiv = true ∨ childToParent = true ∧ source.isMessage = false ∧
        source.isLatched = false ∧ ∃ level affinity, source.u = .interrupt level gsiv affinity := by
  have hbelow : ¬ gsiv ≥ messageGsivBase := by
    rw [ge_iff_le, UInt32.le_iff_toNat_le]
    have : messageGsivBase.toNat = 0xFFF00000 := rfl
    rw [uacpiNtMaxGsiv] at hgsiv
    omega
  unfold translatedTriggers
  split
  · rename_i level line affinity hsour
    rw [hsour]
    split <;> rename_i hmsg
    · refine (or_iff_left ?_).symm
      rintro ⟨-, hnone, -, level', affinity', hline⟩
      cases hline
      exact hmsg.elim (by simp [hnone]) hbelow
    · rw [not_or, Bool.not_eq_true] at hmsg
      split <;> rename_i hlat
      · simp [hlat]
      rw [gsivIsLevel_noteLevelGsiv, Bool.or_eq_true, decide_eq_true_eq]
      refine or_congr_right ⟨?_, ?_⟩
      · rintro ⟨rfl, -⟩
        exact ⟨rfl, hmsg.1, Bool.eq_false_iff.mpr hlat, level, affinity, rfl⟩
      · rintro ⟨-, -, -, level', affinity', hline⟩
        cases hline
        exact ⟨rfl, hgsiv⟩
  · rename_i hoth
    refine (or_iff_left ?_).symm
    rintro ⟨htrue, -, -, level, affinity, hline⟩
    exact hoth level gsiv affinity htrue hline

theorem gsivForcedEdge_translatedTriggers (childToParent : Bool)
    (source : CmPartialResourceDescriptor) (t : GsivTriggers) :
    (translatedTriggers childToParent source t).gsivForcedEdge gsiv = t.gsivForcedEdge gsiv := by
  unfold translatedTriggers
  repeat' split
  all_goals simp

namespace LineEvent

theorem apply_translate_triggers (sys : LineSystem) (childToParent : Bool)
    (source : CmPartialResourceDescriptor) (pdo : DeviceObject) :
    (apply irqHost api host write sys (translate childToParent source pdo)).world.triggers =
      translatedTriggers childToParent source sys.world.triggers := by
  obtain ⟨t₀, -, htrig, hcases⟩ := translateResources_cases api host write childToParent
    source pdo ⟨sys.world.triggers, sys.connection⟩
  rw [← htrig]
  rcases hcases with heq | ⟨gsiv, count, heq⟩
  · exact congrArg TranslatorState.triggers heq
  · exact (congrArg TranslatorState.triggers heq).trans rfl

theorem apply_level (hgsiv : gsiv.toNat < uacpiNtMaxGsiv) (sys : LineSystem) (event : LineEvent) :
    (event.apply irqHost api host write sys).world.triggers.gsivIsLevel gsiv = true ↔
      sys.world.triggers.gsivIsLevel gsiv = true ∨ event.NotesLevel irqHost sys gsiv := by
  cases event with
  | parseMadt bytes =>
    exact parseMadt_iff (Q := (·.gsivIsLevel gsiv)) (·.gsivIsLevel_note · hgsiv) bytes _
  | setInterruptProperties noted mode =>
    cases mode <;> simp [apply, NotesLevel, LineSystem.mapTriggers,
      uacpiNtRhSetInterruptProperties, gsivIsLevel_noteLevelGsiv, hgsiv, @eq_comm _ noted]
  | resolvePrt device =>
    simp only [apply, NotesLevel, prtResolveGsiv_triggers]
    cases (irqHost.prtWalk device sys.world.linkRotation sys.world.links).1 <;>
      simp [gsivIsLevel_noteLevelGsiv, hgsiv, @eq_comm _ gsiv]
  | registerSci noted =>
    simp [apply, NotesLevel, LineSystem.mapTriggers, gsivIsLevel_noteLevelGsiv, hgsiv,
      @eq_comm _ noted]
  | place st =>
    simp only [apply, NotesLevel, uacpiNtNotePlacedTriggering]
    cases st.current with
    | none => simp
    | some alt =>
      simp only
      split <;> rename_i hnoted
      · obtain ⟨hline, hlevel, hfor⟩ := hnoted
        rw [Bool.not_eq_true'] at hlevel hfor
        rw [gsivIsLevel_noteLevelGsiv, Bool.or_eq_true, decide_eq_true_eq]
        refine or_congr_right ⟨?_, fun h => ⟨h.2.1.symm, hgsiv⟩⟩
        rintro ⟨rfl, -⟩
        exact ⟨hline, rfl, hfor, alt, rfl, hlevel⟩
      · refine (or_iff_left ?_).symm
        rintro ⟨hline, rfl, hfor, alt', halt', hlevel⟩
        cases halt'
        exact hnoted ⟨hline, by simp [hlevel], by simp [hfor]⟩
  | publish pdo gsiv' count => exact (or_iff_left id).symm
  | translate childToParent source pdo =>
    rw [apply_translate_triggers]
    exact gsivIsLevel_translatedTriggers hgsiv childToParent source _

theorem apply_forced (hgsiv : gsiv.toNat < uacpiNtMaxGsiv) (sys : LineSystem) (event : LineEvent) :
    (event.apply irqHost api host write sys).world.triggers.gsivForcedEdge gsiv = true ↔
      sys.world.triggers.gsivForcedEdge gsiv = true ∨ event.NotesEdge gsiv := by
  cases event with
  | parseMadt bytes =>
    exact parseMadt_iff (Q := (·.gsivForcedEdge gsiv)) (·.gsivForcedEdge_note · hgsiv) bytes _
  | setInterruptProperties noted mode =>
    cases mode <;> simp [apply, NotesEdge, LineSystem.mapTriggers,
      uacpiNtRhSetInterruptProperties, GsivTriggers.gsivForcedEdge_noteEdgeGsiv, hgsiv,
      @eq_comm _ noted]
  | resolvePrt device =>
    simp only [apply, NotesEdge, prtResolveGsiv_triggers]
    cases (irqHost.prtWalk device sys.world.linkRotation sys.world.links).1 <;> simp
  | registerSci noted => simp [apply, NotesEdge, LineSystem.mapTriggers]
  | place st =>
    rcases notePlacedTriggering_cases sys.world st with heq | ⟨alt, -, -, -, -, heq⟩ <;>
      simp [apply, NotesEdge, heq]
  | publish pdo gsiv' count => exact (or_iff_left id).symm
  | translate childToParent source pdo =>
    rw [apply_translate_triggers, gsivForcedEdge_translatedTriggers]
    exact (or_iff_left id).symm

theorem apply_published {sys : LineSystem} {event : LineEvent} {e : InterruptVectorData}
    (hline : e.controllerInput = some gsiv)
    (h : (event.apply irqHost api host write sys).connection.Published e) :
    sys.connection.Published e ∨ ∃ s line, (uacpiNtIrqLibResolveVector api host
      (event.apply irqHost api host write sys).world.triggers gsiv s).1 = .ok line ∧
        e.mode = line.mode := by
  cases event with
  | publish pdo gsiv' count => exact published_writeConnectionData hline h
  | translate childToParent source pdo =>
    rw [apply_translate_triggers]
    exact published_translateResources hline h
  | _ => exact .inl h

end LineEvent

/-! ### Runs -/

@[simp]
theorem runLines_cons (sys : LineSystem) (event : LineEvent) (rest : List LineEvent) :
    runLines irqHost api host write sys (event :: rest) =
      runLines irqHost api host write (event.apply irqHost api host write sys) rest := rfl

variable {Notes : LineSystem → LineEvent → Prop} {sys : LineSystem}

theorem occurs_cons {event : LineEvent} {rest : List LineEvent} :
    Occurs irqHost api host write Notes sys (event :: rest) ↔ Notes sys event ∨
      Occurs irqHost api host write Notes (event.apply irqHost api host write sys) rest := by
  constructor
  · rintro ⟨before, event', after, heq, hnotes⟩
    cases before with
    | nil =>
      cases heq
      exact .inl hnotes
    | cons first before =>
      cases heq
      exact .inr ⟨before, event', after, rfl, hnotes⟩
  · rintro (hnotes | ⟨before, event', after, rfl, hnotes⟩)
    · exact ⟨[], event, rest, rfl, hnotes⟩
    · exact ⟨event :: before, event', after, rfl, hnotes⟩

theorem Occurs.append {before : List LineEvent} (h : Occurs irqHost api host write Notes sys before)
    (after : List LineEvent) : Occurs irqHost api host write Notes sys (before ++ after) := by
  obtain ⟨first, event, rest, rfl, hnotes⟩ := h
  exact ⟨first, event, rest ++ after, by simp, hnotes⟩

/-- What holds after an event just if it held before or the event noted it, holds after a run just
if it held before or some event noted it. -/
theorem runLines_iff {Q : LineSystem → Prop}
    (hstep : ∀ sys event, Q (LineEvent.apply irqHost api host write sys event) ↔
      Q sys ∨ Notes sys event) (sys : LineSystem) (events : List LineEvent) :
    Q (runLines irqHost api host write sys events) ↔
      Q sys ∨ Occurs irqHost api host write Notes sys events := by
  induction events generalizing sys with
  | nil => simp [runLines, Occurs]
  | cons event rest ih => rw [runLines_cons, ih, hstep, occurs_cons, or_assoc]

theorem runLines_published {events : List LineEvent}
    (hmode : ∀ before after, events = before ++ after → ∀ s line,
      (uacpiNtIrqLibResolveVector api host
        (runLines irqHost api host write sys before).world.triggers gsiv s).1 = .ok line →
      line.mode = .latched)
    (hbef : ∀ e, sys.connection.Published e → e.controllerInput = some gsiv → e.mode = .latched)
    {e : InterruptVectorData}
    (he : (runLines irqHost api host write sys events).connection.Published e)
    (hline : e.controllerInput = some gsiv) : e.mode = .latched := by
  induction events generalizing sys with
  | nil => exact hbef e he hline
  | cons event rest ih =>
    refine ih ?_ ?_ he
    · rintro before after rfl
      exact hmode (event :: before) after rfl
    intro e' he' hline'
    rcases LineEvent.apply_published hline' he' with he' | ⟨s, line, hok, heq⟩
    · exact hbef e' he' hline'
    · rw [heq]
      exact hmode [event] rest rfl s line hok

/-- Over every sequence of events, a line below 256 is reported as latched from the moment it is
forced to be edge triggered, just if no event forces it, no event makes it level triggered, or
nothing can be reported for it at all. -/
theorem forced_edge_reported_latched_iff (irqHost : IrqHost) (api : IdtApi) (host : IrqLibHost)
    (write : PropertyWriter) (vectors : VectorState) (events : List LineEvent)
    (hgsiv : gsiv.toNat < uacpiNtMaxGsiv) :
    (∀ before after, events = before ++ after →
      (runLines irqHost api host write (.fresh vectors) before).world.triggers.gsivForcedEdge
        gsiv = true →
      ReportedLatched api host (runLines irqHost api host write (.fresh vectors) before) gsiv) ↔
    ¬ Occurs irqHost api host write (fun _ => LineEvent.NotesEdge gsiv) (.fresh vectors) events ∨
      ¬ Occurs irqHost api host write (fun sys => LineEvent.NotesLevel irqHost sys gsiv)
        (.fresh vectors) events ∨ host.Unresolved gsiv := by
  have hforced : ∀ events, (runLines irqHost api host write (.fresh vectors)
      events).world.triggers.gsivForcedEdge gsiv = true ↔ _ :=
    fun events => (runLines_iff (Q := (·.world.triggers.gsivForcedEdge gsiv = true))
      (LineEvent.apply_forced hgsiv) _ events).trans (or_iff_right (by
        simp [LineSystem.fresh, IrqWorld.zero]))
  have hlevel : ∀ events, (runLines irqHost api host write (.fresh vectors)
      events).world.triggers.gsivIsLevel gsiv = true ↔ _ :=
    fun events => (runLines_iff (Q := (·.world.triggers.gsivIsLevel gsiv = true))
      (LineEvent.apply_level hgsiv) _ events).trans (or_iff_right (by
        simp [LineSystem.fresh, IrqWorld.zero]))
  constructor
  · intro h
    by_contra hnone
    simp only [not_or, not_not] at hnone
    obtain ⟨hedge, hnoted, hhost⟩ := hnone
    obtain ⟨hresolved, -⟩ := h events [] (by simp) ((hforced events).mpr hedge)
    obtain ⟨s, line, hok⟩ := exists_resolveVector_ok hgsiv hhost
    have hlatched := hresolved s line hok
    rw [resolveVector_mode hok, gsivMode_eq_latched,
      (hlevel events).mpr hnoted] at hlatched
    cases hlatched
  · intro h before after heq hedge
    rcases h with hnone | h
    · exact absurd (((hforced before).mp hedge).append after) (heq ▸ hnone)
    -- Otherwise the line is resolved as latched after each of the events.
    have hmode : ∀ first last, before = first ++ last → ∀ s line, (uacpiNtIrqLibResolveVector api
        host (runLines irqHost api host write (.fresh vectors) first).world.triggers gsiv s).1 =
        .ok line → line.mode = .latched := by
      intro first last hsplit s line hok
      rcases h with hnone | hhost
      · rw [resolveVector_mode hok, gsivMode_eq_latched, Bool.eq_false_iff]
        intro hon
        refine hnone ?_
        rw [heq, hsplit, List.append_assoc]
        exact ((hlevel first).mp hon).append _
      · exact absurd hok hhost.not_ok
    refine ⟨hmode before [] (by simp), ?_⟩
    intro pdo data hdata e he
    refine runLines_published hmode ?_ ⟨pdo, data, hdata, he⟩
    rintro e' ⟨pdo', data', hdata', -⟩
    cases hdata'

theorem latched_line_reported_latched :
    (runLines .unrouted .reference .plain (fun _ _ => .ok ()) (.fresh .unused)
        [.setInterruptProperties 5 .latched, .translate true ⟨.deviceExclusive, 0x0001,
          .interrupt 5 5 1⟩ ⟨1⟩]).world.triggers.gsivForcedEdge 5 = true ∧
      ReportedLatched .reference .plain (runLines .unrouted .reference .plain (fun _ _ => .ok ())
        (.fresh .unused) [.setInterruptProperties 5 .latched, .translate true ⟨.deviceExclusive,
          0x0001, .interrupt 5 5 1⟩ ⟨1⟩]) 5 := by
  have hforced : (runLines .unrouted .reference .plain (fun _ _ => .ok ()) (.fresh .unused)
      [.setInterruptProperties 5 .latched, .translate true ⟨.deviceExclusive, 0x0001,
        .interrupt 5 5 1⟩ ⟨1⟩]).world.triggers.gsivForcedEdge 5 = true := by decide +kernel
  refine ⟨hforced, (forced_edge_reported_latched_iff .unrouted .reference .plain
    (fun _ _ => .ok ()) .unused [.setInterruptProperties 5 .latched, .translate true
      ⟨.deviceExclusive, 0x0001, .interrupt 5 5 1⟩ ⟨1⟩] (by decide)).mpr (.inr (.inl ?_)) _ []
    (by simp) hforced⟩
  rw [occurs_cons, occurs_cons]
  rintro (⟨-, hmode⟩ | ⟨-, -, hlatched, -⟩ | ⟨before, event, after, heq, -⟩)
  · cases hmode
  · cases hlatched
  · cases before <;> cases heq

/-- Line 10 is forced to be edge triggered and then translated with a level descriptor: both the
resolver and the published data report it as level triggered. -/
theorem forced_line_reported_level :
    let sys := runLines .unrouted .reference .plain (fun _ _ => .ok ()) (.fresh .unused)
      [.setInterruptProperties 10 .latched, .translate true ⟨.shared, 0, .interrupt 10 10 1⟩ ⟨1⟩]
    sys.world.triggers.gsivForcedEdge 10 = true ∧
      (uacpiNtIrqLibResolveVector .reference .plain sys.world.triggers 10
        sys.connection.vectors).1.map (·.mode) = .ok .levelSensitive ∧
      (sys.connection.properties ⟨1⟩).map (·.map fun e => (e.controllerInput, e.mode)) =
        some [(some 10, .levelSensitive)] := by
  decide +kernel

end

end UacpiNt
