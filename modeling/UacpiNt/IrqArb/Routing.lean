import UacpiNt.IrqArb.Link

/-!
# PCI interrupt routing

The line of a PCI function is looked up in the `_PRT` of the bridge that produces its bus. Where
that has no answer, the walk goes up to the bus of the bridge, as the bridge's device and with the
pin that the bridge raises for it, until it comes to a root.

A PCI-to-PCI bridge rotates the pins by the device number. So over a chain of them, the pin is
rotated by the sum of the device numbers. The driver looks for the producer of a bus among the first
8 roots and the first 32 filters, so it loses a function whose bridge or root comes later.
-/

namespace UacpiNt

/-- `uacpi_pci_routing_table_entry`; the pins of the table count from zero. -/
structure PrtEntry where
  address : UInt32
  index : UInt32
  source : Option Nat
  pin : UInt8

/-- `UACPINT_FLT`, as far as it has a node and a foreign PDO, with the header type and the secondary
bus in the configuration space of the PDO. -/
structure PciFilter where
  node : Nat
  pdo : DeviceObject
  headerType : Option UInt8
  secondaryBus : Option UInt8

/-- What the walk finds: the PCI roots with their `_BBN`, the filters, the properties and the
configuration space of the devices, and the tables and links of the namespace. -/
structure PciHost where
  roots : List (Nat × Option UInt64)
  filters : List PciFilter
  busNumber : DeviceObject → Option UInt32
  address : DeviceObject → Option UInt32
  configDword : (bus slot offset : UInt32) → Option UInt32
  prt : Nat → Option (List PrtEntry)
  link : Nat → LinkFirmware

structure PrtLookup where
  node : Nat
  device : UInt32
  pin : UInt8
deriving DecidableEq, Repr

structure PrtWalk where
  gsiv : Option UInt32
  links : List IrqLink
  lookups : List PrtLookup
deriving DecidableEq, Repr

def PrtWalk.after (lookup : PrtLookup) (walk : PrtWalk) : PrtWalk :=
  { walk with lookups := lookup :: walk.lookups }

def pciClassDword : UInt32 := 0x08

def pciInterruptDword : UInt32 := 0x3C

def prtMaxDepth : Nat := 8

def IsPin (pin : UInt8) : Prop :=
  1 ≤ pin ∧ pin ≤ 4
deriving Decidable

def deviceOf (address : UInt32) : UInt32 :=
  address >>> 16

def byteAt (dword shift : UInt32) : UInt8 :=
  (dword >>> shift).toUInt8

def uacpiNtPciSlotFromAddress (address : UInt32) : UInt32 :=
  (deviceOf address &&& 0x1F) ||| ((address &&& 0x7) <<< (5 : UInt32))

def uacpiNtLinkNodeGsiv (config : LinkConfig) (firmware : LinkFirmware) (link : Nat)
    (index : UInt32) (links : List IrqLink) : Option UInt32 × List IrqLink :=
  if index ≠ 0 then (uacpiNtLinkCurrentGsiv firmware.crs index, links)
  else uacpiNtIrqLinkDecide config firmware link links

namespace PciHost

variable (host : PciHost) (config : LinkConfig)

/-- Only the first 8 roots are looked at. -/
def uacpiNtFindPciRootNode (bus : UInt32) : Option Nat :=
  ((host.roots.take 8).find? fun root => (root.2.getD 0).toUInt32 == bus).map (·.1)

/-- Only the first 32 filters are looked at. -/
def uacpiNtFindBridgeNodeForBus (bus : UInt32) : Option (Nat × DeviceObject) :=
  ((host.filters.take 32).find? fun filter =>
    filter.headerType.any (· &&& ~~~0x80 == 1) &&
      filter.secondaryBus.any (·.toUInt32 == bus)).map fun filter => (filter.node, filter.pdo)

def uacpiNtCrackPrt (lookup : PrtLookup) (links : List IrqLink) : Option UInt32 × List IrqLink :=
  let found := ((host.prt lookup.node).getD []).find? fun entry =>
    deviceOf entry.address == lookup.device &&
      (entry.address &&& 0xFFFF == 0xFFFF || entry.address &&& 0xFFFF == 0) &&
      entry.pin == lookup.pin - 1
  match found with
  | none => (none, links)
  | some entry =>
    match entry.source with
    | none => (some entry.index, links)
    | some link => uacpiNtLinkNodeGsiv config (host.link link) link entry.index links

def interruptPin (bus address : UInt32) : Option UInt8 :=
  ((host.configDword bus (uacpiNtPciSlotFromAddress address) pciInterruptDword).map fun dword =>
    byteAt dword 8).filter (IsPin ·)

/-- A PCI-to-PCI bridge (subclass 4) swizzles the pin, a CardBus bridge (7) raises its own. -/
def bridgePin (subClass : UInt8) (bus address device : UInt32) (pin : UInt8) : Option UInt8 :=
  if subClass = 4 then some (((device + (pin.toUInt32 - 1)) &&& 3) + 1).toUInt8
  else if subClass = 7 then host.interruptPin bus address
  else none

def uacpiNtPrtClimbBridge (pdo : DeviceObject) (device : UInt32) (pin : UInt8) :
    Option (UInt32 × UInt32 × UInt8) := do
  let bus ← host.busNumber pdo
  let address ← host.address pdo
  let classDword ← host.configDword bus (uacpiNtPciSlotFromAddress address) pciClassDword
  let newPin ← host.bridgePin (byteAt classDword 16) bus address device pin
  return (bus, deviceOf address, newPin)

/-- The loop of `UacpiNtPrtResolveGsiv`, with the rounds that are left. -/
def prtRounds : Nat → UInt32 → UInt32 → UInt8 → List IrqLink → PrtWalk
  | 0, _, _, _, links => ⟨none, links, []⟩
  | rounds + 1, bus, device, pin, links =>
    match host.uacpiNtFindPciRootNode bus with
    | some root =>
      let (gsiv, links) := host.uacpiNtCrackPrt config ⟨root, device, pin⟩ links
      ⟨gsiv, links, [⟨root, device, pin⟩]⟩
    | none =>
      match host.uacpiNtFindBridgeNodeForBus bus with
      | none => ⟨none, links, []⟩
      | some (node, pdo) =>
        match host.uacpiNtCrackPrt config ⟨node, device, pin⟩ links with
        | (some gsiv, links) => ⟨some gsiv, links, [⟨node, device, pin⟩]⟩
        | (none, links) =>
          .after ⟨node, device, pin⟩ <|
            match host.uacpiNtPrtClimbBridge pdo device pin with
            | none => ⟨none, links, []⟩
            | some (bus, device, pin) => prtRounds rounds bus device pin links

def prtWalk (pdo : DeviceObject) (links : List IrqLink) : PrtWalk :=
  let found := do
    let bus ← host.busNumber pdo
    let address ← host.address pdo
    let pin ← host.interruptPin bus address
    return (bus, address, pin)
  match found with
  | none => ⟨none, links, []⟩
  | some (bus, address, pin) => host.prtRounds config prtMaxDepth bus (deviceOf address) pin links

def irqHost (interruptModel : UInt32) (pointerBits : Nat) (exclusionMask : UInt16)
    (sciGsiv : UInt32) : IrqHost where
  interruptModel := interruptModel
  pointerBits := pointerBits
  prtWalk pdo rotation links :=
    let walk := host.prtWalk ⟨rotation, exclusionMask, sciGsiv⟩ pdo links
    (walk.gsiv, walk.links)

end PciHost

/-! ### Chains of bridges -/

/-- A PCI-to-PCI bridge: its device object, the bus it is on and its address there, and its node,
if the firmware describes it. -/
structure PciBridge where
  pdo : DeviceObject
  bus : UInt32
  address : UInt32
  node : Option Nat
deriving DecidableEq

inductive BusProducer where
  | root (node : Nat)
  | bridge (bridge : PciBridge)
deriving DecidableEq

def pinBehind (pin : UInt8) (below : Nat) : UInt8 :=
  .ofNat (1 + (pin.toNat - 1 + below) % 4)

/-- The tables of a chain of bridges with the device and the pin to look for, from the function up,
with the sum of the device numbers below carried along. -/
def bridgeLookups (pin : UInt8) : (below : Nat) → (device : UInt32) → List PciBridge →
    List PrtLookup
  | _, _, [] => []
  | below, device, bridge :: chain =>
    (bridge.node.map fun node => ⟨node, device, pinBehind pin below⟩).toList ++
      bridgeLookups pin (below + device.toNat) (deviceOf bridge.address) chain

/-- The lookups for a function behind a chain of bridges up to the root. -/
def routeLookups (root : Nat) (pin : UInt8) : (below : Nat) → (device : UInt32) →
    List PciBridge → List PrtLookup
  | below, device, [] => [⟨root, device, pinBehind pin below⟩]
  | below, device, bridge :: chain =>
    (bridge.node.map fun node => ⟨node, device, pinBehind pin below⟩).toList ++
      routeLookups root pin (below + device.toNat) (deviceOf bridge.address) chain

def busAbove : UInt32 → List PciBridge → UInt32
  | bus, [] => bus
  | _, bridge :: chain => busAbove bridge.bus chain

theorem routeLookups_ne_nil (root : Nat) (pin : UInt8) (below : Nat) (device : UInt32)
    (chain : List PciBridge) : routeLookups root pin below device chain ≠ [] := by
  induction chain generalizing below device with
  | nil => exact List.cons_ne_nil _ _
  | cons bridge chain ih => exact List.append_ne_nil_of_right_ne_nil _ (ih _ _)

theorem pinBehind_zero {pin : UInt8} (h : IsPin pin) : pinBehind pin 0 = pin := by
  have hlow := UInt8.le_iff_toNat_le.mp h.1
  have hhigh := UInt8.le_iff_toNat_le.mp h.2
  rw [← UInt8.toNat_inj, pinBehind, UInt8.toNat_ofNat']
  simp only [UInt8.reduceToNat] at hlow hhigh
  omega

theorem toNat_pinBehind (pin : UInt8) (below : Nat) :
    (pinBehind pin below).toNat = 1 + (pin.toNat - 1 + below) % 4 := by
  rw [pinBehind, UInt8.toNat_ofNat']
  omega

theorem pinBehind_swizzle (pin : UInt8) (below : Nat) (device : UInt32) :
    (((device + ((pinBehind pin below).toUInt32 - 1)) &&& 3) + 1).toUInt8 =
      pinBehind pin (below + device.toNat) := by
  have hpin := toNat_pinBehind pin below
  have hone : (1 : UInt32) ≤ (pinBehind pin below).toUInt32 := by
    rw [UInt32.le_iff_toNat_le, UInt8.toNat_toUInt32, hpin]
    simp
  have hmask (n : Nat) : n &&& 3 = n % 4 := Nat.and_two_pow_sub_one_eq_mod n 2
  rw [← UInt8.toNat_inj, toNat_pinBehind, UInt32.toNat_toUInt8, UInt32.toNat_add, UInt32.toNat_and,
    UInt32.toNat_add, UInt32.toNat_sub_of_le _ _ hone, UInt8.toNat_toUInt32]
  simp only [UInt32.reduceToNat, hmask]
  omega

theorem isPin_swizzle (n : UInt32) : IsPin ((n &&& 3) + 1).toUInt8 := by
  have hmask : n.toNat &&& 3 = n.toNat % 4 := Nat.and_two_pow_sub_one_eq_mod _ 2
  rw [IsPin, UInt8.le_iff_toNat_le, UInt8.le_iff_toNat_le, UInt32.toNat_toUInt8, UInt32.toNat_add,
    UInt32.toNat_and]
  simp only [UInt32.reduceToNat, UInt8.reduceToNat]
  omega

namespace PciHost

variable (host : PciHost) (config : LinkConfig)

/-! The topology says for each bus which device produces it. -/

def baseBus (root : Nat × Option UInt64) : UInt32 :=
  (root.2.getD 0).toUInt32

def Produces (filter : PciFilter) (bus : UInt32) : Prop :=
  (∃ header, filter.headerType = some header ∧ header &&& ~~~0x80 = 1) ∧
    ∃ secondary, filter.secondaryBus = some secondary ∧ secondary.toUInt32 = bus

/-- The roots and the bridges that the driver knows of are those of the topology. -/
structure Realizes (topology : UInt32 → Option BusProducer) : Prop where
  root_of : ∀ root ∈ host.roots, topology (baseBus root) = some (.root root.1)
  bridge_of : ∀ filter ∈ host.filters, ∀ bus, Produces filter bus →
    ∃ bridge, topology bus = some (.bridge bridge) ∧ bridge.node = some filter.node ∧
      bridge.pdo = filter.pdo

def HasBridge (bridge : PciBridge) : Prop :=
  host.busNumber bridge.pdo = some bridge.bus ∧ host.address bridge.pdo = some bridge.address ∧
    (host.configDword bridge.bus (uacpiNtPciSlotFromAddress bridge.address) pciClassDword).map
      (byteAt · 16) = some 4

/-- A bus is behind a chain of PCI-to-PCI bridges below a root. -/
def Behind (topology : UInt32 → Option BusProducer) (root : Nat) : UInt32 → List PciBridge → Prop
  | bus, [] => topology bus = some (.root root)
  | bus, bridge :: chain =>
    topology bus = some (.bridge bridge) ∧ host.HasBridge bridge ∧
      Behind topology root bridge.bus chain

/-- The producer of a bus is one of the first 8 roots or of the first 32 filters. -/
def Reaches (bus : UInt32) : Prop :=
  (∃ root ∈ host.roots.take 8, baseBus root = bus) ∨
    ∃ filter ∈ host.filters.take 32, Produces filter bus

def tryLookups : List PrtLookup → List IrqLink → PrtWalk
  | [], links => ⟨none, links, []⟩
  | lookup :: rest, links =>
    match host.uacpiNtCrackPrt config lookup links with
    | (some gsiv, links) => ⟨some gsiv, links, [lookup]⟩
    | (none, links) => .after lookup (tryLookups rest links)

variable {host}

theorem isPin_of_interruptPin {bus address : UInt32} {pin : UInt8}
    (h : host.interruptPin bus address = some pin) : IsPin pin := by
  simpa using (Option.filter_eq_some_iff.mp h).2

theorem climb_of_hasBridge {bridge : PciBridge} (h : host.HasBridge bridge) (pin : UInt8)
    (below : Nat) (device : UInt32) :
    host.uacpiNtPrtClimbBridge bridge.pdo device (pinBehind pin below) =
      some (bridge.bus, deviceOf bridge.address, pinBehind pin (below + device.toNat)) := by
  obtain ⟨hbus, hadd, hclass⟩ := h
  obtain ⟨dword, hdword, hsub⟩ := Option.map_eq_some_iff.mp hclass
  have hpin : host.bridgePin 4 bridge.bus bridge.address device (pinBehind pin below) =
      some (pinBehind pin (below + device.toNat)) :=
    congrArg some (pinBehind_swizzle pin below device)
  simp [uacpiNtPrtClimbBridge, hbus, hadd, hdword, hsub, hpin]

theorem isPin_of_climb {pdo : DeviceObject} {device bus device' : UInt32} {pin pin' : UInt8}
    (h : host.uacpiNtPrtClimbBridge pdo device pin = some (bus, device', pin')) : IsPin pin' := by
  simp only [uacpiNtPrtClimbBridge, Option.bind_eq_bind, Option.bind_eq_some_iff] at h
  obtain ⟨bus', -, address, -, dword, -, new, hnew, hret⟩ := h
  cases hret
  rw [bridgePin] at hnew
  split at hnew
  · cases hnew
    exact isPin_swizzle _
  · split at hnew
    · exact isPin_of_interruptPin hnew
    · cases hnew

theorem isPin_prtRounds {lookup : PrtLookup} (rounds : Nat) (bus device : UInt32) (pin : UInt8)
    (links : List IrqLink) (hpin : IsPin pin)
    (h : lookup ∈ (host.prtRounds config rounds bus device pin links).lookups) :
    IsPin lookup.pin := by
  fun_induction prtRounds host config rounds bus device pin links with
  | case1 | case3 => cases h
  | case2 | case4 =>
    cases List.mem_singleton.mp h
    exact hpin
  | case5 _ _ _ _ _ _ _ _ _ _ _ ih =>
    obtain rfl | hrest := List.mem_cons.mp h
    · exact hpin
    · split at hrest
      · cases hrest
      · next hclimb => exact ih _ _ _ (isPin_of_climb hclimb) hrest

section

variable {topology : UInt32 → Option BusProducer} (htopology : host.Realizes topology)
  {bus : UInt32}

theorem exists_of_findPciRootNode {node : Nat} (h : host.uacpiNtFindPciRootNode bus = some node) :
    ∃ root ∈ host.roots.take 8, baseBus root = bus ∧ root.1 = node := by
  obtain ⟨root, hroot, hnode⟩ := Option.map_eq_some_iff.mp h
  refine ⟨root, List.mem_of_find?_eq_some hroot, ?_, hnode⟩
  simpa [baseBus] using List.find?_some hroot

theorem reaches_iff : host.Reaches bus ↔ (host.uacpiNtFindPciRootNode bus).isSome ∨
    (host.uacpiNtFindBridgeNodeForBus bus).isSome := by
  simp [Reaches, Produces, baseBus, uacpiNtFindPciRootNode, uacpiNtFindBridgeNodeForBus,
    Option.any_eq_true]

theorem exists_filter_of_reaches (h : host.Reaches bus)
    (hroot : host.uacpiNtFindPciRootNode bus = none) :
    ∃ filter ∈ host.filters, Produces filter bus ∧
      host.uacpiNtFindBridgeNodeForBus bus = some (filter.node, filter.pdo) := by
  rw [reaches_iff, hroot] at h
  obtain ⟨found, hfound⟩ := Option.isSome_iff_exists.mp (h.resolve_left Bool.false_ne_true)
  obtain ⟨filter, hfilter, rfl⟩ := Option.map_eq_some_iff.mp hfound
  refine ⟨filter, List.mem_of_mem_take (List.mem_of_find?_eq_some hfilter), ?_, hfound⟩
  simpa [Produces, Option.any_eq_true] using List.find?_some hfilter

include htopology

/-- The producer that is found for a bus is the one of the topology. -/
theorem found_of_reaches (hreaches : host.Reaches bus) :
    (∃ root, topology bus = some (.root root) ∧ host.uacpiNtFindPciRootNode bus = some root) ∨
      ∃ bridge node, topology bus = some (.bridge bridge) ∧ bridge.node = some node ∧
        host.uacpiNtFindPciRootNode bus = none ∧
        host.uacpiNtFindBridgeNodeForBus bus = some (node, bridge.pdo) := by
  cases hfind : host.uacpiNtFindPciRootNode bus with
  | some node =>
    obtain ⟨root, hroot, rfl, rfl⟩ := exists_of_findPciRootNode hfind
    exact .inl ⟨_, htopology.root_of root (List.mem_of_mem_take hroot), rfl⟩
  | none =>
    obtain ⟨filter, hfilter, hproduces, hfound⟩ := exists_filter_of_reaches hreaches hfind
    obtain ⟨bridge, hbridge, hnode, hpdo⟩ := htopology.bridge_of filter hfilter bus hproduces
    exact .inr ⟨bridge, filter.node, hbridge, hnode, rfl, hpdo ▸ hfound⟩

end

theorem prtRounds_of_not_reaches {bus : UInt32} (h : ¬ host.Reaches bus) (rounds : Nat)
    (device : UInt32) (pin : UInt8) (links : List IrqLink) :
    host.prtRounds config rounds bus device pin links = ⟨none, links, []⟩ := by
  cases rounds with
  | zero => rfl
  | succ rounds =>
    rw [reaches_iff, not_or, Option.not_isSome_iff_eq_none, Option.not_isSome_iff_eq_none] at h
    rw [prtRounds, h.1, h.2]

theorem prtRounds_ne_tryLookups {rounds : Nat} {bus device : UInt32} {pin : UInt8}
    {links : List IrqLink} {lookups : List PrtLookup} (h : ¬ host.Reaches bus)
    (hlookups : lookups ≠ []) :
    host.prtRounds config rounds bus device pin links ≠ host.tryLookups config lookups links := by
  obtain ⟨lookup, rest, rfl⟩ := List.exists_cons_of_ne_nil hlookups
  rw [prtRounds_of_not_reaches config h, tryLookups]
  split <;> simp [PrtWalk.after]

theorem after_inj {lookup : PrtLookup} {walk walk' : PrtWalk} :
    PrtWalk.after lookup walk = .after lookup walk' ↔ walk = walk' := by
  cases walk
  cases walk'
  simp [PrtWalk.after]

theorem forall_prefix_cons_iff {α : Type} {P : List α → Prop} {a : α} {l : List α} (hnil : P []) :
    (∀ lower, lower <+: a :: l → P lower) ↔ ∀ lower, lower <+: l → P (a :: lower) := by
  constructor
  · exact fun h lower hlower => h _ ((List.prefix_cons_inj a).mpr hlower)
  · intro h lower hlower
    obtain rfl | ⟨rest, rfl, hrest⟩ := List.prefix_cons_iff.mp hlower
    · exact hnil
    · exact h rest hrest

/-- The walk makes the lookups of the route up to the first answer exactly if it can find the
producer of each bus up to there. -/
theorem prtRounds_eq_iff {topology : UInt32 → Option BusProducer}
    (htopology : host.Realizes topology) {root rounds : Nat} {bus : UInt32}
    {chain : List PciBridge} (hchain : host.Behind topology root bus chain)
    (hrounds : chain.length < rounds) (pin : UInt8) (below : Nat) (device : UInt32)
    (links : List IrqLink) :
    host.prtRounds config rounds bus device (pinBehind pin below) links =
        host.tryLookups config (routeLookups root pin below device chain) links ↔
      ∀ lower, lower <+: chain →
        (host.tryLookups config (bridgeLookups pin below device lower) links).gsiv = none →
        host.Reaches (busAbove bus lower) := by
  induction chain generalizing rounds bus below device links with
  | nil =>
    obtain ⟨rounds, rfl⟩ := Nat.exists_eq_succ_of_ne_zero (Nat.ne_zero_of_lt hrounds)
    by_cases hreaches : host.Reaches bus
    · refine iff_of_true ?_ fun lower hlower _ => List.prefix_nil.mp hlower ▸ hreaches
      obtain ⟨_, hroot, hfind⟩ | ⟨_, _, hroot, -⟩ := found_of_reaches htopology hreaches <;>
        cases hroot.symm.trans hchain
      simp only [prtRounds, hfind, routeLookups, tryLookups]
      split <;> simp_all [PrtWalk.after]
    · exact iff_of_false (prtRounds_ne_tryLookups config hreaches (routeLookups_ne_nil _ _ _ _ _))
        fun h => hreaches (h [] List.nil_prefix rfl)
  | cons bridge chain ih =>
    obtain ⟨rounds, rfl⟩ := Nat.exists_eq_succ_of_ne_zero (Nat.ne_zero_of_lt hrounds)
    obtain ⟨hbridge, hhas, hup⟩ := hchain
    by_cases hreaches : host.Reaches bus
    · obtain ⟨_, hfound, -⟩ | ⟨_, node, hfound, hnode, hroot, hfind⟩ :=
        found_of_reaches htopology hreaches <;> cases hfound.symm.trans hbridge
      rw [forall_prefix_cons_iff fun _ => hreaches]
      simp only [prtRounds, hroot, hfind, climb_of_hasBridge hhas, routeLookups, bridgeLookups,
        busAbove, hnode, Option.map_some, Option.toList_some, List.singleton_append, tryLookups]
      cases hcrack : host.uacpiNtCrackPrt config ⟨node, device, pinBehind pin below⟩ links with
      | mk gsiv links' =>
        cases gsiv with
        | some gsiv => simp
        | none =>
          rw [after_inj]
          exact ih hup (Nat.lt_of_succ_lt_succ hrounds) _ _ _
    · exact iff_of_false (prtRounds_ne_tryLookups config hreaches (routeLookups_ne_nil _ _ _ _ _))
        fun h => hreaches (h [] List.nil_prefix rfl)

/-- A root on bus 0 that routes pin D of its device 3, a bridge with no table, which is this device,
and a function that is device 2 behind it and raises pin B. The given filters come before that of
the bridge. -/
def oneBridge (filters : List PciFilter) : PciHost where
  roots := [(1, none)]
  filters := filters ++ [⟨2, ⟨10⟩, some 0x81, some 1⟩]
  busNumber pdo := if pdo = ⟨10⟩ then some 0 else some 1
  address pdo := if pdo = ⟨10⟩ then some 0x30000 else some 0x20000
  configDword _ _ offset := if offset = pciClassDword then some 0x6040000 else some 0x200
  prt node := if node = 1 then some [⟨0x3FFFF, 19, none, 3⟩] else none
  link _ := ⟨none, none, fun _ => false⟩

def theBridge : PciBridge := ⟨⟨10⟩, 0, 0x30000, some 2⟩

def oneBridgeTopology (bus : UInt32) : Option BusProducer :=
  if bus = 0 then some (.root 1) else if bus = 1 then some (.bridge theBridge) else none

theorem oneBridge_realizes {filters : List PciFilter}
    (h : ∀ filter ∈ filters, filter.headerType = some 0) :
    (oneBridge filters).Realizes oneBridgeTopology where
  root_of root hroot := by
    cases List.mem_singleton.mp hroot
    decide
  bridge_of filter hfilter bus hproduces := by
    obtain ⟨⟨header, hheader, htype⟩, secondary, hsecondary, rfl⟩ := hproduces
    rcases List.mem_append.mp hfilter with hmem | hmem
    · cases (h filter hmem).symm.trans hheader
      exact absurd htype (by decide)
    · cases List.mem_singleton.mp hmem
      cases hsecondary
      exact ⟨theBridge, by decide, rfl, rfl⟩

theorem oneBridge_behind (filters : List PciFilter) :
    (oneBridge filters).Behind oneBridgeTopology 1 1 [theBridge] :=
  ⟨by decide, ⟨rfl, rfl, rfl⟩, if_pos rfl⟩

end PciHost

end UacpiNt
