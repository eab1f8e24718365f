import Mathlib.Data.Fintype.Basic
import Mathlib.Data.List.Nodup
import Mathlib.Logic.Function.Basic
import UacpiNt.Machine.Operations

/-!
# The child list of the ACPI FDO

A pass goes over the children of a namespace node, and over those of the processor containers below
it, and creates a PDO for each child that has none. It looks the child up in the child list,
creates the device object, and inserts the PDO; the lookup and the insertion are two critical
sections.

Two passes that both look a child up before one of them inserts it both create a PDO for it. As
long as no pass begins to create a PDO for a node that another pass is creating one for, each node
has one PDO at most.
-/

namespace UacpiNt

open Function List Machine

inductive NodeKind where
  | device
  | thermalZone
  | processor
deriving DecidableEq, Repr

/-- What a pass reads of the namespace: the enumerated children of each node in their order, their
kinds and their `_HID`s. -/
structure AcpiNamespace (ν : Type) where
  children : ν → List ν
  kind : ν → NodeKind
  hid : ν → Option (List Char)

def sameHid (hid name : List Char) : Bool := hid.map Char.toLower == name.map Char.toLower

def uacpiNtHidIsExcluded (hid : List Char) : Bool :=
  sameHid hid ['P', 'N', 'P', '0', 'C', '0', 'F']

def uacpiNtHidIsContainer (hid : List Char) : Bool :=
  sameHid hid ['A', 'C', 'P', 'I', '0', '0', '1', '0']

structure ChildPdo (ν : Type) where
  node : ν
  scopeNode : ν
  present : Bool
  isThermalZone : Bool
  isProcessor : Bool
deriving DecidableEq, Repr

/-- A pass of `UacpiNtBuildChildPdosForNode`: the nodes whose children it goes over, innermost
first, with the children that are left, and the PDO that it is creating. -/
structure EnumPass (ν : Type) where
  stack : List (ν × List ν)
  creating : Option (ChildPdo ν)
deriving DecidableEq, Repr

/-- The child list, and the passes `κ` that may be under way. -/
structure EnumSystem (κ ν : Type) where
  childList : List (ChildPdo ν)
  passes : κ → EnumPass ν

/-- What happens: a pass begins, it goes on to the next child, which is present or not, or it
inserts the PDO unless `IoCreateDevice` has failed. -/
inductive EnumOp (κ ν : Type) where
  | begin (pass : κ) (parent : ν)
  | visit (pass : κ) (present : Bool)
  | insert (pass : κ) (created : Bool)

/-- What a pass does with a child: it leaves it alone, marks its PDO absent, or calls
`UacpiNtGetOrCreatePdo`. -/
inductive ChildFate where
  | skip
  | stale
  | keep
deriving DecidableEq, Repr

namespace AcpiNamespace

variable {ν : Type} (ns : AcpiNamespace ν)

def fate (child : ν) (present : Bool) : ChildFate :=
  match ns.kind child with
  | .thermalZone => .keep
  | .processor => if present then .keep else .stale
  | .device =>
    if present then
      match ns.hid child with
      | none => .skip
      | some hid => if uacpiNtHidIsExcluded hid then .skip else .keep
    else .stale

def isContainer (child : ν) : Bool :=
  ns.kind child = .device && (ns.hid child).any uacpiNtHidIsContainer

end AcpiNamespace

def setPresent {ν : Type} [DecidableEq ν] (node : ν) (present : Bool) :
    List (ChildPdo ν) → List (ChildPdo ν)
  | [] => []
  | pdo :: rest =>
    if pdo.node = node then { pdo with present := present } :: rest
    else pdo :: setPresent node present rest

theorem map_node_setPresent {ν : Type} [DecidableEq ν] (node : ν) (present : Bool)
    (pdos : List (ChildPdo ν)) :
    (setPresent node present pdos).map ChildPdo.node = pdos.map ChildPdo.node := by
  induction pdos with
  | nil => rfl
  | cons pdo rest ih =>
    rw [setPresent]
    split
    · rfl
    · rw [map_cons, map_cons, ih]

namespace EnumSystem

variable {κ ν : Type} [DecidableEq κ] [DecidableEq ν] (ns : AcpiNamespace ν)
  (hasProcessorString : Bool)

section

variable (s : EnumSystem κ ν) (child node : ν) (pass : κ) (present : Bool)

def started : EnumSystem κ ν where
  childList := []
  passes := fun _ => ⟨[], none⟩

def uacpiNtFindPdoByNode : Option (ChildPdo ν) :=
  s.childList.find? fun pdo => decide (pdo.node = node)

/-- The PDO that `UacpiNtGetOrCreatePdo` begins to create: none if the node has one, and none for a
processor without an ID string. -/
def uacpiNtGetOrCreatePdo (scopeNode : ν) : Option (ChildPdo ν) :=
  if (s.uacpiNtFindPdoByNode node).isSome then none
  else if ns.kind node = .processor ∧ !hasProcessorString then none
  else
    some
      { node := node
        scopeNode := scopeNode
        present := true
        isThermalZone := ns.kind node = .thermalZone
        isProcessor := ns.kind node = .processor }

def begins : Option (ChildPdo ν) :=
  match (s.passes pass).stack with
  | [] | (_, []) :: _ => none
  | (parent, child :: _) :: _ =>
    match ns.fate child present with
    | .skip | .stale => none
    | .keep => s.uacpiNtGetOrCreatePdo ns hasProcessorString child parent

def marked : List (ChildPdo ν) :=
  match ns.fate child present with
  | .skip => s.childList
  | .stale => setPresent child false s.childList
  | .keep => setPresent child true s.childList

def descend (stack : List (ν × List ν)) : List (ν × List ν) :=
  if ns.fate child present = .keep ∧ ns.isContainer child then (child, ns.children child) :: stack
  else stack

def visit : Option (EnumSystem κ ν) :=
  let creating := s.begins ns hasProcessorString pass present
  match (s.passes pass).stack with
  | [] => none
  | (_, []) :: stack =>
    some { s with passes := Function.update s.passes pass ⟨stack, creating⟩ }
  | (parent, child :: rest) :: stack =>
    some
      { childList := s.marked ns child present
        passes := Function.update s.passes pass
          ⟨descend ns child present ((parent, rest) :: stack), creating⟩ }

def step : EnumOp κ ν → Option (EnumSystem κ ν)
  | .begin pass parent =>
    if s.passes pass = ⟨[], none⟩ then
      some { s with
        passes := Function.update s.passes pass ⟨[(parent, ns.children parent)], none⟩ }
    else none
  | .visit pass present =>
    if (s.passes pass).creating.isSome then none else s.visit ns hasProcessorString pass present
  | .insert pass created =>
    (s.passes pass).creating.map fun pdo =>
      { childList := if created then s.childList ++ [pdo] else s.childList
        passes := Function.update s.passes pass { s.passes pass with creating := none } }

/-- A pass does not begin to create a PDO for a node that a pass is creating one for. -/
def Alone : EnumOp κ ν → Prop
  | .visit pass present => ∀ pdo ∈ s.begins ns hasProcessorString pass present,
      ∀ other, ∀ pdo' ∈ (s.passes other).creating, pdo'.node ≠ pdo.node
  | .begin _ _ | .insert _ _ => True

instance [Fintype κ] : DecidablePred (s.Alone ns hasProcessorString)
  | .visit pass present =>
    inferInstanceAs (Decidable (∀ pdo ∈ s.begins ns hasProcessorString pass present,
      ∀ other, ∀ pdo' ∈ (s.passes other).creating, pdo'.node ≠ pdo.node))
  | .begin _ _ | .insert _ _ => .isTrue trivial

end

variable {ns hasProcessorString} {s s' : EnumSystem κ ν} {op : EnumOp κ ν}

/-! ### One step -/

def nodes (s : EnumSystem κ ν) : List ν := s.childList.map ChildPdo.node

variable {pass : κ} {present : Bool} {pdo : ChildPdo ν}

omit [DecidableEq κ] in
theorem begins_notMem (h : s.begins ns hasProcessorString pass present = some pdo) :
    pdo.node ∉ s.nodes := by
  rw [begins] at h
  split at h
  · cases h
  · cases h
  split at h
  · cases h
  · cases h
  rw [uacpiNtGetOrCreatePdo] at h
  split at h
  · cases h
  rename_i hfind
  split at h
  · cases h
  cases h
  intro hmem
  obtain ⟨pdo, hpdo, hnode⟩ := mem_map.1 hmem
  refine hfind ?_
  rw [uacpiNtFindPdoByNode, find?_isSome]
  exact ⟨pdo, hpdo, decide_eq_true hnode⟩

/-- A visit leaves the nodes of the child list as they are, and only its own pass goes on. -/
theorem visit_eq_some (h : s.visit ns hasProcessorString pass present = some s') :
    s'.nodes = s.nodes ∧ (s'.passes pass).creating = s.begins ns hasProcessorString pass present ∧
      ∀ other ≠ pass, s'.passes other = s.passes other := by
  simp only [visit] at h
  split at h
  · cases h
  · cases h
    refine ⟨rfl, by simp, fun other hoth => ?_⟩
    exact update_of_ne hoth _ _
  cases h
  refine ⟨?_, by simp, fun other hoth => update_of_ne hoth _ _⟩
  simp only [marked]
  split
  · rfl
  · exact map_node_setPresent _ _ _
  · exact map_node_setPresent _ _ _

structure Unique (s : EnumSystem κ ν) : Prop where
  nodup : s.nodes.Nodup
  apart : ∀ pass, ∀ pdo ∈ (s.passes pass).creating, pdo.node ∉ s.nodes
  distinct : ∀ pass other, pass ≠ other → ∀ pdo ∈ (s.passes pass).creating,
    ∀ pdo' ∈ (s.passes other).creating, pdo.node ≠ pdo'.node

theorem Unique.visit (hs : s.Unique) (h : s.visit ns hasProcessorString pass present = some s')
    (halone : s.Alone ns hasProcessorString (.visit pass present)) : s'.Unique := by
  obtain ⟨hnodes, hcrea, hothe⟩ := visit_eq_some h
  refine ⟨hnodes ▸ hs.nodup, fun p pdo hpdo => ?_, fun p q hpq pdo hpdo pdo' hpdo' => ?_⟩
  · rw [hnodes]
    by_cases hp : p = pass
    · subst hp
      rw [hcrea] at hpdo
      exact begins_notMem hpdo
    · rw [hothe p hp] at hpdo
      exact hs.apart p pdo hpdo
  · by_cases hp : p = pass
    · subst hp
      rw [hcrea] at hpdo
      rw [hothe q (Ne.symm hpq)] at hpdo'
      exact (halone pdo hpdo q pdo' hpdo').symm
    · rw [hothe p hp] at hpdo
      by_cases hq : q = pass
      · subst hq
        rw [hcrea] at hpdo'
        exact halone pdo' hpdo' p pdo hpdo
      · rw [hothe q hq] at hpdo'
        exact hs.distinct p q hpq pdo hpdo pdo' hpdo'

omit [DecidableEq ν] in
theorem Unique.drop (hs : s.Unique) (pass : κ) (stack : List (ν × List ν)) :
    { s with passes := update s.passes pass ⟨stack, none⟩ }.Unique := by
  have hkept : ∀ p, ∀ pdo ∈ (update s.passes pass ⟨stack, none⟩ p).creating,
      pdo ∈ (s.passes p).creating := by
    intro p pdo hpdo
    by_cases hp : p = pass
    · subst hp
      rw [update_self] at hpdo
      cases hpdo
    · rwa [update_of_ne hp] at hpdo
  exact ⟨hs.nodup, fun p pdo hpdo => hs.apart p pdo (hkept p pdo hpdo),
    fun p q hpq pdo hpdo pdo' hpdo' =>
      hs.distinct p q hpq pdo (hkept p pdo hpdo) pdo' (hkept q pdo' hpdo')⟩

omit [DecidableEq ν] in
theorem Unique.insert (hs : s.Unique) (hpdo : (s.passes pass).creating = some pdo) :
    (⟨s.childList ++ [pdo], update s.passes pass { s.passes pass with creating := none }⟩ :
      EnumSystem κ ν).Unique := by
  have hdrop := hs.drop pass (s.passes pass).stack
  have hnodes : (s.childList ++ [pdo]).map ChildPdo.node = s.nodes ++ [pdo.node] := map_append
  refine ⟨?_, fun p pdo' hpdo' => ?_, hdrop.distinct⟩
  · rw [nodes, hnodes, nodup_append]
    refine ⟨hs.nodup, nodup_singleton _, fun node hnode node' hnode' => ?_⟩
    obtain rfl := mem_singleton.1 hnode'
    exact fun heq => hs.apart pass pdo hpdo (heq ▸ hnode)
  · have hp : p ≠ pass := by
      rintro rfl
      simp only [update_self] at hpdo'
      cases hpdo'
    rw [nodes, hnodes, mem_append, not_or]
    refine ⟨hdrop.apart p pdo' hpdo', ?_⟩
    simp only [update_of_ne hp] at hpdo'
    rw [mem_singleton]
    exact hs.distinct p pass hp pdo' hpdo' pdo hpdo

theorem Unique.step (hs : s.Unique) (h : step ns hasProcessorString s op = some s')
    (halone : s.Alone ns hasProcessorString op) : s'.Unique := by
  cases op with
  | begin pass parent =>
    obtain ⟨-, rfl⟩ : s.passes pass = ⟨[], none⟩ ∧
        { s with
          passes := update s.passes pass ⟨[(parent, ns.children parent)], none⟩ } =
          s' := by
      simpa [EnumSystem.step] using h
    exact hs.drop _ _
  | visit pass present =>
    obtain ⟨-, h⟩ : (s.passes pass).creating = none ∧
        s.visit ns hasProcessorString pass present = some s' := by
      simpa [EnumSystem.step] using h
    exact hs.visit h halone
  | insert pass created =>
    obtain ⟨pdo, hpdo, rfl⟩ := Option.map_eq_some_iff.1 h
    cases created with
    | false => exact hs.drop _ _
    | true => exact hs.insert hpdo

/-! ### Two PDOs for a node -/

/-- A pass that begins to create a PDO for a node that another pass is creating one for: if both
insert theirs, the node has two. -/
theorem exists_duplicate (h : step ns hasProcessorString s (.visit pass present) = some s')
    (hbeg : s.begins ns hasProcessorString pass present = some pdo) {other : κ}
    {pdo' : ChildPdo ν} (hoth : (s.passes other).creating = some pdo')
    (hnode : pdo'.node = pdo.node) : ∃ t, exec (step ns hasProcessorString)
        [.visit pass present, .insert other true, .insert pass true] s = some t ∧
      ¬ t.nodes.Nodup := by
  obtain ⟨hnone, hvisit⟩ : (s.passes pass).creating = none ∧
      s.visit ns hasProcessorString pass present = some s' := by
    simpa [step] using h
  obtain ⟨-, hcrea, hothe⟩ := visit_eq_some hvisit
  have hne : other ≠ pass := by
    rintro rfl
    rw [hnone] at hoth
    cases hoth
  rw [← hothe other hne] at hoth
  rw [hbeg] at hcrea
  have hfst : step ns hasProcessorString s' (.insert other true) =
      some ⟨s'.childList ++ [pdo'], update s'.passes other
        { s'.passes other with creating := none }⟩ := by
    simp [step, hoth]
  obtain ⟨t, hsecond, hlist⟩ : ∃ t, step ns hasProcessorString (⟨s'.childList ++ [pdo'],
      update s'.passes other { s'.passes other with creating := none }⟩ :
        EnumSystem κ ν) (.insert pass true) = some t ∧
      t.childList = s'.childList ++ [pdo'] ++ [pdo] := by
    simp [step, update_of_ne hne.symm, hcrea]
  refine ⟨t, exec_cons_eq_some.2 ⟨_, h, exec_cons_eq_some.2 ⟨_, hfst, exec_cons_eq_some.2 ⟨_,
    hsecond, rfl⟩⟩⟩, ?_⟩
  simp [nodes, hlist, hnode, nodup_append]

/-! ### Whole runs -/

/-- In every interleaving of passes in which no pass begins to create a PDO for a node that another
pass is creating one for, each node has one PDO at most. The first visit that breaks this can be
continued to a child list with two PDOs for one node. -/
theorem one_pdo_per_node {ops : List (EnumOp κ ν)}
    (hexec : exec (step ns hasProcessorString) ops started = some s)
    (halone : Throughout (step ns hasProcessorString)
      (fun s op _ => s.Alone ns hasProcessorString op) ops started) :
    s.nodes.Nodup ∧
    (∀ pass present s', step ns hasProcessorString s (.visit pass present) = some s' →
      ¬ s.Alone ns hasProcessorString (.visit pass present) →
      ∃ other t, exec (step ns hasProcessorString)
          [.visit pass present, .insert other true, .insert pass true] s = some t ∧
        ¬ t.nodes.Nodup) := by
  have hunique : s.Unique :=
    exec_invariant (fun _ _ _ hs h halone => hs.step h halone) hexec
      ⟨List.nodup_nil, fun _ _ h => (by cases h), fun _ _ _ _ h => (by cases h)⟩ halone
  refine ⟨hunique.nodup, fun pass present s' hstep hshared => ?_⟩
  simp only [Alone, not_forall, not_not] at hshared
  obtain ⟨pdo, hpdo, other, pdo', hpdo', hnode⟩ := hshared
  exact ⟨other, exists_duplicate hstep hpdo hpdo' hnode⟩

def containerNamespace : AcpiNamespace Nat where
  children := fun node => if node = 0 then [1] else if node = 1 then [2] else []
  kind := fun node => if node = 2 then .processor else .device
  hid := fun node => if node = 1 then some ['A', 'C', 'P', 'I', '0', '0', '1', '0'] else none

theorem container_passes_in_turn :
    ∃ s : EnumSystem Bool Nat, exec (step containerNamespace true)
        [.begin false 0, .visit false true, .insert false true, .visit false true,
          .insert false true, .begin true 1, .visit true true] started = some s ∧
      s.nodes = [1, 2] ∧ s.nodes.Nodup := by
  have hrun : exec (step containerNamespace true) [.begin false 0, .visit false true,
      .insert false true, .visit false true, .insert false true, .begin true 1, .visit true true]
      (started : EnumSystem Bool Nat) = some _ := rfl
  exact ⟨_, hrun, rfl, (one_pdo_per_node hrun (by decide)).1⟩

/-- The pass for the scope and the pass for the container both look the processor up before one of
them inserts it. -/
theorem processor_created_twice :
    ∃ s : EnumSystem Bool Nat, exec (step containerNamespace true)
        [.begin false 0, .visit false true, .insert false true, .begin true 1, .visit false true,
          .visit true true, .insert false true, .insert true true] started = some s ∧
      s.nodes = [1, 2, 2] :=
  ⟨_, rfl, rfl⟩

end EnumSystem

end UacpiNt
