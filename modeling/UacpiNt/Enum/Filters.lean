import UacpiNt.Enum.ChildList

/-!
# Filters and PDOs

A node with a `_HID` gets a PDO, and a node with an `_ADR` gets a filter over the foreign PDO with
that address. The pass for filters skips the nodes that have a filter or a PDO, and the foreign
PDOs that have a filter. The pass for PDOs only looks for a PDO. A node with both a `_HID` and an
`_ADR` that is absent for a pass for PDOs and present for the pass for filters after it has a
filter, and gets a PDO as soon as it is present for a pass for PDOs.
-/

namespace UacpiNt

open List Machine

structure AdrNamespace (ν : Type) extends AcpiNamespace ν where
  adr : ν → Option UInt64

structure AcpiFilter (ν δ : Type) where
  node : ν
  foreignPdo : δ
deriving DecidableEq, Repr

/-- An object of the relations: whether it is one of ours, and the address its probe has found,
`MAXULONG` if its capabilities could not be queried. -/
structure FilterCandidate (δ : Type) where
  object : δ
  own : Bool
  address : UInt32

/-- The child list with the one pass that may be under way, and the filters. -/
structure FilterSystem (ν δ : Type) where
  enum : EnumSystem Unit ν
  filters : List (AcpiFilter ν δ)

/-- A step of a pass for PDOs, a pass for filters with what `_STA` evaluates to and which filters
can be attached, or the removal of a filter. -/
inductive FilterOp (ν δ : Type) where
  | enumerate (op : EnumOp Unit ν)
  | detect (parent : ν) (relations : List (FilterCandidate δ)) (present attaches : ν → Bool)
  | remove (filter : AcpiFilter ν δ)

namespace FilterSystem

variable {ν δ : Type} [DecidableEq ν] [DecidableEq δ] (ns : AdrNamespace ν)
  (hasProcessorString : Bool)

section

variable (node : ν) (s : FilterSystem ν δ) (parent : ν) (relations : List (FilterCandidate δ))
  (present attaches : ν → Bool) (filters : List (AcpiFilter ν δ))

def started : FilterSystem ν δ := ⟨.started, []⟩

def uacpiNtFindFilter (node : Option ν) (foreignPdo : Option δ) : Option (AcpiFilter ν δ) :=
  filters.find? fun filter => node = some filter.node || foreignPdo = some filter.foreignPdo

def candidateFor (adr : UInt64) (relations : List (FilterCandidate δ)) :
    Option (FilterCandidate δ) :=
  relations.find? fun candidate =>
    !candidate.own && candidate.address ≠ 0xFFFFFFFF && candidate.address = adr.toUInt32

def detectChild (child : ν) : List (AcpiFilter ν δ) :=
  if !present child then filters
  else
    match ns.adr child with
    | none => filters
    | some adr =>
      if (uacpiNtFindFilter filters (some child) none).isSome ||
          (s.enum.uacpiNtFindPdoByNode child).isSome then filters
      else
        match candidateFor adr relations with
        | none => filters
        | some candidate =>
          if (uacpiNtFindFilter filters none (some candidate.object)).isSome then filters
          else if attaches child then filters ++ [⟨child, candidate.object⟩]
          else filters

def devices : List ν :=
  (ns.children parent).filter fun child => ns.kind child = .device

def uacpiNtDetectFilterDevices : FilterSystem ν δ :=
  { s with
    filters := (devices ns parent).foldl (detectChild ns s relations present attaches) s.filters }

def step : FilterOp ν δ → Option (FilterSystem ν δ)
  | .enumerate op =>
    (s.enum.step ns.toAcpiNamespace hasProcessorString op).map fun enum => { s with enum := enum }
  | .detect parent relations present attaches =>
    if s.enum.passes () = ⟨[], none⟩ then
      some (s.uacpiNtDetectFilterDevices ns parent relations present attaches)
    else none
  | .remove filter =>
    if s.enum.passes () = ⟨[], none⟩ then some { s with filters := s.filters.erase filter }
    else none

/-- No node and no foreign PDO has two filters, and no node has a PDO and a filter. -/
structure Partitioned (s : FilterSystem ν δ) : Prop where
  nodes : (s.filters.map AcpiFilter.node).Nodup
  foreign : (s.filters.map AcpiFilter.foreignPdo).Nodup
  apart : ∀ filter ∈ s.filters, filter.node ∉ s.enum.nodes

def Keepable : Prop := ∃ present, ns.fate node present = .keep

def Filterable : Prop :=
  ∃ parent adr, node ∈ devices ns parent ∧ ns.adr node = some adr ∧ adr.toUInt32 ≠ 0xFFFFFFFF

end

structure FiltersSound (filters : List (AcpiFilter ν δ)) : Prop where
  nodes : (filters.map AcpiFilter.node).Nodup
  foreign : (filters.map AcpiFilter.foreignPdo).Nodup
  filterable : ∀ filter ∈ filters, Filterable ns filter.node

structure PdosSound (s : EnumSystem Unit ν) : Prop where
  listed : ∀ node ∈ s.nodes, Keepable ns node
  creating : ∀ pdo ∈ (s.passes ()).creating, Keepable ns pdo.node

variable {ns hasProcessorString} {s s' : FilterSystem ν δ} {filters : List (AcpiFilter ν δ)}

/-! ### Passes for filters -/

theorem detectChild_cases (s : FilterSystem ν δ) (relations : List (FilterCandidate δ))
    (present attaches : ν → Bool) (filters : List (AcpiFilter ν δ)) (child : ν) :
    detectChild ns s relations present attaches filters child = filters ∨
      ∃ object adr, detectChild ns s relations present attaches filters child =
          filters ++ [⟨child, object⟩] ∧
        child ∉ filters.map AcpiFilter.node ∧ object ∉ filters.map AcpiFilter.foreignPdo ∧
        ns.adr child = some adr ∧ adr.toUInt32 ≠ 0xFFFFFFFF := by
  rw [detectChild]
  split
  · exact .inl rfl
  split
  · exact .inl rfl
  rename_i adr hadr
  split
  · exact .inl rfl
  rename_i hnode
  split
  · exact .inl rfl
  rename_i candidate hcand
  split
  · exact .inl rfl
  rename_i hfor
  split
  · refine .inr ⟨candidate.object, adr, rfl, ?_, ?_, hadr, ?_⟩
    · intro hmem
      obtain ⟨filter, hfilter, rfl⟩ := mem_map.1 hmem
      refine hnode (Bool.or_eq_true_iff.2 (.inl ?_))
      exact find?_isSome.2 ⟨filter, hfilter, by simp⟩
    · intro hmem
      obtain ⟨filter, hfilter, hobj⟩ := mem_map.1 hmem
      exact hfor (find?_isSome.2 ⟨filter, hfilter, by simp [hobj]⟩)
    · have hmat := find?_some hcand
      simp only [Bool.and_eq_true, decide_eq_true_eq] at hmat
      exact hmat.2 ▸ hmat.1.2
  · exact .inl rfl

theorem FiltersSound.detect (hfilt : FiltersSound ns filters) (parent : ν)
    (relations : List (FilterCandidate δ)) (present attaches : ν → Bool) {children : List ν}
    (hchil : ∀ child ∈ children, child ∈ devices ns parent) :
    FiltersSound ns (children.foldl (detectChild ns s relations present attaches) filters) := by
  induction children generalizing filters with
  | nil => exact hfilt
  | cons child rest ih =>
    refine ih ?_ fun c hc => hchil c (mem_cons_of_mem _ hc)
    obtain hsame | ⟨object, adr, hatt, hnode, hfor, hadr, hmax⟩ :=
      detectChild_cases s relations present attaches filters child
    · rwa [hsame]
    rw [hatt]
    refine ⟨?_, ?_, fun filter hfilter => ?_⟩
    · rw [map_append, nodup_append]
      simpa [hfilt.nodes] using hnode
    · rw [map_append, nodup_append]
      simpa [hfilt.foreign] using hfor
    rcases mem_append.1 hfilter with hmem | hmem
    · exact hfilt.filterable filter hmem
    · rw [mem_singleton.1 hmem]
      exact ⟨parent, adr, hchil child mem_cons_self, hadr, hmax⟩

theorem FiltersSound.erase (hfilt : FiltersSound ns filters) (filter : AcpiFilter ν δ) :
    FiltersSound ns (filters.erase filter) :=
  ⟨hfilt.nodes.sublist (erase_sublist.map _), hfilt.foreign.sublist (erase_sublist.map _),
    fun f hf => hfilt.filterable f (mem_of_mem_erase hf)⟩

/-! ### Passes for PDOs -/

omit [DecidableEq δ] in
theorem begins_keepable {s : EnumSystem Unit ν} {present : Bool} {pdo : ChildPdo ν}
    (h : s.begins ns.toAcpiNamespace hasProcessorString () present = some pdo) :
    Keepable ns pdo.node := by
  rw [EnumSystem.begins] at h
  split at h
  · cases h
  · cases h
  split at h
  · cases h
  · cases h
  rename_i hfate
  rw [EnumSystem.uacpiNtGetOrCreatePdo] at h
  split_ifs at h
  cases h
  exact ⟨present, hfate⟩

omit [DecidableEq δ] in
theorem PdosSound.step {s s' : EnumSystem Unit ν} {op : EnumOp Unit ν} (hs : PdosSound ns s)
    (h : s.step ns.toAcpiNamespace hasProcessorString op = some s') : PdosSound ns s' := by
  cases op with
  | begin pass parent =>
    obtain ⟨-, rfl⟩ := by simpa [EnumSystem.step] using h
    exact ⟨hs.listed, fun pdo hpdo => (by cases hpdo)⟩
  | visit pass present =>
    obtain ⟨-, h⟩ := by simpa [EnumSystem.step] using h
    obtain ⟨hnodes, hcrea, -⟩ := EnumSystem.visit_eq_some h
    refine ⟨hnodes ▸ hs.listed, fun pdo hpdo => begins_keepable (hcrea ▸ hpdo)⟩
  | insert pass created =>
    obtain ⟨pdo, hpdo, rfl⟩ := Option.map_eq_some_iff.1 h
    refine ⟨fun node hnode => ?_, fun pdo hpdo => (by cases hpdo)⟩
    cases created with
    | false => exact hs.listed node hnode
    | true =>
      rw [EnumSystem.nodes, if_pos rfl, map_append] at hnode
      rcases mem_append.1 hnode with hmem | hmem
      · exact hs.listed node hmem
      · rw [mem_singleton.1 hmem]
        exact hs.creating pdo hpdo

/-! ### Whole runs -/

variable (ns) in
structure Sound (s : FilterSystem ν δ) : Prop where
  filters : FiltersSound ns s.filters
  pdos : PdosSound ns s.enum

theorem Sound.step {op : FilterOp ν δ} (hs : s.Sound ns)
    (h : s.step ns hasProcessorString op = some s') : s'.Sound ns := by
  cases op with
  | enumerate op =>
    obtain ⟨enum, henum, rfl⟩ := Option.map_eq_some_iff.1 h
    exact ⟨hs.filters, hs.pdos.step henum⟩
  | detect parent relations present attaches =>
    obtain ⟨-, rfl⟩ := by simpa [FilterSystem.step] using h
    exact ⟨hs.filters.detect parent relations present attaches fun _ => id, hs.pdos⟩
  | remove filter =>
    obtain ⟨-, rfl⟩ := by simpa [FilterSystem.step] using h
    exact ⟨hs.filters.erase filter, hs.pdos⟩

omit [DecidableEq ν] [DecidableEq δ] in
theorem sound_started : (started : FilterSystem ν δ).Sound ns :=
  ⟨⟨nodup_nil, nodup_nil, fun _ h => (by cases h)⟩,
    fun _ h => (by cases h), fun _ h => (by cases h)⟩

/-! ### A filter and a PDO -/

section

variable {parent child : ν} {adr : UInt64}

theorem foldl_detectChild (foreign : δ) (hadr : ns.adr child = some adr)
    (hmax : adr.toUInt32 ≠ 0xFFFFFFFF) {children : List ν} (hchild : child ∈ children) :
    children.foldl (detectChild ns started [⟨foreign, false, adr.toUInt32⟩] (· = child)
      fun _ => true) [] = [⟨child, foreign⟩] := by
  have hlater : ∀ rest : List ν, rest.foldl (detectChild ns started
      [⟨foreign, false, adr.toUInt32⟩] (· = child) fun _ => true) [⟨child, foreign⟩] =
        [⟨child, foreign⟩] := by
    intro rest
    induction rest with
    | nil => rfl
    | cons node rest ih =>
      refine Eq.trans (congrArg (foldl _ · rest) ?_) ih
      by_cases hnode : node = child
      · simp [detectChild, hnode, hadr, uacpiNtFindFilter]
      · simp [detectChild, hnode]
  induction children with
  | nil => cases hchild
  | cons node rest ih =>
    by_cases hnode : node = child
    · refine Eq.trans (congrArg (foldl _ · rest) ?_) (hlater rest)
      simp [detectChild, hnode, hadr, uacpiNtFindFilter, started, EnumSystem.started,
        EnumSystem.uacpiNtFindPdoByNode, candidateFor, hmax]
    · refine Eq.trans (congrArg (foldl _ · rest) ?_)
        (ih ((mem_cons.1 hchild).resolve_left (Ne.symm hnode)))
      simp [detectChild, hnode]

/-- No PDO is listed, and the pass for PDOs is where its stack says, with what it is creating. -/
def passAt (stack : List (ν × List ν)) (creating : Option (ChildPdo ν))
    (filters : List (AcpiFilter ν δ)) : FilterSystem ν δ :=
  ⟨⟨[], fun _ => ⟨stack, creating⟩⟩, filters⟩

omit [DecidableEq ν] in
theorem update_passes (passes : Unit → EnumPass ν) (pass : EnumPass ν) :
    Function.update passes () pass = fun _ => pass :=
  funext fun _ => Function.update_self () pass passes

theorem step_visit {node : ν} {present : Bool} {rest : List ν}
    (hkind : ns.kind node = .processor → present = false) :
    step ns hasProcessorString (passAt [(parent, node :: rest)] none filters)
        (.enumerate (.visit () present)) =
      some (passAt (EnumSystem.descend ns.toAcpiNamespace node present [(parent, rest)])
        (if ns.fate node present = .keep then
          some ⟨node, parent, true, ns.kind node = .thermalZone, false⟩ else none) filters) := by
  have hproc : ns.fate node present = .keep → ns.kind node ≠ .processor := by
    intro hfate hnode
    rw [AcpiNamespace.fate, hnode, hkind hnode] at hfate
    cases hfate
  simp only [step, EnumSystem.step, passAt, EnumSystem.visit, EnumSystem.begins, EnumSystem.marked,
    update_passes]
  cases hfate : ns.fate node present with
  | skip | stale => rfl
  | keep =>
    simp [EnumSystem.uacpiNtGetOrCreatePdo, EnumSystem.uacpiNtFindPdoByNode, hproc hfate,
      setPresent]

variable (ns hasProcessorString) in
theorem exists_pass_to (parent : ν) (children rest : List ν) (filters : List (AcpiFilter ν δ)) :
    ∃ ops, exec (step ns hasProcessorString) ops
        (passAt [(parent, children ++ rest)] none filters) =
      some (passAt [(parent, rest)] none filters) := by
  induction children with
  | nil => exact ⟨[], rfl⟩
  | cons node children ih =>
    obtain ⟨ops, hops⟩ := ih
    have hvisit : step ns hasProcessorString (passAt [(parent, node :: (children ++ rest))] none
        filters) (.enumerate (.visit () false)) = _ := step_visit fun _ => rfl
    have hstk : EnumSystem.descend ns.toAcpiNamespace node false [(parent, children ++ rest)] =
        [(parent, children ++ rest)] := by
      refine if_neg fun h => ?_
      obtain ⟨hfate, hcon⟩ := h
      simp only [AcpiNamespace.isContainer, Bool.and_eq_true, decide_eq_true_eq] at hcon
      rw [AcpiNamespace.fate, hcon.1] at hfate
      cases hfate
    rw [hstk] at hvisit
    by_cases hfate : ns.fate node false = .keep
    · rw [if_pos hfate] at hvisit
      refine ⟨.enumerate (.visit () false) :: .enumerate (.insert () false) :: ops,
        exec_cons_eq_some.2 ⟨_, hvisit, exec_cons_eq_some.2 ⟨_, ?_, hops⟩⟩⟩
      rfl
    · rw [if_neg hfate] at hvisit
      exact ⟨.enumerate (.visit () false) :: ops, exec_cons_eq_some.2 ⟨_, hvisit, hops⟩⟩

variable (hasProcessorString) in
/-- A child with an address that a pass for PDOs keeps gets a filter while it has no PDO, and then a
PDO. -/
theorem exists_filter_and_pdo (foreign : δ) (hchild : child ∈ ns.children parent)
    (hkind : ns.kind child = .device) (hkeep : ns.fate child true = .keep)
    (hadr : ns.adr child = some adr) (hmax : adr.toUInt32 ≠ 0xFFFFFFFF) :
    ∃ (ops : List (FilterOp ν δ)) (s : FilterSystem ν δ),
      exec (step ns hasProcessorString) ops started = some s ∧ ¬ s.Partitioned := by
  obtain ⟨children, rest, hchil⟩ := append_of_mem hchild
  obtain ⟨ops, hops⟩ := exists_pass_to ns hasProcessorString parent children (child :: rest)
    [⟨child, foreign⟩]
  have hdev : child ∈ devices ns parent := mem_filter.2 ⟨hchild, decide_eq_true hkind⟩
  have hdet : step ns hasProcessorString started (.detect parent
      [⟨foreign, false, adr.toUInt32⟩] (· = child) fun _ => true) =
        some ⟨.started, [⟨child, foreign⟩]⟩ := by
    rw [← foldl_detectChild foreign hadr hmax hdev]
    rfl
  have hbegin : step ns hasProcessorString ⟨.started, [⟨child, foreign⟩]⟩
      (.enumerate (.begin () parent)) =
        some (passAt [(parent, children ++ child :: rest)] none [⟨child, foreign⟩]) := by
    simp only [step, EnumSystem.step, update_passes, hchil]
    rfl
  have hvisit : step ns hasProcessorString (passAt [(parent, child :: rest)] none
      [⟨child, foreign⟩]) (.enumerate (.visit () true)) = _ :=
    step_visit fun h => (by rw [hkind] at h; cases h)
  rw [if_pos hkeep] at hvisit
  obtain ⟨s, hend, hfilter, hpdo⟩ : ∃ s, exec (step ns hasProcessorString)
      (ops ++ [.enumerate (.visit () true), .enumerate (.insert () true)])
      (passAt [(parent, children ++ child :: rest)] none [⟨child, foreign⟩]) = some s ∧
        ⟨child, foreign⟩ ∈ s.filters ∧ child ∈ s.enum.nodes := by
    rw [exec_append, hops, Option.bind_some]
    exact ⟨_, exec_cons_eq_some.2 ⟨_, hvisit, rfl⟩, mem_cons_self, mem_cons_self⟩
  exact ⟨_, s, exec_cons_eq_some.2 ⟨_, hdet, exec_cons_eq_some.2 ⟨_, hbegin, hend⟩⟩,
    fun h => h.apart _ hfilter hpdo⟩

end

/-- No node ever has two filters or a filter and a PDO, and no foreign PDO two filters, exactly if
no device with a `_HID` that gets a PDO has an `_ADR` that a foreign PDO can have. -/
theorem filters_and_pdos_partition_iff (ns : AdrNamespace ν) (hasProcessorString : Bool)
    (foreign : δ) :
    (∀ (ops : List (FilterOp ν δ)) (s : FilterSystem ν δ),
      exec (step ns hasProcessorString) ops started = some s → s.Partitioned) ↔
      ∀ parent, ∀ child ∈ ns.children parent, ns.kind child = .device →
        ns.fate child true = .keep → ∀ adr, ns.adr child = some adr →
          adr.toUInt32 = 0xFFFFFFFF := by
  constructor
  · intro h parent child hchild hkind hkeep adr hadr
    by_contra hmax
    obtain ⟨ops, s, hexec, hnot⟩ :=
      exists_filter_and_pdo hasProcessorString foreign hchild hkind hkeep hadr hmax
    exact hnot (h ops s hexec)
  · intro h ops s hexec
    have hs : s.Sound ns := exec_preserves (fun _ _ _ hs h => hs.step h) hexec sound_started
    refine ⟨hs.filters.nodes, hs.filters.foreign, fun filter hfilter hnode => ?_⟩
    obtain ⟨parent, adr, hdevice, hadr, hmax⟩ := hs.filters.filterable filter hfilter
    obtain ⟨present, hkeep⟩ := hs.pdos.listed _ hnode
    obtain ⟨hchild, hkind⟩ := List.mem_filter.1 hdevice
    have hkind := of_decide_eq_true hkind
    refine hmax (h parent _ hchild hkind ?_ adr hadr)
    cases present with
    | false => simp [AcpiNamespace.fate, hkind] at hkeep
    | true => exact hkeep

def adrNamespace : AdrNamespace Nat where
  children := fun node => if node = 0 then [1] else []
  kind := fun _ => .device
  hid := fun node => if node = 1 then some ['P', 'N', 'P', '0', 'C', '0', 'D'] else none
  adr := fun node => if node = 1 then some 0x1F0000 else none

/-- The device is absent, then present for a pass for filters, and present for the next for PDOs. -/
theorem filter_then_pdo :
    ∃ s : FilterSystem Nat Nat, exec (step adrNamespace true)
        [.enumerate (.begin () 0), .enumerate (.visit () false), .enumerate (.visit () false),
          .detect 0 [⟨7, false, 0x1F0000⟩] (fun _ => true) (fun _ => true),
          .enumerate (.begin () 0), .enumerate (.visit () true), .enumerate (.insert () true)]
        started = some s ∧
      s.filters = [⟨1, 7⟩] ∧ s.enum.nodes = [1] :=
  ⟨_, rfl, rfl, rfl⟩

end FilterSystem

end UacpiNt
