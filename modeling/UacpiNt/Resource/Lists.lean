import UacpiNt.Resource.Emit

/-!
# Resource lists

The connections of a device are found by a walk over its raw `_CRS` buffer, item by item, up to the
end tag, an item that does not fit the buffer, or the end of the buffer. A resource list is filled
in two passes over the same resources and the same buffer: the first only counts what the second
writes into the array allocated from the count. The count has 32 bits.
-/

namespace UacpiNt

open List

/-! ### The raw buffer -/

/-- `UacpiNtRawItemLength`; `none` if it reads past the buffer. -/
def uacpiNtRawItemLength (buffer : List UInt8) (offset : Nat) : Option Nat := do
  let item ← buffer[offset]?
  if item &&& 0x80 = 0 then
    if item &&& 0x78 = 0x78 then return 0
    let itemLength := (item &&& 0x07).toNat + 1
    return if offset + itemLength > buffer.length then 0 else itemLength
  else
    if offset + 3 > buffer.length then return 0
    let low ← buffer[offset + 1]?
    let high ← buffer[offset + 2]?
    let itemLength := (low.toNat ||| high.toNat <<< 8) + 3
    return if offset + itemLength > buffer.length then 0 else itemLength

/-- An item that is not the end tag and fits the buffer, by its header: a small item has its length
in the low three bits of its tag, a large one in the two bytes after it. -/
inductive RawItem (buffer : List UInt8) (offset : Nat) : Nat → Prop
  | small {tag : UInt8} (hbyte : buffer[offset]? = some tag) (hsmall : tag &&& 0x80 = 0)
      (hname : tag &&& 0x78 ≠ 0x78) (hfits : offset + ((tag &&& 0x07).toNat + 1) ≤ buffer.length) :
      RawItem buffer offset ((tag &&& 0x07).toNat + 1)
  | large {tag low high : UInt8} (hbyte : buffer[offset]? = some tag) (hlarge : tag &&& 0x80 ≠ 0)
      (hlow : buffer[offset + 1]? = some low) (hhigh : buffer[offset + 2]? = some high)
      (hfits : offset + (low.toNat + 256 * high.toNat + 3) ≤ buffer.length) :
      RawItem buffer offset (low.toNat + 256 * high.toNat + 3)

/-- The boundaries inside the buffer that are reached from an offset by items. -/
inductive Boundary (buffer : List UInt8) : Nat → Nat → Prop
  | here {offset : Nat} (hlt : offset < buffer.length) : Boundary buffer offset offset
  | there {offset size o : Nat} (hitem : RawItem buffer offset size)
      (hrest : Boundary buffer (offset + size) o) : Boundary buffer offset o

variable {buffer : List UInt8} {offset size : Nat}

theorem RawItem.pos (h : RawItem buffer offset size) : 0 < size := by
  cases h <;> exact Nat.succ_pos _

theorem RawItem.fits (h : RawItem buffer offset size) : offset + size ≤ buffer.length := by
  cases h <;> assumption

theorem large_length (low high : UInt8) :
    low.toNat ||| high.toNat <<< 8 = low.toNat + 256 * high.toNat := by
  rw [Nat.or_comm, ← Nat.shiftLeft_add_eq_or_of_lt low.toNat_lt]
  omega

theorem RawItem.length_eq (h : RawItem buffer offset size) :
    uacpiNtRawItemLength buffer offset = some size := by
  have hfits := h.fits
  cases h with
  | small hbyte hsmall hname =>
    simpa [uacpiNtRawItemLength, hbyte, hsmall, hname] using hfits
  | large hbyte hlarge hlow hhigh =>
    have hhdr : ¬ buffer.length < offset + 3 := by omega
    simp [uacpiNtRawItemLength, hbyte, hlarge, hlow, hhigh, large_length, hhdr, Nat.not_lt.2 hfits]

theorem exists_rawItemLength (hlt : offset < buffer.length) :
    ∃ length, uacpiNtRawItemLength buffer offset = some length ∧
      (length ≠ 0 → RawItem buffer offset length) := by
  have hbyte : buffer[offset]? = some buffer[offset] := getElem?_eq_getElem hlt
  by_cases hsmall : buffer[offset] &&& 0x80 = 0
  · by_cases hname : buffer[offset] &&& 0x78 = 0x78
    · exact ⟨0, by simp [uacpiNtRawItemLength, hsmall, hname, hlt], fun h => absurd rfl h⟩
    rcases Nat.lt_or_ge buffer.length (offset + ((buffer[offset] &&& 0x07).toNat + 1)) with
      hlong | hfits
    · exact ⟨0, by simpa [uacpiNtRawItemLength, hsmall, hname, hlt] using hlong,
        fun h => absurd rfl h⟩
    · have hitem := RawItem.small hbyte hsmall hname hfits
      exact ⟨_, hitem.length_eq, fun _ => hitem⟩
  · rcases Nat.lt_or_ge buffer.length (offset + 3) with hlong | hhdr
    · exact ⟨0, by simp [uacpiNtRawItemLength, hsmall, hlt, hlong], fun h => absurd rfl h⟩
    have hlow : buffer[offset + 1]? = some buffer[offset + 1] := getElem?_eq_getElem (by omega)
    have hhigh : buffer[offset + 2]? = some buffer[offset + 2] :=
      getElem?_eq_getElem (by omega)
    rcases Nat.lt_or_ge buffer.length
      (offset + (buffer[offset + 1].toNat + 256 * buffer[offset + 2].toNat + 3)) with
      hlong | hfits
    · refine ⟨0, ?_, fun h => absurd rfl h⟩
      simp [uacpiNtRawItemLength, hbyte, hsmall, hlow, hhigh, large_length, hlong]
    · have hitem := RawItem.large hbyte hsmall hlow hhigh hfits
      exact ⟨_, hitem.length_eq, fun _ => hitem⟩

/-- A connection as the resource hub returns it, in `IO` form. -/
structure IoConnection where
  option : UInt8
  shareDisposition : ShareDisposition
  flags : UInt16
  connectionClass : UInt8
  type : UInt8
  idLowPart : UInt32
  idHighPart : UInt32
deriving DecidableEq, Repr

structure RawWalk where
  visited : List Nat
  handed : List (Nat × Nat)
  found : List IoConnection

def isConnection (tag : UInt8) : Bool := tag = 0x8c || tag = 0x8d || tag = 0x8e

/-- The loop of `UacpiNtWalkCrsConnections` from an offset on, with a hub that translates items;
`none` if it reads past the buffer. -/
def walkFrom (hub : List UInt8 → Option IoConnection) (buffer : List UInt8) (offset : Nat) :
    Option RawWalk :=
  if hlt : offset < buffer.length then
    match uacpiNtRawItemLength buffer offset with
    | none => none
    | some 0 => some ⟨[offset], [], []⟩
    | some (length + 1) => do
      let rest ← walkFrom hub buffer (offset + (length + 1))
      let visited := offset :: rest.visited
      if isConnection buffer[offset] then
        let handed := (offset, length + 1) :: rest.handed
        match hub ((buffer.drop offset).take (length + 1)) with
        | none => return ⟨visited, handed, rest.found⟩
        | some connection => return ⟨visited, handed, connection :: rest.found⟩
      else return ⟨visited, rest.handed, rest.found⟩
  else some ⟨[], [], []⟩
termination_by buffer.length - offset

/-- `UacpiNtWalkCrsConnections`, with the buffer that `_CRS` evaluates to. -/
def uacpiNtWalkCrsConnections (hub : List UInt8 → Option IoConnection) :
    Option (List UInt8) → Option RawWalk
  | none => some ⟨[], [], []⟩
  | some buffer => walkFrom hub buffer 0

theorem Boundary.le {o : Nat} (h : Boundary buffer offset o) : offset ≤ o := by
  induction h with
  | here => exact Nat.le_refl _
  | there _ _ ih => exact Nat.le_of_add_right_le ih

theorem Boundary.lt {o : Nat} (h : Boundary buffer offset o) : offset < buffer.length := by
  cases h with
  | here hlt => exact hlt
  | there hitem hrest => exact Nat.lt_of_lt_of_le (Nat.lt_add_of_pos_right hitem.pos) hitem.fits

structure WalkSpec (buffer : List UInt8) (offset : Nat) (walk : RawWalk) : Prop where
  ordered : walk.visited.Pairwise (· < ·)
  visited : ∀ o, o ∈ walk.visited ↔ Boundary buffer offset o
  handed : ∀ item ∈ walk.handed, item.1 ∈ walk.visited ∧ RawItem buffer item.1 item.2

theorem WalkSpec.cons {rest : RawWalk} (hitem : RawItem buffer offset size)
    (hrest : WalkSpec buffer (offset + size) rest) {handed : List (Nat × Nat)}
    (hhan : ∀ item ∈ handed, item = (offset, size) ∨ item ∈ rest.handed)
    (found : List IoConnection) :
    WalkSpec buffer offset ⟨offset :: rest.visited, handed, found⟩ := by
  refine ⟨pairwise_cons.2 ⟨fun o ho => ?_, hrest.ordered⟩, fun o => ?_, fun item h => ?_⟩
  · exact Nat.lt_of_lt_of_le (Nat.lt_add_of_pos_right hitem.pos) ((hrest.visited o).1 ho).le
  · rw [mem_cons, hrest.visited]
    constructor
    · rintro (rfl | ho)
      · exact .here (Nat.lt_of_lt_of_le (Nat.lt_add_of_pos_right hitem.pos) hitem.fits)
      · exact .there hitem ho
    rintro (_ | ⟨hitem', ho⟩)
    · exact .inl rfl
    · cases hitem.length_eq.symm.trans hitem'.length_eq
      exact .inr ho
  · rcases hhan item h with rfl | hmem
    · exact ⟨mem_cons_self, hitem⟩
    · exact (hrest.handed item hmem).imp_left (mem_cons_of_mem _)

theorem walkFrom_spec (hub : List UInt8 → Option IoConnection) (buffer : List UInt8)
    (offset : Nat) : ∃ walk, walkFrom hub buffer offset = some walk ∧
      WalkSpec buffer offset walk := by
  induction hleft : buffer.length - offset using Nat.strongRecOn generalizing offset with
  | ind left ih =>
    rw [walkFrom]
    by_cases hlt : offset < buffer.length
    · obtain ⟨length, hlen, hitem⟩ := exists_rawItemLength hlt
      rw [dif_pos hlt]
      simp only [hlen]
      cases length with
      | zero =>
        refine ⟨_, rfl, pairwise_singleton _ _, fun o => ?_, fun _ h => (by cases h)⟩
        rw [mem_singleton]
        constructor
        · rintro rfl
          exact .here hlt
        rintro (_ | ⟨hitem', -⟩)
        · rfl
        · cases hlen.symm.trans hitem'.length_eq
          exact absurd hitem'.pos (Nat.lt_irrefl 0)
      | succ length =>
        obtain ⟨rest, hrest, hspec⟩ := ih _ (by omega) (offset + (length + 1)) rfl
        have hitem := hitem (Nat.succ_ne_zero length)
        simp only [hrest]
        split
        · split
          all_goals
            refine ⟨_, rfl, hspec.cons hitem (fun item h => ?_) _⟩
            exact mem_cons.1 h
        · exact ⟨_, rfl, hspec.cons hitem (fun _ => .inr) _⟩
    · rw [dif_neg hlt]
      refine ⟨_, rfl, .nil, fun o => ⟨fun h => (by cases h), fun h => absurd h.lt hlt⟩,
        fun _ h => (by cases h)⟩

/-- The walk over a raw buffer reads only inside the buffer, its offsets increase, they are the item
boundaries, and the items it hands to the hub lie inside the buffer. -/
theorem raw_walk_visits_boundaries (hub : List UInt8 → Option IoConnection)
    (buffer : List UInt8) :
    ∃ walk, uacpiNtWalkCrsConnections hub (some buffer) = some walk ∧
      walk.visited.Pairwise (· < ·) ∧ (∀ o, o ∈ walk.visited ↔ Boundary buffer 0 o) ∧
      ∀ item ∈ walk.handed, item.1 ∈ walk.visited ∧ item.1 + item.2 ≤ buffer.length := by
  obtain ⟨walk, hwalk, hordered, hvisited, hhanded⟩ := walkFrom_spec hub buffer 0
  exact ⟨walk, hwalk, hordered, hvisited, fun item h => (hhanded item h).imp_right RawItem.fits⟩

/-! ### Counting and filling -/

structure CmConnection where
  shareDisposition : ShareDisposition
  flags : UInt16
  connectionClass : UInt8
  type : UInt8
  idLowPart : UInt32
  idHighPart : UInt32
deriving DecidableEq, Repr

def uacpiNtConnectionIoToCm (io : IoConnection) : CmConnection :=
  ⟨io.shareDisposition, io.flags, io.connectionClass, io.type, io.idLowPart, io.idHighPart⟩

/-- The count of a list, and the descriptors and connections that are written into its array with
their indices. -/
structure FilledList (δ κ : Type) where
  count : UInt32
  written : List ((δ ⊕ κ) × Nat)

section

variable {δ κ : Type} (emit : UacpiResource → Bool → Nat × List δ) (connect : IoConnection → κ)

def countPass (resources : List UacpiResource) : UInt32 :=
  resources.foldl (fun count resource => count + .ofNat (emit resource false).1) 0

def fillPass : List UacpiResource → Nat → List (δ × Nat) × Nat
  | [], cursor => ([], cursor)
  | resource :: rest, cursor =>
    let (written, last) := fillPass rest (cursor + (emit resource true).1)
    ((emit resource true).2.zipIdx cursor ++ written, last)

/-- The two passes, with the connections that both walks over the raw buffer find. -/
def resourceList (resources : Option (List UacpiResource)) (found : List IoConnection)
    (allocated : Bool) : Except NtError (FilledList δ κ) :=
  match resources with
  | none => .error .notFound
  | some resources =>
    let connections : UInt32 := .ofNat found.length
    let count := countPass emit resources + connections
    if count = 0 then .error .notFound
    else if !allocated then .error .insufficientResources
    else
      let (written, cursor) := fillPass emit resources 0
      let rest := if connections = 0 then [] else (found.map connect).zipIdx cursor
      .ok ⟨count, written.map (Prod.map .inl id) ++ rest.map (Prod.map .inr id)⟩

def entries (resources : List UacpiResource) (found : List IoConnection) : List (δ ⊕ κ) :=
  (resources.flatMap fun resource => (emit resource true).2).map .inl ++
    found.map fun connection => .inr (connect connection)

end

def crsConnections (hub : List UInt8 → Option IoConnection) (crs : Option (List UInt8))
    (hasDevice : Bool) : List IoConnection :=
  if hasDevice then ((uacpiNtWalkCrsConnections hub crs).map RawWalk.found).getD [] else []

def uacpiNtCrsToCmList (resources : Option (List UacpiResource))
    (hub : List UInt8 → Option IoConnection) (crs : Option (List UInt8))
    (hasDevice allocated : Bool) :
    Except NtError (FilledList CmPartialResourceDescriptor CmConnection) :=
  resourceList uacpiNtEmitCm uacpiNtConnectionIoToCm resources (crsConnections hub crs hasDevice)
    allocated

def uacpiNtPrsToRequirements (current prs : Option (List UacpiResource)) (possible : Bool)
    (hub : List UInt8 → Option IoConnection) (crs : Option (List UInt8))
    (hasDevice allocated : Bool) : Except NtError (FilledList IoResourceDescriptor IoConnection) :=
  resourceList uacpiNtEmitIo id (if possible then prs else current)
    (crsConnections hub crs (!possible && hasDevice)) allocated

/-- Exactly the entries are written, each at its index, and they are as many as were counted. -/
def FilledList.Complete {δ κ : Type} (filled : FilledList δ κ) (entries : List (δ ⊕ κ)) : Prop :=
  filled.written = entries.zipIdx ∧ filled.count.toNat = entries.length

/-- A list without entries is not found, and any other is filled with its entries. -/
def Fills {δ κ : Type} (result : Except NtError (FilledList δ κ)) (entries : List (δ ⊕ κ)) : Prop :=
  match result with
  | .error status => entries = [] ∧ status = .notFound
  | .ok filled => entries ≠ [] ∧ filled.Complete entries

theorem count_eq_zero_iff (n : Nat) : UInt32.ofNat n = 0 ↔ n % 2 ^ 32 = 0 := by
  rw [← UInt32.toNat_inj]
  rfl

section

variable {δ κ : Type} {emit : UacpiResource → Bool → Nat × List δ} {connect : IoConnection → κ}
  (hcount : ∀ resource fill, (emit resource fill).1 = (emit resource true).2.length)

include hcount

section

variable (resources : List UacpiResource) (found : List IoConnection)

theorem fillPass_eq (cursor : Nat) : fillPass emit resources cursor =
      ((resources.flatMap fun resource => (emit resource true).2).zipIdx cursor,
        cursor + (resources.flatMap fun resource => (emit resource true).2).length) := by
  induction resources generalizing cursor with
  | nil => rfl
  | cons resource rest ih =>
    rw [fillPass, ih, hcount, flatMap_cons, zipIdx_append, length_append,
      Nat.add_assoc]

theorem toNat_foldl_count (count : UInt32) :
    (resources.foldl (fun count resource => count + .ofNat (emit resource false).1) count).toNat =
      (count.toNat + (resources.flatMap fun resource => (emit resource true).2).length) %
        2 ^ 32 := by
  induction resources generalizing count with
  | nil => exact (Nat.mod_eq_of_lt count.toNat_lt).symm
  | cons resource rest ih =>
    rw [foldl_cons, ih, UInt32.toNat_add, UInt32.toNat_ofNat', hcount, flatMap_cons,
      length_append]
    omega

theorem resourceList_eq : resourceList emit connect (some resources) found true =
      if (entries emit connect resources found).length % 2 ^ 32 = 0 then .error .notFound
      else .ok ⟨.ofNat (entries emit connect resources found).length,
        (entries emit connect resources
          (if found.length % 2 ^ 32 = 0 then [] else found)).zipIdx⟩ := by
  have hlen : (entries emit connect resources found).length =
      (resources.flatMap fun resource => (emit resource true).2).length + found.length := by
    simp [entries]
  have htot : countPass emit resources + .ofNat found.length =
      .ofNat (entries emit connect resources found).length := by
    rw [← UInt32.toNat_inj, UInt32.toNat_add, countPass, toNat_foldl_count hcount, hlen]
    simp
  simp only [resourceList, htot, fillPass_eq hcount, count_eq_zero_iff]
  refine if_congr Iff.rfl rfl (congrArg (fun written => Except.ok (FilledList.mk _ written)) ?_)
  split <;> simp [entries, zipIdx_append, zipIdx_map, Function.comp_def]

/-- A list that does not wrap the count is filled exactly as it was counted. -/
theorem fills_resourceList (hlt : (entries emit connect resources found).length < 2 ^ 32) :
    Fills (resourceList emit connect (some resources) found true)
      (entries emit connect resources found) := by
  have hle : found.length ≤ (entries emit connect resources found).length := by simp [entries]
  have hfd : (if found.length % 2 ^ 32 = 0 then [] else found) = found := by
    split
    · exact (length_eq_zero_iff.1 (by omega)).symm
    · rfl
  rw [resourceList_eq hcount, hfd, Nat.mod_eq_of_lt hlt]
  split
  case isTrue hzero => exact ⟨length_eq_zero_iff.1 hzero, rfl⟩
  case isFalse hzero => exact ⟨mt length_eq_zero_iff.2 hzero, rfl, UInt32.toNat_ofNat_of_lt' hlt⟩

end

end

/-- An entry stands first, and after it the alternatives to it or the marker of its window. -/
def Attached : List IoResourceDescriptor → Prop
  | [] => True
  | first :: rest =>
    first.option = 0 ∧ first ≠ producerMarker ∧
      ((∀ d ∈ rest, d.option = ioResourceAlternative) ∨ rest = [producerMarker])

theorem attached_interrupts (count : Nat) (entry : Nat → IoResourceDescriptor)
    (hopt : ∀ i, (entry i).option = if i = 0 then 0 else ioResourceAlternative)
    (hent : ∀ i, entry i ≠ producerMarker) : Attached ((range count).map entry) := by
  cases count with
  | zero => trivial
  | succ count =>
    rw [range_succ_eq_map]
    refine ⟨hopt 0, hent 0, .inl fun d hd => ?_⟩
    simp only [map_map, mem_map] at hd
    obtain ⟨i, -, rfl⟩ := hd
    exact hopt (i + 1)

theorem attached_emitIo (resource : UacpiResource) : Attached (uacpiNtEmitIo resource true).2 := by
  cases hwin : uacpiNtGetAddressWindow resource with
  | some window =>
    have hfst : (emitWindowIo window).option = 0 ∧ emitWindowIo window ≠ producerMarker := by
      unfold emitWindowIo
      split_ifs <;> exact ⟨rfl, by simp [producerMarker]⟩
    rw [emitIo_window hwin]
    split
    · trivial
    · refine ⟨hfst.1, hfst.2, ?_⟩
      by_cases hprod : window.direction = uacpiProducer <;> simp [hprod]
  | none =>
    cases resource with
    | irq | extendedIrq =>
      exact attached_interrupts _ _ (fun _ => rfl) (by simp [producerMarker])
    | io | fixedIo | memory32 | fixedMemory32 =>
      exact ⟨rfl, by simp [emitPortIo, emitMemoryIo, producerMarker], .inl fun _ h => (by cases h)⟩
    | address16 | address32 | address64 | address64Extended => cases hwin
    | other => trivial

/-! ### The sizes the library allows -/

/-- What `native_size_for_aml_resource` counts for a resource at least: the header and the
interrupts. -/
def UacpiResource.nativeSize : UacpiResource → Nat
  | .irq _ _ irqs => 8 + irqs.length
  | .extendedIrq _ _ irqs => 8 + 4 * irqs.length
  | _ => 8

/-- `uacpi_native_resources_from_aml` refuses a longer list. -/
def maxNativeSize : Nat := 5 * 1024 * 1024

/-- The interpreter refuses to declare a larger buffer. -/
def maxBufferSize : Nat := 0xE0000000

theorem length_emit_le (resource : UacpiResource) :
    (uacpiNtEmitCm resource true).2.length ≤ resource.nativeSize ∧
      (uacpiNtEmitIo resource true).2.length ≤ resource.nativeSize := by
  rw [← (emit_count resource false).1, ← (emit_count resource false).2]
  cases hwindow : uacpiNtGetAddressWindow resource with
  | some window =>
    have hsize : 8 ≤ resource.nativeSize := by
      cases resource <;> simp [UacpiResource.nativeSize]
    rw [emitCm_window hwindow, emitIo_window hwindow]
    constructor
    · split <;> simp
      omega
    · by_cases hproducer : window.direction = uacpiProducer <;> split <;> simp [hproducer] <;> omega
  | none =>
    cases resource with
    | address16 | address32 | address64 | address64Extended => cases hwindow
    | irq _ _ irqs => exact ⟨Nat.le_add_left _ _, Nat.le_add_left _ _⟩
    | extendedIrq _ _ irqs =>
      have hsize : irqs.length ≤ 8 + 4 * irqs.length := by omega
      exact ⟨hsize, hsize⟩
    | io | fixedIo | memory32 | fixedMemory32 =>
      exact ⟨(by decide : 1 ≤ 8), (by decide : 1 ≤ 8)⟩
    | other => exact ⟨Nat.zero_le _, Nat.zero_le _⟩

theorem length_entries_le {δ κ : Type} {emit : UacpiResource → Bool → Nat × List δ}
    (hemit : ∀ resource, (emit resource true).2.length ≤ resource.nativeSize)
    (connect : IoConnection → κ) (resources : List UacpiResource) (found : List IoConnection) :
    (entries emit connect resources found).length ≤
      (resources.map UacpiResource.nativeSize).sum + found.length := by
  simp only [entries, length_append, length_map, length_flatMap]
  exact Nat.add_le_add_right (List.sum_le_sum fun resource _ => hemit resource) _

theorem RawItem.three_le (h : RawItem buffer offset size) {tag : UInt8}
    (htag : buffer[offset]? = some tag) (hconnection : isConnection tag = true) : 3 ≤ size := by
  cases h with
  | small hbyte hsmall =>
    cases hbyte.symm.trans htag
    simp only [isConnection, Bool.or_eq_true, decide_eq_true_eq] at hconnection
    rcases hconnection with (rfl | rfl) | rfl <;> exact absurd hsmall (by decide)
  | large => exact Nat.le_add_left 3 _

theorem length_found_le {hub : List UInt8 → Option IoConnection} {walk : RawWalk}
    (h : walkFrom hub buffer offset = some walk) :
    3 * walk.found.length ≤ buffer.length - offset := by
  fun_induction walkFrom hub buffer offset generalizing walk with
  | case1 => cases h
  | case2 | case4 =>
    cases h
    exact Nat.zero_le _
  | case3 offset hlt length hlength ih =>
    obtain ⟨rest, hrest, h⟩ := Option.bind_eq_some_iff.1 h
    have hle := ih hrest
    obtain ⟨size, hsize, hitem⟩ := exists_rawItemLength hlt
    cases hlength.symm.trans hsize
    have hitem := hitem (Nat.succ_ne_zero length)
    have hfits := hitem.fits
    by_cases hconnection : isConnection buffer[offset] = true
    · have hthree := hitem.three_le (getElem?_eq_getElem hlt) hconnection
      simp only [hconnection, if_true] at h
      split at h <;> cases h
      · show 3 * rest.found.length ≤ _
        omega
      · rw [length_cons]
        omega
    · simp only [hconnection] at h
      cases h
      show 3 * rest.found.length ≤ _
      omega

theorem length_crsConnections_le {hub : List UInt8 → Option IoConnection}
    {crs : Option (List UInt8)} (hcrs : ∀ bytes ∈ crs, bytes.length ≤ 3 * maxBufferSize)
    (hasDevice : Bool) : (crsConnections hub crs hasDevice).length ≤ maxBufferSize := by
  cases hasDevice with
  | false => exact Nat.zero_le _
  | true =>
    cases crs with
    | none => exact Nat.zero_le _
    | some bytes =>
      obtain ⟨walk, hwalk, -⟩ := walkFrom_spec hub bytes 0
      have hfound := length_found_le hwalk
      have hbytes := hcrs bytes rfl
      simp only [crsConnections, uacpiNtWalkCrsConnections, hwalk]
      simpa using (by omega : walk.found.length ≤ maxBufferSize)

/-- Both lists are filled exactly as they were counted, contiguously and in order, for all resources
that the library can return. The alternatives to an interrupt and the marker of a producer window
come directly after it. -/
theorem counting_and_filling_agree (current prs : List UacpiResource)
    (crs : Option (List UInt8)) (hub : List UInt8 → Option IoConnection)
    (possible hasDevice : Bool)
    (hcurrent : (current.map UacpiResource.nativeSize).sum ≤ maxNativeSize)
    (hprs : (prs.map UacpiResource.nativeSize).sum ≤ maxNativeSize)
    (hcrs : ∀ bytes ∈ crs, bytes.length ≤ 3 * maxBufferSize) :
    Fills (uacpiNtCrsToCmList (some current) hub crs hasDevice true)
        (entries uacpiNtEmitCm uacpiNtConnectionIoToCm current
          (crsConnections hub crs hasDevice)) ∧
      Fills (uacpiNtPrsToRequirements (some current) (some prs) possible hub crs hasDevice true)
        (entries uacpiNtEmitIo id (if possible then prs else current)
          (crsConnections hub crs (!possible && hasDevice))) ∧
      ∀ resource, Attached (uacpiNtEmitIo resource true).2 := by
  have hfits {n m k : Nat} (h : n ≤ m + k) (hm : m ≤ maxNativeSize) (hk : k ≤ maxBufferSize) :
      n < 2 ^ 32 := by
    simp only [maxNativeSize, maxBufferSize] at hm hk
    omega
  refine ⟨?_, ?_, attached_emitIo⟩
  · exact fills_resourceList (emit_count · · |>.1) _ _ (hfits
      (length_entries_le (length_emit_le · |>.1) _ _ _) hcurrent (length_crsConnections_le hcrs _))
  · cases possible <;> refine fills_resourceList (emit_count · · |>.2) _ _ (hfits
      (length_entries_le (length_emit_le · |>.2) _ _ _) ?_ (length_crsConnections_le hcrs _))
    · exact hcurrent
    · exact hprs

theorem two_interrupts_required :
    Fills (uacpiNtPrsToRequirements (some [.irq 0 0 [3, 4]]) (some []) false (fun _ => none) none
        true true)
      [.inl ⟨0, .deviceExclusive, 0, .interrupt 3 3 0⟩,
        .inl ⟨ioResourceAlternative, .deviceExclusive, 0, .interrupt 4 4 0⟩] :=
  (counting_and_filling_agree [.irq 0 0 [3, 4]] [] none (fun _ => none) false true (by decide)
    (by decide) (fun _ h => (by cases h))).2.1

end UacpiNt
