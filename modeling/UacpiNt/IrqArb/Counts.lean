import UacpiNt.IrqArb.Frames

/-!
# The table of message counts

The count of a message placement is recorded under its slot when the solution of a test is packed,
and looked up when the placement is committed. The table is bounded, and nothing is ever removed
from it.
-/

namespace UacpiNt

/-! ### Commits -/

def irqWrittenMax : Nat := 256

/-- `UACPINT_IRQ_WRITTEN`: the placement that was last written for a device. -/
structure IrqWritten where
  owner : DeviceObject
  start : UInt32
  length : UInt32
deriving DecidableEq, Repr

def uacpiNtConnectionDataChanged (owner : DeviceObject) (start length : UInt32)
    (written : List IrqWritten) : Bool :=
  match written.find? fun w => decide (w.owner = owner) with
  | some w => decide (w.start ≠ start ∨ w.length ≠ length)
  | none => true

def uacpiNtConnectionDataRecord (owner : DeviceObject) (start length : UInt32)
    (written : List IrqWritten) : List IrqWritten :=
  match written.findIdx? fun w => decide (w.owner = owner) with
  | some i => written.set i ⟨owner, start, length⟩
  | none =>
    if written.length ≥ irqWrittenMax then written else written ++ [⟨owner, start, length⟩]

def uacpiNtMsiCountLookup (start : UInt64) (records : List MsiRecord) : Option UInt32 :=
  (records.find? fun r => r.start == start).map (·.messageCount)

/-- The length a placement is committed with: that of the lines, or the count of the messages,
1 where none was recorded. -/
def placementLength (records : List MsiRecord) (r : RtlRange) : UInt32 :=
  if r.start < msiGsivBase then (r.last - r.start + 1).toUInt32
  else defaultCount ((uacpiNtMsiCountLookup r.start records).getD 0)

structure IrqSystem where
  arbiter : ArbiterInstance
  world : IrqWorld
  connection : ConnectionState
  written : List IrqWritten

section

variable (api : IdtApi) (host : IrqLibHost) (write : PropertyWriter) (self : DeviceObject)

/-- The round of a commit for one range. A write that fails is not entered in the table, so the
next commit tries again. -/
def commitRange (sys : IrqSystem) (r : RtlRange) : IrqSystem :=
  match r.owner with
  | none => sys
  | some owner =>
    let start := r.start.toUInt32
    let length := placementLength sys.world.msiRecords r
    if owner = self ∨ uacpiNtConnectionDataChanged owner start length sys.written = false then sys
    else
      match uacpiNtIrqLibWriteConnectionData api host write sys.world.triggers owner start length
          sys.connection with
      | (.ok _, c) =>
        { sys with
          connection := c
          written := uacpiNtConnectionDataRecord owner start length sys.written }
      | (.error _, c) => { sys with connection := c }

def uacpiNtIrqCommitAllocation (iterate : RtlRangeList → RtlRangeList) (sys : IrqSystem) :
    IrqSystem :=
  let arb := arbiterLibCommitAllocation sys.arbiter
  (iterate arb.allocation).foldl (commitRange api host write self) { sys with arbiter := arb }

end

open List Option

/-! ### One record -/

section

variable {start slot : UInt64} {count : UInt32} {records : List MsiRecord}

theorem msiCountLookup_cons (record : MsiRecord) (records : List MsiRecord) :
    uacpiNtMsiCountLookup slot (record :: records) =
      if record.start = slot then some record.messageCount
      else uacpiNtMsiCountLookup slot records := by
  by_cases h : record.start = slot <;> simp [uacpiNtMsiCountLookup, h]

theorem msiCountLookup_modify {i : Nat}
    (h : (records.findIdx? fun r => r.start == start) = some i) :
    uacpiNtMsiCountLookup slot (records.modify i fun r => { r with messageCount := count }) =
      if slot = start then some count else uacpiNtMsiCountLookup slot records := by
  induction records generalizing i with
  | nil => cases h
  | cons r records ih =>
    rw [findIdx?_cons] at h
    by_cases hr : r.start = start
    · subst hr
      simp only [beq_self_eq_true, if_true, Option.some.injEq] at h
      subst h
      rw [modify_zero_cons, msiCountLookup_cons, msiCountLookup_cons]
      by_cases hslot : slot = r.start
      · simp [hslot]
      · rw [if_neg hslot, if_neg (Ne.symm hslot), if_neg (Ne.symm hslot)]
    · simp only [beq_eq_false_iff_ne.mpr hr, Bool.false_eq_true, if_false,
        map_eq_some_iff] at h
      obtain ⟨j, hj, rfl⟩ := h
      rw [modify_succ_cons, msiCountLookup_cons, msiCountLookup_cons, ih hj]
      by_cases hslot : slot = start
      · subst hslot
        rw [if_neg hr, if_pos rfl, if_pos rfl]
      · rw [if_neg hslot, if_neg hslot]

theorem msiCountLookup_eq_none_iff : uacpiNtMsiCountLookup start records = none ↔
      (records.findIdx? fun r => r.start == start) = none := by
  simp [uacpiNtMsiCountLookup]

theorem msiCountLookup_record : uacpiNtMsiCountLookup slot
    (uacpiNtMsiCountRecord start count records) =
      if slot = start ∧ (uacpiNtMsiCountLookup start records ≠ none ∨
        records.length < msiRecordMax) then some count
      else uacpiNtMsiCountLookup slot records := by
  rw [uacpiNtMsiCountRecord]
  cases hfind : records.findIdx? fun r => r.start == start with
  | some i =>
    have hknown : uacpiNtMsiCountLookup start records ≠ none := by
      rw [Ne, msiCountLookup_eq_none_iff, hfind]
      exact some_ne_none i
    simp only [msiCountLookup_modify hfind, hknown, ne_eq, not_false_eq_true, true_or, and_true]
  | none =>
    have hunk := msiCountLookup_eq_none_iff.mpr hfind
    simp only [hunk, ne_eq, not_true_eq_false, false_or]
    by_cases hfull : records.length ≥ msiRecordMax
    · rw [if_pos hfull, if_neg (by omega)]
    rw [if_neg hfull]
    have happ : uacpiNtMsiCountLookup slot (records ++ [⟨start, count⟩]) =
        (uacpiNtMsiCountLookup slot records).or (if start = slot then some count else none) := by
      simp only [uacpiNtMsiCountLookup, find?_append, map_or]
      by_cases hslot : start = slot <;> simp [hslot]
    rw [happ]
    by_cases hslot : slot = start
    · subst hslot
      rw [hunk, if_pos rfl, if_pos ⟨rfl, by omega⟩, none_or]
    · rw [if_neg (Ne.symm hslot), if_neg fun h => hslot h.1, or_none]

theorem msiCountLookup_record_of_ne (h : slot ≠ start) : uacpiNtMsiCountLookup slot
    (uacpiNtMsiCountRecord start count records) = uacpiNtMsiCountLookup slot records := by
  rw [msiCountLookup_record, if_neg fun h' => h h'.1]

theorem length_msiCountRecord_le : (uacpiNtMsiCountRecord start count records).length ≤
    records.length + 1 := by
  rw [uacpiNtMsiCountRecord]
  split
  · simp
  · split <;> simp

end

/-! ### The count that is used -/

section

variable {slot start : UInt64} {count : UInt32} {records : List MsiRecord}

/-- The count that a commit uses for a message placement at a slot. -/
def countUsed (slot : UInt64) (records : List MsiRecord) : UInt32 :=
  defaultCount ((uacpiNtMsiCountLookup slot records).getD 0)

theorem placementLength_of_message {r : RtlRange} (h : msiGsivBase ≤ r.start) :
    placementLength records r = countUsed r.start records := by
  rw [placementLength, if_neg (UInt64.not_lt.mpr h), countUsed]

theorem countUsed_ne_zero (slot : UInt64) (records : List MsiRecord) : countUsed slot records ≠ 0 :=
  defaultCount_ne_zero _

theorem countUsed_of_none (h : uacpiNtMsiCountLookup slot records = none) :
    countUsed slot records = 1 := by
  simp [countUsed, h, defaultCount]

theorem countUsed_of_ne (h : slot ≠ start) :
    countUsed slot (uacpiNtMsiCountRecord start count records) = countUsed slot records := by
  rw [countUsed, msiCountLookup_record_of_ne h, countUsed]

theorem countUsed_record (hcnt : count ≠ 0) (h : uacpiNtMsiCountLookup slot records ≠ none ∨
      records.length < msiRecordMax) :
    countUsed slot (uacpiNtMsiCountRecord slot count records) = count := by
  rw [countUsed, msiCountLookup_record, if_pos ⟨rfl, h⟩]
  exact defaultCount_of_ne_zero hcnt

theorem countUsed_record_same (hcnt : count ≠ 0) (h : countUsed slot records = count) :
    countUsed slot (uacpiNtMsiCountRecord slot count records) = count := by
  by_cases hroom : uacpiNtMsiCountLookup slot records ≠ none ∨ records.length < msiRecordMax
  · exact countUsed_record hcnt hroom
  · rw [countUsed, msiCountLookup_record, if_neg fun h => hroom h.2]
    exact h

def recordAll (packed : List (UInt64 × UInt32)) (records : List MsiRecord) : List MsiRecord :=
  packed.foldl (fun records packed => uacpiNtMsiCountRecord packed.1 packed.2 records) records

@[simp]
theorem recordAll_cons (head : UInt64 × UInt32) (packed : List (UInt64 × UInt32))
    (records : List MsiRecord) : recordAll (head :: packed) records =
      recordAll packed (uacpiNtMsiCountRecord head.1 head.2 records) := rfl

/-- A slot is used with the count that was recorded for it, if all that was recorded for it agrees
and it was used so before, or was known, or there was room for it. -/
theorem countUsed_recordAll {packed : List (UInt64 × UInt32)} (hcnt : count ≠ 0)
    (hagr : ∀ p ∈ packed, p.1 = slot → p.2 = count)
    (h : countUsed slot records = count ∨ (slot, count) ∈ packed ∧
      (uacpiNtMsiCountLookup slot records ≠ none ∨
        records.length + packed.length ≤ msiRecordMax)) :
    countUsed slot (recordAll packed records) = count := by
  induction packed generalizing records with
  | nil => exact h.resolve_right fun hmem => (by cases hmem.1)
  | cons p packed ih =>
    rw [forall_mem_cons] at hagr
    rw [recordAll_cons]
    rw [length_cons] at h
    refine ih hagr.2 ?_
    by_cases hslot : p.1 = slot
    · rw [hslot, hagr.1 hslot]
      rcases h with hsame | ⟨-, hknown | hroom⟩
      · exact .inl (countUsed_record_same hcnt hsame)
      · exact .inl (countUsed_record hcnt (.inl hknown))
      · exact .inl (countUsed_record hcnt (.inr (by omega)))
    · have hlen : (uacpiNtMsiCountRecord p.1 p.2 records).length ≤ records.length + 1 :=
        length_msiCountRecord_le
      rw [countUsed_of_ne (Ne.symm hslot), msiCountLookup_record_of_ne (Ne.symm hslot)]
      refine h.imp_right (And.imp (fun hmem => ?_) (Or.imp_right fun hroom => by omega))
      exact (mem_cons.mp hmem).resolve_left fun heq => hslot (congrArg Prod.fst heq).symm

end

/-! ### The records of a solution -/

section

variable (st : AllocationState) (states : List AllocationState) (records : List MsiRecord)

def AllocationState.messagePacked : Option (UInt64 × UInt32) :=
  match st.current, st.entry.assignment with
  | some alt, some _ =>
    if st.start < msiGsivBase then none
    else some (st.start, uacpiNtMsiCountFromRequirement alt.descriptor)
  | _, _ => none

def recordPacked : List MsiRecord :=
  recordAll (states.filterMap (·.messagePacked)) records

theorem recordPacked_cons : recordPacked (st :: states) records =
      recordPacked states (st.messagePacked.elim records fun packed =>
        uacpiNtMsiCountRecord packed.1 packed.2 records) := by
  cases h : st.messagePacked <;> simp [recordPacked, h]

end

theorem msiCountLookup_recordPacked {slot : UInt64} {states : List AllocationState}
    {records : List MsiRecord} (h : ∀ st ∈ states, ∀ packed ∈ st.messagePacked, packed.1 = slot →
      uacpiNtMsiCountLookup slot records = some packed.2) :
    uacpiNtMsiCountLookup slot (recordPacked states records) =
      uacpiNtMsiCountLookup slot records := by
  induction states generalizing records with
  | nil => rfl
  | cons st rest ih =>
    rw [forall_mem_cons] at h
    rw [recordPacked_cons]
    cases hpac : st.messagePacked with
    | none => exact ih h.2
    | some packed =>
      have hsame : uacpiNtMsiCountLookup slot (uacpiNtMsiCountRecord packed.1 packed.2
          records) = uacpiNtMsiCountLookup slot records := by
        by_cases hslot : packed.1 = slot
        · have hcnt := h.1 packed hpac hslot
          rw [msiCountLookup_record, hcnt]
          simp
        · exact msiCountLookup_record_of_ne (Ne.symm hslot)
      rw [elim_some, ih fun st' hst' packed' hpac' hslot' =>
        hsame.trans (h.2 st' hst' packed' hpac' hslot'), hsame]

variable {host : IrqHost}

/-- Packing succeeds, records the counts of the message placements, and changes nothing else. -/
theorem packSolution_irq (states : List AllocationState) (world : IrqWorld) :
    (packSolution (irqOps host) states world).1 = .ok () ∧
    (packSolution (irqOps host) states world).2.2 =
      { world with msiRecords := recordPacked states world.msiRecords } := by
  induction states generalizing world with
  | nil => exact ⟨rfl, rfl⟩
  | cons st rest ih =>
    rw [recordPacked_cons, AllocationState.messagePacked]
    cases hcur : st.current with
    | none =>
      simp only [packSolution, hcur]
      exact ih world
    | some alt =>
      cases hasg : st.entry.assignment with
      | none =>
        simp only [packSolution, hcur, hasg]
        exact ih world
      | some assignment =>
        obtain ⟨assignment', hpack⟩ : ∃ assignment', (irqOps host).packResource alt.descriptor
            st.start assignment world = (.ok (), assignment', if st.start < msiGsivBase
              then world else world.recordCount st.start
                (uacpiNtMsiCountFromRequirement alt.descriptor)) := by
          change ∃ assignment', uacpiNtIrqPackResource alt.descriptor st.start assignment world = _
          rw [uacpiNtIrqPackResource]
          split <;> exact ⟨_, rfl⟩
        simp only [packSolution, hcur, hasg, map_some, hpack]
        split
        · exact ih world
        · exact ih _

end UacpiNt
