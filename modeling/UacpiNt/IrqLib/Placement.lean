import UacpiNt.IrqLib.Message
import UacpiNt.IrqLib.Repeat

/-!
# The vectors of a placement

A line that keeps its vector has it in the state from the first call on. The messages of a
placement have the run of their count or, where only a single vector was left, a run of one. The
elements that are written for a device come from all of its runs, so they are those of its
placement only if it had no run before.
-/

namespace UacpiNt

section

open List MessageRun VectorState

variable {api : IdtApi} {host : IrqLibHost} {owner : DeviceObject} {s s' : VectorState}

/-! ### Lines -/

def LineKept (host : IrqLibHost) (gsiv : UInt32) : Prop :=
  host.isSecondary gsiv = true ∨ gsiv.toNat < uacpiNtMaxGsiv ∨ host.interruptModel ≠ acpiNtApic
deriving Decidable

def LineKnown (host : IrqLibHost) (s : VectorState) (gsiv vector : UInt32) : Prop :=
  if host.isSecondary gsiv then Numbered s gsiv vector
  else if host.interruptModel = acpiNtApic then s.assignedVector gsiv = vector ∧ vector ≠ 0
  else host.picLine gsiv = some vector

namespace LineKnown

variable {gsiv vector : UInt32}

theorem mono (h : LineKnown host s gsiv vector) (hext : Extends s s') :
    LineKnown host s' gsiv vector := by
  rw [LineKnown] at h ⊢
  split at h
  · rw [if_pos ‹_›]
    exact h.mono hext
  rw [if_neg ‹_›]
  split at h
  · rw [if_pos ‹_›, hext.assigned gsiv (h.1.symm ▸ h.2)]
    exact h
  · rw [if_neg ‹_›]
    exact h

theorem resolves (h : LineKnown host s gsiv vector) (api : IdtApi) (triggers : GsivTriggers) :
    (uacpiNtIrqLibResolveVector api host triggers gsiv s).1.map (·.vector) = .ok vector := by
  rw [LineKnown] at h
  split at h
  · rename_i hsec
    obtain ⟨index, hidx, rfl⟩ := h
    rw [(resolveVector_of_secondary api hsec triggers s).1, uacpiNtAllocateSecondaryVector, hidx]
  rename_i hprim
  have hprim := Bool.eq_false_iff.mpr hprim
  split at h <;> rename_i hmodel
  · obtain ⟨rfl, hne⟩ := h
    rw [(resolveVector_of_primary api hmodel hprim triggers s).1, uacpiNtApicAllocateVector,
      if_pos hne]
  have hline := (resolveVector_of_pic api hmodel hprim triggers s).1
  rw [h] at hline
  cases hres : (uacpiNtIrqLibResolveVector api host triggers gsiv s).1 with
  | error e => simp [hres, Except.map, Except.toOption] at hline
  | ok line => simpa [hres, Except.map, Except.toOption] using hline

end LineKnown

theorem lineKnown_of_resolved (api : IdtApi) {gsiv : UInt32} (hkept : LineKept host gsiv)
    (triggers : GsivTriggers) {line : LineVector}
    (h : (uacpiNtIrqLibResolveVector api host triggers gsiv s).1 = .ok line) :
    LineKnown host (uacpiNtIrqLibResolveVector api host triggers gsiv s).2 gsiv line.vector := by
  rw [LineKnown]
  split
  · rename_i hsec
    exact numbered_of_resolved api hsec triggers h
  rename_i hprim
  have hprim' := Bool.eq_false_iff.mpr hprim
  split <;> rename_i hmodel
  · have hlt := (hkept.resolve_left hprim).resolve_right (not_not.mpr hmodel)
    exact assigned_of_resolved api hmodel hprim' hlt triggers h
  · rw [← (resolveVector_of_pic api hmodel hprim' triggers s).1, h]
    rfl

/-! ### Messages -/

def MessageRun.vectors (run : MessageRun) : List UInt32 :=
  (List.range run.count.toNat).map fun message => run.base + .ofNat message

@[simp]
theorem MessageRun.elements_vectors (host : IrqLibHost) (target : UInt64) (run : MessageRun) :
    (run.elements host target).map (·.vector) = run.vectors := by
  simp [elements, vectors, Function.comp_def]

@[simp]
theorem MessageRun.length_elements (host : IrqLibHost) (target : UInt64) (run : MessageRun) :
    (run.elements host target).length = run.count.toNat := by
  simp [elements]

/-- The run of the messages at a placement: of their count or, where only a single vector was left,
of one. -/
def placementRun (s : VectorState) (owner : DeviceObject) (slot count : UInt32) :
    Option (Fin maxMessageRuns) :=
  (s.findRun (MessageRun.isFor owner slot count)).or (s.findRun (MessageRun.isFor owner slot 1))

def messageVectors (s : VectorState) (owner : DeviceObject) (slot count : UInt32) : List UInt32 :=
  (placementRun s owner slot count).elim [] fun i => (s.messageRuns i).vectors

/-- A slot of the table holds the same run, or none of the owner. -/
def OwnedAlike (owner : DeviceObject) (s s' : VectorState) : Prop :=
  ∀ i, s'.messageRuns i = s.messageRuns i ∨
    (s.messageRuns i).owner ≠ some owner ∧ (s'.messageRuns i).owner ≠ some owner

theorem OwnedAlike.of_eq (h : s'.messageRuns = s.messageRuns) : OwnedAlike owner s s' :=
  fun i => .inl (congrFun h i)

theorem OwnedAlike.findRun_eq (h : OwnedAlike owner s s') (slot count : UInt32) :
    s'.findRun (isFor owner slot count) =
      s.findRun (isFor owner slot count) := by
  rw [findRun]
  congr 1
  funext i
  rcases h i with heq | ⟨hs, hs'⟩
  · rw [heq]
  · simp [isFor, hs, hs']

theorem OwnedAlike.messageVectors_eq (h : OwnedAlike owner s s') (slot count : UInt32) :
    messageVectors s' owner slot count = messageVectors s owner slot count := by
  have hrun : placementRun s' owner slot count = placementRun s owner slot count := by
    rw [placementRun, h.findRun_eq, h.findRun_eq, placementRun]
  rw [messageVectors, messageVectors, hrun]
  cases hpl : placementRun s owner slot count with
  | none => rfl
  | some i =>
    have hown : (s.messageRuns i).owner = some owner := by
      rcases Option.or_eq_some_iff.mp hpl with hfind | ⟨-, hfind⟩
        <;> exact (of_decide_eq_true (findRun_some hfind)).1
    rcases h i with heq | ⟨hne, -⟩
    · simp [heq]
    · exact absurd hown hne

theorem resolveMessage_ownedAlike (api : IdtApi) (host : IrqLibHost) {other : DeviceObject}
    (hoth : other ≠ owner) {slot count : UInt32} (hcnt : count ≠ 0) (s : VectorState) :
    OwnedAlike owner s (uacpiNtIrqLibResolveMessageVector api host other slot count s).2 := by
  rcases resolveMessageVector_cases api host other slot count s with
    ⟨e, heq⟩ | ⟨i, -, heq⟩ | ⟨-, i, base, given, s₁, -, -, -, heq⟩
  · rw [heq]
    exact .of_eq rfl
  · rw [heq]
    exact .of_eq rfl
  rcases resolveMessage_ok heq hcnt with
    ⟨j, -, hsame, -⟩ | ⟨-, j, given', s₂, hfree, -, hrng, hst⟩ <;> rw [heq]
  · exact .of_eq (congrArg messageRuns hsame)
  rw [hst]
  intro k
  by_cases hk : k = j
  · subst hk
    refine .inr ⟨by simp [hfree], ?_⟩
    rw [setRun_self]
    exact fun h => hoth (Option.some.inj h)
  · rw [setRun_of_ne _ _ hk, (allocateVectorRange_frame hrng).2.2]
    exact .inl rfl

/-! ### The only run of a device -/

/-- The device has this run and no other. -/
def OnlyRun (s : VectorState) (owner : DeviceObject) (i : Fin maxMessageRuns) : Prop :=
  ∀ j, (s.messageRuns j).owner = some owner ∧ (s.messageRuns j).count ≠ 0 ↔ j = i

theorem onlyRun_of_resolved {slot count : UInt32} (hcnt : count ≠ 0)
    (hnew : uacpiNtOwnerHasMessages s owner = false) {resolved : UInt32 × UInt8 × UInt64}
    (h : uacpiNtIrqLibResolveMessageVector api host owner slot count s = (.ok resolved, s')) :
    ∃ i, OnlyRun s' owner i ∧ (s'.messageRuns i).messageGsiv = slot ∧
      ((s'.messageRuns i).count = count ∨ (s'.messageRuns i).count = 1) := by
  have hnone : ∀ j, ¬ ((s.messageRuns j).owner = some owner ∧ (s.messageRuns j).count ≠ 0) := by
    rw [uacpiNtOwnerHasMessages, findRun, Option.isSome_eq_false_iff,
      Option.isNone_iff_eq_none, Fin.find?_eq_none_iff] at hnew
    exact fun j => of_decide_eq_false (hnew j)
  rcases resolveMessage_ok h hcnt with
    ⟨i, hfind, -, -⟩ | ⟨-, i, given, s₁, -, hgiven, hrng, rfl⟩
  · obtain ⟨hown, -, hsame⟩ := of_decide_eq_true (findRun_some hfind)
    exact absurd ⟨hown, hsame ▸ hcnt⟩ (hnone i)
  have hpos : given ≠ 0 := by
    rcases hgiven with rfl | ⟨rfl, -⟩
    · exact hcnt
    · decide
  refine ⟨i, fun j => ?_, by rw [setRun_self], ?_⟩
  · by_cases hj : j = i
    · subst hj
      simp [hpos]
    · rw [setRun_of_ne _ _ hj, (allocateVectorRange_frame hrng).2.2]
      exact iff_of_false (hnone j) hj
  · rw [setRun_self]
    exact hgiven.imp_right (·.1)

namespace OnlyRun

variable {i : Fin maxMessageRuns}

theorem ownedRuns_eq (h : OnlyRun s owner i) : ownedRuns s owner = [i] := by
  have hfilter : ownedRuns s owner = (finRange maxMessageRuns).filter (· = i) := by
    exact filter_congr fun j _ => by simp only [h j]
  rw [hfilter, filter_eq, count_eq_one_of_mem (nodup_finRange _)
    (mem_finRange i)]
  rfl

theorem publishedRuns_eq (h : OnlyRun s owner i) : publishedRuns s owner = [i] := by
  have hperm := (publishedRuns_spec s owner).1
  rw [h.ownedRuns_eq] at hperm
  exact perm_singleton.mp hperm

theorem totalMessages_eq_owned (s : VectorState) (owner : DeviceObject) : totalMessages s owner =
      (ownedRuns s owner).foldl (fun total i => total + (s.messageRuns i).count) 0 := by
  have hdrop : ∀ (l : List (Fin maxMessageRuns)) (total : UInt32),
      (l.filter fun i => decide ((s.messageRuns i).owner = some owner)).foldl
          (fun total i => total + (s.messageRuns i).count) total =
        (l.filter fun i => decide ((s.messageRuns i).owner = some owner ∧
          (s.messageRuns i).count ≠ 0)).foldl
          (fun total i => total + (s.messageRuns i).count) total := by
    intro l
    induction l with
    | nil => simp
    | cons i l ih =>
      intro total
      by_cases hown : (s.messageRuns i).owner = some owner
      · by_cases hcnt : (s.messageRuns i).count = 0
        · simpa [hown, hcnt] using ih total
        · simpa [hown, hcnt] using ih (total + (s.messageRuns i).count)
      · simpa [hown] using ih total
  exact hdrop _ 0

theorem messageConnectionData_vectors (h : OnlyRun s owner i) (host : IrqLibHost)
    (count : UInt32) (target : UInt64) :
    (messageConnectionData host s owner count target).map (·.vector) =
      (s.messageRuns i).vectors := by
  have hcnt := ((h i).mpr rfl).2
  have htot : totalMessages s owner = (s.messageRuns i).count := by
    rw [totalMessages_eq_owned, h.ownedRuns_eq]
    simp
  have hall : ((s.messageRuns i).elements host target).take (s.messageRuns i).count.toNat =
      (s.messageRuns i).elements host target :=
    take_of_length_le (by simp)
  have hsome : (s.messageRuns i).elements host target ≠ [] := by
    rw [← length_pos_iff, MessageRun.length_elements]
    exact Nat.pos_of_ne_zero fun hzero => hcnt (UInt32.toNat_inj.mp hzero)
  rw [messageConnectionData]
  simp only [htot, if_neg hcnt, h.publishedRuns_eq, flatMap_singleton, hall, if_neg hsome,
    MessageRun.elements_vectors]

theorem messageVectors_eq (h : OnlyRun s owner i) {slot count : UInt32} (hpos : count ≠ 0)
    (hslot : (s.messageRuns i).messageGsiv = slot)
    (hcnt : (s.messageRuns i).count = count ∨ (s.messageRuns i).count = 1) :
    messageVectors s owner slot count = (s.messageRuns i).vectors := by
  -- A run that is found is the only one, and it is found under its own count.
  have hfd : ∀ c, c ≠ 0 → s.findRun (isFor owner slot c) =
      if (s.messageRuns i).count = c then some i else none := by
    intro c hc
    split
    · rename_i hsame
      refine Fin.find?_eq_some_iff.mpr ⟨decide_eq_true ⟨((h i).mpr rfl).1, hslot, hsame⟩, ?_⟩
      intro j hj
      refine decide_eq_false fun hfor => ?_
      exact absurd ((h j).mp ⟨hfor.1, hfor.2.2 ▸ hc⟩) (Fin.ne_of_lt hj)
    · rename_i hoth
      refine Fin.find?_eq_none_iff.mpr fun j => decide_eq_false fun hfor => ?_
      obtain rfl := (h j).mp ⟨hfor.1, hfor.2.2 ▸ hc⟩
      exact hoth hfor.2.2
  have hpl : placementRun s owner slot count = some i := by
    rw [placementRun, hfd count hpos, hfd 1 (by decide)]
    rcases hcnt with hcnt | hcnt
    · simp [hcnt]
    by_cases hone : (s.messageRuns i).count = count
    · simp [hone]
    · rw [if_neg hone, if_pos hcnt]
      rfl
  rw [messageVectors, hpl]
  rfl

end OnlyRun

end

section

/-! ### The elements of the messages of a device -/

open List

variable {api : IdtApi} {host : IrqLibHost} {s : VectorState} {owner : DeviceObject}
  {count : UInt32} {target : UInt64}

section

variable (s) (owner)

def messageSum : Nat :=
  (ownedRuns s owner).foldl (fun total i => total + (s.messageRuns i).count.toNat) 0

/-- The slots of an owner are strictly ordered as runs, and this is their order. -/
structure RunsOrdered (s : VectorState) (owner : DeviceObject)
    (runs : List (Fin maxMessageRuns)) : Prop where
  nodup : runs.Nodup
  mem_iff : ∀ i, i ∈ runs ↔ (s.messageRuns i).owner = some owner ∧ (s.messageRuns i).count ≠ 0
  irrefl : ∀ i ∈ runs, uacpiNtMessageRunPrecedes (s.messageRuns i) (s.messageRuns i) = false
  trans : ∀ i ∈ runs, ∀ j ∈ runs, ∀ k ∈ runs,
    uacpiNtMessageRunPrecedes (s.messageRuns i) (s.messageRuns j) = true →
    uacpiNtMessageRunPrecedes (s.messageRuns j) (s.messageRuns k) = true →
    uacpiNtMessageRunPrecedes (s.messageRuns i) (s.messageRuns k) = true
  ordered : runs.Pairwise fun i j =>
    uacpiNtMessageRunPrecedes (s.messageRuns i) (s.messageRuns j) = true

/-- The elements are the vectors of the runs of the owner, run after run in their order, each run
with its base first; and there are as many as the runs have vectors. -/
structure CompleteElements (s : VectorState) (owner : DeviceObject)
    (data : InterruptConnectionData) : Prop where
  vectors : ∃ runs, RunsOrdered s owner runs ∧
    data.map (·.vector) = runs.flatMap fun i => (s.messageRuns i).vectors
  length : data.length = messageSum s owner

/-- No two runs of the owner have the same placement and base. -/
def RunsDistinct : Prop :=
  ∀ i ∈ ownedRuns s owner, ∀ j ∈ ownedRuns s owner, i ≠ j →
    (s.messageRuns i).messageGsiv ≠ (s.messageRuns j).messageGsiv ∨
      (s.messageRuns i).base ≠ (s.messageRuns j).base

instance : Decidable (RunsDistinct s owner) :=
  List.decidableBAll _ _

end

theorem mem_ownedRuns {i : Fin maxMessageRuns} : i ∈ ownedRuns s owner ↔
    (s.messageRuns i).owner = some owner ∧ (s.messageRuns i).count ≠ 0 := by
  simp [ownedRuns]

section

variable (s) (owner)

theorem foldl_count (l : List (Fin maxMessageRuns)) (total : UInt32) (n : Nat)
    (h : total.toNat = n % 2 ^ 32) :
    (l.foldl (fun total i => total + (s.messageRuns i).count) total).toNat =
      l.foldl (fun total i => total + (s.messageRuns i).count.toNat) n % 2 ^ 32 := by
  induction l generalizing total n with
  | nil => exact h
  | cons i l ih =>
    refine ih _ _ ?_
    rw [UInt32.toNat_add, h, Nat.mod_add_mod]

theorem toNat_totalMessages : (totalMessages s owner).toNat = messageSum s owner % 2 ^ 32 := by
  rw [OnlyRun.totalMessages_eq_owned]
  exact foldl_count s _ 0 0 rfl

theorem length_flatMap_elements (host : IrqLibHost) (target : UInt64)
    (l : List (Fin maxMessageRuns)) (n : Nat) :
    n + (l.flatMap fun i => (s.messageRuns i).elements host target).length =
      l.foldl (fun total i => total + (s.messageRuns i).count.toNat) n := by
  induction l generalizing n with
  | nil => rfl
  | cons i l ih =>
    rw [foldl_cons, ← ih, flatMap_cons, length_append, MessageRun.length_elements,
      Nat.add_assoc]

theorem length_publishedElements (host : IrqLibHost) (target : UInt64) :
    ((publishedRuns s owner).flatMap fun i => (s.messageRuns i).elements host target).length =
      messageSum s owner := by
  have hperm := (publishedRuns_spec s owner).1.flatMap_right
    fun i => (s.messageRuns i).elements host target
  have hlen := length_flatMap_elements s host target (ownedRuns s owner) 0
  rw [hperm.length_eq, messageSum]
  omega

end

theorem messageSum_pos (h : uacpiNtOwnerHasMessages s owner = true) : 0 < messageSum s owner := by
  rw [uacpiNtOwnerHasMessages, VectorState.findRun, Fin.isSome_find?_iff] at h
  obtain ⟨i, hi⟩ := h
  obtain ⟨hown, hcnt⟩ := of_decide_eq_true hi
  have hpub : i ∈ publishedRuns s owner :=
    (publishedRuns_spec s owner).1.mem_iff.mpr (mem_ownedRuns.mpr ⟨hown, hcnt⟩)
  rw [← length_publishedElements s owner .plain 0, length_pos_iff, Ne, flatMap_eq_nil_iff]
  intro hnil
  have hlen := congrArg List.length (hnil i hpub)
  rw [MessageRun.length_elements] at hlen
  exact hcnt (UInt32.toNat_inj.mp hlen)

theorem length_messageConnectionData_lt (host : IrqLibHost) (s : VectorState) (owner : DeviceObject)
    (count : UInt32) (target : UInt64) :
    (messageConnectionData host s owner count target).length < 2 ^ 32 := by
  rw [messageConnectionData]
  generalize (if totalMessages s owner = 0 then count else totalMessages s owner) = total
  have hlt := total.toNat_lt
  split
  · rwa [length_replicate]
  · exact Nat.lt_of_le_of_lt (length_take_le _ _) hlt

theorem messageConnectionData_of_lt (hpos : 0 < messageSum s owner)
    (hlt : messageSum s owner < 2 ^ 32) : messageConnectionData host s owner count target =
      (publishedRuns s owner).flatMap fun i => (s.messageRuns i).elements host target := by
  have htot := toNat_totalMessages s owner
  have hlen := length_publishedElements s owner host target
  rw [Nat.mod_eq_of_lt hlt] at htot
  have hne : totalMessages s owner ≠ 0 := by
    intro hzero
    rw [hzero] at htot
    exact Nat.ne_of_gt hpos htot.symm
  rw [messageConnectionData]
  simp only [if_neg hne]
  rw [htot, take_of_length_le (Nat.le_of_eq hlen), if_neg]
  rwa [← ne_eq, ← length_pos_iff, hlen]

theorem precedes_of_not {run other : MessageRun}
    (hne : run.messageGsiv ≠ other.messageGsiv ∨ run.base ≠ other.base)
    (h : uacpiNtMessageRunPrecedes other run = false) :
    uacpiNtMessageRunPrecedes run other = true := by
  rw [← Bool.not_eq_true, precedes_iff, not_or, UInt32.not_lt] at h
  rw [precedes_iff]
  obtain ⟨hle, hbase⟩ := h
  by_cases hsame : run.messageGsiv = other.messageGsiv
  · refine .inr ⟨hsame, ?_⟩
    have hle' := UInt32.not_lt.mp fun hlt => hbase ⟨hsame.symm, hlt⟩
    exact UInt32.lt_of_le_of_ne hle' (hne.resolve_left (not_not.mpr hsame))
  · exact .inl (UInt32.lt_of_le_of_ne hle (Ne.symm hsame))

theorem runsOrdered_published (h : RunsDistinct s owner) :
    RunsOrdered s owner (publishedRuns s owner) := by
  obtain ⟨hperm, hpw⟩ := publishedRuns_spec s owner
  have hnd : (publishedRuns s owner).Nodup := hperm.nodup_iff.mpr ((nodup_finRange _).filter _)
  refine ⟨hnd, fun i => hperm.mem_iff.trans mem_ownedRuns, fun i _ => precedes_irrefl _,
    fun i _ j _ k _ => precedes_trans, ?_⟩
  refine (hpw.and hnd).imp_of_mem fun {i j} hi hj hij => ?_
  exact precedes_of_not (h i (hperm.mem_iff.mp hi) j (hperm.mem_iff.mp hj) hij.2) hij.1

theorem RunsOrdered.distinct {runs : List (Fin maxMessageRuns)} (h : RunsOrdered s owner runs) :
    RunsDistinct s owner := by
  intro i hi j hj hne
  rw [mem_ownedRuns, ← h.mem_iff] at hi hj
  rw [← not_and_or]
  rintro ⟨hgsiv, hbase⟩
  rcases Selection.rel_or_rel h.ordered hi hj hne with hij | hji
  · rw [precedes_iff, hgsiv, hbase] at hij
    simp [UInt32.lt_irrefl] at hij
  · rw [precedes_iff, hgsiv, hbase] at hji
    simp [UInt32.lt_irrefl] at hji

def VectorState.twoRuns (first second : MessageRun) : VectorState :=
  { VectorState.unused with
    messageRuns := fun i => if i.val = 0 then first else if i.val = 1 then second else .zero }

theorem resolve_first (first second : MessageRun) (hcnt : first.count ≠ 0)
    (hown : first.owner = some ⟨7⟩) :
    ∃ resolved, uacpiNtIrqLibResolveMessageVector .reference .plain ⟨7⟩ first.messageGsiv
      (defaultCount first.count) (.twoRuns first second) =
        (.ok resolved, .twoRuns first second) := by
  refine ⟨_, resolveMessage_of_found (i := ⟨0, by decide⟩) rfl ?_⟩
  refine Fin.find?_eq_some_iff.mpr ⟨?_, fun j hj => absurd hj (Nat.not_lt_zero _)⟩
  simp [VectorState.twoRuns, MessageRun.isFor, hown, defaultCount_of_ne_zero hcnt]

end

end UacpiNt
