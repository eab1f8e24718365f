import UacpiNt.IrqArb.ClaimOrder
import UacpiNt.IrqArb.CommittedCounts
import UacpiNt.IrqLib.Placement

/-!
# The published connection data

A commit publishes the connection data of a device when its placement differs from the one that was
last written for it. There is one record for each device, the property of a device is written as a
whole from all runs of messages it ever got, and a device with messages keeps their elements when it
is placed on a line. So the published data is that of the committed placement if a device has one
placement, does not leave its messages, and the table has a record for it.
-/

namespace UacpiNt

open List Function

/-! ### The table of what was written -/

def lastWritten (owner : DeviceObject) (written : List IrqWritten) : Option IrqWritten :=
  written.find? fun w => decide (w.owner = owner)

variable {owner : DeviceObject} {written : List IrqWritten}

theorem lastWritten_owner {w : IrqWritten} (h : lastWritten owner written = some w) :
    w.owner = owner := by
  simpa using find?_some h

theorem connectionDataChanged_eq_false {start length : UInt32} :
    uacpiNtConnectionDataChanged owner start length written = false ↔
      lastWritten owner written = some ⟨owner, start, length⟩ := by
  rw [uacpiNtConnectionDataChanged, ← lastWritten]
  cases hw : lastWritten owner written with
  | none => simp
  | some w =>
    have howne := lastWritten_owner hw
    obtain ⟨o, a, l⟩ := w
    subst howne
    simp

theorem lastWritten_record (start length : UInt32)
    (hroom : (lastWritten owner written).isSome ∨ written.length < irqWrittenMax)
    (other : DeviceObject) :
    lastWritten other (uacpiNtConnectionDataRecord owner start length written) =
      if other = owner then some ⟨owner, start, length⟩ else lastWritten other written := by
  rw [uacpiNtConnectionDataRecord]
  split
  · rename_i i hi
    clear hroom
    simp only [lastWritten]
    induction written generalizing i with
    | nil => simp at hi
    | cons w written ih =>
      rw [findIdx?_cons] at hi
      by_cases hw : w.owner = owner
      · simp only [hw, decide_true, if_true, Option.some.injEq] at hi
        subst hi
        by_cases hoth : other = owner
        · simp [hoth]
        · simp [hoth, hw, Ne.symm hoth]
      · simp only [hw, decide_false, Bool.false_eq_true, if_false, Option.map_eq_some_iff] at hi
        obtain ⟨j, hj, rfl⟩ := hi
        by_cases hoth : w.owner = other
        · have hne : other ≠ owner := fun h => hw (hoth.trans h)
          simp [hoth, hne]
        · simpa [hoth] using ih j hj
  · rename_i hnone
    have hfresh : lastWritten owner written = none := by
      simpa [lastWritten] using hnone
    have hlt : ¬ written.length ≥ irqWrittenMax := by
      rw [hfresh] at hroom
      simpa using hroom
    rw [if_neg hlt]
    simp only [lastWritten] at hfresh ⊢
    by_cases hoth : other = owner
    · simp [hoth, hfresh]
    · simp [hoth, Ne.symm hoth]

section

variable (api : IdtApi) (host : IrqLibHost) (fdo : DeviceObject)

/-! ### What is published -/

/-- The vectors of a placement, as the library has them: those of the run of its messages, or that
of the line. -/
def placementVectors (triggers : GsivTriggers) (s : VectorState) (owner : DeviceObject)
    (start length : UInt32) : List UInt32 :=
  if start ≥ messageGsivBase then messageVectors s owner start length
  else
    match (uacpiNtIrqLibResolveVector api host triggers start s).1 with
    | .ok line => [line.vector]
    | .error _ => []

/-- The property of a device has exactly the vectors of the placements it holds. -/
def Describes (sys : IrqSystem) (owner : DeviceObject) : Prop :=
  ∃ data, sys.connection.properties owner = some data ∧ ∀ vector,
    vector ∈ data.map (·.vector) ↔ ∃ r ∈ sys.arbiter.allocation, r.owner = some owner ∧
      vector ∈ placementVectors api host sys.world.triggers sys.connection.vectors owner
        r.start.toUInt32 (placementLength sys.world.msiRecords r)

/-- The published data of a device is that of the placement in its record. -/
def Published (c : ConnectionState) (w : IrqWritten) : Prop :=
  ∃ data, c.properties w.owner = some data ∧
    if w.start ≥ messageGsivBase then
      data.map (·.vector) = messageVectors c.vectors w.owner w.start w.length
    else ∃ vector, data.map (·.vector) = [vector] ∧ LineKnown host c.vectors w.start vector

def TablePublished (sys : IrqSystem) : Prop :=
  ∀ owner w, lastWritten owner sys.written = some w → Published host sys.connection w

variable {host}

variable {c : ConnectionState}

theorem Published.mono {c' : ConnectionState} {w : IrqWritten} (h : Published host c w)
    (hprop : c'.properties w.owner = c.properties w.owner)
    (hext : Extends c.vectors c'.vectors) (halike : OwnedAlike w.owner c.vectors c'.vectors) :
    Published host c' w := by
  obtain ⟨data, hdata, hvec⟩ := h
  refine ⟨data, hprop.trans hdata, ?_⟩
  split at hvec
  · rw [if_pos ‹_›, halike.messageVectors_eq]
    exact hvec
  · rw [if_neg ‹_›]
    obtain ⟨vector, hvect, hknown⟩ := hvec
    exact ⟨vector, hvect, hknown.mono hext⟩

theorem Published.placementVectors_eq {w : IrqWritten} (h : Published host c w)
    (triggers : GsivTriggers) : ∃ data, c.properties w.owner = some data ∧ data.map (·.vector) =
      placementVectors api host triggers c.vectors w.owner w.start w.length := by
  obtain ⟨data, hdata, hvec⟩ := h
  refine ⟨data, hdata, ?_⟩
  rw [placementVectors]
  split at hvec
  · rw [if_pos ‹_›, hvec]
  rw [if_neg ‹_›]
  obtain ⟨vector, hvect, hknown⟩ := hvec
  have hreso := hknown.resolves api triggers
  cases hresu : (uacpiNtIrqLibResolveVector api host triggers w.start c.vectors).1 with
  | error e => simp [hresu, Except.map] at hreso
  | ok line =>
    have hline : line.vector = vector := by simpa [hresu, Except.map] using hreso
    rw [hvect, ← hline]

/-! ### One write -/

variable (host)

def Resolvable (triggers : GsivTriggers) (s : VectorState) (owner : DeviceObject)
    (start length : UInt32) : Prop :=
  if start ≥ messageGsivBase then
    (uacpiNtIrqLibResolveMessageVector api host owner start length s).1.toBool = true
  else LineKept host start ∧ (uacpiNtIrqLibResolveVector api host triggers start s).1.toBool = true
deriving Decidable

variable {api host} {write : PropertyWriter} {triggers : GsivTriggers} {start length : UInt32}

theorem exists_ok_of_toBool {ε α β : Type} {x : Except ε α × β} (h : x.1.toBool = true) :
    ∃ a, x = (.ok a, x.2) := by
  obtain ⟨r, b⟩ := x
  cases r with
  | error e => cases h
  | ok a => exact ⟨a, rfl⟩

theorem writeConnectionData_publishes (hwrite : ∀ pdo data, write pdo data = .ok ())
    (hlen : start ≥ messageGsivBase → length ≠ 0)
    (hnew : uacpiNtOwnerHasMessages c.vectors owner = false)
    (hres : Resolvable api host triggers c.vectors owner start length) :
    ∃ c', uacpiNtIrqLibWriteConnectionData api host write triggers owner start length c =
        (.ok (), c') ∧ Published host c' ⟨owner, start, length⟩ ∧
      ∀ w, w.owner ≠ owner → Published host c w → Published host c' w := by
  have hset : ∀ data (c : ConnectionState), uacpiNtSetConnectionData write owner data c =
      (.ok (), { c with properties := update c.properties owner (some data) }) := by
    intro data c
    rw [uacpiNtSetConnectionData, hwrite]
  rw [uacpiNtIrqLibWriteConnectionData]
  rw [Resolvable] at hres
  split at hres
  · rename_i hmsg
    obtain ⟨resolved, hcall⟩ := exists_ok_of_toBool hres
    have hpos := hlen hmsg
    rw [if_pos hmsg, uacpiNtWriteMessageConnectionData, defaultCount_of_ne_zero hpos, hcall]
    simp only [hset]
    refine ⟨_, rfl, ⟨_, update_self _ _ _, ?_⟩, fun w hw hpub => ?_⟩
    · obtain ⟨i, honly, hslot, hcnt⟩ := onlyRun_of_resolved hpos hnew hcall
      rw [if_pos hmsg, honly.messageConnectionData_vectors, honly.messageVectors_eq hpos hslot hcnt]
    · exact hpub.mono (update_of_ne hw _ _) (resolveMessage_extends ..)
        (resolveMessage_ownedAlike api host (Ne.symm hw) hpos _)
  · rename_i hline
    obtain ⟨hkept, hreso⟩ := hres
    obtain ⟨line, hcall⟩ := exists_ok_of_toBool hreso
    rw [if_neg hline, hnew, hcall]
    simp only [hset]
    refine ⟨_, rfl, ⟨_, update_self _ _ _, ?_⟩, fun w hw hpub => ?_⟩
    · rw [if_neg hline]
      exact ⟨line.vector, rfl, lineKnown_of_resolved api hkept triggers (by rw [hcall])⟩
    · exact hpub.mono (update_of_ne hw _ _) (resolveVector_extends ..)
        (.of_eq (resolveVector_messageRuns ..))

end

/-! ### The rounds of a commit -/

section

variable (api : IdtApi) (host : IrqLibHost) (write : PropertyWriter) (fdo : DeviceObject)

/-- The round of a commit for a range finds its device with this one placement. If the placement
is new or moved, the device has no messages, the library has vectors for it, and the table has a
record of the device or room for one. -/
def CleanRound (committed : RtlRangeList) (sys : IrqSystem) (r : RtlRange) : Prop :=
  ∀ owner ∈ r.owner, owner ≠ fdo →
    (∀ x ∈ committed, x.owner = some owner → x.start.toUInt32 = r.start.toUInt32 ∧
      placementLength sys.world.msiRecords x = placementLength sys.world.msiRecords r) ∧
    (uacpiNtConnectionDataChanged owner r.start.toUInt32
        (placementLength sys.world.msiRecords r) sys.written = true →
      uacpiNtOwnerHasMessages sys.connection.vectors owner = false ∧
      Resolvable api host sys.world.triggers sys.connection.vectors owner r.start.toUInt32
        (placementLength sys.world.msiRecords r) ∧
      ((lastWritten owner sys.written).isSome ∨ sys.written.length < irqWrittenMax))

def CleanRounds (committed : RtlRangeList) : RtlRangeList → IrqSystem → Prop
  | [], _ => True
  | r :: rest, sys => CleanRound api host fdo committed sys r ∧
      CleanRounds committed rest (commitRange api host write fdo sys r)

variable {api host write fdo} {committed : RtlRangeList} {sys : IrqSystem} {r : RtlRange}

instance : DecidablePred (CleanRound api host fdo committed sys) := fun r =>
  inferInstanceAs (Decidable (∀ owner ∈ r.owner, owner ≠ fdo → (∀ x ∈ committed, _) ∧ (_ → _)))

instance decidableCleanRounds : (ranges : RtlRangeList) → (sys : IrqSystem) →
    Decidable (CleanRounds api host write fdo committed ranges sys)
  | [], _ => inferInstanceAs (Decidable True)
  | r :: rest, sys =>
    have := decidableCleanRounds rest (commitRange api host write fdo sys r)
    inferInstanceAs (Decidable (CleanRound api host fdo committed sys r ∧ _))

def Recorded (fdo : DeviceObject) (sys : IrqSystem) (r : RtlRange) : Prop :=
  ∀ owner ∈ r.owner, owner ≠ fdo → lastWritten owner sys.written =
    some ⟨owner, r.start.toUInt32, placementLength sys.world.msiRecords r⟩

theorem commitRange_of_recorded (h : Recorded fdo sys r) :
    commitRange api host write fdo sys r = sys := by
  rw [commitRange]
  cases howne : r.owner with
  | none => rfl
  | some owner =>
    simp only
    rw [if_pos]
    by_cases hfdo : owner = fdo
    · exact .inl hfdo
    · exact .inr (connectionDataChanged_eq_false.mpr (h owner howne hfdo))

theorem commitRanges_of_recorded {ranges : RtlRangeList} (h : ∀ x ∈ ranges, Recorded fdo sys x) :
    ranges.foldl (commitRange api host write fdo) sys = sys := by
  induction ranges with
  | nil => rfl
  | cons x ranges ih =>
    rw [foldl_cons, commitRange_of_recorded (h x mem_cons_self)]
    exact ih fun y hy => h y (mem_cons_of_mem x hy)

theorem placementLength_ne_zero {records : List MsiRecord}
    (hmsg : r.start.toUInt32 ≥ messageGsivBase) : placementLength records r ≠ 0 := by
  rw [placementLength_of_message (msiGsivBase_le hmsg)]
  exact countUsed_ne_zero _ _

theorem commitRange_clean (hwrite : ∀ pdo data, write pdo data = .ok ())
    (hclean : CleanRound api host fdo committed sys r) (hpub : TablePublished host sys) :
    ∃ c written, commitRange api host write fdo sys r =
        { sys with connection := c, written := written } ∧
      TablePublished host { sys with connection := c, written := written } ∧
      Recorded fdo { sys with connection := c, written := written } r ∧
      ∀ other, r.owner ≠ some other →
        lastWritten other written = lastWritten other sys.written := by
  by_cases hrec : Recorded fdo sys r
  · exact ⟨sys.connection, sys.written, commitRange_of_recorded hrec, hpub, hrec,
      fun _ _ => rfl⟩
  rw [Recorded] at hrec
  push Not at hrec
  obtain ⟨owner, howne, hfdo, hstale⟩ := hrec
  have hchan : ¬ uacpiNtConnectionDataChanged owner r.start.toUInt32
      (placementLength sys.world.msiRecords r) sys.written = false :=
    fun h => hstale (connectionDataChanged_eq_false.mp h)
  obtain ⟨hnew, hres, hroom⟩ := (hclean owner howne hfdo).2 (Bool.not_eq_false _ ▸ hchan)
  obtain ⟨c, hc, hown, hothe⟩ :=
    writeConnectionData_publishes hwrite placementLength_ne_zero hnew hres
  have hlast := lastWritten_record r.start.toUInt32 (placementLength sys.world.msiRecords r) hroom
  refine ⟨c, uacpiNtConnectionDataRecord owner r.start.toUInt32
    (placementLength sys.world.msiRecords r) sys.written, ?_, ?_, ?_, ?_⟩
  · rw [commitRange, howne]
    simp only
    rw [if_neg (not_or.mpr ⟨hfdo, hchan⟩), hc]
  · intro other w hw
    simp only [hlast] at hw
    split at hw
    · cases hw
      exact hown
    · rename_i hoth
      have hw' := lastWritten_owner hw
      exact hothe w (hw' ▸ hoth) (hpub other w hw)
  · intro owner' howne' _
    cases howne.symm.trans howne'
    simp [hlast]
  · intro other hoth
    have hne : other ≠ owner := by
      rintro rfl
      exact hoth howne
    rw [hlast, if_neg hne]

theorem commitRanges_clean (hwrite : ∀ pdo data, write pdo data = .ok ())
    (rest : RtlRangeList) {past : RtlRangeList} (hpast : ∀ x ∈ past, x ∈ committed)
    (hrest : ∀ x ∈ rest, x ∈ committed) (hclean : CleanRounds api host write fdo committed rest sys)
    (hpub : TablePublished host sys) (hrec : ∀ x ∈ past, Recorded fdo sys x) :
    ∃ c written, rest.foldl (commitRange api host write fdo) sys =
        { sys with connection := c, written := written } ∧
      TablePublished host { sys with connection := c, written := written } ∧
      ∀ x ∈ past ++ rest, Recorded fdo { sys with connection := c, written := written } x := by
  induction rest generalizing sys past with
  | nil => exact ⟨sys.connection, sys.written, rfl, hpub, by simpa using hrec⟩
  | cons r rest ih =>
    obtain ⟨hround, hrounds⟩ := hclean
    obtain ⟨c, written, heq, hpub', hr, hothe⟩ := commitRange_clean hwrite hround hpub
    rw [heq] at hrounds
    have hrec' : ∀ x ∈ past ++ [r],
        Recorded fdo { sys with connection := c, written := written } x := by
      intro x hx
      rcases mem_append.mp hx with hx | hx
      · intro owner howne hfdo
        by_cases hsame : r.owner = some owner
        · -- The device of an earlier range has no other placement.
          obtain ⟨hst, hlen⟩ := (hround owner hsame hfdo).1 x (hpast x hx) howne
          rw [hr owner hsame hfdo]
          simp only [hst, hlen]
        · rw [hothe owner hsame]
          exact hrec x hx owner howne hfdo
      · obtain rfl := mem_singleton.mp hx
        exact hr
    have hcomm : ∀ x ∈ past ++ [r], x ∈ committed := by
      intro x hx
      rcases mem_append.mp hx with hx | hx
      · exact hpast x hx
      · obtain rfl := mem_singleton.mp hx
        exact hrest x mem_cons_self
    obtain ⟨c', written', heq', hpub'', hall⟩ := ih hcomm
      (fun x hx => hrest x (mem_cons_of_mem r hx)) hrounds hpub' hrec'
    rw [append_assoc] at hall
    exact ⟨c', written', by rw [foldl_cons, heq, heq'], hpub'', hall⟩

end

/-! ### Runs -/

section

variable (env : Environment) (irqHost : IrqHost) (api : IdtApi) (host : IrqLibHost)
  (write : PropertyWriter) (fdo : DeviceObject) (iterate : RtlRangeList → RtlRangeList)

def IrqSystem.transact (sys : IrqSystem) : Transaction → Option IrqSystem
  | .commit =>
    let sys := uacpiNtIrqCommitAllocation api host write fdo iterate sys
    some { sys with arbiter := { sys.arbiter with transactionInProgress := false } }
  | t =>
    (arbiterLibHandler env (irqOps irqHost) sys.arbiter sys.world t.action).map fun r =>
      { sys with arbiter := r.arbiter, world := r.world }

def IrqSystem.run : List Transaction → IrqSystem → Option IrqSystem
  | [], sys => some sys
  | t :: ts, sys =>
    (sys.transact env irqHost api host write fdo iterate t).bind (IrqSystem.run ts)

def CleanCommit (sys : IrqSystem) : Prop :=
  CleanRounds api host write fdo sys.arbiter.possibleAllocation
    (iterate sys.arbiter.possibleAllocation)
    { sys with arbiter := arbiterLibCommitAllocation sys.arbiter }

instance : DecidablePred (CleanCommit api host write fdo iterate) := fun _ =>
  decidableCleanRounds _ _

def Transaction.Clean (sys : IrqSystem) : Transaction → Prop
  | .commit => CleanCommit api host write fdo iterate sys
  | .test .. | .retest .. | .rollback => True

instance (sys : IrqSystem) : DecidablePred (Transaction.Clean api host write fdo iterate sys)
  | .commit => inferInstanceAs (Decidable (CleanCommit ..))
  | .test .. | .retest .. | .rollback => inferInstanceAs (Decidable True)

def CleanAlong : List Transaction → IrqSystem → Prop
  | [], _ => True
  | t :: ts, sys => t.Clean api host write fdo iterate sys ∧
      ∀ sys' ∈ sys.transact env irqHost api host write fdo iterate t, CleanAlong ts sys'

instance decidableCleanAlong : (ts : List Transaction) →
    DecidablePred (CleanAlong env irqHost api host write fdo iterate ts)
  | [], _ => inferInstanceAs (Decidable True)
  | t :: ts, sys =>
    have := decidableCleanAlong ts
    inferInstanceAs (Decidable (t.Clean api host write fdo iterate sys ∧
      ∀ sys' ∈ sys.transact env irqHost api host write fdo iterate t, _))

variable {env irqHost api host write fdo iterate} {sys sys' : IrqSystem}

theorem CleanCommit.commit (hwrite : ∀ pdo data, write pdo data = .ok ())
    (hiter : RangeList.Iterates iterate) (hclean : CleanCommit api host write fdo iterate sys)
    (hpub : TablePublished host sys) :
    ∃ c written, uacpiNtIrqCommitAllocation api host write fdo iterate sys =
        ⟨arbiterLibCommitAllocation sys.arbiter, sys.world, c, written⟩ ∧
      TablePublished host ⟨arbiterLibCommitAllocation sys.arbiter, sys.world, c, written⟩ ∧
      ∀ x ∈ sys.arbiter.possibleAllocation,
        Recorded fdo ⟨arbiterLibCommitAllocation sys.arbiter, sys.world, c, written⟩ x := by
  have hperm := hiter.perm sys.arbiter.possibleAllocation
  obtain ⟨c, written, heq, htable, hrec⟩ := commitRanges_clean hwrite
    (iterate sys.arbiter.possibleAllocation) (fun _ hx => absurd hx not_mem_nil)
    (fun _ hx => hperm.mem_iff.mp hx) hclean hpub
    (fun _ hx => absurd hx not_mem_nil)
  exact ⟨c, written, heq, htable, fun x hx => hrec x (hperm.mem_iff.mpr hx)⟩

theorem TablePublished.transact (hwrite : ∀ pdo data, write pdo data = .ok ())
    (hiter : RangeList.Iterates iterate) {t : Transaction}
    (hclean : t.Clean api host write fdo iterate sys) (hpub : TablePublished host sys)
    (h : sys.transact env irqHost api host write fdo iterate t = some sys') :
    TablePublished host sys' := by
  cases t with
  | commit =>
    obtain ⟨c, written, heq, htable, -⟩ := CleanCommit.commit hwrite hiter hclean hpub
    cases h
    rw [heq]
    exact htable
  | test fuel entries allocateFrom =>
    obtain ⟨r, -, rfl⟩ := Option.map_eq_some_iff.mp h
    exact hpub
  | retest | rollback =>
    rw [IrqSystem.transact] at h
    · obtain ⟨r, -, rfl⟩ := Option.map_eq_some_iff.mp h
      exact hpub
    · nofun

theorem TablePublished.run (hwrite : ∀ pdo data, write pdo data = .ok ())
    (hiter : RangeList.Iterates iterate) (ts : List Transaction)
    (hclean : CleanAlong env irqHost api host write fdo iterate (ts ++ [.commit]) sys)
    (hpub : TablePublished host sys)
    (hrun : sys.run env irqHost api host write fdo iterate (ts ++ [.commit]) = some sys') :
    ∃ mid, TablePublished host mid ∧ CleanCommit api host write fdo iterate mid ∧
      mid.transact env irqHost api host write fdo iterate .commit = some sys' := by
  induction ts generalizing sys with
  | nil =>
    obtain ⟨last, hlast, hsys⟩ := Option.bind_eq_some_iff.mp hrun
    cases hsys
    exact ⟨sys, hpub, hclean.1, hlast⟩
  | cons t ts ih =>
    obtain ⟨next, hnext, hrest⟩ := Option.bind_eq_some_iff.mp hrun
    exact ih (hclean.2 next hnext) (hpub.transact hwrite hiter hclean.1 hnext) hrest

/-- After a commit of a clean run the property of every device has the vectors of its placements,
and a commit of the same allocation writes nothing, whatever the properties are. -/
theorem published_data_matches_allocation (hwrite : ∀ pdo data, write pdo data = .ok ())
    (hiterate : RangeList.Iterates iterate) (ts : List Transaction)
    (hstart : sys.written = [])
    (hclean : CleanAlong env irqHost api host write fdo iterate (ts ++ [.commit]) sys)
    (hrun : sys.run env irqHost api host write fdo iterate (ts ++ [.commit]) = some sys') :
    (∀ owner, owner ≠ fdo → (∃ r ∈ sys'.arbiter.allocation, r.owner = some owner) →
      Describes api host sys' owner) ∧
    ∀ write' properties, ∃ again,
      again = { sys' with
        arbiter := sys'.arbiter.withPossible sys'.arbiter.allocation
        connection := { sys'.connection with properties := properties } } ∧
      (uacpiNtIrqCommitAllocation api host write' fdo iterate again).connection =
        again.connection := by
  have hempty : TablePublished host sys := by
    intro owner w hw
    rw [hstart] at hw
    cases hw
  obtain ⟨mid, hmid, hcommit, hlast⟩ := hempty.run hwrite hiterate ts hclean hrun
  obtain ⟨c, written, heq, htable, hrecorded⟩ := hcommit.commit hwrite hiterate hmid
  cases hlast
  rw [heq]
  refine ⟨?_, fun write' properties => ⟨_, rfl, ?_⟩⟩
  · rintro owner hfdo ⟨r, hr, howner⟩
    obtain ⟨data, hdata, hvectors⟩ := (htable owner _ (hrecorded r hr owner howner hfdo)
      ).placementVectors_eq api mid.world.triggers
    refine ⟨data, hdata, fun vector => ?_⟩
    rw [hvectors]
    refine ⟨fun hvector => ⟨r, hr, howner, hvector⟩, ?_⟩
    rintro ⟨x, hx, hxowner, hvector⟩
    have hsame := (hrecorded x hx owner hxowner hfdo).symm.trans
      (hrecorded r hr owner howner hfdo)
    simp only [Option.some.injEq, IrqWritten.mk.injEq, true_and] at hsame
    rw [← hsame.1, ← hsame.2]
    exact hvector
  · rw [uacpiNtIrqCommitAllocation]
    rw [commitRanges_of_recorded]
    intro x hx
    exact hrecorded x ((hiterate.perm _).mem_iff.mp hx)

end

def IrqSystem.first : IrqSystem where
  arbiter := .plainInterrupt []
  world := .zero
  connection := ⟨uacpiNtSeedProcessor .reference ⟨0, 0⟩ 0 .zero, fun _ => none⟩
  written := []

def Transaction.line (device : Nat) (gsiv : UInt32) : Transaction :=
  .test 10 [.request ⟨device⟩ [.ofLine .shared 0 gsiv]] none

theorem messages_and_line_published :
    ∃ sys, IrqSystem.run .reference .unrouted .reference .plain (fun _ _ => .ok ()) ⟨0⟩
        RangeList.sorted ([.messages 3 4, .commit, .line 5 9] ++ [.commit]) .first = some sys ∧
      Describes .reference .plain sys ⟨3⟩ ∧ Describes .reference .plain sys ⟨5⟩ := by
  have hiterate : RangeList.Iterates (RangeList.sorted : RtlRangeList → RtlRangeList) :=
    RangeList.iterates_sorted UInt64.le_total fun _ _ _ => UInt64.le_trans
  have hclean : CleanAlong .reference .unrouted .reference .plain (fun _ _ => .ok ()) ⟨0⟩
      RangeList.sorted ([.messages 3 4, .commit, .line 5 9] ++ [.commit]) .first := by
    decide +kernel
  have hheld : ∃ sys ∈ IrqSystem.run .reference .unrouted .reference .plain (fun _ _ => .ok ())
      ⟨0⟩ RangeList.sorted ([.messages 3 4, .commit, .line 5 9] ++ [.commit]) .first,
      (∃ r ∈ sys.arbiter.allocation, r.owner = some ⟨3⟩) ∧
        ∃ r ∈ sys.arbiter.allocation, r.owner = some ⟨5⟩ := by
    decide +kernel
  obtain ⟨sys, hrun, hthree, hfive⟩ := hheld
  have hmatch := (published_data_matches_allocation (fun _ _ => rfl) hiterate
    [.messages 3 4, .commit, .line 5 9] rfl hclean hrun).1
  exact ⟨sys, hrun, hmatch ⟨3⟩ (by decide) hthree, hmatch ⟨5⟩ (by decide) hfive⟩

/-- Device 3 moves from four messages to line 9, and the data of its messages stays. -/
theorem messages_published_for_line :
    ∃ sys ∈ IrqSystem.run .reference .unrouted .reference .plain (fun _ _ => .ok ()) ⟨0⟩
        RangeList.sorted [.messages 3 4, .commit, .line 3 9, .commit] .first,
      sys.arbiter.allocation.map (fun r => (r.start, r.owner)) = [(9, some ⟨3⟩)] ∧
      placementVectors .reference .plain sys.world.triggers sys.connection.vectors ⟨3⟩ 9 1 =
        [0x54] ∧
      (sys.connection.properties ⟨3⟩).map (fun data => data.map (·.vector)) =
        some [0x50, 0x51, 0x52, 0x53] := by
  decide +kernel

end UacpiNt
