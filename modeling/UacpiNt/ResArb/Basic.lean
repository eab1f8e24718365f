import UacpiNt.Arbiter.Transaction.Test

/-!
# The resource arbiters

The memory, port and bus number arbiters of a module device. They share their
descriptor routines. The memory arbiter opens more of the space to boot
configurations; the port arbiter also keeps the decode mirrors of a placement free,
claims them with it and withdraws them with it. The bus number arbiter keeps the
library's search.
-/

namespace UacpiNt

def uacpiNtRangeOutsideDecode : UInt8 := 0x20

def uacpiNtResUnpackRequirement (d : IoResourceDescriptor) : Except NtError Requirement :=
  match d.u with
  | .memory _ minimum maximum length alignment
  | .port minimum maximum length alignment =>
    .ok ⟨minimum, maximum, length.toUInt64, if alignment = 0 then 1 else alignment.toUInt64⟩
  | .busNumber minimum maximum length =>
    .ok ⟨minimum.toUInt64, maximum.toUInt64, length.toUInt64, 1⟩
  | _ => .error .invalidParameter

/-- The share disposition and the flags are written before the type is looked at. -/
def uacpiNtResPackResource (requirement : IoResourceDescriptor) (start : UInt64)
    (descriptor : CmPartialResourceDescriptor) : NtStatus × CmPartialResourceDescriptor :=
  let descriptor := { descriptor with
    shareDisposition := requirement.shareDisposition, flags := requirement.flags }
  match requirement.u with
  | .memory _ _ _ length _ => (.ok (), { descriptor with u := .memory false start length })
  | .port _ _ length _ => (.ok (), { descriptor with u := .port start length })
  | .busNumber _ _ length => (.ok (), { descriptor with u := .busNumber start.toUInt32 length })
  | _ => (.error .invalidParameter, descriptor)

def uacpiNtResUnpackResource (d : CmPartialResourceDescriptor) :
    Except NtError (UInt64 × UInt64) :=
  match d.u with
  | .memory _ start length | .port start length => .ok (start, length.toUInt64)
  | .busNumber start length => .ok (start.toUInt64, length.toUInt64)
  | _ => .error .invalidParameter

def maxLong : Nat := 0x7FFFFFFF

/-- The size of the window, saturated; negative if it is unsatisfiable. -/
def uacpiNtResScoreRequirement (d : IoResourceDescriptor) : Int :=
  match uacpiNtResUnpackRequirement d with
  | .error _ => -1
  | .ok req =>
    if req.maximum < req.minimum then -1
    else if (req.maximum - req.minimum).toNat ≥ maxLong then maxLong
    else (req.maximum - req.minimum).toNat + 1

def resOps : ArbiterOps Unit :=
  libraryOps uacpiNtResUnpackRequirement
    (fun requirement start descriptor world =>
      ((uacpiNtResPackResource requirement start descriptor).1,
        (uacpiNtResPackResource requirement start descriptor).2, world))
    uacpiNtResUnpackResource (some uacpiNtResScoreRequirement)

/-- The attributes a boot configuration may be placed over: boot allocated space, and for
a fixed one also space outside the root's decode. -/
def AllocationState.openBootAttributes (st : AllocationState) : AllocationState :=
  if st.entry.bootConfig then
    { st with
      rangeAvailableAttributes := st.rangeAvailableAttributes ||| arbiterRangeBootAllocated |||
        (if st.current.any (·.fixed) then uacpiNtRangeOutsideDecode else 0) }
  else st

def uacpiNtResFindSuitableRange (env : Environment) (arb : ArbiterInstance)
    (st : AllocationState) : (Bool × AllocationState) × Option RtlRange :=
  arbiterLibFindSuitableRange env arb st.openBootAttributes

def memoryOps : ArbiterOps Unit :=
  { resOps with
    findSuitableRange := fun env arb st world =>
      let found := uacpiNtResFindSuitableRange env arb st
      ⟨found.1.1, found.1.2, world, found.2⟩ }

def busNumberOps : ArbiterOps Unit :=
  resOps

/-! ### Decode mirrors -/

/-- How far apart the decode mirrors of a port descriptor are; `none` for a device that
decodes all 16 bits. -/
def portAliasStride (flags : UInt16) : Option UInt64 :=
  if flags &&& 0x0004 ≠ 0 then some 0x400
  else if flags &&& 0x0008 ≠ 0 then some 0x1000
  else none

def uacpiNtNextPortAlias (flags : UInt16) (last : UInt64) : Option UInt64 :=
  (portAliasStride flags).bind fun stride =>
    if last + stride > 0xFFFF ∨ last + stride < last then none else some (last + stride)

def portAliasesFrom (flags : UInt16) : Nat → UInt64 → List UInt64
  | 0, _ => []
  | fuel + 1, last =>
    match uacpiNtNextPortAlias flags last with
    | none => []
    | some next => next :: portAliasesFrom flags fuel next

/-- The mirrors of a placement at `start`. They are at least 0x400 apart, so there are
fewer than 64 of them. -/
def portAliases (flags : UInt16) (start : UInt64) : List UInt64 :=
  portAliasesFrom flags 64 start

namespace AllocationState

/-- The mirrors to keep with the placement; none for an alternative without length. -/
def aliases (st : AllocationState) : List UInt64 :=
  match st.current with
  | none => []
  | some alt => if alt.length = 0 then [] else portAliases alt.descriptor.flags st.start

def aliasRecord (st : AllocationState) (start : UInt64) : RtlRange where
  start := start
  last := start + (st.current.elim 0 (·.length)) - 1
  attributes := st.rangeAttributes ||| arbiterRangePortAlias
  shared := st.current.any (·.shared)
  owner := st.owner

/-- The terms a mirror is checked on; a range without an owner is no conflict. -/
def aliasTerms (arb : ArbiterInstance) (st : AllocationState) : RtlTerms where
  sharedOk := st.current.any (·.shared)
  nullConflictOk := true
  attributeAvailableMask := st.rangeAvailableAttributes
  callback := arb.conflictCallback

end AllocationState

section

variable (rtl : RtlApi) (possible : RtlRangeList) (st : AllocationState)

def uacpiNtPortAliasesAvailable (env : Environment) (arb : ArbiterInstance)
    (st : AllocationState) : List UInt64 → Bool × Option RtlRange
  | [] => (true, none)
  | mirror :: rest =>
    let record := st.aliasRecord mirror
    let answer := env.rtl.isRangeAvailable arb.possibleAllocation mirror record.last
      (st.aliasTerms arb)
    let probe := st.withWindow (mirror, record.last)
    -- The override judges a mirror that is not available, on a copy of the state.
    if answer.1 = .ok true ∨ (arbiterLibOverrideConflict arb.possibleAllocation probe).1 then
      let later := uacpiNtPortAliasesAvailable env arb st rest
      (later.1, later.2 <|> answer.2)
    else (false, answer.2)

/-- Rounds of `UacpiNtResPortFindSuitableRange`: a placement whose mirrors are taken is
skipped and the search goes on above it. -/
def portRounds (env : Environment) (arb : ArbiterInstance) : Nat → AllocationState →
    (Bool × AllocationState) × Option RtlRange
  | 0, st => ((false, st), none)
  | fuel + 1, st =>
    let found := uacpiNtResFindSuitableRange env arb st
    let st' := found.1.2
    let next := st'.start + st'.current.elim 0 (·.length)
    if !found.1.1 then found
    else
      let mirrors := uacpiNtPortAliasesAvailable env arb st' st'.aliases
      let seen := mirrors.2 <|> found.2
      if mirrors.1 then ((true, st'), seen)
      else if !st'.requestsRoom ∨ next ≤ st'.start ∨ next > st'.currentMaximum then
        ((false, st'), seen)
      else
        let later := portRounds env arb fuel { st' with currentMinimum := next }
        (later.1, later.2 <|> seen)

def portRoundsBound : Nat :=
  st.currentMaximum.toNat - st.currentMinimum.toNat + 2

def uacpiNtResPortFindSuitableRange (env : Environment) (arb : ArbiterInstance)
    (st : AllocationState) : (Bool × AllocationState) × Option RtlRange :=
  portRounds env arb (portRoundsBound st) st

def uacpiNtResPortAddAllocation : RtlRangeList :=
  st.aliases.foldl (fun l mirror => rtl.addRange' l (st.aliasRecord mirror) true)
    (arbiterLibAddAllocation rtl possible st)

def uacpiNtResPortBacktrackAllocation : RtlRangeList :=
  arbiterLibBacktrackAllocation rtl
    (st.aliases.foldl (fun l mirror =>
      rtl.deleteRange' l mirror (st.aliasRecord mirror).last st.owner) possible) st

end

def portOps : ArbiterOps Unit :=
  { resOps with
    findSuitableRange := fun env arb st world =>
      let found := uacpiNtResPortFindSuitableRange env arb st
      ⟨found.1.1, found.1.2, world, found.2⟩
    addAllocation := uacpiNtResPortAddAllocation
    backtrackAllocation := uacpiNtResPortBacktrackAllocation }

/-! ### Requests -/

def IoResourceDescriptor.ofMemory (disposition : ShareDisposition) (minimum maximum : UInt64)
    (length alignment : UInt32) : IoResourceDescriptor :=
  ⟨0, disposition, 0, .memory false minimum maximum length alignment⟩

def CmPartialResourceDescriptor.blank : CmPartialResourceDescriptor :=
  ⟨.undetermined, 0, .other 0⟩

def ArbiterListEntry.request (device : DeviceObject) (alternatives : List IoResourceDescriptor) :
    ArbiterListEntry :=
  ⟨alternatives, some device, .pnpEnumerated, false, 0, none, some .blank, .undefined⟩

def ArbiterInstance.plainMemory (allocation : RtlRangeList) : ArbiterInstance :=
  { ArbiterInstance.initial .memory .free .free none with allocation := allocation }

end UacpiNt
