import UacpiNt.Machine.Operations

/-!
# Embedded controller transactions

The driver talks to the embedded controller through one input and one output buffer. It waits until
the input buffer is empty before it writes a byte, waits until the output buffer is full before it
reads one, and gives a transaction up when a wait takes too long. The controller accepts the bytes
in order and answers each read and query once, when the output buffer is empty.

The driver never empties the output buffer before it sends a request, so an answer that comes after
its transaction was given up is taken for the answer to the next one. Each transaction has a
number, and an answer carries the number of the request it answers.
-/

namespace UacpiNt

open List Machine Option

/-! ### The controller -/

inductive EcPort where
  | control
  | data
deriving DecidableEq, Repr

structure EcInput where
  port : EcPort
  byte : UInt8
  request : Nat
deriving DecidableEq, Repr

/-- What the controller takes the next byte at the data port for. -/
inductive EcExpect where
  | nothing
  | readAddress
  | writeAddress
  | writeValue
deriving DecidableEq, Repr

structure EcAnswer where
  request : Nat
  byte : UInt8
deriving DecidableEq, Repr

def ecCommandRead : UInt8 := 0x80

def ecCommandWrite : UInt8 := 0x81

def ecCommandQuery : UInt8 := 0x84

/-! ### The driver -/

/-- Where a transaction waits: before the READ command, the address or the answer of a byte read;
before the WRITE command, the address or the value of a byte write; before the QUERY command or its
answer. -/
inductive EcStage where
  | idle
  | readCommand (address : UInt8)
  | readAddress (address : UInt8)
  | readOutput (address : UInt8)
  | writeCommand (address value : UInt8)
  | writeAddress (address value : UInt8)
  | writeValue (value : UInt8)
  | queryCommand
  | queryOutput
deriving DecidableEq, Repr

/-- A byte read that returned TRUE: its transaction, its address, and the answer that it took. -/
structure EcRead where
  request : Nat
  address : UInt8
  answer : EcAnswer
deriving DecidableEq, Repr

/-- The controller and the transaction that holds its lock. `owed` are the requests that the
controller has accepted and not answered yet. -/
structure EcSystem where
  input : Option EcInput
  expects : EcExpect
  owed : List Nat
  output : Option EcAnswer
  sciEvt : Bool
  stage : EcStage
  elapsed : Nat
  transactions : Nat
  reads : List EcRead
deriving DecidableEq, Repr

/-- What happens: the driver begins a transaction or polls the status, the controller accepts a
byte, answers a request, or changes its event flag. -/
inductive EcOp where
  | readByte (address : UInt8)
  | writeByte (address value : UInt8)
  | fetchQuery
  | poll
  | accept
  | answer (byte : UInt8)
  | event (pending : Bool)
deriving DecidableEq, Repr

/-- What a poll in `UacpiNtEcWaitStatus` finds. -/
inductive EcWait where
  | ready
  | timedOut
  | again
deriving DecidableEq, Repr

def uacpiNtEcWaitStatus (status mask expected : UInt8) (elapsed : Nat) : EcWait :=
  if status &&& mask = expected then .ready else if 10000 ≤ elapsed then .timedOut else .again

/-- The mask and the expected bits that a transaction waits for: `UacpiNtEcWaitInputEmpty` or
`UacpiNtEcWaitOutputFull`. -/
def EcStage.awaits : EcStage → Option (UInt8 × UInt8)
  | .idle => none
  | .readCommand _ | .readAddress _ | .writeCommand _ _ | .writeAddress _ _ | .writeValue _
  | .queryCommand => some (0x02, 0)
  | .readOutput _ | .queryOutput => some (0x01, 0x01)

def EcStage.beforeAddress : EcStage → Bool
  | .readCommand _ | .readAddress _ => true
  | .idle | .readOutput _ | .writeCommand _ _ | .writeAddress _ _ | .writeValue _ | .queryCommand
  | .queryOutput => false

def EcStage.sendsAddress : EcStage → Bool
  | .readAddress _ => true
  | .idle | .readCommand _ | .readOutput _ | .writeCommand _ _ | .writeAddress _ _ | .writeValue _
  | .queryCommand | .queryOutput => false

namespace EcSystem

section

variable (s : EcSystem)

def reset : EcSystem where
  input := none
  expects := .nothing
  owed := []
  output := none
  sciEvt := false
  stage := .idle
  elapsed := 0
  transactions := 0
  reads := []

def uacpiNtEcReadStatus : UInt8 :=
  (if s.output.isSome then 0x01 else 0) ||| (if s.input.isSome then 0x02 else 0) |||
    (if s.sciEvt then 0x20 else 0)

def acceptByte (b : EcInput) : EcSystem :=
  match b.port with
  | .control =>
    if b.byte = ecCommandRead then { s with input := none, expects := .readAddress }
    else if b.byte = ecCommandWrite then { s with input := none, expects := .writeAddress }
    else if b.byte = ecCommandQuery then
      { s with input := none, expects := .nothing, owed := s.owed ++ [b.request] }
    else { s with input := none, expects := .nothing }
  | .data =>
    match s.expects with
    | .readAddress => { s with input := none, expects := .nothing, owed := s.owed ++ [b.request] }
    | .writeAddress => { s with input := none, expects := .writeValue }
    | .nothing | .writeValue => { s with input := none, expects := .nothing }

def send (port : EcPort) (byte : UInt8) (next : EcStage) : EcSystem :=
  { s with input := some ⟨port, byte, s.transactions⟩, stage := next, elapsed := 0 }

/-- What `UacpiNtEcReadByte`, `UacpiNtEcWriteByte` and `UacpiNtEcFetchQuery` do when a wait has
succeeded. -/
def advance : EcSystem :=
  match s.stage with
  | .idle => s
  | .readCommand address => s.send .control ecCommandRead (.readAddress address)
  | .readAddress address => s.send .data address (.readOutput address)
  | .readOutput address =>
    { s with
      output := none
      stage := .idle
      reads := s.reads ++ (s.output.map fun answer => ⟨s.transactions, address, answer⟩).toList }
  | .writeCommand address value => s.send .control ecCommandWrite (.writeAddress address value)
  | .writeAddress address value => s.send .data address (.writeValue value)
  | .writeValue value => s.send .data value .idle
  | .queryCommand => s.send .control ecCommandQuery .queryOutput
  | .queryOutput => { s with output := none, stage := .idle }

def poll : Option EcSystem :=
  s.stage.awaits.map fun wait =>
    match uacpiNtEcWaitStatus s.uacpiNtEcReadStatus wait.1 wait.2 s.elapsed with
    | .ready => s.advance
    | .timedOut => { s with stage := .idle }
    | .again => { s with elapsed := s.elapsed + 10 }

def begin (stage : EcStage) : Option EcSystem :=
  if s.stage = .idle then
    some { s with stage := stage, elapsed := 0, transactions := s.transactions + 1 }
  else none

def step : EcOp → Option EcSystem
  | .readByte address => s.begin (.readCommand address)
  | .writeByte address value => s.begin (.writeCommand address value)
  | .fetchQuery =>
    s.begin (if s.uacpiNtEcReadStatus &&& 0x20 ≠ 0 then .queryCommand else .idle)
  | .poll => s.poll
  | .accept => s.input.map s.acceptByte
  | .answer byte =>
    match s.output, s.owed with
    | none, request :: rest => some { s with output := some ⟨request, byte⟩, owed := rest }
    | _, _ => none
  | .event pending => some { s with sciEvt := pending }

/-- Nothing is owed or waits in the output buffer when a read sends its address. -/
def Drained : EcOp → Prop
  | .poll => s.stage.sendsAddress = true → s.input = none → s.owed = [] ∧ s.output = none
  | .readByte _ | .writeByte _ _ | .fetchQuery | .accept | .answer _ | .event _ => True

instance : DecidablePred s.Drained
  | .poll => inferInstanceAs (Decidable (_ → _ → _ = [] ∧ _ = none))
  | .readByte _ | .writeByte _ _ | .fetchQuery | .accept | .answer _ | .event _ => .isTrue trivial

end

/-! ### What a poll finds -/

variable {s s' : EcSystem} {op : EcOp}

theorem inputEmpty_iff : s.uacpiNtEcReadStatus &&& 0x02 = 0 ↔ s.input = none := by
  have hnone : s.input = none ↔ s.input.isSome = false := by
    rw [isSome_eq_false_iff, isNone_iff_eq_none]
  rw [uacpiNtEcReadStatus, hnone]
  cases s.input.isSome <;> cases s.output.isSome <;> cases s.sciEvt <;> decide

theorem outputFull_iff : s.uacpiNtEcReadStatus &&& 0x01 = 0x01 ↔ s.output.isSome = true := by
  rw [uacpiNtEcReadStatus]
  cases s.input.isSome <;> cases s.output.isSome <;> cases s.sciEvt <;> decide

def Ready (s : EcSystem) : Prop :=
  ∃ wait, s.stage.awaits = some wait ∧ s.uacpiNtEcReadStatus &&& wait.1 = wait.2

theorem poll_of_ready (h : s.Ready) : s.poll = some s.advance := by
  obtain ⟨wait, hwait, hstat⟩ := h
  simp [poll, hwait, uacpiNtEcWaitStatus, hstat]

theorem poll_cases (h : s.poll = some s') :
    s.Ready ∧ s' = s.advance ∨ s' = { s with stage := .idle } ∨
      s' = { s with elapsed := s.elapsed + 10 } := by
  obtain ⟨wait, hwait, rfl⟩ := map_eq_some_iff.1 h
  rw [uacpiNtEcWaitStatus]
  by_cases hstat : s.uacpiNtEcReadStatus &&& wait.1 = wait.2
  · rw [if_pos hstat]
    exact .inl ⟨⟨wait, hwait, hstat⟩, rfl⟩
  rw [if_neg hstat]
  by_cases hlate : 10000 ≤ s.elapsed
  · rw [if_pos hlate]
    exact .inr (.inl rfl)
  · rw [if_neg hlate]
    exact .inr (.inr rfl)

variable {stage : EcStage}

theorem begin_eq_some (h : s.begin stage = some s') : s.stage = .idle ∧
      s' = { s with stage := stage, elapsed := 0, transactions := s.transactions + 1 } := by
  obtain ⟨hidle, rfl⟩ : s.stage = .idle ∧
      { s with stage := stage, elapsed := 0, transactions := s.transactions + 1 } = s' := by
    simpa [begin] using h
  exact ⟨hidle, rfl⟩

theorem answer_eq_some {byte : UInt8} (h : step s (.answer byte) = some s') :
    ∃ request rest, s.output = none ∧ s.owed = request :: rest ∧
      s' = { s with output := some ⟨request, byte⟩, owed := rest } := by
  simp only [step] at h
  split at h
  · rename_i request rest hout howed
    cases h
    exact ⟨request, rest, hout, howed, rfl⟩
  · cases h

theorem acceptByte_cases (b : EcInput) :
    ∃ expects, s.acceptByte b = { s with input := none, expects := expects } ∨
      ¬ (b.port = .control ∧ b.byte = ecCommandRead) ∧ s.acceptByte b =
          { s with input := none, expects := expects, owed := s.owed ++ [b.request] } := by
  rw [acceptByte]
  cases hport : b.port with
  | control =>
    dsimp only
    split
    · exact ⟨_, .inl rfl⟩
    rename_i hread
    split
    · exact ⟨_, .inl rfl⟩
    · split
      · exact ⟨_, .inr ⟨fun h => hread h.2, rfl⟩⟩
      · exact ⟨_, .inl rfl⟩
  | data =>
    dsimp only
    split
    · exact ⟨_, .inr ⟨fun h => (by cases h.1), rfl⟩⟩
    · exact ⟨_, .inl rfl⟩
    · exact ⟨_, .inl rfl⟩
    · exact ⟨_, .inl rfl⟩

/-! ### Reads that are in step -/

/-- Everything that a read waits for is its own, and every read took its own answer. -/
structure InStep (s : EcSystem) : Prop where
  own : ∀ address, s.stage = .readOutput address →
    (∀ b ∈ s.input, b.request = s.transactions) ∧ (∀ r ∈ s.owed, r = s.transactions) ∧
      ∀ a ∈ s.output, a.request = s.transactions
  reads : ∀ r ∈ s.reads, r.answer.request = r.request

theorem InStep.of_stage (hs : s.InStep) (hstage : ∀ address, s'.stage ≠ .readOutput address)
    (hreads : s'.reads = s.reads) : s'.InStep :=
  ⟨fun address h => absurd h (hstage address), hreads ▸ hs.reads⟩

theorem InStep.advance (hs : s.InStep) (hready : s.Ready) (hdrain : s.Drained .poll) :
    s.advance.InStep := by
  obtain ⟨wait, hwait, hstat⟩ := hready
  rw [EcSystem.advance]
  cases hstage : s.stage with
  | idle => exact hs
  | readCommand | writeCommand | writeAddress | writeValue | queryCommand =>
    exact hs.of_stage (by simp [send]) rfl
  | readAddress address =>
    rw [hstage] at hwait
    cases hwait
    obtain ⟨howed, hout⟩ := hdrain (by rw [hstage]; rfl) (inputEmpty_iff.1 hstat)
    refine ⟨fun _ _ => ⟨?_, ?_, ?_⟩, hs.reads⟩
    · rintro b ⟨⟩
      rfl
    · simp [send, howed]
    · simp [send, hout]
  | readOutput address =>
    refine ⟨fun _ h => (by cases h), fun r hr => ?_⟩
    rcases mem_append.1 hr with hold | hnew
    · exact hs.reads r hold
    · obtain ⟨answer, hans, rfl⟩ := map_eq_some_iff.1 (mem_toList.1 hnew)
      exact (hs.own address hstage).2.2 answer hans
  | queryOutput => exact hs.of_stage (by simp) rfl

theorem InStep.begin (hs : s.InStep) (hstage : ∀ address, stage ≠ .readOutput address)
    (h : s.begin stage = some s') : s'.InStep := by
  obtain ⟨-, rfl⟩ := begin_eq_some h
  exact hs.of_stage hstage rfl

theorem InStep.step (hs : s.InStep) (h : step s op = some s') (hdrain : s.Drained op) :
    s'.InStep := by
  cases op with
  | readByte | writeByte => exact hs.begin (by simp) h
  | fetchQuery =>
    refine hs.begin (fun address => ?_) h
    split <;> simp
  | poll =>
    obtain ⟨hready, rfl⟩ | rfl | rfl := poll_cases h
    · exact hs.advance hready hdrain
    · exact hs.of_stage (by simp) rfl
    · exact ⟨hs.own, hs.reads⟩
  | accept =>
    obtain ⟨b, hb, rfl⟩ := map_eq_some_iff.1 h
    obtain ⟨expects, heq | ⟨-, heq⟩⟩ := acceptByte_cases (s := s) b
    · rw [heq]
      refine ⟨fun address hstage => ?_, hs.reads⟩
      obtain ⟨-, howed, hout⟩ := hs.own address hstage
      exact ⟨fun _ h => (by cases h), howed, hout⟩
    · rw [heq]
      refine ⟨fun address hstage => ?_, hs.reads⟩
      obtain ⟨hinp, howed, hout⟩ := hs.own address hstage
      refine ⟨fun _ h => (by cases h), fun r hr => ?_, hout⟩
      rcases mem_append.1 hr with hold | hnew
      · exact howed r hold
      · obtain rfl := mem_singleton.1 hnew
        exact hinp b hb
  | answer byte =>
    obtain ⟨request, rest, -, howed, rfl⟩ := answer_eq_some h
    refine ⟨fun address hstage => ?_, hs.reads⟩
    obtain ⟨hinp, hown, -⟩ := hs.own address hstage
    rw [howed] at hown
    refine ⟨hinp, fun r hr => hown r (mem_cons_of_mem request hr), ?_⟩
    rintro a ⟨⟩
    exact hown request mem_cons_self
  | event pending =>
    cases h
    exact ⟨hs.own, hs.reads⟩

/-! ### Reads that are not -/

/-- Requests are no later than the transaction, and earlier than a read that has not sent its
address; the only byte of its own is the READ command. -/
structure Numbered (s : EcSystem) : Prop where
  owed : ∀ r ∈ s.owed, r ≤ s.transactions
  output : ∀ a ∈ s.output, a.request ≤ s.transactions
  input : ∀ b ∈ s.input, b.request ≤ s.transactions
  earlier : s.stage.beforeAddress = true → (∀ r ∈ s.owed, r < s.transactions) ∧
    (∀ a ∈ s.output, a.request < s.transactions) ∧
    ∀ b ∈ s.input, b.request < s.transactions ∨ b.port = .control ∧ b.byte = ecCommandRead

theorem numbered_reset : reset.Numbered where
  owed := fun _ h => by cases h
  output := fun _ h => by cases h
  input := fun _ h => by cases h
  earlier := fun h => by cases h

theorem Numbered.send (hs : s.Numbered) (port : EcPort) (byte : UInt8) {next : EcStage}
    (hnext : next.beforeAddress = true →
      s.stage.beforeAddress = true ∧ port = .control ∧ byte = ecCommandRead) :
    (s.send port byte next).Numbered := by
  refine ⟨hs.owed, hs.output, ?_, fun h => ?_⟩
  · rintro b ⟨⟩
    exact Nat.le_refl _
  obtain ⟨hbef, rfl, rfl⟩ := hnext h
  obtain ⟨howed, hout, -⟩ := hs.earlier hbef
  refine ⟨howed, hout, ?_⟩
  rintro b ⟨⟩
  exact .inr ⟨rfl, rfl⟩

theorem Numbered.advance (hs : s.Numbered) : s.advance.Numbered := by
  rw [EcSystem.advance]
  cases hstage : s.stage with
  | idle => exact hs
  | readCommand address => exact hs.send _ _ fun _ => ⟨by rw [hstage]; rfl, rfl, rfl⟩
  | readAddress | writeCommand | writeAddress | writeValue | queryCommand =>
    exact hs.send _ _ fun h => by cases h
  | readOutput | queryOutput =>
    exact ⟨hs.owed, fun _ h => (by cases h), hs.input, fun h => by cases h⟩

theorem Numbered.begin (hs : s.Numbered) (h : s.begin stage = some s') : s'.Numbered := by
  obtain ⟨-, rfl⟩ := begin_eq_some h
  have howed : ∀ r ∈ s.owed, r < s.transactions + 1 := fun r hr => Nat.lt_succ_of_le (hs.owed r hr)
  have hout : ∀ a ∈ s.output, a.request < s.transactions + 1 :=
    fun a ha => Nat.lt_succ_of_le (hs.output a ha)
  have hinp : ∀ b ∈ s.input, b.request < s.transactions + 1 :=
    fun b hb => Nat.lt_succ_of_le (hs.input b hb)
  exact ⟨fun r hr => Nat.le_of_lt (howed r hr), fun a ha => Nat.le_of_lt (hout a ha),
    fun b hb => Nat.le_of_lt (hinp b hb),
    fun _ => ⟨howed, hout, fun b hb => .inl (hinp b hb)⟩⟩

theorem Numbered.step (hs : s.Numbered) (h : step s op = some s') : s'.Numbered := by
  cases op with
  | readByte | writeByte | fetchQuery => exact hs.begin h
  | poll =>
    obtain ⟨-, rfl⟩ | rfl | rfl := poll_cases h
    · exact hs.advance
    · exact ⟨hs.owed, hs.output, hs.input, fun h => by cases h⟩
    · exact ⟨hs.owed, hs.output, hs.input, hs.earlier⟩
  | accept =>
    obtain ⟨b, hb, rfl⟩ := map_eq_some_iff.1 h
    obtain ⟨expects, heq | ⟨hoth, heq⟩⟩ := acceptByte_cases (s := s) b
    · rw [heq]
      refine ⟨hs.owed, hs.output, fun _ h => (by cases h), fun hbef => ?_⟩
      obtain ⟨howed, hout, -⟩ := hs.earlier hbef
      exact ⟨howed, hout, fun _ h => by cases h⟩
    · rw [heq]
      refine ⟨fun r hr => ?_, hs.output, fun _ h => (by cases h), fun hbef => ?_⟩
      · rcases mem_append.1 hr with hold | hnew
        · exact hs.owed r hold
        · obtain rfl := mem_singleton.1 hnew
          exact hs.input b hb
      · obtain ⟨howed, hout, hinp⟩ := hs.earlier hbef
        refine ⟨fun r hr => ?_, hout, fun _ h => by cases h⟩
        rcases mem_append.1 hr with hold | hnew
        · exact howed r hold
        · obtain rfl := mem_singleton.1 hnew
          exact (hinp b hb).resolve_right hoth
  | answer byte =>
    obtain ⟨request, rest, -, howed, rfl⟩ := answer_eq_some h
    have hmem : request ∈ s.owed := howed ▸ mem_cons_self
    have hrest : ∀ r ∈ rest, r ∈ s.owed := fun r hr => howed ▸ mem_cons_of_mem request hr
    refine ⟨fun r hr => hs.owed r (hrest r hr), ?_, hs.input, fun hbef => ?_⟩
    · rintro a ⟨⟩
      exact hs.owed request hmem
    obtain ⟨hear, -, hinp⟩ := hs.earlier hbef
    refine ⟨fun r hr => hear r (hrest r hr), ?_, hinp⟩
    rintro a ⟨⟩
    exact hear request hmem
  | event pending =>
    cases h
    exact ⟨hs.owed, hs.output, hs.input, hs.earlier⟩

variable {address : UInt8}

theorem poll_readOutput {answer : EcAnswer} (hstage : s.stage = .readOutput address)
    (hout : s.output = some answer) : step s .poll = some { s with
      output := none
      stage := .idle
      reads := s.reads ++ [⟨s.transactions, address, answer⟩] } := by
  have hready : s.Ready := ⟨_, by rw [hstage]; rfl, outputFull_iff.2 (by rw [hout]; rfl)⟩
  rw [EcSystem.step, poll_of_ready hready]
  simp [EcSystem.advance, hstage, hout]

/-- A read that sends its address while an earlier request is owed, or its answer in the output
buffer, can take that answer. -/
theorem exists_wrong_read (hs : s.Numbered) (hstage : s.stage = .readAddress address)
    (hinp : s.input = none) (hleft : ¬ (s.owed = [] ∧ s.output = none)) :
    ∃ ops t, exec step (.poll :: ops) s = some t ∧
      ∃ r ∈ t.reads, r.request = s.transactions ∧ r.answer.request < r.request := by
  obtain ⟨howed, hout, -⟩ := hs.earlier (by rw [hstage]; rfl)
  have hready : s.Ready := ⟨_, by rw [hstage]; rfl, inputEmpty_iff.2 hinp⟩
  have hsend : step s .poll = some (s.send .data address (.readOutput address)) := by
    rw [EcSystem.step, poll_of_ready hready]
    simp [EcSystem.advance, hstage]
  cases hans : s.output with
  | some answer =>
    refine ⟨[.poll], _, exec_cons_eq_some.2 ⟨_, hsend, exec_cons_eq_some.2 ⟨_,
      poll_readOutput rfl hans, rfl⟩⟩, _, mem_append_right _ mem_cons_self, rfl, ?_⟩
    exact hout answer hans
  | none =>
    obtain ⟨request, rest, hreq⟩ := exists_cons_of_ne_nil (fun h => hleft ⟨h, hans⟩)
    have hansw : step (s.send .data address (.readOutput address)) (.answer 0) =
        some { s.send .data address (.readOutput address) with
          output := some ⟨request, 0⟩, owed := rest } := by
      simp [EcSystem.step, send, hans, hreq]
    refine ⟨[.answer 0, .poll], _, exec_cons_eq_some.2 ⟨_, hsend, exec_cons_eq_some.2 ⟨_, hansw,
      exec_cons_eq_some.2 ⟨_, poll_readOutput rfl rfl, rfl⟩⟩⟩, _,
      mem_append_right _ mem_cons_self, rfl, ?_⟩
    exact howed request (hreq ▸ mem_cons_self)

/-! ### Whole runs -/

/-- If nothing is owed or waits in the output buffer whenever a read sends its address, then every
read that returns TRUE returns the answer to its own request. The first read that sends its address
otherwise can return the answer to an earlier request. -/
theorem ec_reads_in_step {ops : List EcOp} (hexec : exec step ops reset = some s)
    (hdrained : Throughout step (fun s op _ => s.Drained op) ops reset) :
    (∀ r ∈ s.reads, r.answer.request = r.request) ∧
    (∀ address, s.stage = .readAddress address → s.input = none →
      ¬ (s.owed = [] ∧ s.output = none) →
      ∃ ops' t, exec step (.poll :: ops') s = some t ∧
        ∃ r ∈ t.reads, r.request = s.transactions ∧ r.answer.request < r.request) := by
  have hinStep : s.InStep :=
    exec_invariant (fun _ _ _ hs h hdrained => hs.step h hdrained) hexec
      ⟨fun _ h => (by cases h), fun _ h => (by cases h)⟩ hdrained
  have hnumbered : s.Numbered :=
    exec_preserves (fun _ _ _ hs h => hs.step h) hexec numbered_reset
  exact ⟨hinStep.reads, fun address hstage hinput hleft =>
    exists_wrong_read hnumbered hstage hinput hleft⟩

theorem two_reads_in_step :
    ∃ s, exec step [.readByte 0x10, .poll, .accept, .poll, .accept, .poll, .answer 7, .poll,
        .readByte 0x20, .poll, .accept, .poll, .accept, .answer 8, .poll] reset = some s ∧
      s.reads = [⟨1, 0x10, ⟨1, 7⟩⟩, ⟨2, 0x20, ⟨2, 8⟩⟩] ∧
      ∀ r ∈ s.reads, r.answer.request = r.request := by
  have hrun : exec step [.readByte 0x10, .poll, .accept, .poll, .accept, .poll, .answer 7, .poll,
      .readByte 0x20, .poll, .accept, .poll, .accept, .answer 8, .poll] reset = some _ := rfl
  exact ⟨_, hrun, rfl, (ec_reads_in_step hrun (by decide)).1⟩

theorem exec_polls (n : Nat) (hstage : s.stage = .readOutput address) (hout : s.output = none)
    (hn : s.elapsed + 10 * n ≤ 10000) :
    exec step (replicate n .poll) s = some { s with elapsed := s.elapsed + 10 * n } := by
  induction n generalizing s with
  | zero => rfl
  | succ n ih =>
    have hstat : ¬ s.uacpiNtEcReadStatus &&& 0x01 = 0x01 := by
      rw [outputFull_iff, hout]
      exact Bool.false_ne_true
    have hlate : ¬ 10000 ≤ s.elapsed := by omega
    have hpoll : step s .poll = some { s with elapsed := s.elapsed + 10 } := by
      simp [EcSystem.step, poll, hstage, EcStage.awaits, uacpiNtEcWaitStatus, hstat, hlate]
    have hrest := ih (s := { s with elapsed := s.elapsed + 10 }) hstage hout
      (show s.elapsed + 10 + 10 * n ≤ 10000 by omega)
    have htot : s.elapsed + 10 + 10 * n = s.elapsed + 10 * (n + 1) := by omega
    rw [replicate_succ, exec, hpoll, bind_some, hrest, htot]

/-- A read is given up, and the next read takes its answer. -/
theorem late_answer_read :
    ∃ s, exec step ([.readByte 0x10, .poll, .accept, .poll, .accept] ++ List.replicate 1000 .poll ++
        [.poll, .readByte 0x20, .poll, .accept, .poll, .answer 7, .poll]) reset = some s ∧
      s.reads = [⟨2, 0x20, ⟨1, 7⟩⟩] := by
  have hfirst : exec step [.readByte 0x10, .poll, .accept, .poll, .accept] reset =
      some ⟨none, .nothing, [1], none, false, .readOutput 0x10, 0, 1, []⟩ := rfl
  have hpolls : exec step (List.replicate 1000 .poll)
      ⟨none, .nothing, [1], none, false, .readOutput 0x10, 0, 1, []⟩ =
        some ⟨none, .nothing, [1], none, false, .readOutput 0x10, 10000, 1, []⟩ :=
    exec_polls 1000 rfl rfl (by decide)
  have hrest : exec step [.poll, .readByte 0x20, .poll, .accept, .poll, .answer 7, .poll]
      ⟨none, .nothing, [1], none, false, .readOutput 0x10, 10000, 1, []⟩ =
        some ⟨some ⟨.data, 0x20, 2⟩, .readAddress, [], none, false, .idle, 0, 2,
          [⟨2, 0x20, ⟨1, 7⟩⟩]⟩ := rfl
  refine ⟨⟨some ⟨.data, 0x20, 2⟩, .readAddress, [], none, false, .idle, 0, 2,
    [⟨2, 0x20, ⟨1, 7⟩⟩]⟩, ?_, rfl⟩
  rw [exec_append, exec_append, hfirst, Option.bind_some, hpolls, Option.bind_some, hrest]

end EcSystem

end UacpiNt
