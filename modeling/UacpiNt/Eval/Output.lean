import UacpiNt.Eval.RoundTrip

/-!
# The output of an evaluation

The result of a method is written behind a header of 12 bytes, one argument for each element of a
package. A sizing pass goes first, so that nothing but the header is written into a buffer that is
too small. The sizes are added up in 32 bits, with the header: a result whose elements alone need
almost 2³² bytes is written whatever the length of the buffer is.
-/

namespace UacpiNt

open Bytes List

def NtError.bufferTooSmall : NtError := .other 0xC0000023

/-- `STATUS_BUFFER_OVERFLOW`, a warning, which is no success either. -/
def NtError.bufferOverflow : NtError := .other 0x80000005

def acpiEvalOutputBufferSignature : UInt32 := 0x426F6541

def evalOutputHeader : Nat := 12

namespace UacpiObject

def elements : UacpiObject → List UacpiObject
  | .package objects => objects
  | object => [object]

def elementDepth : UacpiObject → Nat
  | .package _ => 1
  | _ => 0

end UacpiObject

structure EvalOutput where
  status : NtStatus
  memory : Memory
  information : Nat

/-- `Count` and `Required` are `ULONG`s. -/
def uacpiNtWriteEvalOutput (result : UacpiObject) (output : Option Nat) (outputLength : UInt32)
    (m : Memory) : EvalOutput :=
  let count := result.elements.length % 2 ^ 32
  let objects := result.elements.take count
  match elementWireSizes objects result.elementDepth evalOutputHeader with
  | .error e => ⟨.error e, m, 0⟩
  | .ok required =>
    match output with
    | none => ⟨.error .bufferTooSmall, m, 0⟩
    | some buffer =>
      if outputLength.toNat < evalOutputHeader then ⟨.error .bufferTooSmall, m, 0⟩
      else
        let m := m.write buffer (le32 acpiEvalOutputBufferSignature ++ le32 (.ofNat required))
        if outputLength.toNat < required then
          ⟨.error .bufferOverflow, m.write (buffer + 8) (le32 0), evalOutputHeader⟩
        else
          match elementsToArguments objects
              (m.write (buffer + 8) (le32 (.ofNat count))) (buffer + evalOutputHeader) 0 with
          | (.error e, m) => ⟨.error e, m, 0⟩
          | (.ok _, m) => ⟨.ok (), m, required⟩

namespace UacpiObject

/-! ### Sizes -/

mutual

/-- The bytes an object takes; one without a wire form counts as the smallest argument. -/
def serializedSize : UacpiObject → Nat
  | .integer _ => acpiMethodArgumentLength 4
  | .string data => acpiMethodArgumentLength (data.length + 1)
  | .buffer data => acpiMethodArgumentLength data.length
  | .package objects => acpiMethodArgumentLength (serializedSizes objects)
  | .other => acpiMethodArgumentLength 0

def serializedSizes : List UacpiObject → Nat
  | [] => 0
  | object :: rest => object.serializedSize + serializedSizes rest

end

theorem eight_le_serializedSize (object : UacpiObject) : 8 ≤ object.serializedSize := by
  cases object <;> simp only [serializedSize, acpiMethodArgumentLength] <;> omega

theorem eight_mul_length_le (objects : List UacpiObject) :
    8 * objects.length ≤ serializedSizes objects := by
  induction objects with
  | nil => simp [serializedSizes]
  | cons object rest ih =>
    have hobj := eight_le_serializedSize object
    simp only [length_cons, serializedSizes]
    omega

mutual

theorem wireLength_le_serializedSize (object : UacpiObject) :
    object.wireLength ≤ object.serializedSize := by
  cases object with
  | integer | string | buffer => exact Nat.le_refl _
  | package objects =>
    have hobjs := wireLengths_le_serializedSizes objects
    simp only [wireLength, serializedSize, acpiMethodArgumentLength]
    omega
  | other => exact Nat.zero_le _

theorem wireLengths_le_serializedSizes (objects : List UacpiObject) :
    wireLengths objects ≤ serializedSizes objects := by
  cases objects with
  | nil => exact Nat.le_refl _
  | cons object rest =>
    rw [wireLengths, serializedSizes]
    exact Nat.add_le_add (wireLength_le_serializedSize object) (wireLengths_le_serializedSizes rest)

end

mutual

theorem Fits.serializedSize_eq {object : UacpiObject} {depth : Nat} (h : object.Fits depth) :
    object.serializedSize = object.wireLength := by
  cases object with
  | integer value => rfl
  | string data => rfl
  | buffer data => rfl
  | package objects =>
    rw [serializedSize, wireLength, AllFit.serializedSizes_eq h.2.2]
  | other => cases h

theorem AllFit.serializedSizes_eq {objects : List UacpiObject} {depth : Nat}
    (h : AllFit objects depth) : serializedSizes objects = wireLengths objects := by
  cases objects with
  | nil => rfl
  | cons object rest =>
    rw [serializedSizes, wireLengths, Fits.serializedSize_eq h.1, AllFit.serializedSizes_eq h.2]

end

end UacpiObject

open UacpiObject

/-! ### The cases of a write -/

section

variable {result : UacpiObject}

def outputHeader (required count : Nat) : List UInt8 :=
  le32 acpiEvalOutputBufferSignature ++ le32 (.ofNat required) ++ le32 (.ofNat count)

theorem write_outputHeader (m : Memory) (buffer required count : Nat) :
    (m.write buffer (le32 acpiEvalOutputBufferSignature ++ le32 (.ofNat required))).write
        (buffer + 8) (le32 (.ofNat count)) = m.write buffer (outputHeader required count) := by
  exact (m.write_append buffer (le32 acpiEvalOutputBufferSignature ++ le32 (.ofNat required))
    _).symm

theorem length_elements_mod (hsize : serializedSizes result.elements < 2 ^ 32) :
    result.elements.length % 2 ^ 32 = result.elements.length := by
  have hlen := eight_mul_length_le result.elements
  exact Nat.mod_eq_of_lt (by omega)

theorem writeEvalOutput_of_not_fit (hsize : serializedSizes result.elements < 2 ^ 32)
    (h : ¬ AllFit result.elements result.elementDepth) (output : Option Nat)
    (outputLength : UInt32) :
    ∃ e, ∀ m, uacpiNtWriteEvalOutput result output outputLength m = ⟨.error e, m, 0⟩ := by
  have hlen := wireLengths_le_serializedSizes result.elements
  simp only [uacpiNtWriteEvalOutput, length_elements_mod hsize, take_length]
  cases hsizes : elementWireSizes result.elements result.elementDepth evalOutputHeader with
  | error e => exact ⟨e, fun _ => rfl⟩
  | ok required => exact absurd (allFit_of_wireSizes (by omega) (by decide) hsizes).1 h

variable (hfit : AllFit result.elements result.elementDepth)
  (hsize : wireLengths result.elements < 2 ^ 32) {outputLength : UInt32}

include hfit hsize

theorem writeEvalOutput_of_fit (buffer : Nat) (outputLength : UInt32) (m : Memory) :
    uacpiNtWriteEvalOutput result (some buffer) outputLength m =
      let required := (evalOutputHeader + wireLengths result.elements) % 2 ^ 32
      if outputLength.toNat < evalOutputHeader then ⟨.error .bufferTooSmall, m, 0⟩
      else if outputLength.toNat < required then
        ⟨.error .bufferOverflow, m.write buffer (outputHeader required 0), evalOutputHeader⟩
      else
        ⟨.ok (), (elementsToArguments result.elements
          (m.write buffer (outputHeader required result.elements.length))
          (buffer + evalOutputHeader) 0).2, required⟩ := by
  have hser : serializedSizes result.elements < 2 ^ 32 := by
    rw [hfit.serializedSizes_eq]
    exact hsize
  rw [uacpiNtWriteEvalOutput]
  simp only [length_elements_mod hser, take_length,
    hfit.wireSizes (by decide : evalOutputHeader < 2 ^ 32)]
  split
  · rfl
  split
  · rw [← write_outputHeader]
    rfl
  rw [write_outputHeader]
  rw [← Nat.zero_add (wireLengths result.elements)] at hsize
  obtain ⟨m', hwr, -⟩ := elementsToArguments_spec hfit
    (m.write buffer (outputHeader ((evalOutputHeader + wireLengths result.elements) % 2 ^ 32)
      result.elements.length)) (buffer + evalOutputHeader) hsize
  rw [hwr]

theorem writeEvalOutput_written (buffer : Nat) (m : Memory)
    (hhdr : evalOutputHeader ≤ outputLength.toNat)
    (hroom : (evalOutputHeader + wireLengths result.elements) % 2 ^ 32 ≤ outputLength.toNat) :
    ∃ m', uacpiNtWriteEvalOutput result (some buffer) outputLength m =
        ⟨.ok (), m', (evalOutputHeader + wireLengths result.elements) % 2 ^ 32⟩ ∧
      m'.Holds buffer (outputHeader ((evalOutputHeader + wireLengths result.elements) % 2 ^ 32)
        result.elements.length) ∧ AllSerialized m' result.elements (buffer + evalOutputHeader) ∧
      SameOutside m m' buffer (evalOutputHeader + wireLengths result.elements) := by
  have hwrite := writeEvalOutput_of_fit hfit hsize buffer outputLength m
  simp only [if_neg (Nat.not_lt.mpr hhdr), if_neg (Nat.not_lt.mpr hroom)] at hwrite
  rw [← Nat.zero_add (wireLengths result.elements)] at hsize
  obtain ⟨m', hwr, hser, hsame⟩ := elementsToArguments_spec hfit
    (m.write buffer (outputHeader ((evalOutputHeader + wireLengths result.elements) % 2 ^ 32)
      result.elements.length)) (buffer + evalOutputHeader) hsize
  rw [hwr] at hwrite
  refine ⟨m', hwrite, ?_, hser, fun i hi => ?_⟩
  · exact (Memory.holds_write m buffer _).of_eq fun i _ hlt => hsame i (.inl hlt)
  · rw [hsame i (by omega)]
    exact sameOutside_write m (Nat.le_add_right evalOutputHeader _) i hi

end

/-! ### Exact sizes -/

def ArgumentsExact : Prop :=
  ∀ (object : UacpiObject) (depth n : Nat), object.serializedSize < 2 ^ 32 →
    uacpiNtObjectWireSize object depth = .ok n → ∀ (m : Memory) (a : Nat),
    ∃ m', uacpiNtObjectToArgument object m a = (.ok (), m', n) ∧ SameOutside m m' a n

/-- The output succeeds just if every element has a wire form and all of them fit behind the
header. It then reports what it needs, and otherwise it writes at most the header. -/
structure OutputExact (result : UacpiObject) (buffer : Nat) (outputLength : UInt32)
    (m : Memory) : Prop where
  success_iff : (uacpiNtWriteEvalOutput result (some buffer) outputLength m).status = .ok () ↔
    AllFit result.elements result.elementDepth ∧
      evalOutputHeader + serializedSizes result.elements ≤ outputLength.toNat
  reported : (uacpiNtWriteEvalOutput result (some buffer) outputLength m).status = .ok () →
    (uacpiNtWriteEvalOutput result (some buffer) outputLength m).information =
        evalOutputHeader + serializedSizes result.elements ∧
      ((uacpiNtWriteEvalOutput result (some buffer) outputLength m).memory.read32
        (buffer + 4)).toNat = evalOutputHeader + serializedSizes result.elements
  written : (uacpiNtWriteEvalOutput result (some buffer) outputLength m).status = .ok () →
    SameOutside m (uacpiNtWriteEvalOutput result (some buffer) outputLength m).memory buffer
      (evalOutputHeader + serializedSizes result.elements)
  refused : (uacpiNtWriteEvalOutput result (some buffer) outputLength m).status ≠ .ok () →
    SameOutside m (uacpiNtWriteEvalOutput result (some buffer) outputLength m).memory buffer
      (min evalOutputHeader outputLength.toNat)

theorem argumentsExact : ArgumentsExact := by
  intro object depth n hsize h m a
  have hlen := wireLength_le_serializedSize object
  obtain ⟨hfit, rfl⟩ := fits_of_wireSize (by omega) h
  obtain ⟨m', hwr, -, hsame⟩ := objectToArgument_spec hfit m a
  exact ⟨m', hwr, hsame⟩

section

variable {result : UacpiObject} {buffer : Nat} {outputLength : UInt32} {m : Memory}

theorem OutputExact.of_refused {e : NtError} {m' : Memory} {information : Nat}
    (hwrite : uacpiNtWriteEvalOutput result (some buffer) outputLength m =
      ⟨.error e, m', information⟩) (href : AllFit result.elements result.elementDepth →
      outputLength.toNat < evalOutputHeader + serializedSizes result.elements)
    (hsame : SameOutside m m' buffer (min evalOutputHeader outputLength.toNat)) :
    OutputExact result buffer outputLength m where
  success_iff := by
    rw [hwrite]
    refine iff_of_false nofun fun h => ?_
    exact absurd (href h.1) (Nat.not_lt.mpr h.2)
  reported h := by
    rw [hwrite] at h
    cases h
  written h := by
    rw [hwrite] at h
    cases h
  refused _ := by
    rw [hwrite]
    exact hsame

theorem read32_outputLength {m' : Memory} {required count : Nat} (hreq : required < 2 ^ 32)
    (h : m'.Holds buffer (outputHeader required count)) :
    (m'.read32 (buffer + 4)).toNat = required := by
  rw [outputHeader, append_assoc, Memory.holds_append, Memory.holds_append, length_le32] at h
  rw [h.2.1.read32, UInt32.toNat_ofNat_of_lt' (by rw [UInt32.size]; omega)]

/-- The output is exactly sized, just unless all elements have a wire form and their sizes and the
header make 2³² bytes or more while the header fits into the buffer. -/
theorem eval_output_exactly_sized_iff (hsize : serializedSizes result.elements < 2 ^ 32) :
    (ArgumentsExact ∧ OutputExact result buffer outputLength m) ↔
      evalOutputHeader + serializedSizes result.elements < 2 ^ 32 ∨
        ¬ AllFit result.elements result.elementDepth ∨
        outputLength.toNat < evalOutputHeader := by
  have houtput := outputLength.toNat_lt
  by_cases hfit : AllFit result.elements result.elementDepth
  · have hwrite :=
      writeEvalOutput_of_fit hfit (hfit.serializedSizes_eq ▸ hsize) buffer outputLength m
    have hsizes := hfit.serializedSizes_eq
    by_cases hheader : outputLength.toNat < evalOutputHeader
    · rw [if_pos hheader] at hwrite
      refine iff_of_true ⟨argumentsExact, .of_refused hwrite (fun _ => by omega) fun _ _ => rfl⟩ ?_
      exact .inr (.inr hheader)
    · have hheader' := Nat.not_lt.mp hheader
      by_cases hwrap : evalOutputHeader + wireLengths result.elements < 2 ^ 32
      · refine iff_of_true ⟨argumentsExact, ?_⟩ (.inl (hsizes ▸ hwrap))
        by_cases hroom : outputLength.toNat < evalOutputHeader + wireLengths result.elements
        · rw [if_neg hheader, Nat.mod_eq_of_lt hwrap, if_pos hroom] at hwrite
          refine .of_refused hwrite (fun _ => hsizes ▸ hroom) (sameOutside_write m ?_)
          rw [Nat.min_eq_left hheader']
          exact Nat.le_refl evalOutputHeader
        · have hroom' := Nat.not_lt.mp hroom
          obtain ⟨m', hwritten, hholds, -, hsame⟩ := writeEvalOutput_written hfit
            (hsizes ▸ hsize) buffer m hheader' (by rw [Nat.mod_eq_of_lt hwrap]; exact hroom')
          rw [Nat.mod_eq_of_lt hwrap] at hwritten hholds
          refine ⟨?_, fun _ => ?_, fun _ => ?_, fun h => ?_⟩
          · rw [hwritten, hsizes]
            exact iff_of_true rfl ⟨hfit, hroom'⟩
          · rw [hwritten, hsizes]
            exact ⟨rfl, read32_outputLength hwrap hholds⟩
          · rw [hwritten, hsizes]
            exact hsame
          · rw [hwritten] at h
            exact absurd rfl h
      · -- The sum wraps around to less than the header.
        have hwrapped : (evalOutputHeader + wireLengths result.elements) % 2 ^ 32 <
            evalOutputHeader := by
          rw [evalOutputHeader] at *
          omega
        obtain ⟨m', hwritten, -⟩ := writeEvalOutput_written hfit (hsizes ▸ hsize) buffer m hheader'
          (by omega)
        refine iff_of_false (fun h => ?_) ?_
        · have hsuccess := h.2.success_iff
          rw [hwritten, hsizes] at hsuccess
          have hroom := (hsuccess.mp rfl).2
          omega
        · rintro (hlt | hnot | hlt)
          · exact hwrap (hsizes ▸ hlt)
          · exact hnot hfit
          · exact hheader hlt
  · obtain ⟨e, hwrite⟩ := writeEvalOutput_of_not_fit hsize hfit (some buffer) outputLength
    exact iff_of_true ⟨argumentsExact, .of_refused (hwrite m) (absurd · hfit) fun _ _ => rfl⟩
      (.inr (.inl hfit))

end

theorem integer_and_string_output :
    (uacpiNtWriteEvalOutput (.package [.integer 7, .string [0x41, 0]]) (some 100) 30
      fun _ => 0xFF).status = .ok () ∧
    OutputExact (.package [.integer 7, .string [0x41, 0]]) 100 30 fun _ => 0xFF :=
  ⟨rfl, ((eval_output_exactly_sized_iff (by decide)).mpr (.inl (by decide))).2⟩

namespace UacpiObject

theorem allFit_iff {objects : List UacpiObject} {depth : Nat} :
    AllFit objects depth ↔ ∀ object ∈ objects, object.Fits depth := by
  induction objects with
  | nil => simp [AllFit]
  | cons object rest ih => simp [AllFit, ih]

theorem wireLengths_replicate (n : Nat) (object last : UacpiObject) :
    wireLengths (replicate n object ++ [last]) = n * object.wireLength + last.wireLength := by
  induction n with
  | zero => simp [wireLengths]
  | succ n ih =>
    rw [replicate_succ, cons_append, wireLengths, ih, Nat.succ_mul]
    omega

def almostFull : UacpiObject :=
  .package (List.replicate 65535 (.buffer (List.replicate 65532 0)) ++
    [.buffer (List.replicate 65524 0)])

theorem almostFull_fits : AllFit almostFull.elements almostFull.elementDepth := by
  rw [allFit_iff]
  intro object hobj
  rcases mem_append.mp hobj with hobj | hobj
  · obtain rfl := eq_of_mem_replicate hobj
    rw [Fits, length_replicate]
    decide
  · obtain rfl := mem_singleton.mp hobj
    rw [Fits, length_replicate]
    decide

theorem almostFull_length : wireLengths almostFull.elements = 2 ^ 32 - 8 := by
  rw [almostFull, elements, wireLengths_replicate, wireLength, wireLength,
    length_replicate, length_replicate]
  decide

end UacpiObject

/-- The buffers are written behind the end of an output buffer that only has the header. -/
theorem almostFull_overruns_header :
    serializedSizes almostFull.elements < 2 ^ 32 ∧
    (uacpiNtWriteEvalOutput almostFull (some 0) 12 fun _ => 0).status = .ok () ∧
    (uacpiNtWriteEvalOutput almostFull (some 0) 12 fun _ => 0).information = 4 ∧
    (uacpiNtWriteEvalOutput almostFull (some 0) 12 fun _ => 0).memory 12 = 2 := by
  have hlength := almostFull_length
  have hheader : evalOutputHeader ≤ (12 : UInt32).toNat := by decide
  obtain ⟨m', hwritten, -, hserialized, -⟩ := writeEvalOutput_written almostFull_fits
    (by rw [hlength]; decide) 0 (fun _ => 0) hheader (by rw [hlength]; decide)
  rw [hwritten, almostFull_fits.serializedSizes_eq, hlength]
  refine ⟨by decide, rfl, rfl, ?_⟩
  have hfirst : Serialized m' (.buffer (List.replicate 65532 0)) 12 := hserialized.1
  exact hfirst.1

end UacpiNt
