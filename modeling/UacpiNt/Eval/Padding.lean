import UacpiNt.Eval.Output

/-!
# Bytes that only pad

An argument takes at least eight bytes, but only its header and its data are written. A string,
buffer or package with less than four bytes of data leaves the rest of its argument as it was in the
output buffer, and the caller is given these bytes too.
-/

namespace UacpiNt

open Bytes List

namespace UacpiObject

mutual

/-- Every argument of the tree has at least four bytes of data. -/
def Unpadded : UacpiObject → Prop
  | .string data => 4 ≤ data.length + 1
  | .buffer data => 4 ≤ data.length
  | .package objects => objects ≠ [] ∧ AllUnpadded objects
  | _ => True

def AllUnpadded : List UacpiObject → Prop
  | [] => True
  | object :: rest => object.Unpadded ∧ AllUnpadded rest

end

variable {m m' : Memory}

/-! ### Without padding -/

mutual

theorem Serialized.agree {object : UacpiObject} {a depth : Nat} (h : Serialized m object a)
    (h' : Serialized m' object a) (hfit : object.Fits depth) (hfull : object.Unpadded) {i : Nat}
    (hle : a ≤ i) (hlt : i < a + object.wireLength) : m i = m' i := by
  cases object with
  | integer value => exact Memory.Holds.agree h h' hle hlt
  | string data =>
    refine Memory.Holds.agree h h' hle ?_
    simp only [Unpadded] at hfull
    simp only [wireLength, acpiMethodArgumentLength] at hlt
    simp only [length_append, length_argumentHeader, length_singleton]
    omega
  | buffer data =>
    refine Memory.Holds.agree h h' hle ?_
    simp only [Unpadded] at hfull
    simp only [wireLength, acpiMethodArgumentLength] at hlt
    simp only [length_append, length_argumentHeader]
    omega
  | package objects =>
    obtain ⟨hsome, hfull⟩ := hfull
    have hlen := AllFit.eight_mul_le hfit.2.2
    have hpos := length_pos_iff.mpr hsome
    simp only [wireLength, acpiMethodArgumentLength] at hlt
    by_cases hhdr : i < a + 4
    · exact h.1.agree h'.1 hle (by rw [length_argumentHeader]; exact hhdr)
    · exact AllSerialized.agree h.2 h'.2 hfit.2.2 hfull (by omega) (by omega)
  | other => cases h

theorem AllSerialized.agree {objects : List UacpiObject} {a depth : Nat}
    (h : AllSerialized m objects a) (h' : AllSerialized m' objects a)
    (hfit : AllFit objects depth) (hfull : AllUnpadded objects) {i : Nat} (hle : a ≤ i)
    (hlt : i < a + wireLengths objects) : m i = m' i := by
  cases objects with
  | nil =>
    rw [wireLengths] at hlt
    omega
  | cons object rest =>
    rw [wireLengths] at hlt
    by_cases hfst : i < a + object.wireLength
    · exact Serialized.agree h.1 h'.1 hfit.1 hfull.1 hle hfst
    · exact AllSerialized.agree h.2 h'.2 hfit.2 hfull.2 (by omega) (by omega)

end

/-! ### With padding -/

mutual

theorem objectToArgument_untouched {object : UacpiObject} {depth : Nat}
    (hfit : object.Fits depth) (h : ¬ object.Unpadded) (a : Nat) :
    ∃ i, a ≤ i ∧ i < a + object.wireLength ∧
      ∀ m : Memory, (uacpiNtObjectToArgument object m a).2.1 i = m i := by
  cases object with
  | integer value => exact absurd trivial h
  | string data | buffer data =>
    simp only [Unpadded] at h
    refine ⟨a + 7, by omega, ?_, fun m => ?_⟩
    · simp only [wireLength, acpiMethodArgumentLength]
      omega
    rw [uacpiNtObjectToArgument]
    refine m.write_of_ge ?_
    simp only [length_append, length_argumentHeader, length_singleton]
    omega
  | package objects =>
    obtain ⟨-, hlen, hfits⟩ := hfit
    rw [maxUShort] at hlen
    have htot := wireLengths_le_wireLength objects
    by_cases hemp : objects = []
    · subst hemp
      refine ⟨a + 7, by omega, by simp [wireLength, acpiMethodArgumentLength, wireLengths], ?_⟩
      intro m
      rw [uacpiNtObjectToArgument, elementsToArguments]
      exact m.write_of_ge (by rw [length_argumentHeader]; omega)
    · have hpad : ¬ AllUnpadded objects := fun hfull => h ⟨hemp, hfull⟩
      obtain ⟨i, hle, hlt, hsame⟩ := elementsToArguments_untouched hfits hpad (a + 4)
        (by omega : 0 + wireLengths objects < 2 ^ 32)
      refine ⟨i, by omega, by omega, fun m => ?_⟩
      obtain ⟨m', hwr, -⟩ := elementsToArguments_spec hfits m (a + 4)
        (by omega : 0 + wireLengths objects < 2 ^ 32)
      have hi := hsame m
      rw [uacpiNtObjectToArgument]
      rw [hwr] at hi ⊢
      rw [← hi]
      exact m'.write_of_ge (by rw [length_argumentHeader]; omega)
  | other => cases hfit

theorem elementsToArguments_untouched {objects : List UacpiObject} {depth total : Nat}
    (hfit : AllFit objects depth) (h : ¬ AllUnpadded objects) (a : Nat)
    (hlen : total + wireLengths objects < 2 ^ 32) : ∃ i, a ≤ i ∧ i < a + wireLengths objects ∧
      ∀ m : Memory, (elementsToArguments objects m a total).2 i = m i := by
  cases objects with
  | nil => exact absurd trivial h
  | cons object rest =>
    rw [wireLengths] at hlen ⊢
    have hstep : ∀ m : Memory, elementsToArguments (object :: rest) m a total =
        elementsToArguments rest (uacpiNtObjectToArgument object m a).2.1
          (a + object.wireLength) (total + object.wireLength) := by
      intro m
      obtain ⟨m', hwr, -⟩ := objectToArgument_spec hfit.1 m a
      rw [elementsToArguments, hwr]
      simp only
      rw [Nat.mod_eq_of_lt (by omega)]
    have hrest : total + object.wireLength + wireLengths rest < 2 ^ 32 := by omega
    by_cases hfst : object.Unpadded
    · obtain ⟨i, hle, hlt, hsame⟩ := elementsToArguments_untouched hfit.2
        (fun hfull => h ⟨hfst, hfull⟩) (a + object.wireLength) hrest
      refine ⟨i, by omega, by omega, fun m => ?_⟩
      obtain ⟨m', hwr, -, hout⟩ := objectToArgument_spec hfit.1 m a
      rw [hstep, hsame, hwr]
      exact hout i (.inr hle)
    · obtain ⟨i, hle, hlt, hsame⟩ := objectToArgument_untouched hfit.1 hfst a
      refine ⟨i, hle, by omega, fun m => ?_⟩
      obtain ⟨m', hwr, -, hout⟩ := elementsToArguments_spec hfit.2
        (uacpiNtObjectToArgument object m a).2.1 (a + object.wireLength) hrest
      rw [hstep, hwr, ← hsame m]
      exact hout i (.inl hlt)

end

end UacpiObject

open UacpiObject

/-! ### Two buffers -/

/-- What the caller is given does not depend on what the output buffer held before. -/
def LeaksNothing (result : UacpiObject) (buffer : Nat) (outputLength : UInt32) : Prop :=
  ∀ m m' : Memory,
    (uacpiNtWriteEvalOutput result (some buffer) outputLength m).status =
      (uacpiNtWriteEvalOutput result (some buffer) outputLength m').status ∧
    (uacpiNtWriteEvalOutput result (some buffer) outputLength m).information =
      (uacpiNtWriteEvalOutput result (some buffer) outputLength m').information ∧
    ∀ i < (uacpiNtWriteEvalOutput result (some buffer) outputLength m).information,
      (uacpiNtWriteEvalOutput result (some buffer) outputLength m).memory (buffer + i) =
        (uacpiNtWriteEvalOutput result (some buffer) outputLength m').memory (buffer + i)

section

variable {result : UacpiObject} {outputLength : UInt32}

theorem length_outputHeader (required count : Nat) :
    (outputHeader required count).length = evalOutputHeader := rfl

variable {buffer : Nat}

theorem leaksNothing_of_short (hfit : AllFit result.elements result.elementDepth)
    (hsize : wireLengths result.elements < 2 ^ 32)
    (hshort : outputLength.toNat < evalOutputHeader + wireLengths result.elements) :
    LeaksNothing result buffer outputLength := by
  intro m m'
  have hwrite := writeEvalOutput_of_fit hfit hsize buffer outputLength m
  have hwrite' := writeEvalOutput_of_fit hfit hsize buffer outputLength m'
  by_cases hhdr : outputLength.toNat < evalOutputHeader
  · rw [if_pos hhdr] at hwrite hwrite'
    rw [hwrite, hwrite']
    exact ⟨rfl, rfl, fun i hi => absurd hi (Nat.not_lt_zero i)⟩
  by_cases hroom : outputLength.toNat < (evalOutputHeader + wireLengths result.elements) % 2 ^ 32
  · rw [if_neg hhdr, if_pos hroom] at hwrite hwrite'
    rw [hwrite, hwrite']
    refine ⟨rfl, rfl, fun i hi => ?_⟩
    exact (m.holds_write buffer _).agree (m'.holds_write buffer _) (Nat.le_add_right buffer i)
      (Nat.add_lt_add_left hi buffer)
  · -- The sum has wrapped around, so only bytes of the header are reported.
    have houtp := outputLength.toNat_lt
    obtain ⟨m₁, hwr, hholds, -⟩ := writeEvalOutput_written hfit hsize buffer m
      (Nat.not_lt.mp hhdr) (Nat.not_lt.mp hroom)
    obtain ⟨m₂, hwr', hholds', -⟩ := writeEvalOutput_written hfit hsize buffer m'
      (Nat.not_lt.mp hhdr) (Nat.not_lt.mp hroom)
    rw [hwr, hwr']
    refine ⟨rfl, rfl, fun i hi => hholds.agree hholds' (Nat.le_add_right buffer i) ?_⟩
    rw [length_outputHeader]
    simp only [evalOutputHeader] at *
    omega

section

variable (hfit : AllFit result.elements result.elementDepth)
  (hroom : evalOutputHeader + wireLengths result.elements ≤ outputLength.toNat)

include hfit hroom

theorem writeEvalOutput_of_room (buffer : Nat) (m : Memory) :
    ∃ m', uacpiNtWriteEvalOutput result (some buffer) outputLength m =
        ⟨.ok (), m', evalOutputHeader + wireLengths result.elements⟩ ∧
      m' = (elementsToArguments result.elements (m.write buffer (outputHeader
        (evalOutputHeader + wireLengths result.elements) result.elements.length))
        (buffer + evalOutputHeader) 0).2 ∧
      m'.Holds buffer (outputHeader (evalOutputHeader + wireLengths result.elements)
        result.elements.length) ∧ AllSerialized m' result.elements (buffer + evalOutputHeader) := by
  have houtp := outputLength.toNat_lt
  have hwrap : (evalOutputHeader + wireLengths result.elements) % 2 ^ 32 =
      evalOutputHeader + wireLengths result.elements := Nat.mod_eq_of_lt (by omega)
  have hhdr : evalOutputHeader ≤ outputLength.toNat := by omega
  have hwrite := writeEvalOutput_of_fit hfit (by omega) buffer outputLength m
  obtain ⟨m', hwr, hholds, hser, -⟩ := writeEvalOutput_written hfit (by omega) buffer m
    hhdr (by rw [hwrap]; exact hroom)
  simp only [hwrap, if_neg (Nat.not_lt.mpr hroom), if_neg (Nat.not_lt.mpr hhdr)] at hwrite
  rw [hwrap] at hwr hholds
  exact ⟨m', hwr, congrArg EvalOutput.memory (hwr.symm.trans hwrite), hholds, hser⟩

theorem leaksNothing_of_unpadded (hfull : AllUnpadded result.elements) :
    LeaksNothing result buffer outputLength := by
  intro m m'
  obtain ⟨m₁, hwr, -, hholds, hser⟩ := writeEvalOutput_of_room hfit hroom buffer m
  obtain ⟨m₂, hwr', -, hholds', hser'⟩ := writeEvalOutput_of_room hfit hroom buffer m'
  rw [hwr, hwr']
  refine ⟨rfl, rfl, fun i hi => ?_⟩
  simp only at hi
  by_cases hhdr : i < evalOutputHeader
  · exact hholds.agree hholds' (Nat.le_add_right buffer i) (Nat.add_lt_add_left hhdr buffer)
  · exact hser.agree hser' hfit hfull (by omega) (by omega)

theorem leaks_of_padded (hpad : ¬ AllUnpadded result.elements) :
    ¬ LeaksNothing result buffer outputLength := by
  have houtp := outputLength.toNat_lt
  obtain ⟨i, hle, hlt, hsame⟩ := elementsToArguments_untouched hfit hpad
    (buffer + evalOutputHeader) (by omega : 0 + wireLengths result.elements < 2 ^ 32)
  have hkept : ∀ m : Memory, (uacpiNtWriteEvalOutput result (some buffer) outputLength m).memory i =
      m i := by
    intro m
    obtain ⟨m', hwr, hm', -⟩ := writeEvalOutput_of_room hfit hroom buffer m
    rw [hwr]
    simp only
    rw [hm', hsame]
    exact m.write_of_ge hle
  intro h
  obtain ⟨-, -, hbs⟩ := h (fun _ => 0) fun _ => 1
  obtain ⟨m', hwr, -⟩ := writeEvalOutput_of_room hfit hroom buffer fun _ => 0
  have hi := hbs (i - buffer) (by rw [hwr]; simp only; omega)
  rw [Nat.add_sub_cancel' (by omega), hkept, hkept] at hi
  cases hi

end

/-- The output leaks nothing, just unless it is written and some argument of it has less than four
bytes of data. -/
theorem eval_output_leaks_nothing_iff (hsize : serializedSizes result.elements < 2 ^ 32) :
    LeaksNothing result buffer outputLength ↔
      ¬ AllFit result.elements result.elementDepth ∨
        outputLength.toNat < evalOutputHeader + serializedSizes result.elements ∨
        AllUnpadded result.elements := by
  have houtput := outputLength.toNat_lt
  by_cases hfit : AllFit result.elements result.elementDepth
  · have hsizes := hfit.serializedSizes_eq
    rw [hsizes] at hsize ⊢
    by_cases hroom : outputLength.toNat < evalOutputHeader + wireLengths result.elements
    · exact iff_of_true (leaksNothing_of_short hfit hsize hroom) (.inr (.inl hroom))
    · have hroom' := Nat.not_lt.mp hroom
      rw [or_iff_right (not_not.mpr hfit), or_iff_right hroom]
      refine ⟨fun h => ?_, leaksNothing_of_unpadded hfit hroom'⟩
      by_contra hpadded
      exact leaks_of_padded hfit hroom' hpadded h
  · obtain ⟨e, hwrite⟩ := writeEvalOutput_of_not_fit hsize hfit (some buffer) outputLength
    refine iff_of_true (fun m m' => ?_) (.inl hfit)
    rw [hwrite, hwrite]
    exact ⟨rfl, rfl, fun i hi => absurd hi (Nat.not_lt_zero i)⟩

end

theorem integer_and_buffer_leak_nothing :
    (uacpiNtWriteEvalOutput (.package [.integer 7, .buffer [1, 2, 3, 4]]) (some 100) 28
      fun _ => 0xFF).status = .ok () ∧
    LeaksNothing (.package [.integer 7, .buffer [1, 2, 3, 4]]) 100 28 :=
  ⟨rfl, (eval_output_leaks_nothing_iff (by decide)).mpr
    (.inr (.inr ⟨trivial, by simp [Unpadded], trivial⟩))⟩

/-- A buffer of one byte is returned with three bytes of what the output buffer held before. -/
theorem short_buffer_leaks :
    (uacpiNtWriteEvalOutput (.buffer [7]) (some 0) 20 fun _ => 0).status = .ok () ∧
    (uacpiNtWriteEvalOutput (.buffer [7]) (some 0) 20 fun _ => 0).information = 20 ∧
    (uacpiNtWriteEvalOutput (.buffer [7]) (some 0) 20 fun _ => 0).memory 17 = 0 ∧
    (uacpiNtWriteEvalOutput (.buffer [7]) (some 0) 20 fun _ => 0xAA).memory 17 = 0xAA := by
  decide +kernel

end UacpiNt
