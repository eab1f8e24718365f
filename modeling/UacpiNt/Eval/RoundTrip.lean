import UacpiNt.Eval.Wire

/-!
# The wire form of an object

`Serialized m object a` says that the memory holds the wire form of an object at an address. The
encoder establishes it, without touching any byte outside the object's wire length; the decoder
gives the object back from any memory in which it holds, up to what the format cannot carry: an
integer keeps its low 32 bits, and a string is stored with its NUL.
-/

namespace UacpiNt

open Bytes List

namespace UacpiObject

/-! ### The format -/

mutual

def wireLength : UacpiObject → Nat
  | .integer _ => acpiMethodArgumentLength 4
  | .string data => acpiMethodArgumentLength (data.length + 1)
  | .buffer data => acpiMethodArgumentLength data.length
  | .package objects => acpiMethodArgumentLength (wireLengths objects)
  | .other => 0

def wireLengths : List UacpiObject → Nat
  | [] => 0
  | object :: rest => object.wireLength + wireLengths rest

end

mutual

/-- The object has a wire form at a depth: every length fits its field, and packages are not
nested too deep. -/
def Fits : UacpiObject → Nat → Prop
  | .integer _, _ => True
  | .string data, _ => data.length + 1 ≤ maxUShort
  | .buffer data, _ => data.length ≤ maxUShort
  | .package objects, depth =>
    depth < uacpiNtEvalMaxDepth ∧ wireLengths objects ≤ maxUShort ∧ AllFit objects (depth + 1)
  | .other, _ => False

def AllFit : List UacpiObject → Nat → Prop
  | [], _ => True
  | object :: rest, depth => object.Fits depth ∧ AllFit rest depth

end

mutual

/-- The memory holds the wire form of the object. Bytes that only pad are not looked at. -/
def Serialized (m : Memory) : UacpiObject → Nat → Prop
  | .integer value, a =>
    m.Holds a (argumentHeader acpiMethodArgumentInteger 4 ++ le32 value.toUInt32)
  | .string data, a =>
    m.Holds a (argumentHeader acpiMethodArgumentString (data.length + 1) ++ (data ++ [0]))
  | .buffer data, a =>
    m.Holds a (argumentHeader acpiMethodArgumentBuffer data.length ++ data)
  | .package objects, a =>
    m.Holds a (argumentHeader acpiMethodArgumentPackage (wireLengths objects)) ∧
      AllSerialized m objects (a + 4)
  | .other, _ => False

def AllSerialized (m : Memory) : List UacpiObject → Nat → Prop
  | [], _ => True
  | object :: rest, a => Serialized m object a ∧ AllSerialized m rest (a + object.wireLength)

end

def terminate (data : List UInt8) : List UInt8 :=
  if data.getLast? = some 0 then data else data ++ [0]

mutual

/-- The object as the format carries it: integers are reduced modulo 2³². -/
def narrowed : UacpiObject → UacpiObject
  | .integer value => .integer (value % 0x100000000)
  | .string data => .string (terminate data)
  | .buffer data => .buffer data
  | .package objects => .package (allNarrowed objects)
  | .other => .other

def allNarrowed : List UacpiObject → List UacpiObject
  | [] => []
  | object :: rest => object.narrowed :: allNarrowed rest

end

mutual

/-- No string has a NUL before its end. -/
def NulFree : UacpiObject → Prop
  | .string data => 0 ∉ data.dropLast
  | .package objects => AllNulFree objects
  | _ => True

def AllNulFree : List UacpiObject → Prop
  | [] => True
  | object :: rest => object.NulFree ∧ AllNulFree rest

end

/-! ### Lengths -/

theorem wireLengths_le_wireLength (objects : List UacpiObject) :
    4 + wireLengths objects ≤ (package objects).wireLength := by
  simp only [wireLength, acpiMethodArgumentLength]
  omega

theorem Fits.eight_le {object : UacpiObject} {depth : Nat} (h : object.Fits depth) :
    8 ≤ object.wireLength := by
  cases object <;> simp only [Fits, wireLength, acpiMethodArgumentLength] at h ⊢ <;> omega

theorem AllFit.eight_mul_le {objects : List UacpiObject} {depth : Nat}
    (h : AllFit objects depth) : 8 * objects.length ≤ wireLengths objects := by
  induction objects with
  | nil => simp [wireLengths]
  | cons object rest ih =>
    have hobj := Fits.eight_le h.1
    have hrest := ih h.2
    simp only [length_cons, wireLengths]
    omega

mutual

theorem fits_of_wireSize {object : UacpiObject} {depth n : Nat}
    (hlen : object.wireLength < 2 ^ 32) (h : uacpiNtObjectWireSize object depth = .ok n) :
    object.Fits depth ∧ n = object.wireLength := by
  cases object with
  | integer value =>
    cases h
    exact ⟨trivial, rfl⟩
  | string | buffer =>
    rw [uacpiNtObjectWireSize] at h
    split at h
    · cases h
    · cases h
      exact ⟨by simp only [Fits]; omega, rfl⟩
  | package objects =>
    have htot := wireLengths_le_wireLength objects
    rw [uacpiNtObjectWireSize] at h
    split at h
    · cases h
    rename_i hdepth
    split at h
    · cases h
    rename_i total hsizes
    obtain ⟨hfit, rfl⟩ := allFit_of_wireSizes (by omega) (by decide) hsizes
    rw [Nat.zero_add, Nat.mod_eq_of_lt (by omega)] at h
    split at h
    · cases h
    · cases h
      exact ⟨⟨by omega, by omega, hfit⟩, rfl⟩
  | other => cases h

theorem allFit_of_wireSizes {objects : List UacpiObject} {depth total n : Nat}
    (hlen : wireLengths objects < 2 ^ 32) (htot : total < 2 ^ 32)
    (h : elementWireSizes objects depth total = .ok n) :
    AllFit objects depth ∧ n = (total + wireLengths objects) % 2 ^ 32 := by
  cases objects with
  | nil =>
    cases h
    exact ⟨trivial, (Nat.mod_eq_of_lt htot).symm⟩
  | cons object rest =>
    rw [wireLengths] at hlen
    rw [elementWireSizes] at h
    split at h
    · cases h
    rename_i size hsize
    obtain ⟨hfit, rfl⟩ := fits_of_wireSize (by omega) hsize
    obtain ⟨hrest, rfl⟩ := allFit_of_wireSizes (by omega) (Nat.mod_lt _ (by decide)) h
    exact ⟨⟨hfit, hrest⟩, by rw [wireLengths, Nat.mod_add_mod, Nat.add_assoc]⟩

end

mutual

theorem Fits.wireSize {object : UacpiObject} {depth : Nat} (h : object.Fits depth) :
    uacpiNtObjectWireSize object depth = .ok object.wireLength := by
  cases object with
  | integer value => rfl
  | string | buffer =>
    rw [Fits] at h
    rw [uacpiNtObjectWireSize, if_neg (by omega), wireLength]
  | package objects =>
    obtain ⟨hdepth, hlen, hfit⟩ := h
    have htot : (0 + wireLengths objects) % 2 ^ 32 = wireLengths objects := by
      rw [maxUShort] at hlen
      omega
    rw [uacpiNtObjectWireSize, if_neg (by omega), AllFit.wireSizes hfit (by decide), htot,
      wireLength]
    simp only
    rw [if_neg (by omega)]
  | other => cases h

theorem AllFit.wireSizes {objects : List UacpiObject} {depth total : Nat}
    (h : AllFit objects depth) (htot : total < 2 ^ 32) :
    elementWireSizes objects depth total = .ok ((total + wireLengths objects) % 2 ^ 32) := by
  cases objects with
  | nil =>
    rw [elementWireSizes, wireLengths, Nat.add_zero, Nat.mod_eq_of_lt htot]
  | cons object rest =>
    rw [elementWireSizes, Fits.wireSize h.1]
    simp only
    rw [AllFit.wireSizes h.2 (Nat.mod_lt _ (by decide)), wireLengths, Nat.mod_add_mod,
      Nat.add_assoc]

end

/-! ### Serialization -/

section

variable {m m' : Memory}

@[simp]
theorem length_argumentHeader (type : UInt16) (dataLength : Nat) :
    (argumentHeader type dataLength).length = 4 := rfl

mutual

theorem Serialized.of_eq {object : UacpiObject} {a : Nat} (h : Serialized m object a)
    (hsame : ∀ i, a ≤ i → i < a + object.wireLength → m' i = m i) : Serialized m' object a := by
  cases object with
  | integer value =>
    refine Memory.Holds.of_eq h fun i hle hlt => hsame i hle ?_
    simp only [length_append, length_argumentHeader, length_le32] at hlt
    simp only [wireLength, acpiMethodArgumentLength]
    omega
  | string data =>
    refine Memory.Holds.of_eq h fun i hle hlt => hsame i hle ?_
    simp only [length_append, length_argumentHeader, length_singleton] at hlt
    simp only [wireLength, acpiMethodArgumentLength]
    omega
  | buffer data =>
    refine Memory.Holds.of_eq h fun i hle hlt => hsame i hle ?_
    simp only [length_append, length_argumentHeader] at hlt
    simp only [wireLength, acpiMethodArgumentLength]
    omega
  | package objects =>
    have hlen := wireLengths_le_wireLength objects
    refine ⟨h.1.of_eq fun i hle hlt => hsame i hle ?_,
      AllSerialized.of_eq h.2 fun i hle hlt => hsame i (by omega) (by omega)⟩
    rw [length_argumentHeader] at hlt
    omega
  | other => cases h

theorem AllSerialized.of_eq {objects : List UacpiObject} {a : Nat} (h : AllSerialized m objects a)
    (hsame : ∀ i, a ≤ i → i < a + wireLengths objects → m' i = m i) :
    AllSerialized m' objects a := by
  cases objects with
  | nil => trivial
  | cons object rest =>
    rw [wireLengths] at hsame
    exact ⟨Serialized.of_eq h.1 fun i hle hlt => hsame i hle (by omega),
      AllSerialized.of_eq h.2 fun i hle hlt => hsame i (by omega) (by omega)⟩

end

def SameOutside (m m' : Memory) (a n : Nat) : Prop :=
  ∀ i, i < a ∨ a + n ≤ i → m' i = m i

theorem sameOutside_write (m : Memory) {a n : Nat} {bytes : List UInt8} (h : bytes.length ≤ n) :
    SameOutside m (m.write a bytes) a n := by
  rintro i (hlt | hge)
  · exact m.write_of_lt bytes hlt
  · exact m.write_of_ge (by omega)

mutual

theorem objectToArgument_spec {object : UacpiObject} {depth : Nat} (h : object.Fits depth)
    (m : Memory) (a : Nat) :
    ∃ m', uacpiNtObjectToArgument object m a = (.ok (), m', object.wireLength) ∧
      Serialized m' object a ∧ SameOutside m m' a object.wireLength := by
  cases object with
  | integer value =>
    exact ⟨_, rfl, m.holds_write a _, sameOutside_write m (Nat.le_refl 8)⟩
  | string data | buffer data =>
    simp only [Fits, maxUShort] at h
    refine ⟨_, ?_, m.holds_write a _, sameOutside_write m ?_⟩
    · rw [uacpiNtObjectToArgument, Nat.mod_eq_of_lt (by omega), wireLength]
    · simp only [length_append, length_argumentHeader, length_singleton, wireLength,
        acpiMethodArgumentLength]
      omega
  | package objects =>
    obtain ⟨-, hlen, hfit⟩ := h
    rw [maxUShort] at hlen
    have htot := wireLengths_le_wireLength objects
    have hloop : 0 + wireLengths objects < 2 ^ 32 := by omega
    obtain ⟨m', helem, hser, hsame⟩ := elementsToArguments_spec hfit m (a + 4) hloop
    -- The header is written last, in front of the elements.
    refine ⟨m'.write a (argumentHeader acpiMethodArgumentPackage (wireLengths objects)), ?_,
      ⟨m'.holds_write a _, AllSerialized.of_eq hser fun i hle _ => ?_⟩, ?_⟩
    · rw [uacpiNtObjectToArgument, helem, Nat.zero_add]
      simp only
      rw [Nat.mod_eq_of_lt (by omega), wireLength]
    · exact m'.write_of_ge (by rw [length_argumentHeader]; omega)
    intro i hi
    have hhdr : SameOutside m' (m'.write a (argumentHeader acpiMethodArgumentPackage
        (wireLengths objects))) a (package objects).wireLength :=
      sameOutside_write m' (by rw [length_argumentHeader]; omega)
    rw [hhdr i hi, hsame i (by omega)]
  | other => cases h

theorem elementsToArguments_spec {objects : List UacpiObject} {depth total : Nat}
    (h : AllFit objects depth) (m : Memory) (a : Nat)
    (hlen : total + wireLengths objects < 2 ^ 32) :
    ∃ m', elementsToArguments objects m a total = (.ok (total + wireLengths objects), m') ∧
      AllSerialized m' objects a ∧ SameOutside m m' a (wireLengths objects) := by
  cases objects with
  | nil => exact ⟨m, rfl, trivial, fun _ _ => rfl⟩
  | cons object rest =>
    rw [wireLengths] at hlen ⊢
    obtain ⟨m₁, hobj, hser, hsame⟩ := objectToArgument_spec h.1 m a
    have hloop : total + object.wireLength + wireLengths rest < 2 ^ 32 := by omega
    obtain ⟨m₂, hrest, hseri, hsames⟩ :=
      elementsToArguments_spec h.2 m₁ (a + object.wireLength) hloop
    refine ⟨m₂, ?_, ⟨Serialized.of_eq hser fun i _ hlt => hsames i (.inl hlt),
      hseri⟩, fun i hi => ?_⟩
    · rw [elementsToArguments, hobj]
      simp only
      rw [Nat.mod_eq_of_lt (by omega), hrest, Nat.add_assoc]
    · rw [hsames i (by omega), hsame i (by omega)]

end

/-! ### Decoding -/

theorem read_argumentHeader {type : UInt16} {dataLength a : Nat}
    (h : m.Holds a (argumentHeader type dataLength)) (hlen : dataLength ≤ maxUShort) :
    m.read16 a = type ∧ (m.read16 (a + 2)).toNat = dataLength := by
  rw [argumentHeader, Memory.holds_append, length_le16] at h
  rw [maxUShort] at hlen
  refine ⟨h.1.read16, ?_⟩
  rw [h.2.read16, UInt16.toNat_ofNat_of_lt' (by rw [UInt16.size]; omega)]

theorem Serialized.argumentLength {object : UacpiObject} {a depth : Nat}
    (h : Serialized m object a) (hfit : object.Fits depth) :
    acpiMethodArgumentLength (m.read16 (a + 2)).toNat = object.wireLength := by
  cases object with
  | integer value =>
    rw [(read_argumentHeader ((m.holds_append a _ _).mp h).1 (by decide)).2]
    rfl
  | string | buffer =>
    rw [(read_argumentHeader ((m.holds_append a _ _).mp h).1 hfit).2]
    rfl
  | package objects =>
    rw [(read_argumentHeader h.1 hfit.2.1).2, wireLength]
  | other => cases h

theorem countArguments_spec {objects : List UacpiObject} {a depth : Nat}
    (h : AllSerialized m objects a) (hfit : AllFit objects depth) :
    uacpiNtCountArguments m a (wireLengths objects) = .ok objects.length := by
  induction objects generalizing a with
  | nil =>
    rw [uacpiNtCountArguments]
    rfl
  | cons object rest ih =>
    have height := Fits.eight_le hfit.1
    rw [uacpiNtCountArguments, Serialized.argumentLength h.1 hfit.1, wireLengths,
      dif_neg (by omega)]
    simp only
    rw [dif_neg (by omega), Nat.add_sub_cancel_left, ih h.2 hfit.2]
    rfl

theorem cstring_append_zero {data : List UInt8} (h : 0 ∉ data.dropLast) :
    cstring (data ++ [0]) = terminate data := by
  have hahead : ∀ {xs ys : List UInt8}, 0 ∉ xs → (xs ++ 0 :: ys).takeWhile (· != 0) = xs := by
    intro xs ys hxs
    rw [takeWhile_append_of_pos fun x hx => by
      simpa using fun heq : x = 0 => hxs (heq ▸ hx)]
    simp
  rw [cstring, terminate]
  split <;> rename_i hlast
  · obtain ⟨init, rfl⟩ := getLast?_eq_some_iff.mp hlast
    rw [dropLast_concat] at h
    rw [append_assoc, singleton_append, hahead h]
  rw [hahead]
  intro hmem
  rcases eq_nil_or_concat data with rfl | ⟨init, x, rfl⟩
  · cases hmem
  rw [concat_eq_append, dropLast_concat] at h
  simp only [concat_eq_append, mem_append, mem_singleton] at hmem
  rcases hmem with hmem | rfl
  · exact h hmem
  · exact hlast (by simp)

variable {pool : EvalPool}

mutual

theorem argumentToObject_spec (hpool : pool.Plentiful) {object : UacpiObject}
    {a depth available : Nat} (h : Serialized m object a) (hfit : object.Fits depth)
    (hnul : object.NulFree) (havail : object.wireLength ≤ available) :
    uacpiNtArgumentToObject pool m a available depth =
      .ok (object.narrowed, object.wireLength) := by
  have height := Fits.eight_le hfit
  rw [uacpiNtArgumentToObject, if_neg (by omega)]
  simp only
  rw [Serialized.argumentLength h hfit, if_neg (by omega)]
  cases object with
  | integer value =>
    obtain ⟨hhdr, hv⟩ := (m.holds_append a _ _).mp h
    rw [(read_argumentHeader hhdr (by decide)).1, if_pos rfl, hpool.created_eq]
    rw [length_argumentHeader] at hv
    rw [hv.read32, UInt64.toUInt64_toUInt32]
    rfl
  | string data =>
    obtain ⟨hhdr, hdata⟩ := (m.holds_append a _ _).mp h
    rw [length_argumentHeader] at hdata
    obtain ⟨htype, hlen⟩ := read_argumentHeader hhdr hfit
    have hnull : m (a + 4 + (data.length + 1 - 1)) = 0 := by
      rw [hdata.get (by simp)]
      simp
    have hslice := hdata.slice_eq
    rw [length_append, length_singleton] at hslice
    rw [htype, hlen, if_neg (by decide), if_pos rfl, hnull, if_neg (by simp), hslice,
      hpool.created_eq, cstring_append_zero hnul]
    rfl
  | buffer data =>
    obtain ⟨hhdr, hdata⟩ := (m.holds_append a _ _).mp h
    rw [length_argumentHeader] at hdata
    obtain ⟨htype, hlen⟩ := read_argumentHeader hhdr hfit
    rw [htype, hlen, if_neg (by decide), if_neg (by decide), if_pos rfl, hdata.slice_eq,
      hpool.created_eq]
    rfl
  | package objects =>
    obtain ⟨hdepth, htot, hfits⟩ := hfit
    obtain ⟨htype, hlen⟩ := read_argumentHeader h.1 htot
    rw [htype, hlen, if_neg (by decide), if_neg (by decide), if_neg (by decide), if_pos rfl,
      dif_neg (by omega), countArguments_spec h.2 hfits]
    simp only
    rw [argumentsToObjects_spec hpool h.2 hfits hnul (Nat.le_refl _)]
    simp only
    rw [hpool.created_eq]
    rfl
  | other => cases h

theorem argumentsToObjects_spec (hpool : pool.Plentiful) {objects : List UacpiObject}
    {a depth available : Nat} (h : AllSerialized m objects a) (hfit : AllFit objects depth)
    (hnul : AllNulFree objects) (havail : wireLengths objects ≤ available) :
    uacpiNtArgumentsToObjects pool m a objects.length available depth =
      .ok (allNarrowed objects) := by
  have hcnt := AllFit.eight_mul_le hfit
  rw [uacpiNtArgumentsToObjects]
  split
  · rename_i hzero
    rw [length_eq_zero_iff.mp hzero]
    rfl
  have hroom : ¬ objects.length > available / acpiMethodArgumentLength 0 := by
    rw [show acpiMethodArgumentLength 0 = 8 from rfl]
    omega
  rw [if_neg hroom, hpool.allocateArray]
  exact argumentLoop_spec hpool h hfit hnul havail

theorem argumentLoop_spec (hpool : pool.Plentiful) {objects : List UacpiObject}
    {a depth available : Nat} (h : AllSerialized m objects a) (hfit : AllFit objects depth)
    (hnul : AllNulFree objects) (havail : wireLengths objects ≤ available) :
    argumentLoop pool m a available depth objects.length = .ok (allNarrowed objects) := by
  cases objects with
  | nil =>
    rw [length_nil, argumentLoop]
    rfl
  | cons object rest =>
    rw [wireLengths] at havail
    rw [length_cons, argumentLoop, argumentToObject_spec hpool h.1 hfit.1 hnul.1 (by omega)]
    simp only
    rw [argumentLoop_spec hpool h.2 hfit.2 hnul.2 (by omega)]
    rfl

end

end

end UacpiObject

open UacpiObject

/-- Every object that is accepted is serialized into as many bytes as its size, and is decoded from
them, with any bytes behind them, as the same tree with integers modulo 2³². The same holds for a
sequence of objects. -/
theorem eval_wire_round_trip {pool : EvalPool} (hpool : pool.Plentiful) :
    (∀ (object : UacpiObject) (n : Nat), object.NulFree → object.wireLength < 2 ^ 32 →
      uacpiNtObjectWireSize object 0 = .ok n → ∀ (m : Memory) (a : Nat),
      ∃ m', uacpiNtObjectToArgument object m a = (.ok (), m', n) ∧
        ∀ available, n ≤ available →
          uacpiNtArgumentToObject pool m' a available 0 = .ok (object.narrowed, n)) ∧
    ∀ (objects : List UacpiObject) (n : Nat), AllNulFree objects → wireLengths objects < 2 ^ 32 →
      elementWireSizes objects 0 0 = .ok n → ∀ (m : Memory) (a : Nat),
      ∃ m', elementsToArguments objects m a 0 = (.ok n, m') ∧
        ∀ available, n ≤ available →
          uacpiNtArgumentsToObjects pool m' a objects.length available 0 =
            .ok (allNarrowed objects) := by
  constructor
  · intro object n hnul hlength hsize m a
    obtain ⟨hfit, rfl⟩ := fits_of_wireSize hlength hsize
    obtain ⟨m', hwritten, hserialized, -⟩ := objectToArgument_spec hfit m a
    exact ⟨m', hwritten, fun available havailable =>
      argumentToObject_spec hpool hserialized hfit hnul havailable⟩
  · intro objects n hnul hlength hsizes m a
    obtain ⟨hfit, rfl⟩ := allFit_of_wireSizes hlength (by decide) hsizes
    rw [← Nat.zero_add (wireLengths objects)] at hlength
    obtain ⟨m', hwritten, hserialized, -⟩ := elementsToArguments_spec hfit m a hlength
    rw [Nat.mod_eq_of_lt hlength]
    refine ⟨m', hwritten, fun available havailable => ?_⟩
    exact argumentsToObjects_spec hpool hserialized hfit hnul (by omega)

theorem package_round_trip :
    ∃ m', uacpiNtObjectToArgument
        (.package [.integer 0x100000002, .string [0x41, 0x42, 0], .package []]) (fun _ => 0xFF) 12 =
          (.ok (), m', 28) ∧
      uacpiNtArgumentToObject ⟨fun _ => true, fun _ => true⟩ m' 12 28 0 =
        .ok (.package [.integer 2, .string [0x41, 0x42, 0], .package []], 28) := by
  have hpool : EvalPool.Plentiful ⟨fun _ => true, fun _ => true⟩ := ⟨fun _ => rfl, fun _ => rfl⟩
  obtain ⟨m', hwritten, hdecoded⟩ := (eval_wire_round_trip hpool).1
    (.package [.integer 0x100000002, .string [0x41, 0x42, 0], .package []]) 28
    ⟨trivial, by simp [NulFree], trivial, trivial⟩ (by decide) rfl (fun _ => 0xFF) 12
  exact ⟨m', hwritten, hdecoded 28 (Nat.le_refl 28)⟩

end UacpiNt
