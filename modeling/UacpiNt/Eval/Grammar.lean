import UacpiNt.Eval.Input

/-!
# The grammar of the input

The decoder never reads behind the end of the input and enters at most eight nested packages. What
it accepts as a sequence of arguments is what a grammar describes: each argument has a known type
and fits into the bytes around it, a string ends with a NUL, and a package is filled with arguments
up to less than four bytes.
-/

namespace UacpiNt

open Bytes Option

/-! ### Arguments -/

def dataLengthAt (m : Memory) (a : Nat) : Nat :=
  (m.read16 (a + 2)).toNat

def argumentLengthAt (m : Memory) (a : Nat) : Nat :=
  acpiMethodArgumentLength (dataLengthAt m a)

theorem eight_le_argumentLengthAt (m : Memory) (a : Nat) : 8 ≤ argumentLengthAt m a := by
  simp only [argumentLengthAt, acpiMethodArgumentLength]
  omega

theorem dataLengthAt_le (m : Memory) (a : Nat) : 4 + dataLengthAt m a ≤ argumentLengthAt m a := by
  simp only [argumentLengthAt, acpiMethodArgumentLength]
  omega

mutual

/-- An argument that is well formed, with packages at most `levels` deep. -/
inductive ArgumentAt (m : Memory) : (levels a : Nat) → Prop
  | integer {levels a : Nat} (htype : m.read16 a = acpiMethodArgumentInteger) :
      ArgumentAt m levels a
  | string {levels a : Nat} (htype : m.read16 a = acpiMethodArgumentString)
      (hsome : dataLengthAt m a ≠ 0) (hnul : m (a + 4 + (dataLengthAt m a - 1)) = 0) :
      ArgumentAt m levels a
  | buffer {levels a : Nat} (htype : m.read16 a = acpiMethodArgumentBuffer) :
      ArgumentAt m levels a
  | package {levels a : Nat} (htype : m.read16 a = acpiMethodArgumentPackage)
      (hpayload : PayloadAt m levels (a + 4) (dataLengthAt m a)) : ArgumentAt m (levels + 1) a

/-- Bytes that are filled with arguments, up to less than four of them. -/
inductive PayloadAt (m : Memory) : (levels a length : Nat) → Prop
  | trailing {levels a length : Nat} (hlength : length < 4) : PayloadAt m levels a length
  | argument {levels a length : Nat} (hroom : argumentLengthAt m a ≤ length)
      (hargument : ArgumentAt m levels a)
      (hrest : PayloadAt m levels (a + argumentLengthAt m a) (length - argumentLengthAt m a)) :
      PayloadAt m levels a length

end

/-- Bytes that start with so many arguments. -/
inductive ArgumentsAt (m : Memory) (levels : Nat) : (a available count : Nat) → Prop
  | nil {a available : Nat} : ArgumentsAt m levels a available 0
  | cons {a available count : Nat} (hroom : argumentLengthAt m a ≤ available)
      (hargument : ArgumentAt m levels a)
      (hrest : ArgumentsAt m levels (a + argumentLengthAt m a)
        (available - argumentLengthAt m a) count) : ArgumentsAt m levels a available (count + 1)

variable {pool : EvalPool} {m : Memory}

variable {levels a length depth : Nat}

theorem ArgumentsAt.count_le {available count : Nat} (h : ArgumentsAt m levels a available count) :
    8 * count ≤ available := by
  induction h with
  | nil => omega
  | @cons a available count hroom _ _ ih =>
    have hlen := eight_le_argumentLengthAt m a
    omega

/-! ### Counting -/

theorem countArguments_of_lt (h : length < 4) : uacpiNtCountArguments m a length = .ok 0 := by
  rw [uacpiNtCountArguments, dif_pos h]

theorem countArguments_of_ge (h : 4 ≤ length) : uacpiNtCountArguments m a length =
      if argumentLengthAt m a > length then .error .invalidParameter
      else (uacpiNtCountArguments m (a + argumentLengthAt m a)
        (length - argumentLengthAt m a)).map (· + 1) := by
  rw [uacpiNtCountArguments, dif_neg (by omega)]
  rfl

theorem payloadAt_iff : PayloadAt m levels a length ↔
      ∃ count, uacpiNtCountArguments m a length = .ok count ∧
        ArgumentsAt m levels a length count := by
  induction length using Nat.strongRecOn generalizing a with
  | ind length ih =>
    by_cases hlt : length < 4
    · rw [countArguments_of_lt hlt]
      exact iff_of_true (.trailing hlt) ⟨0, rfl, .nil⟩
    have hlen := eight_le_argumentLengthAt m a
    rw [countArguments_of_ge (by omega)]
    by_cases hroom : argumentLengthAt m a > length
    · rw [if_pos hroom]
      refine iff_of_false ?_ (by simp)
      rintro (h | ⟨hroom', -, -⟩)
      · exact hlt h
      · omega
    · rw [if_neg hroom]
      have hrest := ih (length - argumentLengthAt m a) (by omega) (a := a + argumentLengthAt m a)
      constructor
      · rintro (h | ⟨-, harg, hpay⟩)
        · exact absurd h hlt
        · obtain ⟨count, hcnt, hargs⟩ := hrest.mp hpay
          exact ⟨count + 1, by rw [hcnt]; rfl, .cons (by omega) harg hargs⟩
      · rintro ⟨count, hcnt, hargs⟩
        cases hargs with
        | nil =>
          cases hrest' : uacpiNtCountArguments m (a + argumentLengthAt m a)
            (length - argumentLengthAt m a) <;> simp [hrest', Except.map] at hcnt
        | @cons _ _ count _ harg hargs =>
          refine .argument (by omega) harg (hrest.mpr ⟨count, ?_, hargs⟩)
          cases hrest' : uacpiNtCountArguments m (a + argumentLengthAt m a)
            (length - argumentLengthAt m a) with
          | error e => simp [hrest', Except.map] at hcnt
          | ok k => simpa [hrest', Except.map] using hcnt

/-! ### Decoding -/

section

variable (pool) (m) (a) (depth)

def payloadObjects (first length : Nat) : Except NtError (List UacpiObject) :=
  uacpiNtCountArguments m first length >>= fun count =>
    uacpiNtArgumentsToObjects pool m first count length (depth + 1)

def argumentObject : Except NtError UacpiObject :=
  if m.read16 a = acpiMethodArgumentInteger then
    pool.created a (.integer (m.read32 (a + 4)).toUInt64)
  else if m.read16 a = acpiMethodArgumentString then
    if dataLengthAt m a = 0 ∨ m (a + 4 + (dataLengthAt m a - 1)) ≠ 0 then .error .invalidParameter
    else pool.created a (.string (cstring (m.slice (a + 4) (dataLengthAt m a))))
  else if m.read16 a = acpiMethodArgumentBuffer then
    pool.created a (.buffer (m.slice (a + 4) (dataLengthAt m a)))
  else if m.read16 a = acpiMethodArgumentPackage then
    if depth ≥ uacpiNtEvalMaxDepth then .error .invalidParameter
    else
      payloadObjects pool m depth (a + 4) (dataLengthAt m a) >>= fun objects =>
        pool.created a (.package objects)
  else .error .invalidParameter

theorem argumentToObject_eq (available depth : Nat) :
    uacpiNtArgumentToObject pool m a available depth =
      if argumentLengthAt m a > available then .error .invalidParameter
      else (argumentObject pool m a depth).map (·, argumentLengthAt m a) := by
  have hlen := eight_le_argumentLengthAt m a
  have hdata : (m.read16 (a + 2)).toNat = dataLengthAt m a := rfl
  have harg : acpiMethodArgumentLength (dataLengthAt m a) = argumentLengthAt m a := rfl
  rw [uacpiNtArgumentToObject]
  simp only [hdata, harg]
  by_cases hroom : argumentLengthAt m a > available
  · split <;> rfl
  rw [if_neg (by omega), if_neg hroom, argumentObject]
  split
  · rfl
  split
  · split <;> rfl
  split
  · rfl
  split
  · split
    · rfl
    simp only [payloadObjects]
    cases uacpiNtCountArguments m (a + 4) (dataLengthAt m a) with
    | error e => rfl
    | ok count =>
      simp only [bind, Except.bind]
      cases uacpiNtArgumentsToObjects pool m (a + 4) count (dataLengthAt m a) (depth + 1) with
      | error | ok => rfl
  · rfl

end

/-! ### What is accepted -/

section

variable
  (hone : ∀ a, (∃ object, argumentObject pool m a depth = .ok object) ↔ ArgumentAt m levels a)

include hone

theorem argumentLoop_ok_iff {a available count : Nat} :
    (∃ objects, argumentLoop pool m a available depth count = .ok objects) ↔
      ArgumentsAt m levels a available count := by
  induction count generalizing a available with
  | zero =>
    rw [argumentLoop]
    exact iff_of_true ⟨[], rfl⟩ .nil
  | succ count ih =>
    rw [argumentLoop, argumentToObject_eq]
    by_cases hroom : argumentLengthAt m a > available
    · rw [if_pos hroom]
      refine iff_of_false (by simp) fun h => ?_
      cases h with
      | cons hroom' _ _ => omega
    · rw [if_neg hroom]
      have hone := hone a
      cases hobj : argumentObject pool m a depth with
      | error e =>
        rw [hobj] at hone
        refine iff_of_false (by simp [Except.map]) fun h => ?_
        cases h with
        | cons _ harg _ =>
          obtain ⟨object, h⟩ := hone.mpr harg
          cases h
      | ok object =>
        have harg := hone.mp ⟨object, hobj⟩
        have hrest : (∃ objects, argumentLoop pool m (a + argumentLengthAt m a)
            (available - argumentLengthAt m a) depth count = .ok objects) ↔ _ := ih
        constructor
        · rintro ⟨objects, h⟩
          cases hloop : argumentLoop pool m (a + argumentLengthAt m a)
              (available - argumentLengthAt m a) depth count with
          | error e => simp [Except.map, hloop] at h
          | ok rest => exact .cons (Nat.not_lt.mp hroom) harg (hrest.mp ⟨rest, hloop⟩)
        · intro h
          cases h with
          | cons _ _ hargs =>
            obtain ⟨rest, hloop⟩ := hrest.mpr hargs
            exact ⟨object :: rest, by simp [Except.map, hloop]⟩

theorem argumentsToObjects_ok_iff (hpool : pool.Plentiful) {first count available : Nat} :
    (∃ objects, uacpiNtArgumentsToObjects pool m first count available depth = .ok objects) ↔
      ArgumentsAt m levels first available count := by
  rw [uacpiNtArgumentsToObjects]
  by_cases hzero : count = 0
  · subst hzero
    exact iff_of_true ⟨[], rfl⟩ .nil
  rw [if_neg hzero]
  by_cases hroom : count > available / acpiMethodArgumentLength 0
  · rw [if_pos hroom]
    refine iff_of_false (by simp) fun h => ?_
    have hcnt := h.count_le
    rw [show acpiMethodArgumentLength 0 = 8 from rfl] at hroom
    omega
  · rw [if_neg hroom, hpool.allocateArray]
    exact argumentLoop_ok_iff hone

end

theorem argumentObject_ok_iff_of_package (hpool : pool.Plentiful)
    (hpkg : m.read16 a = acpiMethodArgumentPackage →
      ((∃ object, argumentObject pool m a depth = .ok object) ↔ ArgumentAt m levels a)) :
    (∃ object, argumentObject pool m a depth = .ok object) ↔ ArgumentAt m levels a := by
  by_cases hinte : m.read16 a = acpiMethodArgumentInteger
  · rw [argumentObject, if_pos hinte, hpool.created_eq]
    exact iff_of_true ⟨_, rfl⟩ (.integer hinte)
  by_cases hstr : m.read16 a = acpiMethodArgumentString
  · rw [argumentObject, if_neg hinte, if_pos hstr]
    by_cases hinv : dataLengthAt m a = 0 ∨ m (a + 4 + (dataLengthAt m a - 1)) ≠ 0
    · rw [if_pos hinv]
      refine iff_of_false (by simp) fun h => ?_
      cases h with
      | integer htype => exact hinte htype
      | string _ hsome hnul => exact hinv.elim hsome fun h => h hnul
      | buffer htype => exact absurd (hstr.symm.trans htype) (by decide)
      | package htype _ => exact absurd (hstr.symm.trans htype) (by decide)
    · rw [if_neg hinv, hpool.created_eq]
      obtain ⟨hsome, hnul⟩ := not_or.mp hinv
      exact iff_of_true ⟨_, rfl⟩ (.string hstr hsome (not_not.mp hnul))
  by_cases hbuf : m.read16 a = acpiMethodArgumentBuffer
  · rw [argumentObject, if_neg hinte, if_neg hstr, if_pos hbuf, hpool.created_eq]
    exact iff_of_true ⟨_, rfl⟩ (.buffer hbuf)
  by_cases htype : m.read16 a = acpiMethodArgumentPackage
  · exact hpkg htype
  rw [argumentObject, if_neg hinte, if_neg hstr, if_neg hbuf, if_neg htype]
  refine iff_of_false (by simp) fun h => ?_
  cases h with
  | integer h => exact hinte h
  | string h _ _ => exact hstr h
  | buffer h => exact hbuf h
  | package h _ => exact htype h

theorem argumentObject_of_package (htype : m.read16 a = acpiMethodArgumentPackage) :
    argumentObject pool m a depth =
      if depth ≥ uacpiNtEvalMaxDepth then .error .invalidParameter
      else
        payloadObjects pool m depth (a + 4) (dataLengthAt m a) >>= fun objects =>
          pool.created a (.package objects) := by
  rw [argumentObject, htype, if_neg (by decide), if_neg (by decide), if_neg (by decide), if_pos rfl]

theorem argumentObject_ok_iff (hpool : pool.Plentiful)
    (hdepth : levels + depth = uacpiNtEvalMaxDepth) (a : Nat) :
    (∃ object, argumentObject pool m a depth = .ok object) ↔ ArgumentAt m levels a := by
  induction levels generalizing depth a with
  | zero =>
    refine argumentObject_ok_iff_of_package hpool fun htype => ?_
    rw [argumentObject_of_package htype, if_pos (by omega)]
    refine iff_of_false (by simp) fun h => ?_
    cases h with
    | integer h | string h | buffer h => exact absurd (htype.symm.trans h) (by decide)
  | succ levels ih =>
    refine argumentObject_ok_iff_of_package hpool fun htype => ?_
    have hpay : ArgumentAt m (levels + 1) a ↔ PayloadAt m levels (a + 4) (dataLengthAt m a) := by
      refine ⟨fun h => ?_, .package htype⟩
      cases h with
      | integer h | string h | buffer h => exact absurd (htype.symm.trans h) (by decide)
      | package _ hpay => exact hpay
    rw [argumentObject_of_package htype, if_neg (by omega), hpay, payloadAt_iff]
    have hdepth' : levels + (depth + 1) = uacpiNtEvalMaxDepth := by omega
    have hone := fun a => ih hdepth' a
    constructor
    · rintro ⟨object, h⟩
      obtain ⟨objects, hobjs, -⟩ := bind_eq_ok_iff.mp h
      obtain ⟨count, hcnt, hobjs⟩ := bind_eq_ok_iff.mp hobjs
      exact ⟨count, hcnt, (argumentsToObjects_ok_iff hone hpool).mp ⟨objects, hobjs⟩⟩
    · rintro ⟨count, hcnt, hargs⟩
      obtain ⟨objects, hobjs⟩ := (argumentsToObjects_ok_iff hone hpool).mpr hargs
      refine ⟨.package objects, bind_eq_ok_iff.mpr ⟨objects, ?_, hpool.created_eq a _⟩⟩
      exact bind_eq_ok_iff.mpr ⟨count, hcnt, hobjs⟩

/-! ### Reads -/

section

variable {base n : Nat}

theorem countArgumentsChecked_eq {a length : Nat} (hle : base ≤ a) (hend : a + length ≤ base + n) :
    uacpiNtCountArgumentsChecked (m.within base n) a length =
      some (uacpiNtCountArguments m a length) := by
  induction length using Nat.strongRecOn generalizing a with
  | ind length ih =>
    rw [uacpiNtCountArgumentsChecked]
    by_cases hlt : length < 4
    · rw [dif_pos hlt, countArguments_of_lt hlt]
    have hlen := eight_le_argumentLengthAt m a
    rw [dif_neg hlt, countArguments_of_ge (by omega), Memory.within_read16 (by omega) (by omega)]
    have harg : acpiMethodArgumentLength (m.read16 (a + 2)).toNat = argumentLengthAt m a := rfl
    simp only [harg]
    by_cases hroom : argumentLengthAt m a > length
    · rw [if_pos hroom, dif_pos hroom]
    · rw [if_neg hroom, dif_neg hroom]
      rw [ih (length - argumentLengthAt m a) (by omega) (by omega) (by omega)]
      rfl

variable {available : Nat} {one : Nat → Nat → Option (Except NtError (UacpiObject × Nat))}

theorem argumentLoopChecked_eq (hone : ∀ a available, base ≤ a → a + available ≤ base + n →
      one a available = some (uacpiNtArgumentToObject pool m a available depth)) {a count : Nat}
    (hle : base ≤ a) (hend : a + available ≤ base + n) : argumentLoopChecked one a available count =
      some (argumentLoop pool m a available depth count) := by
  induction count generalizing a available with
  | zero => rw [argumentLoopChecked, argumentLoop]
  | succ count ih =>
    rw [argumentLoopChecked, argumentLoop, hone a available hle hend, argumentToObject_eq]
    by_cases hroom : argumentLengthAt m a > available
    · rw [if_pos hroom]
    rw [if_neg hroom]
    cases argumentObject pool m a depth with
    | error e => rfl
    | ok object =>
      simp only [Except.map]
      rw [ih (by omega) (by omega)]
      rfl

theorem argumentsToObjectsChecked_eq (hone : ∀ a available, base ≤ a → a + available ≤ base + n →
      one a available = some (uacpiNtArgumentToObject pool m a available depth)) {first count : Nat}
    (hle : base ≤ first) (hend : first + available ≤ base + n) :
    uacpiNtArgumentsToObjectsChecked pool one first count available =
      some (uacpiNtArgumentsToObjects pool m first count available depth) := by
  rw [uacpiNtArgumentsToObjectsChecked, uacpiNtArgumentsToObjects]
  split
  · rfl
  split
  · rfl
  · split
    · rfl
    · exact argumentLoopChecked_eq hone hle hend

theorem argumentChecked_eq {a : Nat} (hle : base ≤ a) (hend : a + available ≤ base + n)
    {payload : Nat → Nat → Option (Except NtError (List UacpiObject))}
    (hpay : depth < uacpiNtEvalMaxDepth → ∀ first length, base ≤ first →
      first + length ≤ base + n → payload first length = some (payloadObjects pool m depth first
        length)) : argumentChecked pool (m.within base n) payload a available depth =
      some (uacpiNtArgumentToObject pool m a available depth) := by
  have hlen := eight_le_argumentLengthAt m a
  have hdata := dataLengthAt_le m a
  have hfold : (m.read16 (a + 2)).toNat = dataLengthAt m a := rfl
  have hfold' : acpiMethodArgumentLength (dataLengthAt m a) = argumentLengthAt m a := rfl
  rw [argumentToObject_eq, argumentChecked]
  by_cases hlt : available < 4
  · rw [if_pos hlt, if_pos (by omega)]
  rw [if_neg hlt, Memory.within_read16 (by omega) (by omega)]
  simp only [bind_eq_bind, bind_some, hfold, hfold']
  by_cases hroom : argumentLengthAt m a > available
  · rw [if_pos hroom, if_pos hroom]
    rfl
  rw [if_neg hroom, Memory.within_read16 hle (by omega), argumentObject]
  simp only [bind_some]
  split
  · rw [Memory.within_read32 (by omega) (by omega)]
    rfl
  split
  · by_cases hzero : dataLengthAt m a = 0
    · rw [if_pos hzero, if_pos (.inl hzero)]
      rfl
    rw [if_neg hzero, Memory.within_read (by omega) (by omega),
      Memory.within_slice (by omega) (by omega)]
    simp only [bind_some, hzero, false_or]
    split <;> rfl
  · split
    · rw [Memory.within_slice (by omega) (by omega)]
      rfl
    split
    · split
      · rfl
      · rw [hpay (by omega) _ _ (by omega) (by omega)]
        rfl
    · rfl

/-- An argument in the view is decoded as in memory, and no more packages are entered than the depth
allows. -/
theorem argumentToObjectChecked_eq {levels : Nat} (hlevels : uacpiNtEvalMaxDepth ≤ levels + depth)
    {a : Nat} (hle : base ≤ a) (hend : a + available ≤ base + n) :
    uacpiNtArgumentToObjectChecked pool (m.within base n) levels a available depth =
      some (uacpiNtArgumentToObject pool m a available depth) := by
  induction levels generalizing depth a available with
  | zero =>
    exact argumentChecked_eq hle hend fun hdepth => absurd hdepth (by omega)
  | succ levels ih =>
    refine argumentChecked_eq hle hend fun _ first length hfst hlast => ?_
    rw [countArgumentsChecked_eq hfst hlast, payloadObjects]
    cases uacpiNtCountArguments m first length with
    | error e => rfl
    | ok count =>
      exact argumentsToObjectsChecked_eq
        (fun a available hle hend => ih (by omega) hle hend) hfst hlast

end

/-! ### The input buffer -/

section

variable {input inputLength : Nat}

theorem methodName_within (h : 8 ≤ inputLength) :
    ∃ path, methodName (m.within input inputLength) input = some path :=
  ⟨_, Memory.within_slice (by omega) (by omega)⟩

theorem methodNameEx_within (h : 260 ≤ inputLength) :
    ∃ path, methodNameEx (m.within input inputLength) input = some path := by
  rw [methodNameEx, Memory.within_slice (by omega) (by omega)]
  exact ⟨_, rfl⟩

theorem readInteger64_within {a : Nat} (hle : input ≤ a) (hend : a + 8 ≤ input + inputLength) :
    ∃ value, readInteger64 (m.within input inputLength) a = some value := by
  rw [readInteger64, Memory.within_read32 hle (by omega),
    Memory.within_read32 (by omega) (by omega)]
  exact ⟨_, rfl⟩

variable {name : Option (List UInt8)} {offset : Nat}

theorem decodePlain_total {size : Nat} (hname : size ≤ inputLength → ∃ path, name = some path) :
    ∃ r, decodePlain inputLength size name = some r := by
  rw [decodePlain]
  split
  · exact ⟨_, rfl⟩
  · obtain ⟨path, rfl⟩ := hname (by omega)
    exact ⟨_, rfl⟩

theorem decodeInteger_total {size : Nat} {value : Option UInt64}
    (hname : size ≤ inputLength → ∃ path, name = some path)
    (hv : size ≤ inputLength → ∃ x, value = some x) :
    ∃ r, decodeInteger pool input inputLength size name value = some r := by
  rw [decodeInteger]
  split
  · exact ⟨_, rfl⟩
  · obtain ⟨path, rfl⟩ := hname (by omega)
    obtain ⟨x, rfl⟩ := hv (by omega)
    exact ⟨_, rfl⟩

section

variable (hname : offset ≤ inputLength → ∃ path, name = some path)

include hname

theorem decodeString_total (hofs : 4 ≤ offset) :
    ∃ r, decodeString pool (m.within input inputLength) input inputLength offset name = some r := by
  rw [decodeString]
  split
  · exact ⟨_, rfl⟩
  obtain ⟨path, rfl⟩ := hname (by omega)
  rw [Memory.within_read32 (by omega) (by omega)]
  simp only [bind_eq_bind, bind_some, uacpiNtStringArgumentValid]
  split
  · exact ⟨_, rfl⟩
  · rw [Memory.within_read (by omega) (by omega), Memory.within_slice (by omega) (by omega)]
    simp only [map_some, bind_some]
    split <;> exact ⟨_, rfl⟩

theorem decodeComplex_eq (hofs : 8 ≤ offset) :
    ∃ path, decodeComplex pool (m.within input inputLength) input inputLength offset name =
      some (if inputLength < offset then .error .invalidParameter
        else if inputLength < (m.read32 (input + (offset - 8))).toNat then .error .invalidParameter
        else (uacpiNtArgumentsToObjects pool m (input + offset)
          (m.read32 (input + (offset - 4))).toNat (inputLength - offset) 0).map (⟨path, ·⟩)) := by
  rw [decodeComplex]
  by_cases hhdr : inputLength < offset
  · refine ⟨[], ?_⟩
    rw [if_pos hhdr, if_pos hhdr]
  obtain ⟨path, rfl⟩ := hname (by omega)
  have hone : ∀ a available, input ≤ a → a + available ≤ input + inputLength →
      uacpiNtArgumentToObjectChecked pool (m.within input inputLength) uacpiNtEvalMaxDepth a
        available 0 = some (uacpiNtArgumentToObject pool m a available 0) :=
    fun a available hle hend => argumentToObjectChecked_eq (Nat.le_refl _) hle hend
  refine ⟨path, ?_⟩
  rw [if_neg hhdr, Memory.within_read32 (by omega) (by omega),
    Memory.within_read32 (by omega) (by omega)]
  simp only [bind_eq_bind, bind_some]
  rw [argumentsToObjectsChecked_eq hone (by omega) (by omega)]
  split <;> rfl

theorem decodeComplex_total (hofs : 8 ≤ offset) :
    ∃ r, decodeComplex pool (m.within input inputLength) input inputLength offset name =
      some r := by
  obtain ⟨path, heq⟩ := decodeComplex_eq hname hofs
  exact ⟨_, heq⟩

theorem decodeComplex_ok_iff (hpool : pool.Plentiful) (hofs : 8 ≤ offset) :
    (∃ decoded, decodeComplex pool (m.within input inputLength) input inputLength offset name =
        some (.ok decoded)) ↔
      offset ≤ inputLength ∧ (m.read32 (input + (offset - 8))).toNat ≤ inputLength ∧
        ArgumentsAt m uacpiNtEvalMaxDepth (input + offset) (inputLength - offset)
          (m.read32 (input + (offset - 4))).toNat := by
  have hacc : (∃ objects, uacpiNtArgumentsToObjects pool m (input + offset)
      (m.read32 (input + (offset - 4))).toNat (inputLength - offset) 0 = .ok objects) ↔ _ :=
    argumentsToObjects_ok_iff
      (fun a => argumentObject_ok_iff hpool (Nat.add_zero uacpiNtEvalMaxDepth) a) hpool
  obtain ⟨path, heq⟩ := decodeComplex_eq hname hofs
  rw [heq, ← hacc]
  by_cases hhdr : inputLength < offset
  · rw [if_pos hhdr]
    exact iff_of_false (by simp) (by omega)
  rw [if_neg hhdr]
  by_cases hfits : inputLength < (m.read32 (input + (offset - 8))).toNat
  · rw [if_pos hfits]
    exact iff_of_false (by simp) (by omega)
  rw [if_neg hfits, and_iff_right (Nat.not_lt.mp hhdr), and_iff_right (Nat.not_lt.mp hfits)]
  cases uacpiNtArgumentsToObjects pool m (input + offset) (m.read32 (input + (offset - 4))).toNat
    (inputLength - offset) 0 with
  | error e => exact iff_of_false (by simp [Except.map]) (by simp)
  | ok objects => exact iff_of_true ⟨_, rfl⟩ ⟨objects, rfl⟩

end

/-- The complex forms with the offset of their arguments. -/
def complexForms : List (UInt32 × Nat) :=
  [(acpiEvalInputBufferComplexSignature, 16), (acpiEvalInputBufferComplexSignatureEx, 268)]

/-- The decoder always has a result, although it may only read the input and enter eight nested
packages. It accepts a complex form just if its header fits, its size does not exceed the input,
and well-formed arguments follow. -/
theorem eval_input_safe_and_exact (pool : EvalPool) (m : Memory) (input inputLength : Nat) :
    (∃ r, uacpiNtDecodeEvalInput pool (m.within input inputLength) input inputLength = some r) ∧
    (pool.Plentiful → ∀ form ∈ complexForms, m.read32 input = form.1 →
      ((∃ decoded, uacpiNtDecodeEvalInput pool (m.within input inputLength) input inputLength =
          some (.ok decoded)) ↔
        form.2 ≤ inputLength ∧ (m.read32 (input + (form.2 - 8))).toNat ≤ inputLength ∧
          ArgumentsAt m uacpiNtEvalMaxDepth (input + form.2) (inputLength - form.2)
            (m.read32 (input + (form.2 - 4))).toNat)) := by
  have hname : ∀ {size}, 8 ≤ size → size ≤ inputLength →
      ∃ path, methodName (m.within input inputLength) input = some path :=
    fun hsize h => methodName_within (by omega)
  have hnameEx : ∀ {size}, 260 ≤ size → size ≤ inputLength →
      ∃ path, methodNameEx (m.within input inputLength) input = some path :=
    fun hsize h => methodNameEx_within (by omega)
  rw [uacpiNtDecodeEvalInput]
  by_cases hshort : inputLength < 4
  · rw [if_pos hshort]
    refine ⟨⟨_, rfl⟩, fun _ form hform _ => iff_of_false (by simp) ?_⟩
    simp only [complexForms, List.mem_cons, List.not_mem_nil, or_false] at hform
    rcases hform with rfl | rfl <;> simp only <;> omega
  · rw [if_neg hshort, Memory.within_read32 (by omega) (by omega)]
    simp only [Option.bind_eq_bind, Option.bind_some]
    refine ⟨?_, fun hpool form hform hsignature => ?_⟩
    · split
      · exact decodePlain_total (hname (by omega))
      split
      · refine decodeInteger_total (hname (by omega)) fun h => ?_
        rw [Memory.within_read32 (by omega) (by omega)]
        exact ⟨_, rfl⟩
      split
      · exact decodeString_total (hname (by omega)) (by omega)
      split
      · exact decodeComplex_total (hname (by omega)) (by omega)
      split
      · exact decodePlain_total (hnameEx (by omega))
      split
      · exact decodeInteger_total (hnameEx (by omega)) fun h =>
          readInteger64_within (by omega) (by omega)
      split
      · exact decodeString_total (hnameEx (by omega)) (by omega)
      split
      · exact decodeComplex_total (hnameEx (by omega)) (by omega)
      · exact ⟨_, rfl⟩
    · simp only [complexForms, List.mem_cons, List.not_mem_nil, or_false] at hform
      rcases hform with rfl | rfl
      · rw [hsignature, if_pos rfl]
        exact decodeComplex_ok_iff (hname (by omega)) hpool (by omega)
      · rw [hsignature, if_neg (by decide), if_neg (by decide), if_pos rfl]
        exact decodeComplex_ok_iff (hnameEx (by omega)) hpool (by omega)

end

def integerInput : Memory := fun i =>
  (le32 acpiEvalInputBufferComplexSignature ++ [0x5F, 0x53, 0x54, 0x41] ++ le32 24 ++ le32 1 ++
    argumentHeader acpiMethodArgumentInteger 4 ++ le32 7).getD i 0

theorem integerInput_accepted :
    ∃ decoded, uacpiNtDecodeEvalInput ⟨fun _ => true, fun _ => true⟩ (integerInput.within 0 24) 0
      24 = some (.ok decoded) := by
  have hargument : ArgumentAt integerInput uacpiNtEvalMaxDepth 16 :=
    .integer (by decide)
  refine ((eval_input_safe_and_exact ⟨fun _ => true, fun _ => true⟩ integerInput 0 24).2
    ⟨fun _ => rfl, fun _ => rfl⟩ _ List.mem_cons_self (by decide)).mpr ⟨by decide, by decide, ?_⟩
  exact .cons (by decide) hargument .nil

end UacpiNt
