import UacpiNt.Eval.Wire

/-!
# The input of an evaluation

The input buffer names a method and carries its arguments in one of four forms: none, an integer, a
string, or a sequence of arguments. Each form has a variant with a longer name. The decoder works
on a view of the buffer, so that a read behind the end is a fault, and is given the number of
packages it may nest; it agrees with the decoder of arguments in memory.
-/

namespace UacpiNt

open Bytes

/-! ### Arguments in a view -/

def uacpiNtCountArgumentsChecked (v : View) (argument length : Nat) :
    Option (Except NtError Nat) :=
  if _ : length < 4 then some (.ok 0)
  else
    match v.read16 (argument + 2) with
    | none => none
    | some dataLength =>
      let argumentLength := acpiMethodArgumentLength dataLength.toNat
      if _ : argumentLength > length then some (.error .invalidParameter)
      else
        (uacpiNtCountArgumentsChecked v (argument + argumentLength)
          (length - argumentLength)).map (Except.map (· + 1))
termination_by length
decreasing_by
  simp only [acpiMethodArgumentLength]
  omega

def argumentLoopChecked (one : Nat → Nat → Option (Except NtError (UacpiObject × Nat)))
    (argument available : Nat) : Nat → Option (Except NtError (List UacpiObject))
  | 0 => some (.ok [])
  | count + 1 =>
    match one argument available with
    | none => none
    | some (.error e) => some (.error e)
    | some (.ok (object, consumed)) =>
      (argumentLoopChecked one (argument + consumed) (available - consumed) count).map
        (Except.map (object :: ·))

def uacpiNtArgumentsToObjectsChecked (pool : EvalPool)
    (one : Nat → Nat → Option (Except NtError (UacpiObject × Nat)))
    (first count available : Nat) : Option (Except NtError (List UacpiObject)) :=
  if count = 0 then some (.ok [])
  else if count > available / acpiMethodArgumentLength 0 then some (.error .invalidParameter)
  else if !pool.allocateArray first then some (.error .insufficientResources)
  else argumentLoopChecked one first available count

/-- The body of `UacpiNtArgumentToObject` on a view, where `payload` decodes the data of a
package. -/
def argumentChecked (pool : EvalPool) (v : View)
    (payload : Nat → Nat → Option (Except NtError (List UacpiObject)))
    (argument available depth : Nat) : Option (Except NtError (UacpiObject × Nat)) :=
  if available < 4 then some (.error .invalidParameter)
  else do
    let dataLength := (← v.read16 (argument + 2)).toNat
    let argumentLength := acpiMethodArgumentLength dataLength
    if argumentLength > available then return .error .invalidParameter
    let type ← v.read16 argument
    if type = acpiMethodArgumentInteger then
      let value ← v.read32 (argument + 4)
      return (pool.created argument (.integer value.toUInt64)).map (·, argumentLength)
    else if type = acpiMethodArgumentString then
      if dataLength = 0 then return .error .invalidParameter
      if (← v (argument + 4 + (dataLength - 1))) ≠ 0 then return .error .invalidParameter
      let data ← v.slice (argument + 4) dataLength
      return (pool.created argument (.string (cstring data))).map (·, argumentLength)
    else if type = acpiMethodArgumentBuffer then
      let data ← v.slice (argument + 4) dataLength
      return (pool.created argument (.buffer data)).map (·, argumentLength)
    else if type = acpiMethodArgumentPackage then
      if depth ≥ uacpiNtEvalMaxDepth then return .error .invalidParameter
      let objects ← payload (argument + 4) dataLength
      return (objects.bind fun objects => pool.created argument (.package objects)).map
        (·, argumentLength)
    else return .error .invalidParameter

/-- `UacpiNtArgumentToObject`, on a view. `levels` is the number of nested packages that may be
entered; there is no result if it does not suffice. -/
def uacpiNtArgumentToObjectChecked (pool : EvalPool) (v : View) :
    (levels argument available depth : Nat) → Option (Except NtError (UacpiObject × Nat))
  | 0, argument, available, depth =>
    argumentChecked pool v (fun _ _ => none) argument available depth
  | levels + 1, argument, available, depth =>
    argumentChecked pool v
      (fun first length =>
        match uacpiNtCountArgumentsChecked v first length with
        | none => none
        | some (.error e) => some (.error e)
        | some (.ok count) =>
          uacpiNtArgumentsToObjectsChecked pool
            (fun argument available =>
              uacpiNtArgumentToObjectChecked pool v levels argument available (depth + 1))
            first count length)
      argument available depth

/-! ### The input buffer -/

def acpiEvalInputBufferSignature : UInt32 := 0x42696541

def acpiEvalInputBufferSimpleIntegerSignature : UInt32 := 0x49696541

def acpiEvalInputBufferSimpleStringSignature : UInt32 := 0x53696541

def acpiEvalInputBufferComplexSignature : UInt32 := 0x43696541

def acpiEvalInputBufferSignatureEx : UInt32 := 0x41696541

def acpiEvalInputBufferSimpleIntegerSignatureEx : UInt32 := 0x44696541

def acpiEvalInputBufferSimpleStringSignatureEx : UInt32 := 0x54696541

def acpiEvalInputBufferComplexSignatureEx : UInt32 := 0x46696541

structure EvalInput where
  path : List UInt8
  args : List UacpiObject

def uacpiNtStringArgumentValid (v : View) (available stringLength string : Nat) : Option Bool :=
  if stringLength = 0 ∨ stringLength > available then some false
  else (v (string + (stringLength - 1))).map (· == 0)

/-- `UacpiNtSingleArgument`, for an object that is created from the input. -/
def uacpiNtSingleArgument (pool : EvalPool) (input : Nat) (object : UacpiObject) :
    Except NtError (List UacpiObject) :=
  if pool.allocateArray input then (pool.created input object).map ([·])
  else .error .insufficientResources

section

variable (pool : EvalPool) (v : View) (input inputLength : Nat)

section

variable (offset size : Nat) (name : Option (List UInt8))

def methodName : Option (List UInt8) :=
  v.slice (input + 4) 4

def methodNameEx : Option (List UInt8) :=
  (v.slice (input + 4) 256).map (·.takeWhile (· != 0))

def decodePlain : Option (Except NtError EvalInput) :=
  if inputLength < size then some (.error .invalidParameter)
  else do return .ok ⟨← name, []⟩

def decodeInteger (value : Option UInt64) : Option (Except NtError EvalInput) :=
  if inputLength < size then some (.error .invalidParameter)
  else do
    let path ← name
    return (uacpiNtSingleArgument pool input (.integer (← value))).map (⟨path, ·⟩)

def decodeString : Option (Except NtError EvalInput) :=
  if inputLength < offset then some (.error .invalidParameter)
  else do
    let stringLength := (← v.read32 (input + (offset - 4))).toNat
    if ← uacpiNtStringArgumentValid v (inputLength - offset) stringLength (input + offset) then
      let path ← name
      let data ← v.slice (input + offset) stringLength
      return (uacpiNtSingleArgument pool input (.string (cstring data))).map (⟨path, ·⟩)
    else return .error .invalidParameter

/-- The form with a sequence of arguments: the size of the buffer, the number of arguments, and the
arguments. -/
def decodeComplex : Option (Except NtError EvalInput) :=
  if inputLength < offset then some (.error .invalidParameter)
  else do
    if inputLength < (← v.read32 (input + (offset - 8))).toNat then
      return .error .invalidParameter
    let path ← name
    let count := (← v.read32 (input + (offset - 4))).toNat
    let args ← uacpiNtArgumentsToObjectsChecked pool
      (fun argument available =>
        uacpiNtArgumentToObjectChecked pool v uacpiNtEvalMaxDepth argument available 0)
      (input + offset) count (inputLength - offset)
    return args.map (⟨path, ·⟩)

end

def readInteger64 (a : Nat) : Option UInt64 := do
  return (← v.read32 a).toUInt64 ||| (← v.read32 (a + 4)).toUInt64 <<< 32

def uacpiNtDecodeEvalInput : Option (Except NtError EvalInput) :=
  if inputLength < 4 then some (.error .invalidParameter)
  else do
    let signature ← v.read32 input
    if signature = acpiEvalInputBufferSignature then
      decodePlain inputLength 8 (methodName v input)
    else if signature = acpiEvalInputBufferSimpleIntegerSignature then
      decodeInteger pool input inputLength 12 (methodName v input)
        ((v.read32 (input + 8)).map (·.toUInt64))
    else if signature = acpiEvalInputBufferSimpleStringSignature then
      decodeString pool v input inputLength 12 (methodName v input)
    else if signature = acpiEvalInputBufferComplexSignature then
      decodeComplex pool v input inputLength 16 (methodName v input)
    else if signature = acpiEvalInputBufferSignatureEx then
      decodePlain inputLength 260 (methodNameEx v input)
    else if signature = acpiEvalInputBufferSimpleIntegerSignatureEx then
      decodeInteger pool input inputLength 272 (methodNameEx v input)
        (readInteger64 v (input + 264))
    else if signature = acpiEvalInputBufferSimpleStringSignatureEx then
      decodeString pool v input inputLength 264 (methodNameEx v input)
    else if signature = acpiEvalInputBufferComplexSignatureEx then
      decodeComplex pool v input inputLength 268 (methodNameEx v input)
    else return .error .invalidParameter

end

end UacpiNt
