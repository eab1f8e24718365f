import UacpiNt.Bytes.Memory
import UacpiNt.Nt.Basic

/-!
# Evaluation arguments on the wire

The evaluation control codes carry objects as a sequence of arguments. An argument has a type and
the length of its data, 16 bits each, and then its data, in at least four bytes. The data of a
package is again a sequence of arguments.

The decoder takes a pool that says which of its allocations succeed. No address is visited twice,
so the pool is asked by address.
-/

namespace UacpiNt

open Bytes

def NtError.acpiInvalidData : NtError := .other 0xC014000F

/-- `uacpi_object`, as far as it has a wire form. The data of a string is its whole buffer, so
that it includes the NUL. -/
inductive UacpiObject where
  | integer (value : UInt64)
  | string (data : List UInt8)
  | buffer (data : List UInt8)
  | package (objects : List UacpiObject)
  | other
deriving Repr

def acpiMethodArgumentInteger : UInt16 := 0

def acpiMethodArgumentString : UInt16 := 1

def acpiMethodArgumentBuffer : UInt16 := 2

def acpiMethodArgumentPackage : UInt16 := 3

def acpiMethodArgumentLength (dataLength : Nat) : Nat :=
  4 + max 4 dataLength

def uacpiNtEvalMaxDepth : Nat := 8

def maxUShort : Nat := 0xFFFF

/-! ### Sizes -/

mutual

def uacpiNtObjectWireSize : UacpiObject → Nat → Except NtError Nat
  | .integer _, _ => .ok (acpiMethodArgumentLength 4)
  | .string data, _ =>
    if data.length + 1 > maxUShort then .error .acpiInvalidData
    else .ok (acpiMethodArgumentLength (data.length + 1))
  | .buffer data, _ =>
    if data.length > maxUShort then .error .acpiInvalidData
    else .ok (acpiMethodArgumentLength data.length)
  | .package objects, depth =>
    if depth ≥ uacpiNtEvalMaxDepth then .error .invalidParameter
    else
      match elementWireSizes objects (depth + 1) 0 with
      | .error e => .error e
      | .ok total =>
        if total > maxUShort then .error .acpiInvalidData
        else .ok (acpiMethodArgumentLength total)
  | .other, _ => .error .acpiInvalidData

def elementWireSizes : List UacpiObject → Nat → Nat → Except NtError Nat
  | [], _, total => .ok total
  | object :: rest, depth, total =>
    match uacpiNtObjectWireSize object depth with
    | .error e => .error e
    | .ok size => elementWireSizes rest depth ((total + size) % 2 ^ 32)

end

/-! ### Serialization -/

def argumentHeader (type : UInt16) (dataLength : Nat) : List UInt8 :=
  le16 type ++ le16 (.ofNat dataLength)

mutual

/-- `UacpiNtObjectToArgument`, with the memory afterwards and what it reports as written. -/
def uacpiNtObjectToArgument : UacpiObject → Memory → Nat → NtStatus × Memory × Nat
  | .integer value, m, argument =>
    (.ok (), m.write argument (argumentHeader acpiMethodArgumentInteger 4 ++
      le32 value.toUInt32), acpiMethodArgumentLength 4)
  | .string data, m, argument =>
    (.ok (), m.write argument (argumentHeader acpiMethodArgumentString (data.length + 1) ++
      (data ++ [0])), acpiMethodArgumentLength ((data.length + 1) % 2 ^ 16))
  | .buffer data, m, argument =>
    (.ok (), m.write argument (argumentHeader acpiMethodArgumentBuffer data.length ++ data),
      acpiMethodArgumentLength (data.length % 2 ^ 16))
  | .package objects, m, argument =>
    match elementsToArguments objects m (argument + 4) 0 with
    | (.error e, m) => (.error e, m, 0)
    | (.ok total, m) =>
      (.ok (), m.write argument (argumentHeader acpiMethodArgumentPackage total),
        acpiMethodArgumentLength (total % 2 ^ 16))
  | .other, m, _ => (.error .acpiInvalidData, m, 0)

def elementsToArguments : List UacpiObject → Memory → Nat → Nat → Except NtError Nat × Memory
  | [], m, _, total => (.ok total, m)
  | object :: rest, m, nested, total =>
    match uacpiNtObjectToArgument object m nested with
    | (.error e, m, _) => (.error e, m)
    | (.ok _, m, size) => elementsToArguments rest m (nested + size) ((total + size) % 2 ^ 32)

end

/-! ### Decoding -/

/-- Which allocations of a decoding succeed, by the address of the argument or of the array. -/
structure EvalPool where
  createObject : Nat → Bool
  allocateArray : Nat → Bool

structure EvalPool.Plentiful (pool : EvalPool) : Prop where
  createObject : ∀ argument, pool.createObject argument = true
  allocateArray : ∀ first, pool.allocateArray first = true

def EvalPool.created (pool : EvalPool) (argument : Nat) (object : UacpiObject) :
    Except NtError UacpiObject :=
  if pool.createObject argument then .ok object else .error .insufficientResources

theorem EvalPool.Plentiful.created_eq {pool : EvalPool} (h : pool.Plentiful) (argument : Nat)
    (object : UacpiObject) : pool.created argument object = .ok object :=
  if_pos (h.createObject argument)

/-- What `uacpi_object_create_cstring` keeps of the text at `data`, whose last byte is NUL. -/
def cstring (data : List UInt8) : List UInt8 :=
  data.takeWhile (· != 0) ++ [0]

def uacpiNtCountArguments (m : Memory) (argument length : Nat) : Except NtError Nat :=
  if _ : length < 4 then .ok 0
  else
    let argumentLength := acpiMethodArgumentLength (m.read16 (argument + 2)).toNat
    if _ : argumentLength > length then .error .invalidParameter
    else
      (uacpiNtCountArguments m (argument + argumentLength) (length - argumentLength)).map (· + 1)
termination_by length
decreasing_by
  simp only [acpiMethodArgumentLength]
  omega

mutual

/-- The object, and the bytes consumed. -/
def uacpiNtArgumentToObject (pool : EvalPool) (m : Memory) (argument available depth : Nat) :
    Except NtError (UacpiObject × Nat) :=
  if available < 4 then .error .invalidParameter
  else
    let type := m.read16 argument
    let dataLength := (m.read16 (argument + 2)).toNat
    let argumentLength := acpiMethodArgumentLength dataLength
    if argumentLength > available then .error .invalidParameter
    else if type = acpiMethodArgumentInteger then
      (pool.created argument (.integer (m.read32 (argument + 4)).toUInt64)).map (·, argumentLength)
    else if type = acpiMethodArgumentString then
      if dataLength = 0 ∨ m (argument + 4 + (dataLength - 1)) ≠ 0 then .error .invalidParameter
      else
        (pool.created argument (.string (cstring (m.slice (argument + 4) dataLength)))).map
          (·, argumentLength)
    else if type = acpiMethodArgumentBuffer then
      (pool.created argument (.buffer (m.slice (argument + 4) dataLength))).map
        (·, argumentLength)
    else if type = acpiMethodArgumentPackage then
      if _ : depth ≥ uacpiNtEvalMaxDepth then .error .invalidParameter
      else
        match uacpiNtCountArguments m (argument + 4) dataLength with
        | .error e => .error e
        | .ok count =>
          match uacpiNtArgumentsToObjects pool m (argument + 4) count dataLength (depth + 1) with
          | .error e => .error e
          | .ok objects => (pool.created argument (.package objects)).map (·, argumentLength)
    else .error .invalidParameter
termination_by (uacpiNtEvalMaxDepth - depth, 0)

def uacpiNtArgumentsToObjects (pool : EvalPool) (m : Memory)
    (first count available depth : Nat) : Except NtError (List UacpiObject) :=
  if count = 0 then .ok []
  else if count > available / acpiMethodArgumentLength 0 then .error .invalidParameter
  else if !pool.allocateArray first then .error .insufficientResources
  else argumentLoop pool m first available depth count
termination_by (uacpiNtEvalMaxDepth - depth, count + 2)

def argumentLoop (pool : EvalPool) (m : Memory) (argument available depth : Nat) :
    Nat → Except NtError (List UacpiObject)
  | 0 => .ok []
  | count + 1 =>
    match uacpiNtArgumentToObject pool m argument available depth with
    | .error e => .error e
    | .ok (object, consumed) =>
      (argumentLoop pool m (argument + consumed) (available - consumed) depth count).map
        (object :: ·)
termination_by count => (uacpiNtEvalMaxDepth - depth, count + 1)

end

end UacpiNt
