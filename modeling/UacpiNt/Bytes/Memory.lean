import Mathlib.Algebra.Group.Nat.Defs
import Mathlib.Tactic.Common

/-!
# Byte memory

A memory gives a byte to every address. `Holds m a bytes` says that the bytes stand in it from
address `a` on; a write makes the memory hold what was written and leaves every other address as
it was. A view gives the bytes of a part of memory, and a read of any other byte is a fault: a
computation that has a result over the view of an interval has not read outside the interval.
-/

namespace Bytes

/-! ### Little-endian integers -/

def le16 (x : UInt16) : List UInt8 :=
  [.ofNat x.toNat, .ofNat (x.toNat / 2 ^ 8)]

def le32 (x : UInt32) : List UInt8 :=
  [.ofNat x.toNat, .ofNat (x.toNat / 2 ^ 8), .ofNat (x.toNat / 2 ^ 16), .ofNat (x.toNat / 2 ^ 24)]

def u16 (b₀ b₁ : UInt8) : UInt16 :=
  .ofNat (b₀.toNat + 2 ^ 8 * b₁.toNat)

def u32 (b₀ b₁ b₂ b₃ : UInt8) : UInt32 :=
  .ofNat (b₀.toNat + 2 ^ 8 * b₁.toNat + 2 ^ 16 * b₂.toNat + 2 ^ 24 * b₃.toNat)

@[simp]
theorem length_le16 (x : UInt16) : (le16 x).length = 2 := rfl

@[simp]
theorem length_le32 (x : UInt32) : (le32 x).length = 4 := rfl

@[simp]
theorem u16_le16 (x : UInt16) : u16 (.ofNat x.toNat) (.ofNat (x.toNat / 2 ^ 8)) = x := by
  have hx := x.toNat_lt
  rw [← UInt16.toNat_inj, u16]
  simp
  omega

@[simp]
theorem u32_le32 (x : UInt32) :
    u32 (.ofNat x.toNat) (.ofNat (x.toNat / 2 ^ 8)) (.ofNat (x.toNat / 2 ^ 16))
      (.ofNat (x.toNat / 2 ^ 24)) = x := by
  have hx := x.toNat_lt
  rw [← UInt32.toNat_inj, u32]
  simp
  omega

/-! ### Memories -/

open List

abbrev Memory := Nat → UInt8

namespace Memory

def write (m : Memory) (a : Nat) (bytes : List UInt8) : Memory :=
  fun i => if a ≤ i then bytes.getD (i - a) (m i) else m i

def slice (m : Memory) (a n : Nat) : List UInt8 :=
  (List.range n).map fun i => m (a + i)

def read16 (m : Memory) (a : Nat) : UInt16 :=
  u16 (m a) (m (a + 1))

def read32 (m : Memory) (a : Nat) : UInt32 :=
  u32 (m a) (m (a + 1)) (m (a + 2)) (m (a + 3))

def Holds (m : Memory) : Nat → List UInt8 → Prop
  | _, [] => True
  | a, b :: bytes => m a = b ∧ Holds m (a + 1) bytes

variable {m m' : Memory} {a : Nat} {bytes : List UInt8}

@[simp]
theorem holds_nil (m : Memory) (a : Nat) : m.Holds a [] := trivial

@[simp]
theorem holds_append (m : Memory) (a : Nat) (xs ys : List UInt8) :
    m.Holds a (xs ++ ys) ↔ m.Holds a xs ∧ m.Holds (a + xs.length) ys := by
  induction xs generalizing a with
  | nil => simp
  | cons x xs ih =>
    simp only [cons_append, Holds, ih, length_cons, and_assoc]
    rw [show a + 1 + xs.length = a + (xs.length + 1) by omega]

theorem Holds.of_eq (h : m.Holds a bytes)
    (hsame : ∀ i, a ≤ i → i < a + bytes.length → m' i = m i) : m'.Holds a bytes := by
  induction bytes generalizing a with
  | nil => trivial
  | cons b bytes ih =>
    rw [length_cons] at hsame
    refine ⟨(hsame a (Nat.le_refl a) (by omega)).trans h.1, ih h.2 fun i hle hlt => ?_⟩
    exact hsame i (by omega) (by omega)

theorem Holds.get (h : m.Holds a bytes) {i : Nat} (hi : i < bytes.length) :
    m (a + i) = bytes[i] := by
  induction bytes generalizing a i with
  | nil => cases hi
  | cons b bytes ih =>
    cases i with
    | zero => exact h.1
    | succ i =>
      rw [show a + (i + 1) = a + 1 + i by omega]
      exact ih h.2 (Nat.lt_of_succ_lt_succ hi)

theorem Holds.agree (h : m.Holds a bytes) (h' : m'.Holds a bytes) {i : Nat} (hle : a ≤ i)
    (hlt : i < a + bytes.length) : m i = m' i := by
  obtain ⟨k, rfl⟩ := Nat.exists_eq_add_of_le hle
  have hk : k < bytes.length := by omega
  rw [h.get hk, h'.get hk]

theorem Holds.slice_eq (h : m.Holds a bytes) : m.slice a bytes.length = bytes := by
  refine ext_getElem (by simp [slice]) fun i hi _ => ?_
  simpa [slice] using h.get _

theorem Holds.read16 {x : UInt16} (h : m.Holds a (le16 x)) : m.read16 a = x := by
  rw [Memory.read16, h.1, h.2.1]
  exact u16_le16 x

theorem Holds.read32 {x : UInt32} (h : m.Holds a (le32 x)) : m.read32 a = x := by
  rw [Memory.read32, h.1, h.2.1, h.2.2.1, h.2.2.2.1]
  exact u32_le32 x

theorem write_of_lt (m : Memory) (bytes : List UInt8) {i : Nat} (h : i < a) :
    m.write a bytes i = m i :=
  if_neg (by omega)

theorem write_of_ge (m : Memory) {i : Nat} (h : a + bytes.length ≤ i) :
    m.write a bytes i = m i := by
  rw [write, if_pos (by omega), getD_eq_getElem?_getD, getElem?_eq_none (by omega)]
  rfl

@[simp]
theorem holds_write (m : Memory) (a : Nat) (bytes : List UInt8) :
    (m.write a bytes).Holds a bytes := by
  induction bytes generalizing m a with
  | nil => trivial
  | cons b bytes ih =>
    refine ⟨by simp [write], (ih m (a + 1)).of_eq fun i hle _ => ?_⟩
    obtain ⟨k, rfl⟩ := Nat.exists_eq_add_of_le hle
    rw [write, write, if_pos (by omega), if_pos hle, show a + 1 + k - a = k + 1 by omega,
      show a + 1 + k - (a + 1) = k by omega]
    rfl

theorem write_append (m : Memory) (a : Nat) (xs ys : List UInt8) :
    m.write a (xs ++ ys) = (m.write a xs).write (a + xs.length) ys := by
  funext i
  simp only [write]
  by_cases hys : a + xs.length ≤ i
  · rw [if_pos (by omega), if_pos hys, if_pos (by omega)]
    simp only [getD_eq_getElem?_getD]
    rw [getElem?_append_right (by omega), getElem?_eq_none (l := xs) (by omega),
      Nat.sub_sub, Option.getD_none]
  · split
    · simp only [getD_eq_getElem?_getD]
      rw [getElem?_append_left (by omega)]
    · rfl

end Memory

/-! ### Bounded reads -/

abbrev View := Nat → Option UInt8

def Memory.within (m : Memory) (a n : Nat) : View :=
  fun i => if a ≤ i ∧ i < a + n then some (m i) else none

namespace View

def read16 (v : View) (a : Nat) : Option UInt16 := do
  return u16 (← v a) (← v (a + 1))

def read32 (v : View) (a : Nat) : Option UInt32 := do
  return u32 (← v a) (← v (a + 1)) (← v (a + 2)) (← v (a + 3))

def slice (v : View) (a n : Nat) : Option (List UInt8) :=
  (List.range n).mapM fun i => v (a + i)

end View

namespace Memory

variable {m : Memory} {base n a : Nat}

theorem within_read (hle : base ≤ a) (hlt : a < base + n) : m.within base n a = some (m a) :=
  if_pos ⟨hle, hlt⟩

theorem within_read16 (hle : base ≤ a) (hlt : a + 2 ≤ base + n) :
    (m.within base n).read16 a = some (m.read16 a) := by
  rw [View.read16, within_read hle (by omega), within_read (by omega) (by omega)]
  rfl

theorem within_read32 (hle : base ≤ a) (hlt : a + 4 ≤ base + n) :
    (m.within base n).read32 a = some (m.read32 a) := by
  rw [View.read32, within_read hle (by omega), within_read (by omega) (by omega),
    within_read (by omega) (by omega), within_read (by omega) (by omega)]
  rfl

theorem within_slice {k : Nat} (hle : base ≤ a) (hlt : a + k ≤ base + n) :
    (m.within base n).slice a k = some (m.slice a k) := by
  have hall : ∀ l : List Nat, (∀ i ∈ l, i < k) →
      l.mapM (fun i => m.within base n (a + i)) = some (l.map fun i => m (a + i)) := by
    intro l
    induction l with
    | nil => simp
    | cons i l ih =>
      intro hl
      have hi := hl i List.mem_cons_self
      rw [List.mapM_cons, within_read (by omega) (by omega),
        ih fun j hj => hl j (List.mem_cons_of_mem i hj)]
      rfl
  exact hall _ fun i hi => List.mem_range.mp hi

end Memory

end Bytes
