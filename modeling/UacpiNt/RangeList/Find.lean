import UacpiNt.RangeList.Basic
import Mathlib.Data.UInt

/-!
# Placements in a range list of addresses

Over a 64 bit address space a range list can also be searched for room. The
search answers with an aligned start inside the given window, such that the
interval placed there meets acceptable records only.
-/

namespace RangeList

open UInt64

theorem toNat_pos_of_ne_zero {a : UInt64} (h : a ≠ 0) : 0 < a.toNat :=
  Nat.pos_of_ne_zero fun hzero => h (UInt64.toNat_inj.mp hzero)

theorem toNat_sub_one {a : UInt64} (h : a ≠ 0) : (a - 1).toNat = a.toNat - 1 := by
  have hpos := toNat_pos_of_ne_zero h
  rw [UInt64.toNat_sub_of_le, toNat_one]
  rw [le_iff_toNat_le, toNat_one]
  omega

theorem toNat_sub_one_of_lt {a b : UInt64} (h : a < b) : (b - 1).toNat = b.toNat - 1 := by
  apply toNat_sub_one
  rintro rfl
  exact Nat.not_lt_zero _ (lt_iff_toNat_lt.mp h)

theorem sub_one_le_of_lt {a b : UInt64} (h : a < b) : b - 1 ≤ b := by
  rw [le_iff_toNat_le, toNat_sub_one_of_lt h]
  exact Nat.sub_le ..

/-- The operations of a range list of addresses, with the search for a free
placement. The search takes the window, the length, the alignment and the terms
of the request. -/
structure FindApi (ω ε : Type) extends Api UInt64 ω ε where
  findRange : List (Range UInt64 ω) → UInt64 → UInt64 → UInt64 → UInt64 → Terms UInt64 ω →
    Except ε UInt64 × Option (Range UInt64 ω)

/-- `start` is a placement of `length` in the window from `minimum` to `maximum`
on the given terms. The bounds are compared without wrap-around. -/
structure Placement {ω : Type} (l : List (Range UInt64 ω))
    (minimum maximum length alignment : UInt64) (t : Terms UInt64 ω) (start : UInt64) : Prop where
  minimum_le : minimum ≤ start
  aligned : start % alignment = 0
  fits : start.toNat + length.toNat ≤ maximum.toNat + 1
  permitted : ∀ r ∈ l, r.Overlaps start (start + length - 1) → t.permits r = true

namespace FindApi

variable {ω ε : Type}

/-- What the operations on addresses are documented to do. -/
structure Lawful [DecidableEq ω] (api : FindApi ω ε) : Prop
    extends api.toApi.Lawful where
  find_spec : ∀ l minimum maximum length alignment t start, length ≠ 0 → alignment ≠ 0 →
    (api.findRange l minimum maximum length alignment t).1 = .ok start →
    Placement l minimum maximum length alignment t start

/-- The search answers with the highest placement, and fails only if there is none. -/
structure Highest (api : FindApi ω ε) : Prop where
  le_found : ∀ l minimum maximum length alignment t start s, length ≠ 0 → alignment ≠ 0 →
    (api.findRange l minimum maximum length alignment t).1 = .ok start →
    Placement l minimum maximum length alignment t s → s ≤ start
  not_placement : ∀ l minimum maximum length alignment t e s, length ≠ 0 → alignment ≠ 0 →
    (api.findRange l minimum maximum length alignment t).1 = .error e →
    ¬ Placement l minimum maximum length alignment t s

/-- The callback of the search is asked about records of the list that meet the window, and about
no others. -/
def AsksWithin (api : FindApi ω ε) : Prop :=
  ∀ l minimum maximum length alignment t x, length ≠ 0 → alignment ≠ 0 →
    (api.findRange l minimum maximum length alignment t).2 = some x →
    x ∈ l ∧ x.Overlaps minimum maximum

end FindApi

namespace Placement

variable {ω : Type} {l : List (Range UInt64 ω)}
  {minimum maximum length alignment start : UInt64} {t : Terms UInt64 ω}

variable (h : Placement l minimum maximum length alignment t start) (hlength : length ≠ 0)

include h hlength

theorem toNat_last : (start + length - 1).toNat = start.toNat + length.toNat - 1 := by
  have hfits := h.fits
  have hmax := maximum.toNat_lt
  have hpos := toNat_pos_of_ne_zero hlength
  simp only [UInt64.toNat_sub, UInt64.toNat_add, toNat_one]
  omega

theorem start_le_last : start ≤ start + length - 1 := by
  have hpos := toNat_pos_of_ne_zero hlength
  rw [le_iff_toNat_le, h.toNat_last hlength]
  omega

theorem last_le_maximum : start + length - 1 ≤ maximum := by
  have hfits := h.fits
  rw [le_iff_toNat_le, h.toNat_last hlength]
  omega

end Placement

end RangeList
