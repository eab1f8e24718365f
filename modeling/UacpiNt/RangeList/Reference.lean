import UacpiNt.RangeList.Find

/-!
# A reference range list

A range list kept in order of the starts, searched from the top of the window
down. It shows that the laws of `Api.Lawful` and `FindApi.Lawful` can be met,
and it lets a program over range lists be run.
-/

namespace RangeList.Reference

open List UInt64

variable {α ω ε : Type}

/-- Ask the callback about each record the other terms refuse, up to the first
one it refuses as well. The last record asked about is carried along. -/
def consult (t : Terms α ω) : List (Range α ω) → Option (Range α ω) →
    Bool × Option (Range α ω)
  | [], asked => (true, asked)
  | r :: l, asked =>
    if t.waives r then consult t l asked
    else match t.callback with
      | none => (false, asked)
      | some accepts => if accepts r then consult t l (some r) else (false, some r)

theorem consult_fst (t : Terms α ω) (l : List (Range α ω)) (asked : Option (Range α ω)) :
    (consult t l asked).1 = true ↔ ∀ r ∈ l, t.permits r = true := by
  induction l generalizing asked with
  | nil => simp [consult]
  | cons r l ih =>
    rw [consult]
    by_cases hw : t.waives r = true
    · simp [hw, ih, Terms.permits]
    cases hc : t.callback with
    | none => simp [hw, Terms.permits, hc]
    | some accepts =>
      by_cases ha : accepts r = true
      · simp [hw, ih, Terms.permits, hc, ha]
      · simp [hw, Terms.permits, hc, ha]

theorem mem_of_consult (t : Terms α ω) {l : List (Range α ω)} {asked : Option (Range α ω)}
    {x : Range α ω} (h : (consult t l asked).2 = some x) : asked = some x ∨ x ∈ l := by
  induction l generalizing asked with
  | nil => exact .inl h
  | cons r l ih =>
    have hcons : ∀ asked, (consult t l asked).2 = some x →
        asked = some x ∨ x ∈ r :: l := fun asked h => (ih h).imp_right (mem_cons_of_mem r)
    rw [consult] at h
    split at h
    · exact hcons asked h
    split at h
    · exact .inl h
    split at h
    · rcases hcons (some r) h with hr | hx
      · cases hr
        exact .inr mem_cons_self
      · exact .inr hx
    · cases h
      exact .inr mem_cons_self

theorem eraseP_perm (p : Range α ω → Bool) (l : List (Range α ω)) (h : l.any p = true) :
    ∃ r, p r = true ∧ l.Perm (r :: l.eraseP p) := by
  obtain ⟨a, ha, hpa⟩ := any_eq_true.mp h
  obtain ⟨r, front, back, -, hp, hl, herase⟩ := exists_of_eraseP ha hpa
  refine ⟨r, hp, ?_⟩
  rw [herase, hl]
  exact perm_middle

section

variable [LE α] [DecidableLE α]

section

variable (r : Range α ω) (l : List (Range α ω)) (lo hi : α) (t : Terms α ω)

def isRangeAvailable : Bool × Option (Range α ω) :=
  consult t (l.filter fun r => decide (r.Overlaps lo hi)) none

def insert : List (Range α ω) :=
  l.orderedInsert (fun a b => a.start ≤ b.start) r

theorem insert_perm : (insert r l).Perm (r :: l) := perm_orderedInsert _ r l

theorem isRangeAvailable_fst : (isRangeAvailable l lo hi t).1 = true ↔
      ∀ r ∈ l, r.Overlaps lo hi → t.permits r = true := by
  simp [isRangeAvailable, consult_fst]

end

theorem isRangeAvailable_snd {l : List (Range α ω)} {lo hi : α} {t : Terms α ω} {x : Range α ω}
    (h : (isRangeAvailable l lo hi t).2 = some x) : x ∈ l ∧ x.Overlaps lo hi := by
  rcases mem_of_consult t h with hnone | hx
  · cases hnone
  · obtain ⟨hmem, hmeets⟩ := mem_filter.mp hx
    exact ⟨hmem, of_decide_eq_true hmeets⟩

variable [DecidableEq α] [DecidableEq ω]

/-- The range list operations. `refused` is the failure they answer with. -/
def api (refused : ε) : Api α ω ε where
  copyRangeList l := .ok l
  addRange l r addIfConflict :=
    if r.start ≤ r.last ∧ (addIfConflict = true ∨ ∀ x ∈ l, ¬ x.Overlaps r.start r.last) then
      .ok (insert r l)
    else .error refused
  deleteRange l lo hi o :=
    if l.any fun r => r.key = (lo, hi, o) then .ok (l.eraseP fun r => r.key = (lo, hi, o))
    else .error refused
  deleteOwnersRanges l o := .ok (l.filter fun r => decide (r.owner ≠ o))
  isRangeAvailable l lo hi t :=
    let (available, asked) := isRangeAvailable l lo hi t
    (.ok available, asked)

theorem api_lawful (refused : ε) : (api refused : Api α ω ε).Lawful where
  copy_spec l := ⟨l, rfl, Perm.refl l⟩
  add_spec l r h := ⟨insert r l, by simp [api, h], insert_perm r l⟩
  add_free_spec l r h hfree := ⟨insert r l, by simpa [api, h] using hfree, insert_perm r l⟩
  add_backwards l r b h := ⟨refused, by simp [api, h]⟩
  delete_spec l lo hi o h := by
    have hany : l.any (fun r => decide (r.key = (lo, hi, o))) = true := by
      simpa [any_eq_true] using h
    obtain ⟨r, hr, hperm⟩ := eraseP_perm _ l hany
    exact ⟨r, _, by simp only [api, hany, if_true], by simpa using hr, hperm⟩
  delete_absent l lo hi o h := by
    have hany : l.any (fun r => decide (r.key = (lo, hi, o))) = false := by
      simpa [any_eq_false] using h
    exact ⟨refused, by simp only [api, hany, Bool.false_eq_true, if_false]⟩
  deleteOwners_spec l o := ⟨_, rfl, Perm.refl _⟩
  available_spec l lo hi t := by
    simp [api, isRangeAvailable_fst]

end

section

/-- The highest aligned start of a placement that ends below `top`. -/
def candidate (length alignment : UInt64) (top : Nat) : Nat :=
  (top - length.toNat) / alignment.toNat * alignment.toNat

def blocker (l : List (Range UInt64 ω)) (t : Terms UInt64 ω) (start length : UInt64) :
    Option (Range UInt64 ω) :=
  l.find? fun r => decide (r.Overlaps start (start + length - 1)) && !t.permits r

/-- Look for a placement that ends below `top`, from the top down. A record
that refuses a placement refuses everything down to its own start, so the search
goes on below that. `fuel` bounds the number of records met. -/
def searchDown (l : List (Range UInt64 ω)) (t : Terms UInt64 ω)
    (minimum length alignment : UInt64) : Nat → Nat → Option (Range UInt64 ω) →
    Option UInt64 × Option (Range UInt64 ω)
  | 0, _, asked => (none, asked)
  | fuel + 1, top, asked =>
    let start := UInt64.ofNat (candidate length alignment top)
    let asked' := (isRangeAvailable l start (start + length - 1) t).2 <|> asked
    if top < length.toNat ∨ candidate length alignment top < minimum.toNat then (none, asked)
    else match blocker l t start length with
      | none => (some start, asked')
      | some r => searchDown l t minimum length alignment fuel r.start.toNat asked'

theorem candidate_le (length alignment : UInt64) (top : Nat) :
    candidate length alignment top ≤ top - length.toNat :=
  Nat.div_mul_le_self _ _

variable {length maximum minimum alignment start : UInt64} {l : List (Range UInt64 ω)}
  {r : Range UInt64 ω} {t : Terms UInt64 ω}

section

variable (l) (t)

theorem toNat_ofNat_candidate (alignment : UInt64) (hleng : length ≠ 0) {top : Nat}
    (htop : top ≤ maximum.toNat + 1) :
    (ofNat (candidate length alignment top)).toNat = candidate length alignment top := by
  have hpos := toNat_pos_of_ne_zero hleng
  have hmax := maximum.toNat_lt
  have hle := candidate_le length alignment top
  exact Nat.mod_eq_of_lt (by omega)

theorem blocker_eq_none (start length : UInt64) (h : blocker l t start length = none) :
    ∀ r ∈ l, r.Overlaps start (start + length - 1) → t.permits r = true := by
  simpa [blocker] using h

theorem overlaps_of_blocker (start length : UInt64) (r : Range UInt64 ω)
    (h : blocker l t start length = some r) : r.Overlaps start (start + length - 1) := by
  have hr := find?_some h
  simp only [Bool.and_eq_true, decide_eq_true_eq] at hr
  exact hr.1

theorem searchDown_sound (hleng : length ≠ 0) (fuel top : Nat) (asked : Option (Range UInt64 ω))
    (htop : top ≤ maximum.toNat + 1)
    (h : (searchDown l t minimum length alignment fuel top asked).1 = some start) :
    Placement l minimum maximum length alignment t start := by
  induction fuel generalizing top asked with
  | zero => simp [searchDown] at h
  | succ fuel ih =>
    have hpos := toNat_pos_of_ne_zero hleng
    have hle := candidate_le length alignment top
    simp only [searchDown] at h
    split at h
    · cases h
    rename_i hroom
    push Not at hroom
    obtain ⟨htl, hmin⟩ := hroom
    have hnat := toNat_ofNat_candidate alignment hleng htop
    cases hb : blocker l t (.ofNat (candidate length alignment top)) length with
    | none =>
      rw [hb] at h
      cases h
      refine ⟨?_, ?_, ?_, blocker_eq_none _ _ _ _ hb⟩
      · rw [le_iff_toNat_le, hnat]
        exact hmin
      · rw [← UInt64.toNat_inj, UInt64.toNat_mod, hnat]
        simp [candidate]
      · omega
    | some r =>
      rw [hb] at h
      have hlast := le_iff_toNat_le.mp (overlaps_of_blocker _ _ _ _ _ hb).1
      simp only [UInt64.toNat_sub, UInt64.toNat_add, toNat_one] at hlast
      exact ih r.start.toNat _ (by omega) h

theorem searchDown_asked (hleng : length ≠ 0) (fuel top : Nat) (asked : Option (Range UInt64 ω))
    (htop : top ≤ maximum.toNat + 1) {x : Range UInt64 ω}
    (h : (searchDown l t minimum length alignment fuel top asked).2 = some x) :
    asked = some x ∨ x ∈ l ∧ x.Overlaps minimum maximum := by
  induction fuel generalizing top asked with
  | zero => exact .inl h
  | succ fuel ih =>
    have hpos := toNat_pos_of_ne_zero hleng
    have hle := candidate_le length alignment top
    simp only [searchDown] at h
    split at h
    · exact .inl h
    rename_i hroom
    push Not at hroom
    have hnat := toNat_ofNat_candidate alignment hleng htop
    have hwin : ∀ r : Range UInt64 ω, r.Overlaps (.ofNat (candidate length alignment top))
          (.ofNat (candidate length alignment top) + length - 1) →
        r.Overlaps minimum maximum ∧ r.start.toNat ≤ maximum.toNat + 1 := by
      intro r hr
      obtain ⟨hst, hlast⟩ := hr
      rw [le_iff_toNat_le, UInt64.toNat_sub, UInt64.toNat_add, toNat_one] at hst
      rw [le_iff_toNat_le] at hlast
      rw [Range.Overlaps, le_iff_toNat_le, le_iff_toNat_le]
      omega
    have hasked : ∀ y, ((isRangeAvailable l (.ofNat (candidate length alignment top))
        (.ofNat (candidate length alignment top) + length - 1) t).2 <|> asked) = some y →
        asked = some y ∨ y ∈ l ∧ y.Overlaps minimum maximum := by
      intro y hy
      cases hans : (isRangeAvailable l (.ofNat (candidate length alignment top))
        (.ofNat (candidate length alignment top) + length - 1) t).2 with
      | none =>
        rw [hans] at hy
        exact .inl hy
      | some z =>
        rw [hans] at hy
        cases hy
        obtain ⟨hmem, hmeets⟩ := isRangeAvailable_snd hans
        exact .inr ⟨hmem, (hwin y hmeets).1⟩
    split at h
    · exact hasked x h
    rename_i r hb
    have hr := (hwin r (overlaps_of_blocker _ _ _ _ _ hb)).2
    rcases ih _ _ hr h with hnext | hfd
    · exact hasked x hnext
    · exact .inr hfd

/-! The search is also exhaustive. A record that refuses the candidate refuses every placement
that ends above its start, and the records that start below the top of the search get fewer. -/

def startsBelow (top : Nat) : Nat :=
  l.countP fun r => r.start.toNat < top

end

theorem startsBelow_lt {top : Nat} (hr : r ∈ l) (htop : r.start.toNat < top) :
    startsBelow l r.start.toNat < startsBelow l top := by
  obtain ⟨front, back, rfl⟩ := append_of_mem hr
  have hmono : ∀ l : List (Range UInt64 ω), startsBelow l r.start.toNat ≤ startsBelow l top :=
    fun l => countP_mono_left fun x _ hx => by
      rw [decide_eq_true_eq] at hx ⊢
      omega
  have hfront := hmono front
  have hback := hmono back
  simp only [startsBelow, countP_append, countP_cons, htop, lt_irrefl, decide_true,
    decide_false, if_true] at hfront hback ⊢
  simp only [Bool.false_eq_true, if_false]
  omega

theorem le_candidate {s top : Nat} (hdvd : alignment.toNat ∣ s) (hfits : s + length.toNat ≤ top) :
    s ≤ candidate length alignment top := by
  obtain ⟨k, rfl⟩ := hdvd
  rw [Nat.mul_comm]
  rcases Nat.eq_zero_or_pos alignment.toNat with hzero | hpos
  · rw [hzero]
    exact Nat.zero_le _
  · apply Nat.mul_le_mul_right
    rw [Nat.le_div_iff_mul_le hpos, Nat.mul_comm]
    omega

theorem blocker_spec (h : blocker l t start length = some r) : r ∈ l ∧ t.permits r = false := by
  have hr := find?_some h
  rw [Bool.and_eq_true, Bool.not_eq_true'] at hr
  exact ⟨mem_of_find?_eq_some h, hr.2⟩

theorem end_le_blocker {s : UInt64} (hleng : length ≠ 0) (hb : blocker l t start length = some r)
    (hs : Placement l minimum maximum length alignment t s) (hle : s ≤ start) :
    s.toNat + length.toNat ≤ r.start.toNat := by
  obtain ⟨hr, href⟩ := blocker_spec hb
  have hlast := (overlaps_of_blocker _ _ _ _ _ hb).2
  by_contra hend
  have hmeets : r.Overlaps s (s + length - 1) := by
    refine ⟨?_, UInt64.le_trans hle hlast⟩
    rw [le_iff_toNat_le, hs.toNat_last hleng]
    omega
  rw [hs.permitted r hr hmeets] at href
  cases href

theorem searchDown_complete (l : List (Range UInt64 ω)) (t : Terms UInt64 ω) {s : UInt64}
    (hleng : length ≠ 0) (hs : Placement l minimum maximum length alignment t s) (fuel top : Nat)
    (asked : Option (Range UInt64 ω)) (htop : top ≤ maximum.toNat + 1)
    (hfuel : startsBelow l top < fuel) (hfits : s.toNat + length.toNat ≤ top) :
    ∃ start, (searchDown l t minimum length alignment fuel top asked).1 = some start ∧
      s ≤ start := by
  induction fuel generalizing top asked with
  | zero => omega
  | succ fuel ih =>
    have hpos := toNat_pos_of_ne_zero hleng
    have hdvd : alignment.toNat ∣ s.toNat := by
      have hmod := congrArg UInt64.toNat hs.aligned
      exact Nat.dvd_of_mod_eq_zero hmod
    have hle := le_candidate hdvd hfits
    have hbelow := candidate_le length alignment top
    have hmin := le_iff_toNat_le.mp hs.minimum_le
    have hnat := toNat_ofNat_candidate alignment hleng htop
    have hle' : s ≤ ofNat (candidate length alignment top) := by
      rw [le_iff_toNat_le, hnat]
      exact hle
    simp only [searchDown]
    rw [if_neg (by omega)]
    cases hb : blocker l t (.ofNat (candidate length alignment top)) length with
    | none => exact ⟨_, rfl, hle'⟩
    | some r =>
      have hend := end_le_blocker hleng hb hs hle'
      have hst := le_iff_toNat_le.mp (overlaps_of_blocker _ _ _ _ _ hb).1
      simp only [UInt64.toNat_sub, UInt64.toNat_add, toNat_one] at hst
      have hless := startsBelow_lt (blocker_spec hb).1 (show r.start.toNat < top by omega)
      exact ih r.start.toNat _ (by omega) (by omega) hend

variable [DecidableEq ω]

def findApi (refused : ε) : FindApi ω ε where
  toApi := api refused
  findRange l minimum maximum length alignment t :=
    match searchDown l t minimum length alignment (l.length + 1) (maximum.toNat + 1) none with
    | (none, asked) => (.error refused, asked)
    | (some start, asked) => (.ok start, asked)

theorem findApi_lawful (refused : ε) : (findApi refused : FindApi ω ε).Lawful where
  toLawful := api_lawful refused
  find_spec l minimum maximum length alignment t start hleng _ h := by
    apply searchDown_sound l t hleng (l.length + 1) (maximum.toNat + 1) none le_rfl
    simp only [findApi] at h
    split at h
    · cases h
    · rename_i found asked hsearch
      cases h
      rw [hsearch]

theorem findApi_asksWithin (refused : ε) : (findApi refused : FindApi ω ε).AsksWithin := by
  intro l minimum maximum length alignment t x hleng _ h
  have hasked : (searchDown l t minimum length alignment (l.length + 1) (maximum.toNat + 1)
      none).2 = some x := by
    simp only [findApi] at h
    split at h <;> rename_i hsearch <;> rw [hsearch] <;> exact h
  rcases searchDown_asked l t hleng _ _ _ le_rfl hasked with hnone | hx
  · cases hnone
  · exact hx

theorem findRange_complete (refused : ε) {s : UInt64} (hleng : length ≠ 0)
    (hs : Placement l minimum maximum length alignment t s) :
    ∃ start, ((findApi refused : FindApi ω ε).findRange l minimum maximum length alignment t).1 =
      .ok start ∧ s ≤ start := by
  have hfuel : startsBelow l (maximum.toNat + 1) < l.length + 1 :=
    Nat.lt_succ_of_le countP_le_length
  obtain ⟨start, hsearch, hle⟩ := searchDown_complete l t hleng hs (l.length + 1)
    (maximum.toNat + 1) none le_rfl hfuel hs.fits
  refine ⟨start, ?_, hle⟩
  simp only [findApi]
  split
  · rename_i asked hnone
    rw [hnone] at hsearch
    cases hsearch
  rename_i found asked hfd
  rw [hfd] at hsearch
  cases hsearch
  rfl

theorem findApi_highest (refused : ε) : (findApi refused : FindApi ω ε).Highest where
  le_found l minimum maximum length alignment t start s hleng _ hfd hs := by
    obtain ⟨start', hfd', hle⟩ := findRange_complete refused hleng hs
    cases hfd.symm.trans hfd'
    exact hle
  not_placement l minimum maximum length alignment t e s hleng _ herr hs := by
    obtain ⟨start, hfd, -⟩ := findRange_complete refused hleng hs
    cases herr.symm.trans hfd

end

end RangeList.Reference
