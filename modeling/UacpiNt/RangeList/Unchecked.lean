import UacpiNt.RangeList.Basic

/-!
# Updates without a look at the status

A program may ignore whether an update of a range list succeeded; a failed one leaves the
list as it was. Sequences of such updates are counted up to permutation, and through an
image of the records, since a deletion names a record by its key only.
-/

namespace RangeList.Api

open List

variable {α ω ε κ : Type}

section

variable (api : Api α ω ε) (l cs : List (Range α ω))

def addRange' (r : Range α ω) (addIfConflict : Bool) : List (Range α ω) :=
  (api.addRange l r addIfConflict).toOption.getD l

def deleteRange' (start last : α) (owner : Option ω) : List (Range α ω) :=
  (api.deleteRange l start last owner).toOption.getD l

def deleteOwnersRanges' (owner : Option ω) : List (Range α ω) :=
  (api.deleteOwnersRanges l owner).toOption.getD l

def addAll : List (Range α ω) :=
  cs.foldl (fun l c => api.addRange' l c true) l

def deleteAll : List (Range α ω) :=
  cs.foldl (fun l c => api.deleteRange' l c.start c.last c.owner) l

end

variable [LE α] [DecidableEq ω] {api : Api α ω ε}

theorem Lawful.addRange'_perm (h : api.Lawful) (l : List (Range α ω)) {r : Range α ω}
    (hr : r.start ≤ r.last) : (api.addRange' l r true).Perm (r :: l) := by
  obtain ⟨l', hadd, hperm⟩ := h.add_spec l r hr
  rw [addRange', hadd]
  exact hperm

variable {l : List (Range α ω)}

theorem Lawful.mem_of_mem_addRange' (h : api.Lawful) {r x : Range α ω}
    (hx : x ∈ api.addRange' l r true) : x = r ∨ x ∈ l := by
  by_cases hr : r.start ≤ r.last
  · exact mem_cons.mp ((h.addRange'_perm l hr).mem_iff.mp hx)
  · obtain ⟨e, he⟩ := h.add_backwards l r true hr
    rw [addRange', he] at hx
    exact .inr hx

theorem Lawful.addAll_perm (h : api.Lawful) (l cs : List (Range α ω))
    (hcs : ∀ c ∈ cs, c.start ≤ c.last) : (api.addAll l cs).Perm (cs ++ l) := by
  induction cs generalizing l with
  | nil => exact Perm.refl l
  | cons c cs ih =>
    rw [forall_mem_cons] at hcs
    have hadd := h.addRange'_perm l hcs.1
    exact (ih (api.addRange' l c true) hcs.2).trans ((hadd.append_left cs).trans perm_middle)

/-- A deletion removes the image of the record it names, if the records with that key all
have the same image. -/
theorem Lawful.deleteRange'_perm (h : api.Lawful) (image : Range α ω → κ)
    (himage : ∀ r r', image r = image r' → r.key = r'.key) {c : Range α ω} {rest : List κ}
    (hexact : ∀ r ∈ l, r.key = c.key → image r = image c)
    (hl : (l.map image).Perm (image c :: rest)) :
    ((api.deleteRange' l c.start c.last c.owner).map image).Perm rest ∧
      ∀ r ∈ api.deleteRange' l c.start c.last c.owner, r ∈ l := by
  have hmem : image c ∈ l.map image := hl.mem_iff.mpr mem_cons_self
  obtain ⟨r, hr, hrc⟩ := mem_map.mp hmem
  obtain ⟨r', l', hdelete, hkey, hperm⟩ :=
    h.delete_spec l c.start c.last c.owner ⟨r, hr, himage r c hrc⟩
  have hr' : image r' = image c := hexact r' (hperm.mem_iff.mpr mem_cons_self) hkey
  rw [deleteRange', hdelete]
  refine ⟨?_, fun x hx => hperm.mem_iff.mpr (mem_cons_of_mem r' hx)⟩
  have hmap := hperm.map image
  rw [map_cons, hr'] at hmap
  exact (perm_cons (image c)).mp (hmap.symm.trans hl)

theorem Lawful.deleteAll_perm (h : api.Lawful) (image : Range α ω → κ)
    (himage : ∀ r r', image r = image r' → r.key = r'.key) {cs : List (Range α ω)} {rest : List κ}
    (hexact : ∀ r ∈ l, ∀ c ∈ cs, r.key = c.key → image r = image c)
    (hl : (l.map image).Perm (cs.map image ++ rest)) :
    ((api.deleteAll l cs).map image).Perm rest := by
  induction cs generalizing l with
  | nil => exact hl
  | cons c cs ih =>
    obtain ⟨hperm, hsub⟩ := h.deleteRange'_perm image himage
      (fun r hr => hexact r hr c mem_cons_self) hl
    exact ih (fun r hr x hx => hexact r (hsub r hr) x (mem_cons_of_mem c hx)) hperm

theorem Lawful.deleteOwnersRanges'_perm (h : api.Lawful) (l : List (Range α ω)) (o : Option ω) :
    (api.deleteOwnersRanges' l o).Perm (l.filter fun r => decide (r.owner ≠ o)) := by
  obtain ⟨l', hdelete, hperm⟩ := h.deleteOwners_spec l o
  rw [deleteOwnersRanges', hdelete]
  exact hperm

/-! ### Ranges that end before they start

Such a range is not entered, and in a list of ranges that were entered there is none to delete. -/

section

def Forward (l : List (Range α ω)) : Prop :=
  ∀ r ∈ l, r.start ≤ r.last

theorem Lawful.addRange'_backwards (h : api.Lawful) (l : List (Range α ω)) {r : Range α ω}
    (hr : ¬ r.start ≤ r.last) (b : Bool) : api.addRange' l r b = l := by
  obtain ⟨e, he⟩ := h.add_backwards l r b hr
  rw [addRange', he]
  rfl

theorem Lawful.deleteRange'_absent (h : api.Lawful) {c : Range α ω} (hc : ∀ r ∈ l, r.key ≠ c.key) :
    api.deleteRange' l c.start c.last c.owner = l := by
  obtain ⟨e, he⟩ := h.delete_absent l c.start c.last c.owner hc
  rw [deleteRange', he]
  rfl

theorem Lawful.mem_of_mem_deleteRange' (h : api.Lawful) {c x : Range α ω}
    (hx : x ∈ api.deleteRange' l c.start c.last c.owner) : x ∈ l := by
  by_cases hc : ∃ r ∈ l, r.key = c.key
  · obtain ⟨r, l', hdelete, -, hperm⟩ := h.delete_spec l c.start c.last c.owner hc
    rw [deleteRange', hdelete] at hx
    exact hperm.mem_iff.mpr (mem_cons_of_mem r hx)
  · rw [h.deleteRange'_absent fun r hr hkey => hc ⟨r, hr, hkey⟩] at hx
    exact hx

variable [DecidableLE α]

theorem Lawful.addAll_forward (h : api.Lawful) (l cs : List (Range α ω)) :
    api.addAll l cs = api.addAll l (cs.filter fun c => c.start ≤ c.last) := by
  induction cs generalizing l with
  | nil => rfl
  | cons c cs ih =>
    by_cases hc : c.start ≤ c.last
    · rw [filter_cons_of_pos (by simpa using hc)]
      exact ih (api.addRange' l c true)
    · rw [filter_cons_of_neg (by simpa using hc), ← ih l]
      exact congrArg (api.addAll · cs) (h.addRange'_backwards l hc true)

theorem Lawful.deleteAll_forward (h : api.Lawful) (hl : Forward l) (cs : List (Range α ω)) :
    api.deleteAll l cs = api.deleteAll l (cs.filter fun c => c.start ≤ c.last) := by
  induction cs generalizing l with
  | nil => rfl
  | cons c cs ih =>
    by_cases hc : c.start ≤ c.last
    · rw [filter_cons_of_pos (by simpa using hc)]
      exact ih fun r hr => hl r (h.mem_of_mem_deleteRange' hr)
    have habs : ∀ r ∈ l, r.key ≠ c.key := by
      intro r hr hkey
      obtain ⟨hst, hlast, -⟩ := Range.fields_of_key hkey
      have hfwd := hl r hr
      rw [hst, hlast] at hfwd
      exact hc hfwd
    rw [filter_cons_of_neg (by simpa using hc), ← ih hl]
    exact congrArg (api.deleteAll · cs) (h.deleteRange'_absent habs)

theorem Lawful.deleteAll_addAll (h : api.Lawful) (hl : Forward l) {cs ds : List (Range α ω)}
    (hperm : ds.Perm cs) :
    ((api.deleteAll (api.addAll l cs) ds).map Range.key).Perm (l.map Range.key) := by
  have hval : ∀ c ∈ cs.filter (fun c => c.start ≤ c.last), c.start ≤ c.last := by
    intro c hc
    simpa using (mem_filter.mp hc).2
  have hadded := h.addAll_perm l _ hval
  rw [h.addAll_forward l cs]
  have hfwd : Forward (api.addAll l (cs.filter fun c => c.start ≤ c.last)) := by
    intro r hr
    rcases mem_append.mp (hadded.mem_iff.mp hr) with hr | hr
    · exact hval r hr
    · exact hl r hr
  rw [h.deleteAll_forward hfwd ds]
  refine h.deleteAll_perm Range.key (fun _ _ heq => heq) (fun _ _ _ _ heq => heq) ?_
  have hkeys := hadded.map Range.key
  rw [map_append] at hkeys
  exact hkeys.trans (((hperm.symm.filter _).map _).append_right _)

end

end RangeList.Api

/-! ### Lists of disjoint ranges -/

namespace RangeList

open List

variable {α ω ε : Type} [LE α]

def Apart (l : List (Range α ω)) : Prop :=
  l.Pairwise fun x y => ¬ x.Overlaps y.start y.last

def Covers (l : List (Range α ω)) (a : α) : Prop :=
  ∃ x ∈ l, x.Overlaps a a

theorem Range.overlaps_comm {x y : Range α ω} :
    x.Overlaps y.start y.last ↔ y.Overlaps x.start x.last :=
  and_comm

theorem Apart.perm {l l' : List (Range α ω)} (h : Apart l) (hperm : l'.Perm l) : Apart l' := by
  have hsymm : ∀ {x y : Range α ω}, ¬ x.Overlaps y.start y.last → ¬ y.Overlaps x.start x.last :=
    fun hxy hyx => hxy (Range.overlaps_comm.mp hyx)
  exact (Perm.pairwise_iff hsymm hperm).mpr h

variable [DecidableEq ω] {api : Api α ω ε}

namespace Api

theorem Lawful.covers_addRange' (h : api.Lawful) {l : List (Range α ω)} {r : Range α ω}
    (hr : r.start ≤ r.last) (a : α) :
    Covers (api.addRange' l r true) a ↔ r.Overlaps a a ∨ Covers l a := by
  simp only [Covers, (h.addRange'_perm l hr).mem_iff, exists_mem_cons_iff]

section

variable (h : api.Lawful) {l : List (Range α ω)} {r : Range α ω} (hr : r.start ≤ r.last)
  (hfree : ∀ x ∈ l, ¬ x.Overlaps r.start r.last)

include h hr hfree

theorem Lawful.addRange'_free : (api.addRange' l r false).Perm (r :: l) := by
  obtain ⟨l', hadd, hperm⟩ := h.add_free_spec l r hr hfree
  rw [addRange', hadd]
  exact hperm

theorem Lawful.forall_addRange'_free {P : Range α ω → Prop} (hP : P r) (hl : ∀ x ∈ l, P x) :
    ∀ x ∈ api.addRange' l r false, P x :=
  fun x hx => forall_mem_cons.mpr ⟨hP, hl⟩ x ((h.addRange'_free hr hfree).mem_iff.mp hx)

theorem Lawful.covers_addRange'_free (a : α) :
    Covers (api.addRange' l r false) a ↔ r.Overlaps a a ∨ Covers l a := by
  simp only [Covers, (h.addRange'_free hr hfree).mem_iff, exists_mem_cons_iff]

theorem Lawful.apart_addRange'_free (hapart : Apart l) : Apart (api.addRange' l r false) := by
  refine Apart.perm (pairwise_cons.mpr ⟨fun x hx hover => ?_, hapart⟩)
    (h.addRange'_free hr hfree)
  exact hfree x hx (Range.overlaps_comm.mp hover)

end

theorem Lawful.deleteRange'_apart (h : api.Lawful) {l rest : List (Range α ω)} {c : Range α ω}
    (hc : c.start ≤ c.last) (hl : l.Perm (c :: rest)) (hapart : Apart l) :
    (api.deleteRange' l c.start c.last c.owner).Perm rest := by
  have hapart' : Apart (c :: rest) := hapart.perm hl.symm
  have hmem : c ∈ l := hl.mem_iff.mpr mem_cons_self
  obtain ⟨r, l', hdelete, hkey, hperm⟩ := h.delete_spec l c.start c.last c.owner ⟨c, hmem, rfl⟩
  obtain ⟨hst, hlast, -⟩ := Range.fields_of_key hkey
  have hr : r ∈ c :: rest := hl.mem_iff.mp (hperm.mem_iff.mpr mem_cons_self)
  have heq : r = c := by
    rcases mem_cons.mp hr with heq | hr
    · exact heq
    · refine absurd ?_ ((pairwise_cons.mp hapart').1 r hr)
      rw [hst, hlast]
      exact ⟨hc, hc⟩
  subst heq
  rw [deleteRange', hdelete]
  exact (perm_cons r).mp (hperm.symm.trans hl)

end Api

end RangeList
