import Mathlib.Init

/-!
# Machines driven by operations

An operation is possible in some states and then leads to another one. `exec` performs a
sequence of operations, and `Throughout` says that a relation holds at every step of it between
the state before, the operation and the state after. What each operation preserves holds after
every sequence of them.
-/

namespace Machine

variable {S O : Type*}

/-- Perform the operations one after the other; `none` if one of them is not possible. -/
def exec (step : S → O → Option S) : List O → S → Option S
  | [], s => some s
  | o :: os, s => (step s o).bind (exec step os)

def Throughout (step : S → O → Option S) (cond : S → O → S → Prop) : List O → S → Prop
  | [], _ => True
  | o :: os, s => ∀ s' ∈ step s o, cond s o s' ∧ Throughout step cond os s'

instance (step : S → O → Option S) (cond : S → O → S → Prop)
    [∀ s o s', Decidable (cond s o s')] (os : List O) (s : S) :
    Decidable (Throughout step cond os s) :=
  decideThroughout os s
where
  decideThroughout : (os : List O) → (s : S) → Decidable (Throughout step cond os s)
    | [], _ => .isTrue trivial
    | o :: os, s =>
      have : ∀ s', Decidable (Throughout step cond os s') := decideThroughout os
      inferInstanceAs (Decidable (∀ s' ∈ step s o, cond s o s' ∧ Throughout step cond os s'))

variable {step : S → O → Option S} {cond cond' : S → O → S → Prop} {I : S → Prop}
  {o : O} {os : List O} {s s' : S}

theorem exec_cons_eq_some :
    exec step (o :: os) s = some s' ↔ ∃ t, step s o = some t ∧ exec step os t = some s' := by
  simp [exec, Option.bind_eq_some_iff]

theorem exec_append (os os' : List O) (s : S) :
    exec step (os ++ os') s = (exec step os s).bind (exec step os') := by
  induction os generalizing s with
  | nil => rfl
  | cons o os ih =>
    rw [List.cons_append, exec, exec, Option.bind_assoc]
    exact congrArg (step s o).bind (funext ih)

theorem throughout_cons_of_step {t : S} (h : step s o = some t) :
    Throughout step cond (o :: os) s ↔ cond s o t ∧ Throughout step cond os t := by
  simp [Throughout, h]

/-- An invariant that every step preserves under a condition holds after a sequence of operations
all of whose steps meet the condition. -/
theorem exec_invariant (hstep : ∀ s o s', I s → step s o = some s' → cond s o s' → I s')
    (hexec : exec step os s = some s') (hs : I s) (hcond : Throughout step cond os s) : I s' := by
  induction os generalizing s with
  | nil =>
    cases hexec
    exact hs
  | cons o os ih =>
    obtain ⟨t, ht, hrest⟩ := exec_cons_eq_some.1 hexec
    obtain ⟨hc, hcs⟩ := hcond t ht
    exact ih hrest (hstep s o t hs ht hc) hcs

theorem throughout_of_step (h : ∀ s o s', step s o = some s' → cond s o s') :
    Throughout step cond os s := by
  induction os generalizing s with
  | nil => trivial
  | cons o os ih => exact fun t ht => ⟨h s o t ht, ih⟩

theorem throughout_of_forall (h : ∀ s o s', cond s o s') : Throughout step cond os s :=
  throughout_of_step fun s o s' _ => h s o s'

theorem throughout_of_forall_mem {P : O → Prop} (h : ∀ o ∈ os, P o) :
    Throughout step (fun _ o _ => P o) os s := by
  induction os generalizing s with
  | nil => trivial
  | cons o os ih =>
    refine fun t _ => ⟨h o List.mem_cons_self, ih fun o' ho' => h o' ?_⟩
    exact List.mem_cons_of_mem o ho'

theorem exec_preserves (hstep : ∀ s o s', I s → step s o = some s' → I s')
    (hexec : exec step os s = some s') (hs : I s) : I s' :=
  exec_invariant (fun s o s' hinv h _ => hstep s o s' hinv h) hexec hs
    (throughout_of_forall fun _ _ _ => trivial)

theorem Throughout.and (h : Throughout step cond os s) (h' : Throughout step cond' os s) :
    Throughout step (fun s o s' => cond s o s' ∧ cond' s o s') os s := by
  induction os generalizing s with
  | nil => trivial
  | cons o os ih =>
    intro t ht
    exact ⟨⟨(h t ht).1, (h' t ht).1⟩, ih (h t ht).2 (h' t ht).2⟩

theorem Throughout.imp
    (hstep : ∀ s o s', I s → step s o = some s' → cond s o s' → I s' ∧ cond' s o s')
    (hs : I s) (hcond : Throughout step cond os s) : Throughout step cond' os s := by
  induction os generalizing s with
  | nil => trivial
  | cons o os ih =>
    intro t ht
    obtain ⟨hc, hcs⟩ := hcond t ht
    obtain ⟨ht', hc'⟩ := hstep s o t hs ht hc
    exact ⟨hc', ih ht' hcs⟩

/-- If from every state with a property one step keeps the property exactly if it meets a
condition, then the property holds after every step of a run exactly if every step meets the
condition. -/
theorem throughout_iff {given : S → O → S → Prop} {P : S → Prop}
    (hstep : ∀ s o s', I s → P s → step s o = some s' → given s o s' → I s' ∧ (P s' ↔ cond s o s'))
    (hI : I s) (hP : P s) (hgiven : Throughout step given os s) :
    Throughout step (fun _ _ s' => P s') os s ↔ Throughout step cond os s := by
  induction os generalizing s with
  | nil => exact Iff.rfl
  | cons o os ih =>
    refine forall₂_congr fun t ht => ?_
    obtain ⟨hg, hgs⟩ := hgiven t ht
    obtain ⟨hI', hiff⟩ := hstep s o t hI hP ht hg
    constructor
    · rintro ⟨hP', hrest⟩
      exact ⟨hiff.1 hP', (ih hI' hP' hgs).1 hrest⟩
    · rintro ⟨hc, hrest⟩
      exact ⟨hiff.2 hc, (ih hI' (hiff.2 hc) hgs).2 hrest⟩

theorem throughout_append {os' : List O} (hexec : exec step os s = some s') :
    Throughout step cond (os ++ os') s ↔
      Throughout step cond os s ∧ Throughout step cond os' s' := by
  induction os generalizing s with
  | nil =>
    cases hexec
    simp [Throughout]
  | cons o os ih =>
    obtain ⟨t, ht, hrest⟩ := exec_cons_eq_some.1 hexec
    rw [List.cons_append, throughout_cons_of_step ht, throughout_cons_of_step ht, ih hrest,
      and_assoc]

/-- A property that holds after a run and did not hold before came about in one of its steps. -/
theorem exists_step {P : S → Prop} (hexec : exec step os s = some s') (hs : ¬ P s) (hs' : P s') :
    ∃ before o after t t', os = before ++ o :: after ∧ exec step before s = some t ∧
      step t o = some t' ∧ ¬ P t ∧ P t' := by
  induction os generalizing s with
  | nil =>
    cases hexec
    exact absurd hs' hs
  | cons o os ih =>
    obtain ⟨t, ht, hrest⟩ := exec_cons_eq_some.1 hexec
    by_cases hP : P t
    · exact ⟨[], o, os, s, t, rfl, rfl, ht, hs, hP⟩
    · obtain ⟨before, o', after, u, u', rfl, hbef, hstep⟩ := ih hrest hP
      exact ⟨o :: before, o', after, u, u', rfl, exec_cons_eq_some.2 ⟨t, ht, hbef⟩, hstep⟩

/-! ### Two sequences of operations at once -/

/-- The operations of two sequences, each in its own order. -/
inductive Interleaves : List O → List O → List O → Prop
  | nil : Interleaves [] [] []
  | left {os os' all : List O} (o : O) (h : Interleaves os os' all) :
      Interleaves (o :: os) os' (o :: all)
  | right {os os' all : List O} (o : O) (h : Interleaves os os' all) :
      Interleaves os (o :: os') (o :: all)

theorem Interleaves.eq_of_nil_left {all : List O} (h : Interleaves [] os all) : all = os := by
  induction os generalizing all with
  | nil =>
    cases h
    rfl
  | cons o os ih =>
    cases h with
    | right _ h => rw [ih h]

theorem Interleaves.eq_of_nil_right {all : List O} (h : Interleaves os [] all) : all = os := by
  induction os generalizing all with
  | nil =>
    cases h
    rfl
  | cons o os ih =>
    cases h with
    | left _ h => rw [ih h]

/-- Two operations of one party and two of another: one party comes first, or both begin before
one of them ends. -/
theorem Interleaves.two_cases {begin end' : Bool → O} {all : List O}
    (h : Interleaves [begin false, end' false] [begin true, end' true] all) :
    (∃ c, all = [begin c, end' c, begin (!c), end' (!c)]) ∨
      ∃ c d, all = [begin c, begin (!c), end' d, end' (!d)] := by
  have hends : ∀ {all : List O} {c : Bool}, Interleaves [end' false] [end' true] all →
      (∃ d, begin c :: begin (!c) :: all = [begin c, begin (!c), end' d, end' (!d)]) := by
    intro all c h
    cases h with
    | left _ h => exact ⟨false, by rw [h.eq_of_nil_left]; rfl⟩
    | right _ h => exact ⟨true, by rw [h.eq_of_nil_right]; rfl⟩
  cases h with
  | left _ h =>
    cases h with
    | left _ h => exact .inl ⟨false, by rw [h.eq_of_nil_left]; rfl⟩
    | right _ h => exact .inr ⟨false, hends h⟩
  | right _ h =>
    cases h with
    | left _ h => exact .inr ⟨true, hends h⟩
    | right _ h => exact .inl ⟨true, by rw [h.eq_of_nil_right]; rfl⟩

end Machine
