import UacpiNt.IrqArb.Basic
import Mathlib.Data.List.ReduceOption

/-!
# Interrupt links

The line of a link is chosen from the lines of its `_PRS` when the link is first asked for, starting
at a place that rotates from one choice to the next, and lines that other links hold come last. The
table then keeps the line.

The place is computed in 32 bits. Where the rotation wraps around and the number of lines is no
power of two, some lines are looked at twice and others never.
-/

namespace UacpiNt

open List

/-- The resources of a link, `none` if they cannot be read: of each descriptor its lines, and `none`
for those that are no interrupt descriptors. -/
abbrev LinkResources := Option (List (Option (List UInt32)))

/-- What the firmware says about a link: `_PRS`, `_CRS`, and the lines that `_SRS` accepts. -/
structure LinkFirmware where
  prs : LinkResources
  crs : LinkResources
  srs : UInt32 → Bool

structure LinkConfig where
  rotation : UInt32
  exclusionMask : UInt16
  sciGsiv : UInt32

def irqLinkNone : UInt32 := 0xFFFFFFFF

def irqLinkMax : Nat := 32

def linkCandidateMax : Nat := 16

def LinkResources.lines (resources : LinkResources) : List UInt32 :=
  (resources.getD []).reduceOption.headD []

section

variable (config : LinkConfig) (prs : LinkResources) (firmware : LinkFirmware) (node : Nat)
  (links : List IrqLink)

def uacpiNtLinkCandidates (maxCount : Nat) : List UInt32 :=
  prs.lines.take maxCount

def uacpiNtLinkCurrentGsiv (crs : LinkResources) (index : UInt32) : Option UInt32 :=
  (crs.getD []).reduceOption[index.toNat]?.bind (·.head?)

def uacpiNtLinkProgram (gsiv : UInt32) : Bool :=
  firmware.crs.isSome && firmware.srs gsiv

def uacpiNtGsivHeldByLink (gsiv : UInt32) : Bool :=
  links.any (·.gsiv == gsiv)

def uacpiNtLinkLineUsable (gsiv : UInt32) (avoidOtherLinks : Bool) : Bool :=
  if gsiv = config.sciGsiv then false
  else if gsiv < isaGsivCount ∧ config.exclusionMask.toUInt32 &&& (1 <<< gsiv) ≠ 0 then false
  else !(avoidOtherLinks && uacpiNtGsivHeldByLink links gsiv)

def rotated (rotation : UInt32) (candidates : List UInt32) : List UInt32 :=
  (List.range candidates.length).filterMap fun i =>
    candidates[((rotation + .ofNat i) % .ofNat candidates.length).toNat]?

/-- The lines that the choice comes to, of those in `_PRS`. -/
def LinkConfig.reached : List UInt32 :=
  rotated config.rotation (uacpiNtLinkCandidates prs linkCandidateMax)

def uacpiNtLinkChoose : Option UInt32 :=
  ((config.reached prs).find? (uacpiNtLinkLineUsable config links · true)).or
    ((config.reached prs).find? (uacpiNtLinkLineUsable config links · false))

def uacpiNtLinkSlot : Option (UInt32 × List IrqLink) :=
  match links.find? (·.node == node) with
  | some link => some (link.gsiv, links)
  | none =>
    if links.length < irqLinkMax then some (irqLinkNone, links ++ [⟨node, irqLinkNone⟩]) else none

/-- The slot of a link gets a line; a link has one slot at most. -/
def setLine (gsiv : UInt32) (links : List IrqLink) : List IrqLink :=
  links.map fun link => if link.node = node then { link with gsiv := gsiv } else link

def uacpiNtIrqLinkDecide : Option UInt32 × List IrqLink :=
  match uacpiNtLinkSlot node links with
  | none => (none, links)
  | some (gsiv, links) =>
    if gsiv ≠ irqLinkNone then (some gsiv, links)
    else
      let current := (uacpiNtLinkCurrentGsiv firmware.crs 0).getD irqLinkNone
      -- Without a usable line in `_PRS`, and where `_SRS` fails, the line of the firmware stands.
      let standing := if current = irqLinkNone then none else some current
      let decided := (uacpiNtLinkChoose config firmware.prs links).bind fun chosen =>
        if chosen = current ∨ uacpiNtLinkProgram firmware chosen then some chosen else none
      match decided.or standing with
      | none => (none, links)
      | some gsiv => (some gsiv, setLine node gsiv links)

/-! ### The choice -/

/-- A line that is not the SCI and not excluded. -/
def LinkConfig.Usable (gsiv : UInt32) : Prop :=
  gsiv ≠ config.sciGsiv ∧
    ¬ (gsiv < isaGsivCount ∧ config.exclusionMask.toUInt32 &&& (1 <<< gsiv) ≠ 0)
deriving Decidable

end

/-- The choice is made exactly if there is a usable line, and is a usable line that a link holds
only if links hold all of them. The link itself has no line yet. -/
def ChoosesWell (config : LinkConfig) (prs : LinkResources) (links : List IrqLink) : Prop :=
  (uacpiNtLinkChoose config prs links = none ↔ ∀ c ∈ prs.lines, ¬ config.Usable c) ∧
  ∀ g, uacpiNtLinkChoose config prs links = some g → g ∈ prs.lines ∧ config.Usable g ∧
    (uacpiNtGsivHeldByLink links g = true →
      ∀ c ∈ prs.lines, config.Usable c → uacpiNtGsivHeldByLink links c = true)

/-- For every usable line the choice comes to one that is as good. -/
def ReachesUsable (config : LinkConfig) (prs : LinkResources) (links : List IrqLink) : Prop :=
  ∀ c ∈ prs.lines, config.Usable c → ∃ r ∈ config.reached prs, config.Usable r ∧
    (uacpiNtGsivHeldByLink links r = true → uacpiNtGsivHeldByLink links c = true)

variable {config : LinkConfig} {prs : LinkResources} {links : List IrqLink} {g : UInt32}

theorem lineUsable_iff {avoid : Bool} : uacpiNtLinkLineUsable config links g avoid = true ↔
    config.Usable g ∧ (avoid = true → uacpiNtGsivHeldByLink links g = false) := by
  rw [uacpiNtLinkLineUsable, LinkConfig.Usable]
  split
  · simp [*]
  · split
    · simp [*]
    · cases avoid <;> simp [*]

theorem mem_lines_of_mem_reached (h : g ∈ config.reached prs) : g ∈ prs.lines := by
  obtain ⟨i, -, hget⟩ := mem_filterMap.1 h
  exact mem_of_mem_take (mem_of_getElem? hget)

theorem choose_eq_none_iff : uacpiNtLinkChoose config prs links = none ↔
    ∀ c ∈ config.reached prs, ¬ config.Usable c := by
  simp only [uacpiNtLinkChoose, Option.or_eq_none_iff, find?_eq_none, lineUsable_iff]
  exact ⟨fun h c hc hu => h.2 c hc ⟨hu, fun hfalse => by cases hfalse⟩,
    fun h => ⟨fun c hc hu => h c hc hu.1, fun c hc hu => h c hc hu.1⟩⟩

theorem choose_eq_some (h : uacpiNtLinkChoose config prs links = some g) :
    g ∈ config.reached prs ∧ config.Usable g ∧ (uacpiNtGsivHeldByLink links g = true →
      ∀ c ∈ config.reached prs, config.Usable c → uacpiNtGsivHeldByLink links c = true) := by
  rcases Option.or_eq_some_iff.1 h with hfst | ⟨hnone, hsecond⟩
  · have hline := find?_some hfst
    obtain ⟨husab, hfree⟩ := lineUsable_iff.1 hline
    refine ⟨mem_of_find?_eq_some hfst, husab, fun hheld => ?_⟩
    exact absurd (hheld.symm.trans (hfree rfl)) (by decide)
  · have hline := find?_some hsecond
    refine ⟨mem_of_find?_eq_some hsecond, (lineUsable_iff.1 hline).1, ?_⟩
    intro _ c hc husab
    by_contra hfree
    refine find?_eq_none.1 hnone c hc (lineUsable_iff.2 ⟨husab, fun _ => ?_⟩)
    exact Bool.eq_false_of_not_eq_true hfree

theorem choosesWell_iff : ChoosesWell config prs links ↔ ReachesUsable config prs links := by
  have hmem : ∀ c ∈ config.reached prs, c ∈ prs.lines := fun c => mem_lines_of_mem_reached
  rw [ChoosesWell, ReachesUsable]
  cases h : uacpiNtLinkChoose config prs links with
  | none =>
    have hnone := choose_eq_none_iff.1 h
    grind
  | some g =>
    obtain ⟨hg, husab, hheld⟩ := choose_eq_some h
    grind

theorem mem_rotated {rotation : UInt32} {candidates : List UInt32}
    (hlen : candidates.length ≤ linkCandidateMax)
    (hrot : rotation.toNat + candidates.length ≤ 2 ^ 32) (hg : g ∈ candidates) :
    g ∈ rotated rotation candidates := by
  obtain ⟨j, hj, rfl⟩ := mem_iff_getElem.1 hg
  rw [linkCandidateMax] at hlen
  have hpos : 0 < candidates.length := Nat.zero_lt_of_lt hj
  have hmod := Nat.mod_lt rotation.toNat hpos
  have hi := Nat.mod_lt (j + (candidates.length - rotation.toNat % candidates.length)) hpos
  refine mem_filterMap.2 ⟨_, mem_range.2 hi, ?_⟩
  have hround : rotation.toNat + (j + (candidates.length - rotation.toNat % candidates.length)) =
      j + candidates.length * (rotation.toNat / candidates.length + 1) := by
    have hdiv := Nat.div_add_mod rotation.toNat candidates.length
    rw [Nat.mul_add]
    omega
  rw [UInt32.toNat_mod, UInt32.toNat_add, UInt32.toNat_ofNat_of_lt' (by rw [UInt32.size]; omega),
    UInt32.toNat_ofNat_of_lt' (by rw [UInt32.size]; omega),
    Nat.mod_eq_of_lt (b := 2 ^ 32) (by omega), Nat.add_mod_mod, hround,
    Nat.add_mul_mod_self_left, Nat.mod_eq_of_lt hj]
  exact getElem?_eq_getElem hj

theorem reachesUsable_of_le (hlen : prs.lines.length ≤ linkCandidateMax)
    (hrot : config.rotation.toNat + prs.lines.length ≤ 2 ^ 32) :
    ReachesUsable config prs links := by
  intro c hc husab
  refine ⟨c, ?_, husab, id⟩
  rw [LinkConfig.reached, uacpiNtLinkCandidates, take_of_length_le hlen]
  exact mem_rotated hlen hrot hc

/-! ### The table -/

def lineOf (links : List IrqLink) (node : Nat) : Option UInt32 :=
  (links.find? (·.node == node)).map (·.gsiv)

structure LinkCall where
  node : Nat
  config : LinkConfig
  firmware : LinkFirmware

def LinkCall.decide (call : LinkCall) (links : List IrqLink) : Option UInt32 × List IrqLink :=
  uacpiNtIrqLinkDecide call.config call.firmware call.node links

def decideAll (calls : List LinkCall) (links : List IrqLink) : List IrqLink :=
  calls.foldl (fun links call => (call.decide links).2) links

variable {node node' : Nat} {call : LinkCall}

theorem lineOf_setLine (gsiv : UInt32) : lineOf (setLine node gsiv links) node' =
    (lineOf links node').map fun old => if node' = node then gsiv else old := by
  have hnode : (fun link : IrqLink => link.node == node') ∘
      (fun link => if link.node = node then { link with gsiv := gsiv } else link) =
        (·.node == node') := by
    funext link
    by_cases h : link.node = node <;> simp [h]
  rw [lineOf, lineOf, setLine, find?_map, hnode]
  cases hfind : links.find? (·.node == node') with
  | none => rfl
  | some link =>
    have hself := find?_some hfind
    obtain rfl : link.node = node' := beq_iff_eq.1 hself
    by_cases h : link.node = node <;> simp [h]

theorem lineOf_linkSlot {links' : List IrqLink}
    (h : uacpiNtLinkSlot node links = some (g, links')) : lineOf links' node = some g ∧
      ∀ node', node' ≠ node → lineOf links' node' = lineOf links node' := by
  rw [uacpiNtLinkSlot] at h
  split at h <;> rename_i hfind
  · cases h
    exact ⟨by rw [lineOf, hfind]; rfl, fun _ _ => rfl⟩
  split at h
  · cases h
    refine ⟨by simp [lineOf, find?_append, hfind], fun node' hne => ?_⟩
    simp [lineOf, Ne.symm hne]
  · cases h

theorem lineOf_decide (call : LinkCall) (links : List IrqLink) :
    (∀ g, (call.decide links).1 = some g → lineOf (call.decide links).2 call.node = some g) ∧
      ∀ node, node ≠ call.node → lineOf (call.decide links).2 node = lineOf links node := by
  rw [LinkCall.decide, uacpiNtIrqLinkDecide]
  split
  · exact ⟨fun g h => (by cases h), fun _ _ => rfl⟩
  rename_i hslot
  obtain ⟨hself, hoth⟩ := lineOf_linkSlot hslot
  split
  · exact ⟨fun g h => hself.trans h, hoth⟩
  simp only
  split
  · exact ⟨fun g h => (by cases h), hoth⟩
  refine ⟨fun g h => ?_, fun node hne => ?_⟩
  · rw [lineOf_setLine, hself, Option.map_some, if_pos rfl]
    exact h
  · rw [lineOf_setLine, hoth node hne]
    simp [hne]

theorem decide_of_lineOf (h : lineOf links call.node = some g) (hg : g ≠ irqLinkNone) :
    call.decide links = (some g, links) := by
  obtain ⟨link, hfind, rfl⟩ := Option.map_eq_some_iff.1 h
  rw [LinkCall.decide, uacpiNtIrqLinkDecide, uacpiNtLinkSlot, hfind]
  exact if_pos hg

theorem lineOf_decideAll (h : lineOf links node = some g) (hg : g ≠ irqLinkNone)
    (calls : List LinkCall) : lineOf (decideAll calls links) node = some g := by
  induction calls generalizing links with
  | nil => exact h
  | cons call calls ih =>
    have hnext : lineOf (call.decide links).2 node = some g := by
      by_cases hnode : node = call.node
      · subst hnode
        rw [decide_of_lineOf h hg]
        exact h
      · rw [(lineOf_decide call links).2 node hnode]
        exact h
    exact ih hnext

theorem decide_unreadable (h : lineOf links call.node = some irqLinkNone) :
    (LinkCall.decide ⟨call.node, call.config, none, none, call.firmware.srs⟩ links).1 = none := by
  obtain ⟨link, hfind, hnone⟩ := Option.map_eq_some_iff.1 h
  rw [LinkCall.decide, uacpiNtIrqLinkDecide, uacpiNtLinkSlot, hfind]
  simp only [hnone]
  rfl

/-- The choice is right exactly if the loop comes to the lines it has to, which it does where `_PRS`
has up to 16 lines and the rotation does not wrap around. A decision is final exactly if the line
is not the mark of an undecided link. -/
theorem link_lines_chosen_and_kept_iff (config : LinkConfig) (prs : LinkResources)
    (links : List IrqLink) (call : LinkCall) :
    (ChoosesWell config prs links ↔ ReachesUsable config prs links) ∧
    (prs.lines.length ≤ linkCandidateMax →
      config.rotation.toNat + prs.lines.length ≤ 2 ^ 32 → ReachesUsable config prs links) ∧
    ∀ g, (call.decide links).1 = some g →
      ((∀ calls, ∀ later : LinkCall, later.node = call.node →
        (later.decide (decideAll calls (call.decide links).2)).1 = some g) ↔ g ≠ irqLinkNone) := by
  refine ⟨choosesWell_iff, reachesUsable_of_le, ?_⟩
  intro g hdecided
  have hline := (lineOf_decide call links).1 g hdecided
  constructor
  · rintro hkept rfl
    have hsame := hkept [] ⟨call.node, call.config, none, none, call.firmware.srs⟩ rfl
    rw [decideAll, List.foldl_nil, decide_unreadable hline] at hsame
    cases hsame
  · intro hg calls later hnode
    have hlater := lineOf_decideAll hline hg calls
    rw [← hnode] at hlater
    rw [decide_of_lineOf hlater hg]

theorem two_links_on_two_lines :
    let call (node : Nat) : LinkCall :=
      ⟨node, ⟨4, 0, 9⟩, some [none, some [9, 10, 11]], some [some [9]], fun _ => true⟩
    ((call 0).decide []).1 = some 10 ∧ ((call 1).decide ((call 0).decide []).2).1 = some 11 ∧
      ((call 0).decide (decideAll [call 1] ((call 0).decide []).2)).1 = some 10 ∧
      ChoosesWell ⟨4, 0, 9⟩ (some [none, some [9, 10, 11]]) [⟨0, 10⟩, ⟨1, irqLinkNone⟩] := by
  intro call
  refine ⟨by decide, by decide, ?_, ?_⟩
  · exact ((link_lines_chosen_and_kept_iff (call 0).config none _ _).2.2 10 (by decide)).2
      (by decide) _ _ rfl
  · obtain ⟨hchooses, hreaches, -⟩ := link_lines_chosen_and_kept_iff _ _ _ (call 0)
    exact hchooses.2 (hreaches (by decide) (by decide))

/-- Of three lines two are excluded. The rotated place wraps around and never comes to the third
one. And a link whose only line is the mark of an undecided link is decided again. -/
theorem last_line_skipped :
    (uacpiNtLinkChoose ⟨0xFFFFFFFF, 0x60, 9⟩ (some [some [5, 6, 7]]) [] = none ∧
      LinkConfig.Usable ⟨0xFFFFFFFF, 0x60, 9⟩ 7) ∧
    let call (prs : LinkResources) : LinkCall := ⟨0, ⟨0, 0, 9⟩, prs, none, fun _ => true⟩
    ((call (some [some [irqLinkNone]])).decide []).1 = some irqLinkNone ∧
      ((call none).decide ((call (some [some [irqLinkNone]])).decide []).2).1 = none := by
  decide

end UacpiNt
