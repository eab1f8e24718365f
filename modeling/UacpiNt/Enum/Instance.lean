import Mathlib.Logic.Basic
import Mathlib.Tactic.Common

/-!
# Instance IDs

The instance ID of a PDO is the absolute path of its node without separators, cut to the 63
characters the buffer has room for. These are the first fifteen segments of the path and three
characters of the next one. If the path cannot be generated it is the name of the node.
-/

namespace UacpiNt

open List

def isSeparator (c : Char) : Bool := c = '\\' || c = '.'

/-- A name segment: four characters, none of them a separator. -/
structure NameSeg where
  chars : List Char
  length_chars : chars.length = 4
  not_separator : ∀ c ∈ chars, isSeparator c = false
deriving DecidableEq

/-- The nodes of a namespace with their parents, names and depths. Siblings have different
names. -/
structure NodeTree (ν : Type) where
  parent : ν → Option ν
  name : ν → NameSeg
  depth : ν → Nat
  depth_eq : ∀ node, depth node = ((parent node).map fun p => depth p + 1).getD 0
  root : ∀ a b, parent a = none → parent b = none → a = b
  siblings : ∀ a b, parent a = parent b → name a = name b → a = b

def joinSegments : List NameSeg → List Char
  | [] => []
  | [segment] => segment.chars
  | segment :: next :: rest => segment.chars ++ '.' :: joinSegments (next :: rest)

/-- The loop of `UacpiNtPdoSetInstance` over the path, with the room that is left. -/
def copyPath : List Char → Nat → List Char
  | [], _ => []
  | _ :: _, 0 => []
  | c :: rest, room + 1 =>
    if isSeparator c then copyPath rest (room + 1) else c :: copyPath rest room

/-- The instance of a PDO, from its path if that could be generated, its name, and the text of its
ID if it is a processor whose ID could be read. -/
def uacpiNtPdoSetInstance (path : Option (List Char)) (name : NameSeg)
    (processor : Option (List Char)) : List Char :=
  match processor, path with
  | some text, _ => text.take 63
  | none, some path => copyPath path 63
  | none, none => name.chars

namespace NodeTree

variable {ν : Type} (tree : NodeTree ν)

def segmentsTo : Nat → ν → List NameSeg
  | 0, _ => []
  | depth + 1, node =>
    match tree.parent node with
    | none => []
    | some parent => segmentsTo depth parent ++ [tree.name node]

def segments (node : ν) : List NameSeg := tree.segmentsTo (tree.depth node) node

def absolutePath (node : ν) : List Char := '\\' :: joinSegments (tree.segments node)

def instanceOf (node : ν) (generated : Bool) : List Char :=
  uacpiNtPdoSetInstance (if generated then some (tree.absolutePath node) else none)
    (tree.name node) none

end NodeTree

/-! ### Segments and characters -/

section

variable (n : Nat) (p q : List NameSeg) (segment : NameSeg) (rest : List NameSeg)

theorem copyPath_eq (path : List Char) (room : Nat) :
    copyPath path room = (path.filter (!isSeparator ·)).take room := by
  induction path generalizing room with
  | nil => simp [copyPath]
  | cons c rest ih =>
    cases room with
    | zero => simp [copyPath]
    | succ room => cases hc : isSeparator c <;> simp [copyPath, hc, ih]

theorem NameSeg.filter_chars : segment.chars.filter (!isSeparator ·) = segment.chars :=
  filter_eq_self.2 fun c hc => by simp [segment.not_separator c hc]

theorem filter_joinSegments (segments : List NameSeg) :
    (joinSegments segments).filter (!isSeparator ·) = segments.flatMap NameSeg.chars := by
  induction segments with
  | nil => rfl
  | cons segment rest ih =>
    cases rest with
    | nil => rw [joinSegments, segment.filter_chars, flatMap_singleton]
    | cons next rest =>
      rw [joinSegments, filter_append, segment.filter_chars,
        filter_cons_of_neg (by decide), ih]
      rfl

def NameSeg.first3 : List Char := segment.chars.take 3

/-- Two paths that agree in the first `n` segments and in three characters of the next. -/
def AgreeTo : Prop :=
  n < p.length ∧ n < q.length ∧ p.take n = q.take n ∧
    p[n]?.map NameSeg.first3 = q[n]?.map NameSeg.first3

theorem take_flatMap_cons : ((segment :: rest).flatMap NameSeg.chars).take (4 * (n + 1) + 3) =
      segment.chars ++ (rest.flatMap NameSeg.chars).take (4 * n + 3) := by
  rw [flatMap_cons, take_append, segment.length_chars,
    take_of_length_le (by rw [segment.length_chars]; omega)]
  congr 2

theorem take_flatMap_ne_nil : ((segment :: rest).flatMap NameSeg.chars).take (4 * n + 3) ≠ [] := by
  have hlen := segment.length_chars
  intro h
  have := congrArg length h
  rw [length_take, flatMap_cons, length_append, length_nil] at this
  omega

/-- The first `4 n + 3` characters of two paths are the same exactly if the paths are, or agree in
`n` segments and three characters. -/
theorem take_flatMap_eq_iff :
    (p.flatMap NameSeg.chars).take (4 * n + 3) = (q.flatMap NameSeg.chars).take (4 * n + 3) ↔
      p = q ∨ AgreeTo n p q := by
  induction p generalizing n q with
  | nil =>
    cases q with
    | nil => simp
    | cons t q => exact iff_of_false (take_flatMap_ne_nil n t q).symm (by simp [AgreeTo])
  | cons s p ih =>
    cases q with
    | nil => exact iff_of_false (take_flatMap_ne_nil n s p) (by simp [AgreeTo])
    | cons t q =>
      have hlen : s.chars.length = t.chars.length := s.length_chars.trans t.length_chars.symm
      have hchars : s.chars = t.chars ↔ s = t := by
        cases s
        cases t
        simp
      cases n with
      | zero =>
        have htake : ∀ (u : NameSeg) (rest : List NameSeg),
            ((u :: rest).flatMap NameSeg.chars).take (4 * 0 + 3) = u.first3 := fun u rest =>
          take_append_of_le_length (by rw [u.length_chars]; decide)
        have hagr : AgreeTo 0 (s :: p) (t :: q) ↔ s.first3 = t.first3 := by simp [AgreeTo]
        rw [htake, htake, hagr, List.cons.injEq]
        exact ⟨.inr, fun h => h.elim (fun h => h.1 ▸ rfl) id⟩
      | succ n =>
        have happ : ∀ a b, s.chars ++ a = t.chars ++ b ↔ s = t ∧ a = b := fun a b =>
          ⟨fun h => (append_inj h hlen).imp_left hchars.1, by rintro ⟨rfl, rfl⟩; rfl⟩
        rw [take_flatMap_cons, take_flatMap_cons, happ, ih]
        simp only [AgreeTo, length_cons, Nat.add_lt_add_iff_right, take_succ_cons,
          List.cons.injEq]
        tauto

end

/-! ### Nodes -/

namespace NodeTree

variable {ν : Type} (tree : NodeTree ν)

theorem parent_of_depth_zero {node : ν} (h : tree.depth node = 0) : tree.parent node = none := by
  have hdepth := tree.depth_eq node
  cases hpar : tree.parent node with
  | none => rfl
  | some parent => simp [hpar, h] at hdepth

theorem exists_parent_of_depth {node : ν} {depth : Nat} (h : tree.depth node = depth + 1) :
    ∃ parent, tree.parent node = some parent ∧ tree.depth parent = depth := by
  have hdepth := tree.depth_eq node
  cases hpar : tree.parent node with
  | none => simp [hpar, h] at hdepth
  | some parent => exact ⟨parent, rfl, by simpa [hpar, h] using hdepth.symm⟩

theorem length_segmentsTo (depth : Nat) {node : ν} (h : tree.depth node = depth) :
    (tree.segmentsTo depth node).length = depth := by
  induction depth generalizing node with
  | zero => rfl
  | succ depth ih =>
    obtain ⟨parent, hpar, hdepth⟩ := tree.exists_parent_of_depth h
    simp [segmentsTo, hpar, ih hdepth]

theorem segmentsTo_injective (depth : Nat) {a b : ν} (ha : tree.depth a = depth)
    (hb : tree.depth b = depth) (h : tree.segmentsTo depth a = tree.segmentsTo depth b) :
    a = b := by
  induction depth generalizing a b with
  | zero => exact tree.root a b (tree.parent_of_depth_zero ha) (tree.parent_of_depth_zero hb)
  | succ depth ih =>
    obtain ⟨p, hp, hpdep⟩ := tree.exists_parent_of_depth ha
    obtain ⟨q, hq, hqdep⟩ := tree.exists_parent_of_depth hb
    simp only [segmentsTo, hp, hq] at h
    obtain ⟨hpath, hname⟩ := append_inj' h rfl
    cases ih hpdep hqdep hpath
    exact tree.siblings a b (hp.trans hq.symm) (singleton_inj.1 hname)

theorem length_segments (node : ν) : (tree.segments node).length = tree.depth node :=
  tree.length_segmentsTo _ rfl

theorem segments_injective {a b : ν} (h : tree.segments a = tree.segments b) : a = b := by
  have hdepth : tree.depth b = tree.depth a := by
    rw [← tree.length_segments, ← tree.length_segments, h]
  rw [segments, segments, hdepth] at h
  exact tree.segmentsTo_injective _ rfl hdepth h

def label (node : ν) (generated : Bool) : List NameSeg :=
  if generated then tree.segments node else [tree.name node]

theorem instanceOf_eq (node : ν) (generated : Bool) : tree.instanceOf node generated =
      ((tree.label node generated).flatMap NameSeg.chars).take (4 * 15 + 3) := by
  cases generated with
  | false =>
    have hlen := (tree.name node).length_chars
    refine (take_of_length_le ?_).symm.trans (congrArg (take _) (append_nil _).symm)
    exact Nat.le_trans (Nat.le_of_eq hlen) (by decide)
  | true =>
    rw [instanceOf, if_pos rfl, uacpiNtPdoSetInstance, copyPath_eq, absolutePath,
      filter_cons_of_neg (by decide), filter_joinSegments]
    rfl

/-- Two different nodes whose paths are generated get different instances, unless both are more than
fifteen deep and their paths agree in fifteen segments and three characters. Without a path a node
has its name in place of it. -/
theorem instances_differ_iff {a b : ν} (hne : a ≠ b) :
    (tree.instanceOf a true ≠ tree.instanceOf b true ↔
      ¬ AgreeTo 15 (tree.segments a) (tree.segments b)) ∧
    ∀ pathA pathB, tree.instanceOf a pathA = tree.instanceOf b pathB ↔
      tree.label a pathA = tree.label b pathB ∨
        AgreeTo 15 (tree.label a pathA) (tree.label b pathB) := by
  have hiff : ∀ pathA pathB, tree.instanceOf a pathA = tree.instanceOf b pathB ↔
      tree.label a pathA = tree.label b pathB ∨
        AgreeTo 15 (tree.label a pathA) (tree.label b pathB) := fun pathA pathB => by
    rw [instanceOf_eq, instanceOf_eq, take_flatMap_eq_iff]
  refine ⟨not_congr ((hiff true true).trans ?_), hiff⟩
  exact or_iff_right fun h => hne (tree.segments_injective h)

end NodeTree

def letters (last : Char) (h : isSeparator last = false) : NameSeg where
  chars := ['D', 'E', 'V', last]
  length_chars := rfl
  not_separator := by simpa [isSeparator] using h

def deepTree : NodeTree (Fin 18) where
  parent := fun node => if node = 0 then none else if node = 17 then some 15 else some (node - 1)
  name := fun node => if node = 17 then letters 'B' rfl else letters 'A' rfl
  depth := fun node => if node = 17 then 16 else node
  depth_eq := by decide
  root := by decide
  siblings := by decide

theorem shallow_instances_differ :
    deepTree.instanceOf 1 true ≠ deepTree.instanceOf 2 true :=
  ((deepTree.instances_differ_iff (by decide)).1).2 fun h => absurd h.1 (by decide)

theorem deep_instances_equal :
    deepTree.name 16 ≠ deepTree.name 17 ∧
      deepTree.instanceOf 16 true = deepTree.instanceOf 17 true := by
  decide

end UacpiNt
