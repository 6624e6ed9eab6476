/-
Places in a tree. A node alone does not say where it stands, and equal nodes may stand in many
places. A place is a node with its number in document order and the nodes on the way up to the
root, each with its own number. Every node also knows how many nodes before it open a scope, which
is the number its own scope gets when it opens one.

The places of a tree carry the walk with its numbering (`placesAll_zipIdx`), the scope nodes are
ranked in order without gaps (`placesAll_ranks`), what stands above a place is itself a place, and
the places that have a spot above them are exactly those below it (`above_split`, `mem_of_inner`).
-/
import LetOrConst.Proofs.Tree.Order
import Mathlib.Data.List.Nodup

namespace LetOrConst.Tree

namespace Node

/-- Programs, functions, blocks, loops and handlers open a scope. -/
def opensScope (n : Node) : Bool :=
  match n.kind with
  | .program | .function | .block | .forLoop | .catchClause => true
  | _ => false

/-- Programs and functions hold the names that are declared with `var` below them. -/
def hostsVars (n : Node) : Bool := n.kind == .program || n.kind == .function

/-- The number of nodes of a tree. -/
def size (n : Node) : Nat := n.preorder.length

/-- The number of nodes of a tree that open a scope. -/
def scopeCount (n : Node) : Nat := n.preorder.countP opensScope

theorem opensScope_of_hostsVars {n : Node} (h : n.hostsVars = true) : n.opensScope = true := by
  simp only [hostsVars, Bool.or_eq_true, beq_iff_eq] at h
  rcases h with h | h <;> simp [opensScope, h]

theorem size_eq (n : Node) : n.size = (n.children.flatMap preorder).length + 1 := by
  rw [size, preorder_eq, List.length_cons]

theorem scopeCount_eq (n : Node) :
    n.scopeCount = (n.children.flatMap preorder).countP opensScope + if n.opensScope then 1 else 0 := by
  rw [scopeCount, preorder_eq, List.countP_cons]

variable {n c : Node} {before after : List Node}

theorem size_split (split : n.children = before ++ c :: after) :
    n.size = (before.flatMap preorder).length + c.size + (after.flatMap preorder).length + 1 := by
  rw [size_eq, split, List.flatMap_append, List.flatMap_cons, List.length_append, List.length_append, ← Nat.add_assoc]
  rfl

theorem scopeCount_split (split : n.children = before ++ c :: after) :
    n.scopeCount = (before.flatMap preorder).countP opensScope + c.scopeCount +
      (after.flatMap preorder).countP opensScope + if n.opensScope then 1 else 0 := by
  rw [scopeCount_eq, split, List.flatMap_append, List.flatMap_cons, List.countP_append, List.countP_append,
    ← Nat.add_assoc]
  rfl

end Node

/-- A node where it stands: its number in document order, and how many nodes before it open a
scope. -/
structure Spot where
  number : Nat
  rank : Nat
  node : Node

/-- The rank of the first node below a spot. -/
def Spot.rankBelow (s : Spot) : Nat := s.rank + if s.node.opensScope then 1 else 0

theorem Spot.rankBelow_add (i k : Nat) (n : Node) :
    rankBelow ⟨i, k, n⟩ + (n.children.flatMap Node.preorder).countP Node.opensScope = k + n.scopeCount := by
  have h : rankBelow ⟨i, k, n⟩ = k + if n.opensScope then 1 else 0 := rfl
  rw [h, Node.scopeCount_eq]; omega

/-- A spot with the spots above it, the nearest first. -/
structure Place extends Spot where
  above : List Spot

/-- The places of some trees that stand side by side below `above`, in document order. -/
def placesAll (above : List Spot) (number rank : Nat) : List Node → List Place
  | [] => []
  | n :: rest =>
    ⟨⟨number, rank, n⟩, above⟩ ::
      (placesAll (⟨number, rank, n⟩ :: above) (number + 1) (Spot.rankBelow ⟨number, rank, n⟩) n.children ++
        placesAll above (number + n.size) (rank + n.scopeCount) rest)
termination_by ns => sizeOf ns
decreasing_by
  · exact Node.sizeOf_children_lt_cons n rest
  · exact Branching.sizeOf_rest_lt_cons n rest

/-- All places of a tree in document order. -/
def Node.places (root : Node) : List Place := placesAll [] 0 0 [root]

namespace Place

/-- The nearest spot above a place whose node has a property. -/
def nearest? (p : Place) (prop : Node → Bool) : Option Spot := p.above.find? (prop ·.node)

/-- The places below a place. -/
def inner (p : Place) : List Place :=
  placesAll (p.toSpot :: p.above) (p.number + 1) p.rankBelow p.node.children

end Place

variable {above : List Spot} {i k : Nat} {ns : List Node} {p q : Place}

theorem mem_placesAll_cons {n : Node} {rest : List Node} :
    p ∈ placesAll above i k (n :: rest) ↔
      p = ⟨⟨i, k, n⟩, above⟩ ∨ p ∈ Place.inner ⟨⟨i, k, n⟩, above⟩ ∨
        p ∈ placesAll above (i + n.size) (k + n.scopeCount) rest := by
  rw [placesAll, List.mem_cons, List.mem_append]; rfl

theorem placesAll_append (above : List Spot) (i k : Nat) (xs ys : List Node) :
    placesAll above i k (xs ++ ys) = placesAll above i k xs ++
      placesAll above (i + (xs.flatMap Node.preorder).length)
        (k + (xs.flatMap Node.preorder).countP Node.opensScope) ys := by
  induction xs generalizing i k with
  | nil => simp [placesAll]
  | cons n xs ih =>
    rw [List.cons_append, placesAll, placesAll, ih, List.flatMap_cons, List.length_append, List.countP_append,
      Node.size, Node.scopeCount, List.cons_append, List.append_assoc, Nat.add_assoc, Nat.add_assoc]

theorem placesAll_singleton (above : List Spot) (i k : Nat) (n : Node) :
    placesAll above i k [n] =
      ⟨⟨i, k, n⟩, above⟩ :: placesAll (⟨i, k, n⟩ :: above) (i + 1) (Spot.rankBelow ⟨i, k, n⟩) n.children := by
  rw [placesAll, placesAll, List.append_nil]

/-- The root comes first, then all places below it. -/
theorem Node.places_eq (root : Node) : root.places = ⟨⟨0, 0, root⟩, []⟩ :: Place.inner ⟨⟨0, 0, root⟩, []⟩ := by
  rw [Node.places, placesAll_singleton]
  rfl

/-! ## Numbers and ranks -/

/-- The places are the nodes of the walk with their numbers. -/
theorem placesAll_zipIdx (above : List Spot) (i k : Nat) (ns : List Node) :
    (placesAll above i k ns).map (fun p => (p.node, p.number)) = (ns.flatMap Node.preorder).zipIdx i := by
  induction ns using Node.forest_induction generalizing above i k with
  | nil => simp [placesAll]
  | cons n rest ihc ihr =>
    rw [placesAll, List.map_cons, List.map_append, ihc, ihr, List.flatMap_cons, Node.preorder_eq,
      List.cons_append, List.zipIdx_cons, List.zipIdx_append, Node.size_eq]
    congr 3; omega

theorem placesAll_nodes (above : List Spot) (i k : Nat) (ns : List Node) :
    (placesAll above i k ns).map (·.node) = ns.flatMap Node.preorder := by
  have h := congrArg (List.map Prod.fst) (placesAll_zipIdx above i k ns)
  rwa [List.map_map, List.zipIdx_map_fst] at h

theorem placesAll_numbers (above : List Spot) (i k : Nat) (ns : List Node) :
    (placesAll above i k ns).map (·.number) = List.range' i (ns.flatMap Node.preorder).length := by
  have h := congrArg (List.map Prod.snd) (placesAll_zipIdx above i k ns)
  rwa [List.map_map, List.zipIdx_map_snd] at h

/-- Scope nodes are ranked in document order without gaps. -/
theorem placesAll_ranks (above : List Spot) (i k : Nat) (ns : List Node) :
    ((placesAll above i k ns).filter (·.node.opensScope)).map (·.rank) =
      List.range' k ((ns.flatMap Node.preorder).countP Node.opensScope) := by
  induction ns using Node.forest_induction generalizing above i k with
  | nil => simp [placesAll]
  | cons n rest ihc ihr =>
    rw [placesAll, List.filter_cons, List.filter_append, List.flatMap_cons, List.countP_append,
      ← Node.scopeCount, ← List.range'_append_1]
    by_cases h : n.opensScope = true
    · simp only [h, if_true, List.map_cons, List.map_append, ihc, ihr, Spot.rankBelow, Node.scopeCount_eq,
        List.range'_succ, List.cons_append]
    · simp only [h, Bool.false_eq_true, if_false, List.map_append, ihc, ihr, Spot.rankBelow, Node.scopeCount_eq,
        Nat.add_zero]

theorem length_scopes (above : List Spot) (i k : Nat) (ns : List Node) :
    ((placesAll above i k ns).filter (·.node.opensScope)).length =
      (ns.flatMap Node.preorder).countP Node.opensScope := by
  have h := congrArg List.length (placesAll_ranks above i k ns)
  rwa [List.length_map, List.length_range'] at h

theorem eq_of_number_eq (hp : p ∈ placesAll above i k ns) (hq : q ∈ placesAll above i k ns)
    (h : p.number = q.number) : p = q := by
  have hd : ((placesAll above i k ns).map (·.number)).Nodup := by
    rw [placesAll_numbers]
    exact List.nodup_range'
  exact List.inj_on_of_nodup_map hd hp hq h

theorem eq_of_rank_eq (hp : p ∈ placesAll above i k ns) (hq : q ∈ placesAll above i k ns)
    (hps : p.node.opensScope = true) (hqs : q.node.opensScope = true) (h : p.rank = q.rank) : p = q := by
  have hd : (((placesAll above i k ns).filter (·.node.opensScope)).map (·.rank)).Nodup := by
    rw [placesAll_ranks]
    exact List.nodup_range'
  exact List.inj_on_of_nodup_map hd (List.mem_filter.2 ⟨hp, hps⟩) (List.mem_filter.2 ⟨hq, hqs⟩) h

theorem getElem?_rank {root : Node} (hp : p ∈ root.places) (hs : p.node.opensScope = true) :
    (root.places.filter (·.node.opensScope))[p.rank]? = some p := by
  have hm : p ∈ root.places.filter (·.node.opensScope) := List.mem_filter.2 ⟨hp, hs⟩
  obtain ⟨j, hj, hget⟩ := List.getElem_of_mem hm
  have hr : ((root.places.filter (·.node.opensScope)).map (·.rank))[j]? =
      (List.range' 0 ([root].flatMap Node.preorder |>.countP Node.opensScope))[j]? := by
    rw [Node.places, placesAll_ranks]
  rw [List.getElem?_map, List.getElem?_eq_getElem hj, hget] at hr
  obtain ⟨_, hjr⟩ := List.getElem?_eq_some_iff.1 hr.symm
  rw [List.getElem_range', Nat.one_mul, Nat.zero_add] at hjr
  subst hjr
  rw [List.getElem?_eq_getElem hj, hget]

theorem nodup_placesAll (above : List Spot) (i k : Nat) (ns : List Node) : (placesAll above i k ns).Nodup := by
  refine List.Nodup.of_map (·.number) ?_
  rw [placesAll_numbers]
  exact List.nodup_range'

/-! ## Above and below -/

/-- A place is followed by the places below it. -/
theorem placesAll_split (hq : q ∈ placesAll above i k ns) :
    ∃ before after, placesAll above i k ns = before ++ q :: (q.inner ++ after) := by
  induction ns using Node.forest_induction generalizing above i k with
  | nil => simp [placesAll] at hq
  | cons n rest ihc ihr =>
    rcases mem_placesAll_cons.1 hq with rfl | hq | hq
    · exact ⟨[], _, by rw [placesAll]; rfl⟩
    · obtain ⟨before, after, h⟩ := ihc hq
      refine ⟨⟨⟨i, k, n⟩, above⟩ :: before, after ++ placesAll above (i + n.size) (k + n.scopeCount) rest, ?_⟩
      rw [placesAll, h, List.cons_append, List.append_assoc, List.cons_append, List.append_assoc]
    · obtain ⟨before, after, h⟩ := ihr hq
      refine ⟨⟨⟨i, k, n⟩, above⟩ :: (Place.inner ⟨⟨i, k, n⟩, above⟩ ++ before), after, ?_⟩
      rw [placesAll, h, List.cons_append, List.append_assoc]
      rfl

theorem mem_of_inner (hq : q ∈ placesAll above i k ns) (hp : p ∈ q.inner) : p ∈ placesAll above i k ns := by
  induction ns using Node.forest_induction generalizing above i k with
  | nil => simp [placesAll] at hq
  | cons n rest ihc ihr =>
    rw [mem_placesAll_cons] at hq ⊢
    rcases hq with rfl | hq | hq
    · exact .inr (.inl hp)
    · exact .inr (.inl (ihc hq))
    · exact .inr (.inr (ihr hq))

/-- The way up from a place ends in what stands above the trees; each spot on it is a place, and
the place it started from is below that one. -/
theorem above_split (hp : p ∈ placesAll above i k ns) :
    ∃ way, p.above = way ++ above ∧
      ∀ xs t ys, way = xs ++ t :: ys →
        ⟨t, ys ++ above⟩ ∈ placesAll above i k ns ∧ p ∈ Place.inner ⟨t, ys ++ above⟩ := by
  induction ns using Node.forest_induction generalizing above i k with
  | nil => simp [placesAll] at hp
  | cons n rest ihc ihr =>
    simp only [mem_placesAll_cons] at hp ⊢
    rcases hp with rfl | hp | hp
    · refine ⟨[], rfl, fun xs t ys h => ?_⟩
      simp at h
    · obtain ⟨way, hw, hin⟩ := ihc hp
      refine ⟨way ++ [⟨i, k, n⟩], by rw [hw, List.append_assoc]; rfl, fun xs t ys h => ?_⟩
      -- the last spot of the way is the node just entered, all others are met below it
      rcases List.eq_nil_or_concat ys with rfl | ⟨ys, y, rfl⟩
      · cases List.append_inj_right' h rfl
        exact ⟨.inl rfl, hp⟩
      · rw [List.concat_eq_append, ← List.cons_append, ← List.append_assoc] at h
        cases List.append_inj_right' h rfl
        obtain ⟨h1, h2⟩ := hin xs t ys (List.append_inj_left' h rfl)
        rw [List.concat_eq_append, List.append_assoc, List.singleton_append]
        exact ⟨.inr (.inl h1), h2⟩
    · obtain ⟨way, hw, hin⟩ := ihr hp
      exact ⟨way, hw, fun xs t ys h => ⟨.inr (.inr (hin xs t ys h).1), (hin xs t ys h).2⟩⟩

/-! ## The way up to the root -/

variable {root : Node} {s : Spot}

theorem le_rank (h : p ∈ placesAll above i k ns) : k ≤ p.rank := by
  induction ns using Node.forest_induction generalizing above i k with
  | nil => simp [placesAll] at h
  | cons n rest ihc ihr =>
    rcases mem_placesAll_cons.1 h with rfl | h | h
    · exact Nat.le_refl k
    · exact Nat.le_trans (Nat.le_add_right _ _) (ihc h)
    · exact Nat.le_trans (Nat.le_add_right _ _) (ihr h)

/-- A spot above a place is a place itself, and the first place is below it. -/
theorem mem_of_above (hp : p ∈ root.places) {inner outer : List Spot} (ha : p.above = inner ++ s :: outer) :
    ⟨s, outer⟩ ∈ root.places ∧ p ∈ Place.inner ⟨s, outer⟩ := by
  obtain ⟨way, hw, hin⟩ := above_split hp
  rw [List.append_nil] at hw
  have h := hin inner s outer (hw.symm.trans ha)
  rw [List.append_nil] at h
  exact h

theorem rank_lt_of_above (hp : p ∈ root.places) (hs : s ∈ p.above) (ho : s.node.opensScope = true) :
    s.rank < p.rank := by
  obtain ⟨inner, outer, ha⟩ := List.append_of_mem hs
  have h : s.rankBelow ≤ p.rank := le_rank (mem_of_above hp ha).2
  have hb : s.rankBelow = s.rank + 1 := by simp [Spot.rankBelow, ho]
  omega

theorem root_or_below (hp : p ∈ root.places) :
    p = ⟨⟨0, 0, root⟩, []⟩ ∨ ⟨0, 0, root⟩ ∈ p.above := by
  rw [Node.places_eq, List.mem_cons] at hp
  rcases hp with rfl | hp
  · exact .inl rfl
  · obtain ⟨way, hw, -⟩ := above_split hp
    right
    rw [hw]
    exact List.mem_append_right _ (List.mem_singleton_self _)

theorem eq_of_above_rank (hp : p ∈ root.places) (hs : s ∈ p.above) (hso : s.node.opensScope = true)
    (hq : q ∈ root.places) (hqo : q.node.opensScope = true) (h : s.rank = q.rank) : s = q.toSpot := by
  obtain ⟨_, outer, ha⟩ := List.append_of_mem hs
  exact congrArg Place.toSpot (eq_of_rank_eq (mem_of_above hp ha).1 hq hso hqo h)

end LetOrConst.Tree
