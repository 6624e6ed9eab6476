/-
What an assignment means once all scopes are built. A scope of the final store is the frame of its
scope node with the scopes inside it and the entries of all places that go to it
(`getElem?_built`). From a place outwards, the scopes of the store are the scope nodes above the
place (`chain_built`), so a name is looked up along the way to the root (`resolve_built`).
-/
import LetOrConst.Proofs.Scope.Build

namespace LetOrConst.Scope

open LetOrConst.Tree

variable {root : Node} {p q : Place} {s : Spot} {e : Entry Name Site}

/-- All operations on the store that a tree causes. -/
def opsOf (root : Node) : List (Op Name Site) := root.places.flatMap Place.effects

/-- The store that is built of a tree. -/
def built (root : Node) : Store Name Site := ({} : Store Name Site).run (opsOf root)

/-- The entries of a name in the scope of a spot. -/
def entriesOf (root : Node) (s : Spot) (x : Name) : List (Entry Name Site) :=
  (entriesIn s.rank (opsOf root)).filter (·.name = x)

theorem bounded_opsOf (h : SoleProgram root) : Bounded 0 (opsOf root) := by
  unfold opsOf
  rw [Node.places_eq, Place.inner, h.rankBelow, List.flatMap_cons, effects_root h, bounded_append]
  refine ⟨trivial, bounded_effects Nat.zero_lt_one ?_⟩
  intro t ht _
  rw [List.mem_singleton.1 ht]
  exact Nat.zero_lt_one

/-- The scope of a scope node is its frame, the scopes opened inside it and all entries that go there. -/
theorem getElem?_built (h : SoleProgram root) (hp : p ∈ root.places) (ho : p.node.opensScope = true) :
    (built root).scopes[p.rank]? =
      some ((p.frame.adopt (openedIn p.rank 0 (opsOf root))).declareAll (entriesIn p.rank (opsOf root))) := by
  have hb : Bounded ({} : Store Name Site).scopes.length (opsOf root) := bounded_opsOf h
  have hget := getElem?_run hb p.rank
  rw [List.nil_append, opsOf, framesOf_effects, List.getElem?_map, getElem?_rank hp ho] at hget
  exact hget

theorem find?_built {f : Frame Name Site} (h : SoleProgram root) (hp : p ∈ root.places)
    (ho : p.node.opensScope = true) (hf : (built root).scopes[p.rank]? = some f) (x : Name) :
    f.find? x = bindingOf x (entriesOf root p.toSpot x) := by
  rw [getElem?_built h hp ho] at hf
  cases hf
  rw [find?_declareAll]
  rfl

/-- From a place outwards, the scopes are the scope nodes above it. -/
theorem chain_built (h : SoleProgram root) (hp : p ∈ root.places) {c : Nat} (hc : p.scope? = some c) (x : Name) :
    ((built root).chain c).map (fun f => (f.1, f.2.find? x)) =
      (p.above.filter (·.node.opensScope)).map fun s => (s.rank, bindingOf x (entriesOf root s x)) := by
  -- by induction on the scope, since the scope around the next scope node is opened before it
  induction c using Nat.strongRecOn generalizing p with
  | _ c ih =>
    obtain ⟨s, hs, rfl⟩ := Option.map_eq_some_iff.1 hc
    obtain ⟨ho, inner, outer, ha, hinner⟩ := List.find?_eq_some_iff_append.1 hs
    obtain ⟨hq, -⟩ := mem_of_above hp ha
    have hfilter : p.above.filter (·.node.opensScope) = s :: outer.filter (·.node.opensScope) := by
      rw [ha, List.filter_append, List.filter_cons, if_pos ho, List.filter_eq_nil_iff.2, List.nil_append]
      intro t ht
      simpa using hinner t ht
    have hframe := getElem?_built h hq ho
    cases hout : Place.scope? ⟨s, outer⟩ with
    | none =>
      have hnone := Option.map_eq_none_iff.1 hout
      rw [Store.chain_outermost hframe hout, hfilter, List.filter_eq_nil_iff.2 (List.find?_eq_none.1 hnone),
        List.map_singleton, find?_built h hq ho hframe]
      rfl
    | some d =>
      obtain ⟨t, ht, hd⟩ := Option.map_eq_some_iff.1 hout
      have hto : t.node.opensScope = true := by simpa using List.find?_some ht
      have hlt : d < s.rank := hd ▸ rank_lt_of_above hq (List.mem_of_find?_eq_some ht) hto
      rw [Store.chain_inside hframe hout hlt, hfilter, List.map_cons, List.map_cons, find?_built h hq ho hframe,
        ih d hlt hq hout]

/-- A name is looked up in the scope nodes above a place, the nearest first. -/
theorem resolve_built (h : SoleProgram root) (hp : p ∈ root.places) {c : Nat} (hc : p.scope? = some c) (x : Name) :
    (built root).resolve c x =
      (p.above.filter (·.node.opensScope)).findSome? fun s => (bindingOf x (entriesOf root s x)).map (s.rank, ·) := by
  have hchain := congrArg (List.findSome? fun f => f.2.map (f.1, ·)) (chain_built h hp hc x)
  rw [List.findSome?_map, List.findSome?_map] at hchain
  rw [Store.resolve_eq]
  exact hchain

/-! ## Entries -/

theorem mem_effects {id : Nat} :
    .declared id e ∈ p.effects ↔
      id = p.here ∧ e ∈ p.aroundEntries ∨ id = p.host ∧ e ∈ p.hostEntries ∨ id = p.rank ∧ e ∈ p.ownEntries := by
  unfold Place.effects
  split <;> simp [eq_comm, and_comm]

theorem mem_entriesOf {x : Name} :
    e ∈ entriesOf root s x ↔ e.name = x ∧ ∃ p ∈ root.places, .declared s.rank e ∈ p.effects := by
  simp [entriesOf, opsOf, mem_entriesIn, and_comm]

theorem bindingOf_eq_none {κ ν : Type} {x : κ} {es : List (Entry κ ν)} : bindingOf x es = none ↔ es = [] := by
  cases es <;> simp [bindingOf]

theorem declarations_of_bindingOf {κ ν : Type} {x : κ} {es : List (Entry κ ν)} {b : Binding κ ν}
    (h : bindingOf x es = some b) : b.declarations = es.flatMap (·.declaration.toList) := by
  cases es with
  | nil => cases h
  | cons e es =>
    cases h
    rfl

theorem origin_of_bindingOf {κ ν : Type} {x : κ} {es : List (Entry κ ν)} {b : Binding κ ν}
    (h : bindingOf x es = some b) : ∃ e ∈ es, e.origin = b.origin := by
  cases es with
  | nil => cases h
  | cons e es =>
    cases h
    exact ⟨e, List.mem_cons_self, rfl⟩

end LetOrConst.Scope
