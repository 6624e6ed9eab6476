/-
The tree of scopes mirrors the scope nodes of the syntax tree. Scopes know the scope around them and list
the scopes right inside them; going through these lists from the root on gives all scopes in document
order (`Store.preorder`). For the scopes that are built of a tree this order is that of its scope nodes
(`preorder_built`): the scopes listed by one are those of the scope nodes whose nearest scope node it
belongs to (`children_built`), and these are found below it.
-/
import LetOrConst.Proofs.Scope.Balance
import LetOrConst.Proofs.Scope.Binds
import LetOrConst.Proofs.Tree.Names

namespace LetOrConst.Scope

open LetOrConst.Tree LetOrConst.Tree.Sample

namespace Store

variable {κ ν : Type}

/-- A scope and all scopes inside it: the scope first, then those that it lists, each with all that are inside
it. A scope lists none but later ones; any other would not be gone into. -/
def preorder (st : Store κ ν) (id : Nat) : List Nat :=
  id :: (st.children id).attach.flatMap fun ⟨c, _⟩ => if id < c ∧ c < st.scopes.length then st.preorder c else []
termination_by st.scopes.length - id
decreasing_by omega

theorem preorder_eq {st : Store κ ν} {id : Nat} (h : ∀ c ∈ st.children id, id < c ∧ c < st.scopes.length) :
    st.preorder id = id :: (st.children id).flatMap st.preorder := by
  rw [preorder]
  refine congrArg (id :: ·) ?_
  rw [List.flatMap_subtype (g := fun c => if id < c ∧ c < st.scopes.length then st.preorder c else []) fun c hc => rfl,
    List.unattach_attach]
  exact List.flatMap_congr fun c hc => if_pos (h c hc)

end Store

variable {root : Node} {p q : Place} {above : List Spot} {i k : Nat} {ns : List Node} {t : Spot}

/-! ## Nearest scope nodes -/

theorem rank_of_scope? {c : Nat} (h : p.scope? = some c) :
    ∃ s inner outer, p.above = inner ++ s :: outer ∧ s.node.opensScope = true ∧ s.rank = c := by
  obtain ⟨s, hs, hrank⟩ := Option.map_eq_some_iff.1 h
  obtain ⟨ho, inner, outer, ha, -⟩ := List.find?_eq_some_iff_append.1 hs
  exact ⟨s, inner, outer, ha, ho, hrank⟩

theorem lt_of_scope? (hp : p ∈ root.places) {c : Nat} (h : p.scope? = some c) : c < p.rank := by
  obtain ⟨s, inner, outer, ha, ho, rfl⟩ := rank_of_scope? h
  exact rank_lt_of_above hp (by rw [ha]; simp) ho

/-- A place whose nearest scope is that of a scope node stands below it. -/
theorem mem_inner_of_scope? (hp : p ∈ root.places) (hq : q ∈ root.places) (ho : q.node.opensScope = true)
    (h : p.scope? = some q.rank) : p ∈ q.inner := by
  obtain ⟨s, inner, outer, ha, hso, hrank⟩ := rank_of_scope? h
  obtain ⟨hs, hin⟩ := mem_of_above hp ha
  rwa [eq_of_rank_eq hs hq hso ho hrank] at hin

/-- The places whose nearest scope is that of a scope node are found among those below it. -/
theorem filter_scope? (hq : q ∈ root.places) (ho : q.node.opensScope = true) :
    root.places.filter (·.scope? == some q.rank) = q.inner.filter (·.scope? == some q.rank) := by
  obtain ⟨before, after, hsplit⟩ := placesAll_split hq
  rw [← Node.places] at hsplit
  have hnodup : root.places.Nodup := nodup_placesAll _ _ _ _
  have hin : ∀ p ∈ root.places, p.scope? == some q.rank → p ∈ q.inner := fun p hp hscope =>
    mem_inner_of_scope? hp hq ho (beq_iff_eq.1 hscope)
  rw [hsplit] at hnodup hin ⊢
  -- a place before or after those below the node would be listed a second time
  have hdisjoint := List.disjoint_of_nodup_append hnodup
  have hafter := List.disjoint_of_nodup_append (List.nodup_cons.1 (List.Nodup.of_append_right hnodup)).2
  have hself := (List.nodup_cons.1 (List.Nodup.of_append_right hnodup)).1
  rw [List.filter_append, List.filter_cons, List.filter_append]
  have hbefore : before.filter (·.scope? == some q.rank) = [] := by
    refine List.filter_eq_nil_iff.2 fun p hp hscope => ?_
    exact hdisjoint hp (List.mem_cons_of_mem _ (List.mem_append_left _ (hin p (List.mem_append_left _ hp) hscope)))
  have hrest : after.filter (·.scope? == some q.rank) = [] := by
    refine List.filter_eq_nil_iff.2 fun p hp hscope => ?_
    exact hafter (hin p (by simp [hp]) hscope) hp
  rw [hbefore, hrest, if_neg fun hscope => hself (List.mem_append_left _ (hin q (by simp) hscope)), List.nil_append,
    List.append_nil]

/-- Below a scope node, the nearest scope is opened no earlier than its own. -/
theorem le_of_scope? (hq : q.node.opensScope = true) (hp : p ∈ q.inner) {c : Nat} (h : p.scope? = some c) :
    q.rank ≤ c := by
  obtain ⟨s, hs, rfl⟩ := Option.map_eq_some_iff.1 h
  obtain ⟨way, hway, hin⟩ := above_split hp
  rw [Place.nearest?, hway, List.find?_append] at hs
  cases hfind : way.find? (·.node.opensScope) with
  | none =>
    rw [hfind, Option.none_or, List.find?_cons, hq] at hs
    cases hs
    exact Nat.le_refl _
  | some u =>
    rw [hfind, Option.some_or] at hs
    cases hs
    obtain ⟨xs, ys, hxs⟩ := List.append_of_mem (List.mem_of_find?_eq_some hfind)
    have hle : q.rankBelow ≤ s.rank := le_rank (hin xs s ys hxs).1
    exact Nat.le_trans (Nat.le_add_right _ _) hle

/-! ## The order of scopes -/

/-- The scopes of scope nodes go through those below them, if the scopes inside each are given by the places
whose nearest scope it is. -/
theorem flatMap_preorder {st : Store Name Site} (ht : above.find? (·.node.opensScope) = some t) (hlt : t.rank < k)
    (hinside : ∀ q ∈ placesAll above i k ns, q.node.opensScope = true →
      st.preorder q.rank = q.rank ::
        ((q.inner.filter (·.scope? == some q.rank)).filter (·.node.opensScope)).flatMap fun c => st.preorder c.rank) :
    (((placesAll above i k ns).filter (·.scope? == some t.rank)).filter (·.node.opensScope)).flatMap
        (fun q => st.preorder q.rank) =
      ((placesAll above i k ns).filter (·.node.opensScope)).map (·.rank) := by
  induction ns using Node.forest_induction generalizing above i k t with
  | nil => rw [placesAll]; rfl
  | cons n rest ihc ihr =>
    let q : Place := ⟨⟨i, k, n⟩, above⟩
    have hscope : q.scope? = some t.rank := by rw [Place.scope?, Place.nearest?, ht]; rfl
    have hbelow : ∀ p ∈ q.inner, p.node.opensScope = true → _ := fun p hp =>
      hinside p (mem_placesAll_cons.2 (.inr (.inl hp)))
    have hbeside := ihr ht (Nat.lt_of_lt_of_le hlt (Nat.le_add_right k n.scopeCount)) fun p hp =>
      hinside p (mem_placesAll_cons.2 (.inr (.inr hp)))
    have hplaces : placesAll above i k (n :: rest) =
        q :: (q.inner ++ placesAll above (i + n.size) (k + n.scopeCount) rest) := by
      rw [placesAll]
      rfl
    rw [hplaces, List.filter_cons, hscope, if_pos (beq_self_eq_true _), List.filter_append, List.filter_cons,
      List.filter_append, List.filter_cons, List.filter_append]
    cases ho : n.opensScope with
    | true =>
      -- the scope of the node comes first, and all scopes below it are inside that one
      have hnone : q.inner.filter (·.scope? == some t.rank) = [] := by
        refine List.filter_eq_nil_iff.2 fun p hp hp' => ?_
        have hle : k ≤ t.rank := le_of_scope? ho hp (beq_iff_eq.1 hp')
        omega
      have hfind : (q.toSpot :: above).find? (·.node.opensScope) = some q.toSpot := by simp [q, ho]
      have hchildren := ihc hfind (by simp [Spot.rankBelow, q, ho]) hbelow
      have hq := hinside q (mem_placesAll_cons.2 (.inl rfl)) ho
      rw [if_pos rfl, if_pos rfl, hnone, List.filter_nil, List.nil_append, List.flatMap_cons, hbeside, hq,
        List.map_cons, List.map_append, List.cons_append]
      exact congrArg (fun inner => k :: (inner ++ _)) hchildren
    | false =>
      have hfind : (q.toSpot :: above).find? (·.node.opensScope) = some t := by simp [q, ho, ht]
      have hchildren := ihc hfind (by simp [Spot.rankBelow, q, ho, hlt]) hbelow
      rw [if_neg Bool.false_ne_true, if_neg Bool.false_ne_true, List.flatMap_append, hbeside, List.map_append]
      exact congrArg (· ++ _) hchildren

section Built

theorem range_built (root : Node) :
    List.range (built root).scopes.length = (root.places.filter (·.node.opensScope)).map (·.rank) := by
  rw [Node.places, placesAll_ranks, ← length_scopes [] 0 0, built, length_run, opsOf, framesOf_effects, List.length_map,
    List.range_eq_range', List.length_nil, Nat.zero_add]
  rfl

/-- A scope is numbered by the rank of its node. -/
theorem zipIdx_frames (root : Node) :
    ((root.places.filter (·.node.opensScope)).map Place.frame).zipIdx =
      (root.places.filter (·.node.opensScope)).map fun p => (p.frame, p.rank) := by
  have hranks : (root.places.filter (·.node.opensScope)).map (·.rank) =
      List.range' 0 (root.places.filter (·.node.opensScope)).length := by
    rw [← range_built, built, length_run, opsOf, framesOf_effects, List.length_map, List.length_nil, Nat.zero_add,
      List.range_eq_range']
  rw [List.zipIdx_eq_zip_range', List.length_map, ← hranks, List.zip_map']

/-- The scopes that one lists are those of the scope nodes whose nearest scope it is. -/
theorem children_built (h : SoleProgram root) (hq : q ∈ root.places) (ho : q.node.opensScope = true) :
    (built root).children q.rank =
      ((root.places.filter (·.scope? == some q.rank)).filter (·.node.opensScope)).map (·.rank) := by
  rw [Store.children, getElem?_built h hq ho]
  show [] ++ openedIn q.rank 0 (opsOf root) = _
  rw [List.nil_append, openedIn_eq, opsOf, framesOf_effects, zipIdx_frames, List.filter_map, List.map_map,
    List.filter_filter, List.filter_filter]
  refine congrArg _ (List.filter_congr fun p hp => ?_)
  have hscope : p.frame.parent = p.scope? := rfl
  by_cases hp' : p.scope? = some q.rank
  · simp [hscope, hp', lt_of_scope? hp hp']
  · simp [hscope, hp']

/-- A scope comes before those that it lists, each with all that are inside it. -/
theorem preorder_eq_built (h : SoleProgram root) (hq : q ∈ root.places) (ho : q.node.opensScope = true) :
    (built root).preorder q.rank = q.rank ::
      ((q.inner.filter (·.scope? == some q.rank)).filter (·.node.opensScope)).flatMap fun c =>
        (built root).preorder c.rank := by
  have hchildren := children_built h hq ho
  rw [Store.preorder_eq, hchildren, filter_scope? hq ho, List.flatMap_map]
  intro c hc
  rw [hchildren] at hc
  obtain ⟨p, hp, rfl⟩ := List.mem_map.1 hc
  obtain ⟨hp, hpo⟩ := List.mem_filter.1 hp
  obtain ⟨hp, hscope⟩ := List.mem_filter.1 hp
  refine ⟨lt_of_scope? hp (beq_iff_eq.1 hscope), ?_⟩
  rw [← List.mem_range, range_built]
  exact List.mem_map_of_mem (List.mem_filter.2 ⟨hp, hpo⟩)

/-- Going through the scopes from the root on gives all of them in the order they were opened. -/
theorem preorder_built (h : SoleProgram root) :
    (built root).preorder 0 = (root.places.filter (·.node.opensScope)).map (·.rank) := by
  let q : Place := ⟨⟨0, 0, root⟩, []⟩
  have hq : q ∈ root.places := by rw [Node.places_eq]; exact List.mem_cons_self
  have hfind : [q.toSpot].find? (·.node.opensScope) = some q.toSpot := by simp [q, h.opensScope]
  have hlt : q.rank < q.rankBelow := by simp [q, h.rankBelow]
  have hbelow := flatMap_preorder hfind hlt fun p (hp : p ∈ q.inner) => preorder_eq_built h (mem_of_inner hq hp)
  rw [Node.places_eq, List.filter_cons, if_pos h.opensScope, List.map_cons]
  exact (preorder_eq_built h hq h.opensScope).trans (congrArg (0 :: ·) hbelow)

end Built

/-! ## The tree of scopes -/

/-- Scopes and assignments as the nodes of a tree give them. A scope has the number of its node among the
scope nodes. -/
structure Mirrors (root : Node) (p : Progress) : Prop where
  /-- The scopes in document order are those of the scope nodes, each inside that of the nearest one above. -/
  scopes : List.Forall₂
    (fun (c : Nat) (q : Place) => c = q.rank ∧ ∃ f, p.store.scopes[c]? = some f ∧ f.kind = q.node.scopeKind ∧
      f.place = q.site ∧ f.parent = (q.nearest? Node.opensScope).map (·.rank))
    (p.store.preorder 0) (root.places.filter (·.node.opensScope))
  /-- There are no others. -/
  all : p.store.preorder 0 = List.range p.store.scopes.length
  /-- A scope lists those of the scope nodes whose nearest one above it belongs to, in document order. -/
  siblings : ∀ q ∈ root.places, q.node.opensScope = true → ∃ f, p.store.scopes[q.rank]? = some f ∧ f.children =
    (root.places.filter fun c => c.node.opensScope && (c.nearest? Node.opensScope).any (·.rank == q.rank)).map (·.rank)
  /-- The assignments are those of the tree, each in the scope of the nearest scope node above. -/
  assignments : List.Forall₂
    (fun (a : Assignment) (q : Place) => q.node.assignedName? = some a.name ∧ a.site = q.site ∧
      ∃ s, q.nearest? Node.opensScope = some s ∧ a.scope = some s.rank)
    p.assignments (root.places.filter (·.node.assignedName?.isSome))

theorem assignments_eq_map (ps : List Place) :
    ps.filterMap Place.assignment? =
      (ps.filter (·.node.assignedName?.isSome)).map fun q => ⟨q.scope?, q.site, q.node.assignedName?.getD ""⟩ := by
  induction ps with
  | nil => rfl
  | cons q ps ih =>
    rw [List.filterMap_cons, List.filter_cons, ih]
    cases ha : q.node.assignedName? with
    | none => simp [Place.assignment?, ha]
    | some x => simp [Place.assignment?, ha]

/-- Scopes are built without fault: there is a scope to work in at every turn, the scope of the root is
the innermost one in the end, and scopes and assignments mirror the tree. -/
theorem build_mirrors (h : SoleProgram root) : ∃ p, build root = .ok p ∧ Balanced root p ∧ Mirrors root p := by
  refine ⟨_, build_eq h, balanced_of_build h (build_eq h), ?_⟩
  have hstore : (Progress.after {} root.places).store = built root := rfl
  refine ⟨?_, ?_, fun q hq ho => ?_, ?_⟩
  · show List.Forall₂ _ ((Progress.after {} root.places).store.preorder 0) _
    rw [hstore, preorder_built h, List.forall₂_map_left_iff, List.forall₂_same]
    intro q hq
    obtain ⟨hq, ho⟩ := List.mem_filter.1 hq
    exact ⟨rfl, _, getElem?_built h hq ho, rfl, rfl, rfl⟩
  · exact (preorder_built h).trans (range_built root).symm
  · have hchildren := children_built h hq ho
    rw [Store.children, getElem?_built h hq ho] at hchildren
    refine ⟨_, getElem?_built h hq ho, hchildren.trans ?_⟩
    rw [List.filter_filter]
    refine congrArg _ (List.filter_congr fun c _ => ?_)
    rw [Place.scope?]
    cases c.nearest? Node.opensScope <;> simp
  · show List.Forall₂ _ ([] ++ root.places.filterMap Place.assignment?) _
    rw [List.nil_append, assignments_eq_map, List.forall₂_map_left_iff, List.forall₂_same]
    intro q hq
    obtain ⟨hq, ha⟩ := List.mem_filter.1 hq
    obtain ⟨x, hx⟩ := Option.isSome_iff_exists.1 ha
    have hne : q.node.kind ≠ .program := fun hk => by simp [Node.assignedName?, hk] at hx
    obtain ⟨s, hs⟩ := exists_nearest h h.opensScope hq hne
    exact ⟨by rw [hx]; rfl, rfl, s, hs, by rw [Place.scope?, hs]; rfl⟩

/-- A program with an assignment in a block of a function, and one in a block beside the function. -/
def assigningInside : Node := program [declaredFunction "f" [block [assigning "x"]], block [assigning "y"]]

theorem build_mirrors_inside :
    SoleProgram assigningInside ∧
      ∃ p, build assigningInside = .ok p ∧ Balanced assigningInside p ∧ Mirrors assigningInside p ∧
        p.store.scopes.map (fun f => (f.kind, f.place.index, f.parent, f.children)) =
          [(.program, 0, none, [1, 4]), (.function, 1, some 0, [2]), (.block, 4, some 1, [3]), (.block, 5, some 2, []),
            (.block, 8, some 0, [])] ∧
        p.assignments.map (fun a => (a.name, a.site.index, a.scope)) = [("x", 6, some 3), ("y", 9, some 4)] := by
  have hsole : SoleProgram assigningInside := ⟨rfl, by decide +kernel⟩
  have hscopes : (build assigningInside).map (fun p => p.store.scopes.map fun f =>
      (f.kind, f.place.index, f.parent, f.children)) =
        .ok [(.program, 0, none, [1, 4]), (.function, 1, some 0, [2]), (.block, 4, some 1, [3]),
          (.block, 5, some 2, []), (.block, 8, some 0, [])] := by decide +kernel
  have hassignments : (build assigningInside).map (fun p => p.assignments.map fun a =>
      (a.name, a.site.index, a.scope)) = .ok [("x", 6, some 3), ("y", 9, some 4)] := by decide +kernel
  obtain ⟨p, hp, hbalanced, hmirrors⟩ := build_mirrors hsole
  rw [hp] at hscopes hassignments
  exact ⟨hsole, p, hp, hbalanced, hmirrors, Except.ok.inj hscopes, Except.ok.inj hassignments⟩

end LetOrConst.Scope
