/-
Building scopes is running the effects of all places. A visit that stands at a node knows how many
nodes and scopes came before it, and its innermost open scope with all scopes around that one
mirrors the scope nodes above the node (`Ready`). One node keeps this (`enter_eq`, `leave_eq`), so a
visit of whole trees ends where it began, having run the effects of their places in document order
(`fold_builder`). A tree with its only program at the root is therefore built without fault, and what is
built is the run of its places (`build_eq`).
-/
import LetOrConst.Proofs.Scope.Effect
import LetOrConst.Proofs.Tree.Visit

namespace LetOrConst.Scope

open LetOrConst.Tree

variable {p : Progress} {above : List Spot} {i k c : Nat}

/-- The state of a visit after some places, all of whose scopes are closed again. -/
def Progress.after (p : Progress) (ps : List Place) : Progress :=
  { p with
    store := p.store.run (ps.flatMap Place.effects)
    assignments := p.assignments ++ ps.filterMap Place.assignment?
    entered := p.entered + ps.length }

theorem Progress.after_append (p : Progress) (xs ys : List Place) :
    p.after (xs ++ ys) = (p.after xs).after ys := by
  simp [Progress.after, Store.run_append, Nat.add_assoc]

/-! ## Single steps of the visit -/

namespace Progress

/-- The state after a run of operations on the store. -/
def running (p : Progress) (ops : List (Op Name Site)) : Progress := { p with store := p.store.run ops }

/-- The state with another innermost scope. -/
def inside (p : Progress) (id : Nat) : Progress := { p with current := some id }

theorem current_inside (p : Progress) (id : Nat) : (p.inside id).current = some id := rfl

theorem running_running (p : Progress) (xs ys : List (Op Name Site)) :
    (p.running xs).running ys = p.running (xs ++ ys) := by
  rw [running, running, running, Store.run_append]

theorem running_inside (p : Progress) (id : Nat) (ops : List (Op Name Site)) :
    (p.inside id).running ops = (p.running ops).inside id := rfl

theorem length_running (p : Progress) (ops : List (Op Name Site)) :
    (p.running ops).store.scopes.length = p.store.scopes.length + (framesOf ops).length := length_run _ _

theorem ok_bind {α β : Type} (a : α) (f : α → Except Fault β) : (Except.ok a >>= f) = f a := rfl

theorem here_eq (h : p.current = some c) : p.here = .ok c := by rw [here, h]

theorem pop_eq (h : p.current = some c) : p.pop = .ok { p with current := p.store.parent? c } := by
  rw [pop, here_eq h]; rfl

theorem declareHere_eq (h : p.current = some c) (origin : Origin) (name : Option Name) :
    p.declareHere origin name =
      .ok (p.running ((name.toList.map (⟨·, origin, none⟩)).map (.declared c))) := by
  cases name with
  | none => rfl
  | some x => rw [declareHere, here_eq h]; rfl

theorem push_eq (h : p.current = some c) (kind : Kind) (n : Node) :
    p.push kind n =
      .ok ((p.running [.opened kind (p.site n) (some c)]).inside p.store.scopes.length, p.store.scopes.length) := by
  rw [push, here_eq h]; rfl

theorem declareAll_eq (p : Progress) (id : Nat) (names : List String) (origin : Origin) (site : Option Site) :
    p.declareAll id names origin site =
      p.running ((names.map (⟨some ·, origin, site⟩)).map (.declared id)) := by
  rw [declareAll, Store.declareAll_eq_run, List.map_map, List.map_map]; rfl

end Progress

open Progress (ok_bind)

/-- A visit is about to enter the node of a place: its innermost open scope is the one around the
place, and what it would open next is the scope of the place. -/
structure Entering (p : Progress) (q : Place) : Prop where
  current : p.current = some q.here
  scope : q.scope? = some q.here
  host : p.store.host q.here = q.host
  count : p.store.scopes.length = q.rank
  site : p.site q.node = q.site

/-! ## Entering a node -/

section Enter

variable {q : Place}

theorem enterFunction_eq (h : Entering p q) (hn : q.node.kind = .function) :
    enterFunction q.node p = .ok ((p.running q.effects).inside q.rank) := by
  have heff : q.effects = ((outerName? q.node).toList.map (⟨·, .function, none⟩)).map (.declared q.here) ++
      ([.opened .function q.site (some q.here)] ++
        (((innerName? q.node).toList.map (⟨·, .function, none⟩)).map (.declared q.rank) ++
          ((parameterNames q.node).map (⟨some ·, .param, none⟩)).map (.declared q.rank))) := by
    simp [Place.effects, Place.aroundEntries, Place.hostEntries, Place.ownEntries, Node.isVarDeclaration,
      Node.opensScope, Node.scopeKind, hn, h.scope]
  have hc : ∀ ops, (p.running ops).current = some q.here := fun _ => h.current
  rw [enterFunction, Progress.declareHere_eq h.current, ok_bind, Progress.push_eq (hc _), Progress.length_running,
    framesOf_declared, List.length_nil, Nat.add_zero, h.count, ok_bind]
  simp only [Progress.declareHere_eq (Progress.current_inside _ _), ok_bind, Progress.declareAll_eq]
  rw [Progress.running_inside, Progress.running_inside, Progress.running_running, Progress.running_running,
    Progress.running_running, heff, ← h.site]
  rfl

theorem enterCatch_eq (h : Entering p q) (hn : q.node.kind = .catchClause) :
    enterCatch q.node p = .ok ((p.running q.effects).inside q.rank) := by
  have heff : q.effects = [.opened .caught q.site (some q.here)] ++
      ((q.node.namesUnder "parameter").map (⟨some ·, .caught, none⟩)).map (.declared q.rank) := by
    simp [Place.effects, Place.aroundEntries, Place.hostEntries, Place.ownEntries, Node.isVarDeclaration,
      Node.opensScope, Node.scopeKind, hn, h.scope]
  rw [enterCatch, Progress.push_eq h.current, h.count, ok_bind]
  simp only [Progress.declareAll_eq]
  rw [Progress.running_inside, Progress.running_running, heff, ← h.site]
  rfl

theorem pushBlock_eq (h : Entering p q) (hn : q.node.kind = .block ∨ q.node.kind = .forLoop) :
    p.push .block q.node = .ok ((p.running q.effects).inside q.rank, q.rank) := by
  have heff : q.effects = [.opened .block q.site (some q.here)] := by
    rcases hn with hn | hn <;>
      simp [Place.effects, Place.aroundEntries, Place.hostEntries, Place.ownEntries, Node.isVarDeclaration,
        Node.opensScope, Node.scopeKind, hn, h.scope]
  rw [Progress.push_eq h.current, h.count, heff, h.site]

theorem enterClass_eq (h : Entering p q) (hn : q.node.kind = .classDef) :
    enterClass q.node p = .ok (p.running q.effects) := by
  have heff : q.effects = ((className? q.node).toList.map (⟨·, .classDef, none⟩)).map (.declared q.here) := by
    simp [Place.effects, Place.aroundEntries, Place.hostEntries, Place.ownEntries, Node.isVarDeclaration,
      Node.opensScope, hn]
  rw [enterClass, Progress.declareHere_eq h.current, heff]

theorem enterDeclaration_eq (h : Entering p q) (hn : q.node.kind = .declaration) :
    enterDeclaration q.node p = .ok (p.running q.effects) := by
  have hown : q.ownEntries = [] := by simp [Place.ownEntries, hn]
  have hopen : q.node.opensScope = false := by simp [Node.opensScope, hn]
  rw [enterDeclaration, Place.effects, Place.aroundEntries, Place.hostEntries, Node.isVarDeclaration, hown, hopen, hn,
    h.site]
  rcases hkw : q.node.label.keyword with _ | _ | _ | _
  · rfl
  · simp only [Progress.here_eq h.current, ok_bind, Progress.declareAll_eq, h.host]
    simp only [BEq.rfl, Bool.and_self, if_true, List.map_nil, List.nil_append, Bool.false_eq_true, if_false,
      List.append_nil]
    rfl
  -- `let` and `const` do not touch the state when they bind nothing
  all_goals
    simp only [Progress.here_eq h.current, ok_bind, Progress.declareAll_eq]
    cases q.node.boundNames with
    | nil => rfl
    | cons x xs => simp [Progress.running]; rfl

theorem effects_eq_nil (hn : q.node.opensScope = false) (h : q.node.kind ≠ .classDef ∧ q.node.kind ≠ .declaration) :
    q.effects = [] := by
  have hown := Place.ownEntries_eq_nil hn
  have haround : q.aroundEntries = [] := by
    cases hk : q.node.kind <;> simp_all [Place.aroundEntries, Node.opensScope]
  have hhost : q.hostEntries = [] := by simp [Place.hostEntries, Node.isVarDeclaration, h.2]
  simp [Place.effects, hown, haround, hhost, hn]

theorem assignedName?_eq_none {n : Node} (h : n.kind ≠ .assignment) : n.assignedName? = none := by
  rw [Node.assignedName?, if_neg h]

theorem entered_scope (ho : q.node.opensScope = true) (ha : q.node.assignedName? = none) :
    { (p.running q.effects).inside q.rank with entered := p.entered + 1 } =
      { p.after [q] with current := if q.node.opensScope then some q.rank else p.current } := by
  simp [Progress.after, Progress.running, Progress.inside, Place.assignment?, ha, ho]

theorem entered_plain (ho : q.node.opensScope = false) (ha : q.node.assignedName? = none) :
    { p.running q.effects with entered := p.entered + 1 } =
      { p.after [q] with current := if q.node.opensScope then some q.rank else p.current } := by
  simp [Progress.after, Progress.running, Place.assignment?, ha, ho]

/-- Entering a node runs its effects, notes it if it is an assignment, and opens its scope. -/
theorem enter_eq (h : Entering p q) (hn : q.node.kind ≠ .program) :
    enter q.node p =
      .ok { p.after [q] with current := if q.node.opensScope then some q.rank else p.current } := by
  have hopens : ∀ k, q.node.kind = k → q.node.opensScope = Node.opensScope { label := { kind := k } } := by
    rintro k rfl; rfl
  rw [enter]
  cases hk : q.node.kind with
  | program => exact absurd hk hn
  | function =>
    rw [enterFunction_eq h hk, ← entered_scope (hopens _ hk) (assignedName?_eq_none (by rw [hk]; decide))]; rfl
  | classDef =>
    rw [enterClass_eq h hk, ← entered_plain (hopens _ hk) (assignedName?_eq_none (by rw [hk]; decide))]; rfl
  | block =>
    rw [pushBlock_eq h (.inl hk), ← entered_scope (hopens _ hk) (assignedName?_eq_none (by rw [hk]; decide))]; rfl
  | forLoop =>
    rw [pushBlock_eq h (.inr hk), ← entered_scope (hopens _ hk) (assignedName?_eq_none (by rw [hk]; decide))]; rfl
  | catchClause =>
    rw [enterCatch_eq h hk, ← entered_scope (hopens _ hk) (assignedName?_eq_none (by rw [hk]; decide))]; rfl
  | declaration =>
    rw [enterDeclaration_eq h hk, ← entered_plain (hopens _ hk) (assignedName?_eq_none (by rw [hk]; decide))]; rfl
  | assignment =>
    have ho := hopens _ hk
    have heff : q.effects = [] := effects_eq_nil ho (by rw [hk]; decide)
    rw [enterAssignment]
    cases ha : q.node.assignedName? with
    | none => rw [← entered_plain ho ha, heff]; rfl
    | some x =>
      simp [Progress.after, Place.assignment?, ha, ho, heff, h.scope, h.current, h.site]
      rfl
  | _ =>
    have ho := hopens _ hk
    rw [← entered_plain ho (assignedName?_eq_none (by rw [hk]; decide)), effects_eq_nil ho (by rw [hk]; decide)]; rfl

end Enter

/-! ## Leaving a node -/

theorem leave_scope {n : Node} (ho : n.opensScope = true) (hn : n.kind ≠ .program) (p : Progress) :
    leave n p = p.pop := by
  cases hk : n.kind <;> simp_all [Node.opensScope, leave]

theorem leave_plain {n : Node} (ho : n.opensScope = false ∨ n.kind = .program) (p : Progress) : leave n p = .ok p := by
  cases hk : n.kind <;> simp_all [Node.opensScope, leave]

/-! ## The invariant of the visit -/

/-- A visit stands below `above`, after `i` nodes and `k` scopes, and is about to enter a node. -/
structure Ready (p : Progress) (above : List Spot) (i k : Nat) : Prop where
  entered : p.entered = i
  count : p.store.scopes.length = k
  hosted : ∃ t ∈ above, t.node.hostsVars = true
  below : ∀ t ∈ above, t.node.opensScope = true → t.rank < k
  current : p.current = (above.find? (·.node.opensScope)).map (·.rank)
  outline : ∀ c, p.current = some c →
    p.store.outline c = (above.filter (·.node.opensScope)).map fun t => (t.rank, t.node.scopeKind)

namespace Ready

theorem pos (h : Ready p above i k) : 0 < k := by
  obtain ⟨t, ht, hv⟩ := h.hosted
  exact Nat.zero_lt_of_lt (h.below t ht (Node.opensScope_of_hostsVars hv))

theorem bounded (h : Ready p above i k) (ns : List Node) :
    Bounded p.store.scopes.length ((placesAll above i k ns).flatMap Place.effects) := by
  rw [h.count]; exact bounded_effects h.pos h.below

theorem current_lt (h : Ready p above i k) (hc : p.current = some c) : c < p.store.scopes.length := by
  have hlt := find?_rank_lt h.pos h.below
  rw [← h.current, hc] at hlt
  rw [h.count]; exact hlt

theorem host_eq (h : Ready p above i k) (hc : p.current = some c) :
    p.store.host c = ((above.find? (·.node.hostsVars)).map (·.rank)).getD 0 := by
  have hf : (above.filter (·.node.opensScope)).find? (·.node.scopeKind.hostsVars) =
      above.find? (·.node.hostsVars) := by
    rw [List.find?_filter]
    congr 1
    funext t
    rw [Node.hostsVars_scopeKind]
    cases hv : t.node.hostsVars with
    | false => simp
    | true => simp [Node.opensScope_of_hostsVars hv]
  obtain ⟨t, ht, hv⟩ := h.hosted
  have hs : (above.find? (·.node.hostsVars)).isSome = true := List.find?_isSome.2 ⟨t, ht, hv⟩
  obtain ⟨s, hs⟩ := Option.isSome_iff_exists.1 hs
  rw [Store.host_eq, h.outline c hc, List.find?_map]
  show (Option.or (Option.map _ ((above.filter (·.node.opensScope)).find? (·.node.scopeKind.hostsVars))) _).elim c _ = _
  rw [hf, hs]; rfl

theorem entering (h : Ready p above i k) (n : Node) : Entering p ⟨⟨i, k, n⟩, above⟩ := by
  obtain ⟨t, ht, hv⟩ := h.hosted
  have hs : (above.find? (·.node.opensScope)).isSome = true :=
    List.find?_isSome.2 ⟨t, ht, Node.opensScope_of_hostsVars hv⟩
  obtain ⟨s, hs⟩ := Option.isSome_iff_exists.1 hs
  have hscope : Place.scope? ⟨⟨i, k, n⟩, above⟩ = some s.rank := by rw [Place.scope?, Place.nearest?, hs]; rfl
  have hhere : Place.here ⟨⟨i, k, n⟩, above⟩ = s.rank := by rw [Place.here, hscope]; rfl
  have hcurrent : p.current = some s.rank := by rw [h.current, hs]; rfl
  refine ⟨by rw [hcurrent, hhere], by rw [hscope, hhere], ?_, h.count, ?_⟩
  · rw [hhere]; exact h.host_eq hcurrent
  · rw [Progress.site, h.entered]; rfl

/-- Having gone through some trees, a visit stands where the next begins. -/
theorem after (h : Ready p above i k) (ns : List Node) :
    Ready (p.after (placesAll above i k ns)) above (i + (ns.flatMap Node.preorder).length)
      (k + (ns.flatMap Node.preorder).countP Node.opensScope) := by
  refine ⟨?_, ?_, h.hosted, fun t ht ho => Nat.lt_of_lt_of_le (h.below t ht ho) (Nat.le_add_right _ _), h.current,
    fun c hc => ?_⟩
  · rw [← placesAll_nodes above i k ns, List.length_map, ← h.entered]; rfl
  · show (p.store.run _).scopes.length = _
    rw [length_run, h.count, framesOf_effects, List.length_map, length_scopes]
  · rw [← h.outline c hc]
    exact Store.outline_run (h.bounded ns) (h.current_lt hc)

theorem getElem?_opened (h : Ready p above i k) {n : Node} (ho : n.opensScope = true) (ops : List (Op Name Site))
    (hb : Bounded p.store.scopes.length (Place.effects ⟨⟨i, k, n⟩, above⟩ ++ ops)) :
    ∃ f, (p.store.run (Place.effects ⟨⟨i, k, n⟩, above⟩ ++ ops)).scopes[k]? = some f ∧
      f.kind = n.scopeKind ∧ f.parent = p.current := by
  have hget := getElem?_run hb k
  rw [List.getElem?_append_right (Nat.le_of_eq h.count), h.count, Nat.sub_self, framesOf_append, framesOf_effect,
    if_pos ho] at hget
  exact ⟨_, hget, rfl, h.current.symm⟩

/-- Having entered a node, a visit stands where its children begin. -/
theorem entered_below (h : Ready p above i k) (n : Node) :
    Ready { p.after [⟨⟨i, k, n⟩, above⟩] with current := if n.opensScope then some k else p.current }
      (⟨i, k, n⟩ :: above) (i + 1) (Spot.rankBelow ⟨i, k, n⟩) := by
  have hb : Bounded p.store.scopes.length (Place.effects ⟨⟨i, k, n⟩, above⟩) := by
    rw [h.count]; exact bounded_effect n h.pos h.below
  have hstore : (p.after [⟨⟨i, k, n⟩, above⟩]).store = p.store.run (Place.effects ⟨⟨i, k, n⟩, above⟩) := by
    rw [Progress.after, List.flatMap_singleton]
  obtain ⟨t, ht, hv⟩ := h.hosted
  refine ⟨?_, ?_, ⟨t, List.mem_cons_of_mem _ ht, hv⟩, fun t ht ho => ?_, ?_, fun c hc => ?_⟩
  · rw [← h.entered]; rfl
  · show (p.after _).store.scopes.length = _
    rw [hstore, length_run, h.count, length_framesOf_effect]
  · rcases List.mem_cons.1 ht with rfl | ht
    · simp only at ho
      simp [Spot.rankBelow, ho]
    · exact Nat.lt_of_lt_of_le (h.below t ht ho) (Nat.le_add_right _ _)
  · by_cases ho : n.opensScope = true
    · simp [ho]
    · simp [ho, h.current]
  · show (p.after _).store.outline c = _
    have hsame : ∀ c, p.current = some c → (p.store.run (Place.effects ⟨⟨i, k, n⟩, above⟩)).outline c =
        (above.filter (·.node.opensScope)).map fun t => (t.rank, t.node.scopeKind) := fun c hc => by
      rw [Store.outline_run hb (h.current_lt hc), h.outline c hc]
    rw [hstore]
    by_cases ho : n.opensScope = true
    · simp only [ho, if_true, Option.some.injEq] at hc
      subst hc
      -- the new scope comes first, then those around it as before
      obtain ⟨f, hf, hkind, hparent⟩ := h.getElem?_opened ho [] (by simpa using hb)
      rw [List.append_nil] at hf
      have hc := (h.entering n).current
      have hlt := h.current_lt hc
      rw [h.count] at hlt
      rw [List.filter_cons, if_pos ho, List.map_cons, ← hsame _ hc, Store.outline,
        Store.chain_inside hf (hparent.trans hc) hlt, List.map_cons, hkind]
      rfl
    · simp only [ho, Bool.false_eq_true, if_false] at hc
      rw [List.filter_cons, if_neg ho]
      exact hsame c hc

/-- Leaving a node closes its scope and no other. -/
theorem leave_eq (h : Ready p above i k) {n : Node} (hn : n.kind ≠ .program) :
    leave n (Progress.after
        { p.after [⟨⟨i, k, n⟩, above⟩] with current := if n.opensScope then some k else p.current }
        (Place.inner ⟨⟨i, k, n⟩, above⟩)) =
      .ok (p.after (⟨⟨i, k, n⟩, above⟩ :: Place.inner ⟨⟨i, k, n⟩, above⟩)) := by
  generalize hcs : Place.inner ⟨⟨i, k, n⟩, above⟩ = cs
  show leave n { (p.after [_]).after cs with current := if n.opensScope then some k else p.current } = _
  rw [← p.after_append [_] cs, List.singleton_append]
  generalize hr : p.after (⟨⟨i, k, n⟩, above⟩ :: cs) = r
  have hcurrent : r.current = p.current := by rw [← hr]; rfl
  by_cases ho : n.opensScope = true
  · have hb := h.bounded [n]
    rw [placesAll, placesAll, List.append_nil, List.flatMap_cons] at hb
    obtain ⟨f, hf, -, hparent⟩ := h.getElem?_opened ho _ hb
    have hclose : r.store.parent? k = p.current := by
      rw [← hr, Progress.after, List.flatMap_cons, ← hcs, Store.parent?]
      exact (congrArg (·.bind Frame.parent) hf).trans hparent
    rw [leave_scope ho hn, Progress.pop_eq (if_pos ho)]
    show Except.ok { r with current := r.store.parent? k } = .ok r
    rw [hclose, ← hcurrent]
  · rw [leave_plain (.inl (Bool.not_eq_true _ ▸ ho)), if_neg ho, ← hcurrent]

end Ready

/-! ## The whole visit -/

/-- Visiting trees without a program in them runs the effects of their places. -/
theorem fold_builder (h : Ready p above i k) {ns : List Node} (hn : ∀ m ∈ ns.flatMap Node.preorder, m.kind ≠ .program) :
    builder.fold ns (.ok p) = .ok (p.after (placesAll above i k ns)) := by
  induction ns using Node.forest_induction generalizing p above i k with
  | nil => simp [Visitor.fold, placesAll, Progress.after]
  | cons n rest ihc ihr =>
    simp only [List.flatMap_cons, Node.preorder_eq, List.cons_append, List.mem_cons, List.mem_append,
      forall_eq_or_imp] at hn
    obtain ⟨hroot, hn⟩ := hn
    have hready := h.after [n]
    rw [List.flatMap_singleton, ← Node.size, ← Node.scopeCount, placesAll, placesAll, List.append_nil] at hready
    rw [Visitor.fold, placesAll, ← List.cons_append, Progress.after_append]
    show builder.fold rest (Except.bind (builder.fold n.children (enter n p)) (leave n)) = _
    rw [enter_eq (h.entering n) hroot, ihc (h.entered_below n) fun m hm => hn m (.inl hm)]
    show builder.fold rest (leave n (Progress.after _ (Place.inner ⟨⟨i, k, n⟩, above⟩))) = _
    rw [h.leave_eq hroot]
    exact ihr hready fun m hm => hn m (.inr hm)

/-- A tree with one program in it, its root. -/
structure SoleProgram (root : Node) : Prop where
  isProgram : root.kind = .program
  below : ∀ m ∈ root.descendants, m.kind ≠ .program

section Root

variable {root : Node}

theorem SoleProgram.hostsVars (h : SoleProgram root) : root.hostsVars = true := by
  rw [Node.hostsVars, h.isProgram]
  rfl

theorem SoleProgram.opensScope (h : SoleProgram root) : root.opensScope = true :=
  Node.opensScope_of_hostsVars h.hostsVars

theorem SoleProgram.rankBelow (h : SoleProgram root) : Spot.rankBelow ⟨0, 0, root⟩ = 1 := by
  simp [Spot.rankBelow, h.opensScope]

theorem effects_root (h : SoleProgram root) :
    Place.effects ⟨⟨0, 0, root⟩, []⟩ = [.opened .program (Place.site ⟨⟨0, 0, root⟩, []⟩) none] := by
  simp [Place.effects, Place.aroundEntries, Place.hostEntries, Place.ownEntries, Node.isVarDeclaration,
    Node.opensScope, Node.scopeKind, Place.scope?, Place.nearest?, h.isProgram]

theorem enter_root (h : SoleProgram root) :
    enter root {} = .ok { Progress.after {} [⟨⟨0, 0, root⟩, []⟩] with root := some 0, current := some 0 } := by
  have ha : root.assignedName? = none := assignedName?_eq_none (by rw [h.isProgram]; decide)
  simp only [Progress.after, List.flatMap_singleton, effects_root h, Place.assignment?, ha, List.filterMap_cons,
    Option.map_none, List.filterMap_nil]
  rw [enter, h.isProgram]; rfl

theorem ready_root (h : SoleProgram root) :
    Ready { Progress.after {} [⟨⟨0, 0, root⟩, []⟩] with root := some 0, current := some 0 } [⟨0, 0, root⟩] 1 1 := by
  have ho := h.opensScope
  have hk : root.scopeKind = .program := by simp [Node.scopeKind, h.isProgram]
  have hs : (Progress.after {} [⟨⟨0, 0, root⟩, []⟩]).store.scopes =
      [{ kind := .program, place := Place.site ⟨⟨0, 0, root⟩, []⟩, parent := none }] := by
    simp only [Progress.after, List.flatMap_singleton, effects_root h]; rfl
  refine ⟨rfl, ?_, ⟨_, List.mem_singleton_self _, h.hostsVars⟩, fun t ht _ => ?_, by simp [ho], fun c hc => ?_⟩
  · show (Progress.after {} [_]).store.scopes.length = 1
    rw [hs]; rfl
  · rw [List.mem_singleton.1 ht]; exact Nat.zero_lt_one
  · cases hc
    show (Progress.after {} [_]).store.outline 0 = _
    rw [Store.outline, Store.chain_outermost (by rw [hs]; rfl) rfl]
    simp [ho, hk]

/-- Scopes are built without fault, and what is built is the run of all places. -/
theorem build_eq (h : SoleProgram root) :
    build root = .ok { Progress.after {} root.places with root := some 0, current := some 0 } := by
  have hinner : Place.inner ⟨⟨0, 0, root⟩, []⟩ = placesAll [⟨0, 0, root⟩] 1 1 root.children := by
    rw [Place.inner, h.rankBelow]
  have hsplit := Progress.after_append {} [⟨⟨0, 0, root⟩, []⟩] (placesAll [⟨0, 0, root⟩] 1 1 root.children)
  rw [List.singleton_append] at hsplit
  rw [build, Visitor.visit_eq_fold, Visitor.fold, Visitor.fold, Node.places_eq, hinner, hsplit]
  show Except.bind (builder.fold root.children (enter root {})) (leave root) = _
  rw [enter_root h, fold_builder (ready_root h) h.below]
  exact leave_plain (.inr h.isProgram) _

end Root

end LetOrConst.Scope
