/-
One more statement that declares nothing. No scope binds another name for it (`Inserted.scopeNames`), and
of the assigned names only its own are new (`Inserted.openNames_children`); so every declaration faces the
assignments it faced and perhaps some of the new statement (`forall₂_facing_inserted`). Verdicts move from
`const` to `let` only, and only where the new statement assigns a name of the declaration.
-/
import LetOrConst.Proofs.Advice.Positions
import LetOrConst.Proofs.Advice.Rearrange
import LetOrConst.Proofs.Advice.Refine
import LetOrConst.Proofs.Document.Reject
import LetOrConst.Proofs.Tree.Insert

namespace LetOrConst.Tree

/-- A statement that declares nothing: it is no name, no target and no scope itself, and has no
declaration, function, class, handler or program in it. -/
structure Node.DeclaresNothing (u : Node) : Prop where
  isOther : u.kind = .other
  nowhere : ∀ t ∈ u.preorder, t.kind ∉ [Kind.declaration, .function, .classDef, .catchClause, .program]

/-- The plain names that are assigned in a tree. -/
def Node.assigned (u : Node) : List String := u.preorder.filterMap Node.assignedName?

namespace Node.DeclaresNothing

variable {u t : Node}

theorem isVarDeclaration (h : u.DeclaresNothing) (ht : t ∈ u.preorder) : t.isVarDeclaration = false := by
  have hkind := h.nowhere t ht
  simp only [List.mem_cons, not_or] at hkind
  simp [Node.isVarDeclaration, hkind]

theorem aroundNames (h : u.DeclaresNothing) (ht : t ∈ u.preorder) : t.aroundNames = [] := by
  have hkind := h.nowhere t ht
  unfold Node.aroundNames
  split <;> simp_all

theorem hoistedNames (h : u.DeclaresNothing) (ht : t ∈ u.preorder) : t.hoistedNames = [] := by
  rw [Node.hoistedNames, h.isVarDeclaration ht]
  rfl

end Node.DeclaresNothing

/-- Nothing is gathered where no node gives anything. -/
theorem gather_eq_nil {α : Type} {stops : Node → Bool} {give : Node → List α} {ns : List Node}
    (h : ∀ t ∈ ns.flatMap Node.preorder, give t = []) : gather stops give ns = [] := by
  induction ns using Node.forest_induction with
  | nil => rw [gather]
  | cons n rest ihc ihr =>
    rw [List.flatMap_cons, Node.preorder_eq] at h
    simp only [List.cons_append, List.mem_cons, List.mem_append] at h
    rw [gather, h n (.inl rfl), ihc fun t ht => h t (.inr (.inl ht)), ihr fun t ht => h t (.inr (.inr ht))]
    split <;> rfl

/-- Names left open are assigned somewhere. -/
theorem mem_assigned_of_openNames {x : String} {ns : List Node} (h : x ∈ Scope.openNames ns) :
    x ∈ (ns.flatMap Node.preorder).filterMap Node.assignedName? := by
  induction ns using Node.forest_induction with
  | nil => rw [Scope.openNames] at h; cases h
  | cons n rest ihc ihr =>
    rw [Scope.openNames, List.mem_append, List.mem_append] at h
    rw [List.flatMap_cons, Node.preorder_eq, List.filterMap_append, List.mem_append]
    rcases h with h | h | h
    · exact .inl (List.mem_filterMap.2 ⟨n, List.mem_cons_self, Option.mem_toList.1 h⟩)
    · refine .inl (List.mem_filterMap.2 ?_)
      have hbelow : x ∈ Scope.openNames n.children := by
        split at h
        · exact (List.mem_filter.1 h).1
        · exact h
      obtain ⟨t, ht, hx⟩ := List.mem_filterMap.1 (ihc hbelow)
      exact ⟨t, List.mem_cons_of_mem n ht, hx⟩
    · exact .inr (ihr h)

namespace Inserted

variable {u n m : Node}

/-! ## Names given to scopes -/

theorem parameterNames (h : Inserted Node.isBody u n m) (hu : u.kind = .other) :
    Scope.parameterNames m = Scope.parameterNames n := by
  unfold Scope.parameterNames
  rw [h.namesUnder "parameter"]
  rcases h.child? "parameters" with hsame | ⟨c, d, hc, hd, hcd⟩
  · rw [hsame]
  · rw [hc, hd]
    simp only
    rw [hcd.flatMap_children (Node.bindingNames_eq_nil (by simp [hu])) fun _ _ htv => htv.bindingNames]

theorem alike (h : Inserted Node.isBody u n m) (hu : u.kind = .other) : n.Alike m where
  label := h.label
  named := by
    rcases h.child? "name" with hsame | ⟨c, d, hc, hd, hcd⟩
    · rw [hsame]
    · rw [hc, hd, Option.map_some, Option.map_some, hcd.label]
  bound := .of_eq (h.boundNames hu)
  caught := h.namesUnder "parameter"
  parameters := .of_eq (h.parameterNames hu)

theorem gather_children {stops : Node → Bool} {give : Node → List String} (h : Inserted Node.isBody u n m)
    (hu : ∀ t ∈ u.preorder, give t = []) (hstops : ∀ c d, Inserted Node.isBody u c d → stops d = stops c)
    (hgive : ∀ c d, Inserted Node.isBody u c d → (give d).Perm (give c)) :
    Extends [] (gather stops give n.children) (gather stops give m.children) := by
  rw [gather_eq_flatMap, gather_eq_flatMap stops give m.children]
  refine extends_children ?_ (fun c d hcd hbelow => ?_) h
  · intro x hx
    rwa [gather_eq_nil (by rwa [List.flatMap_singleton])] at hx
  · rw [← gather_eq_flatMap, ← gather_eq_flatMap] at hbelow
    rw [gather, gather, gather, gather, hstops c d hcd, List.append_nil, List.append_nil]
    have hown : Extends [] (give c) (give d) :=
      ⟨fun x hx => (hgive c d hcd).mem_iff.2 hx, fun x hx => .inl ((hgive c d hcd).mem_iff.1 hx)⟩
    refine hown.append ?_
    split
    · exact .refl _ _
    · exact hbelow

/-- A scope binds what it bound. -/
theorem scopeNames (h : Inserted Node.isBody u n m) (hu : u.DeclaresNothing) (x : String) :
    x ∈ Scope.scopeNames m ↔ x ∈ Scope.scopeNames n := by
  have halike : ∀ c d, Inserted Node.isBody u c d → c.Alike d := fun c d hcd => hcd.alike hu.isOther
  have haround := h.gather_children (fun _ => hu.aroundNames) (fun c d hcd => (halike c d hcd).opensScope)
    (fun c d hcd => (halike c d hcd).aroundNames)
  have hhoisted := h.gather_children (fun _ => hu.hoistedNames) (fun c d hcd => (halike c d hcd).hostsVars)
    (fun c d hcd => (halike c d hcd).hoistedNames)
  unfold Scope.scopeNames
  rw [(halike n m h).hostsVars]
  simp only [List.mem_append, (halike n m h).ownNames.mem_iff, haround.mem_iff]
  split
  · rw [hhoisted.mem_iff]
  · rfl

/-- Only names that the new statement assigns are left open anew. -/
theorem openNames_children (h : Inserted Node.isBody u n m) (hu : u.DeclaresNothing) :
    Extends u.assigned (Scope.openNames n.children) (Scope.openNames m.children) := by
  rw [openNames_eq_flatMap, openNames_eq_flatMap m.children]
  refine extends_children ?_ (fun c d hcd hbelow => ?_) h
  · intro x hx
    have hassigned := mem_assigned_of_openNames hx
    rwa [List.flatMap_singleton] at hassigned
  · rw [← openNames_eq_flatMap, ← openNames_eq_flatMap] at hbelow
    rw [Scope.openNames, Scope.openNames, Scope.openNames, Scope.openNames, List.append_nil, List.append_nil,
      hcd.assignedName?, (hcd.alike hu.isOther).opensScope]
    refine (Extends.refl _ _).append ?_
    split
    · simp only [hcd.scopeNames hu]
      exact hbelow.filter _
    · exact hbelow

theorem assignedNames (h : Inserted Node.isBody u n m) :
    Extends u.assigned (Advice.assignedNames n) (Advice.assignedNames m) := by
  unfold Advice.assignedNames
  rw [List.filterMap_flatMap, List.filterMap_flatMap]
  refine extends_children ?_ (fun c d hcd hbelow => ?_) h
  · intro x hx
    rwa [Node.walk_eq] at hx
  · simp only [Node.walk_eq] at hbelow ⊢
    rw [← List.filterMap_flatMap, ← List.filterMap_flatMap] at hbelow
    have hsplit : ∀ t : Node, t.preorder.filterMap Node.assignedName? =
        t.assignedName?.toList ++ (t.children.flatMap Node.preorder).filterMap Node.assignedName? := by
      intro t
      rw [Node.preorder_eq, List.filterMap_cons]
      cases t.assignedName? <;> rfl
    rw [hsplit, hsplit, hcd.assignedName?]
    exact (Extends.refl _ _).append hbelow

theorem soleProgram (h : Inserted Node.isBody u n m) (hu : u.DeclaresNothing) (hn : Scope.SoleProgram n) :
    Scope.SoleProgram m := by
  have hkinds : Extends (u.preorder.map Node.kind) (n.descendants.map Node.kind) (m.descendants.map Node.kind) := by
    unfold Node.descendants
    rw [List.map_flatMap, List.map_flatMap]
    refine extends_children (fun _ hk => hk) (fun c d hcd hbelow => ?_) h
    rw [← List.map_flatMap, ← List.map_flatMap] at hbelow
    rw [Node.preorder_eq c, Node.preorder_eq d, List.map_cons, List.map_cons, hcd.kind]
    exact (Extends.refl _ [c.kind]).append hbelow
  refine ⟨h.kind.trans hn.isProgram, fun t ht hkind => ?_⟩
  rcases hkinds.adds _ (List.mem_map_of_mem ht) with hold | hnew
  · obtain ⟨v, hv, hvk⟩ := List.mem_map.1 hold
    exact hn.below v hv (hvk.trans hkind)
  · obtain ⟨v, hv, hvk⟩ := List.mem_map.1 hnew
    have hnone := hu.nowhere v hv
    simp [hvk, hkind] at hnone

end Inserted
end LetOrConst.Tree

namespace LetOrConst.Advice

open LetOrConst.Tree LetOrConst.Tree.Sample LetOrConst.Scope

/-! ## What declarations face -/

section Facing

variable {γ : Type}

/-- The `var` declarations of some trees in document order, each with what is passed down to it. -/
def facing (down : γ → Node → γ) : γ → List Node → List (Node × γ)
  | _, [] => []
  | c, n :: rest =>
    (if n.isVarDeclaration then [(n, c)] else []) ++ (facing down (down c n) n.children ++ facing down c rest)
termination_by _ ns => sizeOf ns
decreasing_by
  · exact Node.sizeOf_children_lt_cons n rest
  · exact Branching.sizeOf_rest_lt_cons n rest

variable {down : γ → Node → γ}

theorem facing_append (c : γ) (ms ns : List Node) :
    facing down c (ms ++ ns) = facing down c ms ++ facing down c ns := by
  induction ms with
  | nil => rw [facing]; rfl
  | cons m ms ih => rw [List.cons_append, facing, facing, ih, List.append_assoc, List.append_assoc]

theorem facing_cons (c : γ) (n : Node) (rest : List Node) :
    facing down c (n :: rest) = facing down c [n] ++ facing down c rest := facing_append c [n] rest

variable (down)

theorem map_fst_facing (c : γ) (ns : List Node) :
    (facing down c ns).map (·.1) = (ns.flatMap Node.preorder).filter Node.isVarDeclaration := by
  induction ns using Node.forest_induction generalizing c with
  | nil => rw [facing]; rfl
  | cons n rest ihc ihr =>
    rw [facing, List.map_append, List.map_append, ihc, ihr, List.flatMap_cons, Node.preorder_eq, List.cons_append,
      List.filter_cons, List.filter_append]
    split <;> rfl

theorem select_inherit {α : Type} (give : γ → Node → α) (c : γ) (ns : List Node) :
    select (ns.flatMap Node.preorder) (inherit give down c ns) = (facing down c ns).map fun d => give d.2 d.1 := by
  induction ns using Node.forest_induction generalizing c with
  | nil => rw [facing, inherit]; rfl
  | cons n rest ihc ihr =>
    rw [inherit, List.flatMap_cons, Node.preorder_eq, List.cons_append, select_cons,
      select_append (length_inherit _ _).symm, ihc, ihr, facing, List.map_append, List.map_append]
    split <;> rfl

end Facing

/-- A declaration after one more statement `u` reads as before and faces no more than `u` assigns. -/
structure Faces (mode : Resolution) (u : Node) (d e : Node × List String) : Prop where
  label : e.1.label = d.1.label
  names : judgedNames mode e.1 = judgedNames mode d.1
  grows : Extends u.assigned d.2 e.2

variable {mode : Resolution} {u n m : Node} {reached others : List String}

theorem extends_passedDown (hhosts : m.hostsVars = n.hostsVars)
    (hopen : Extends u.assigned (openNames n.children) (openNames m.children))
    (hgrows : Extends u.assigned reached others) :
    Extends u.assigned (passedDown mode reached n) (passedDown mode others m) := by
  cases mode with
  | byName => exact hgrows
  | byScope =>
    show Extends _ (reachedBelow reached n) (reachedBelow others m)
    unfold reachedBelow
    rw [hhosts]
    split
    · exact hopen
    · exact hgrows

theorem forall₂_facing_node (hlabel : m.label = n.label) (hnames : judgedNames mode m = judgedNames mode n)
    (hgrows : Extends u.assigned reached others)
    (hbelow : List.Forall₂ (Faces mode u) (facing (passedDown mode) (passedDown mode reached n) n.children)
      (facing (passedDown mode) (passedDown mode others m) m.children)) :
    List.Forall₂ (Faces mode u) (facing (passedDown mode) reached [n]) (facing (passedDown mode) others [m]) := by
  have hvar : m.isVarDeclaration = n.isVarDeclaration := by
    unfold Node.isVarDeclaration Node.kind
    rw [hlabel]
  rw [facing, facing, facing, facing, List.append_nil, List.append_nil, hvar]
  split
  · exact .cons ⟨hlabel, hnames, hgrows⟩ hbelow
  · exact hbelow

/-- Trees that stay face what is passed down. -/
theorem forall₂_facing_same (hgrows : Extends u.assigned reached others) (ns : List Node) :
    List.Forall₂ (Faces mode u) (facing (passedDown mode) reached ns) (facing (passedDown mode) others ns) := by
  induction ns using Node.forest_induction generalizing reached others with
  | nil => rw [facing, facing]; exact .nil
  | cons n rest ihc ihr =>
    have hdown : Extends u.assigned (passedDown mode reached n) (passedDown mode others n) :=
      extends_passedDown rfl (.refl _ _) hgrows
    rw [facing_cons, facing_cons others]
    exact List.rel_append (forall₂_facing_node rfl rfl hgrows (ihc hdown)) (ihr hgrows)

theorem facing_eq_nil (hu : u.DeclaresNothing) : facing (passedDown mode) reached [u] = [] := by
  have hnone : (facing (passedDown mode) reached [u]).map (·.1) = [] := by
    rw [map_fst_facing, List.flatMap_singleton, List.filter_eq_nil_iff]
    intro t ht
    rw [hu.isVarDeclaration ht]
    exact Bool.false_ne_true
  exact List.map_eq_nil_iff.1 hnone

theorem forall₂_facing_inserted (hu : u.DeclaresNothing) (h : Inserted Node.isBody u n m)
    (hgrows : Extends u.assigned reached others) :
    List.Forall₂ (Faces mode u) (facing (passedDown mode) reached [n]) (facing (passedDown mode) others [m]) := by
  have hnames : ∀ {c d}, Inserted Node.isBody u c d → judgedNames mode d = judgedNames mode c := by
    intro c d hcd
    cases mode with
    | byName => exact hcd.declaredNames hu.isOther
    | byScope => exact hcd.boundNames hu.isOther
  have hdown : ∀ {c d} {xs ys : List String}, Inserted Node.isBody u c d → Extends u.assigned xs ys →
      Extends u.assigned (passedDown mode xs c) (passedDown mode ys d) := by
    intro c d xs ys hcd hxs
    exact extends_passedDown (hcd.alike hu.isOther).hostsVars (hcd.openNames_children hu) hxs
  induction h generalizing reached others with
  | here n before after takes split =>
    have hthis := Inserted.here (u := u) n before after takes split
    refine forall₂_facing_node hthis.label (hnames hthis) hgrows ?_
    have hbelow := hdown hthis hgrows
    rw [split, facing_append, facing_append, facing_cons _ u, facing_eq_nil hu]
    exact List.rel_append (forall₂_facing_same hbelow before) (forall₂_facing_same hbelow after)
  | inside n c d before after split deeper ih =>
    have hthis := Inserted.inside n c d before after split deeper
    refine forall₂_facing_node hthis.label (hnames hthis) hgrows ?_
    have hbelow := hdown hthis hgrows
    rw [split, facing_append, facing_append, facing_cons _ c, facing_cons _ d]
    exact List.rel_append (forall₂_facing_same hbelow before)
      (List.rel_append (ih hbelow) (forall₂_facing_same hbelow after))

/-! ## Verdicts -/

/-- A declaration with its issue before and after a change. -/
structure Rejudged where
  declaration : Node
  before : Issue
  after : Issue

/-- The issue stays as it is, or moves from `const` to `let` for an assignment in `u` to a name that
the declaration binds. -/
structure Rejudged.OnlyLoosens (r : Rejudged) (u : Node) : Prop where
  line : r.before.line = r.declaration.line ∧ r.after.line = r.declaration.line
  column : r.before.column = r.declaration.column ∧ r.after.column = r.declaration.column
  verdict : r.after = r.before ∨ r.before.kind = "prefer_const" ∧ r.after.kind = "prefer_let" ∧
    ∃ x ∈ r.declaration.boundNames, ∃ a ∈ u.preorder, Assigns a x

theorem mem_boundNames_of_declared {d : Node} {x : String} (h : x ∈ d.declaredNames) : x ∈ d.boundNames := by
  obtain ⟨c, hc, hx⟩ := List.mem_filterMap.1 h
  refine List.mem_flatMap.2 ⟨c, hc, ?_⟩
  unfold Node.namesUnder
  cases hname : c.child? "name" with
  | none => simp [hname] at hx
  | some target =>
    rw [hname] at hx
    simp only [Option.ite_none_right_eq_some] at hx
    obtain ⟨hkind, hx⟩ := hx
    show x ∈ target.bindingNames
    rw [Node.bindingNames_eq, if_pos hkind]
    exact Option.mem_toList.2 hx

theorem mem_boundNames_of_judged {d : Node} {x : String} (h : x ∈ judgedNames mode d) : x ∈ d.boundNames := by
  cases mode with
  | byName => exact mem_boundNames_of_declared h
  | byScope => exact h

theorem onlyLoosens_of_faces {d e : Node × List String} (h : Faces mode u d e) :
    (⟨d.1, issueOf (judgedNames mode) d.2 d.1, issueOf (judgedNames mode) e.2 e.1⟩ : Rejudged).OnlyLoosens u := by
  have hplace : ∀ v : Verdict, v.issue e.1 = v.issue d.1 := by
    intro v
    unfold Verdict.issue Node.line Node.column
    rw [h.label]
  unfold issueOf
  rw [h.names, hplace]
  refine ⟨⟨rfl, rfl⟩, ⟨rfl, rfl⟩, ?_⟩
  simp only
  cases hold : (judgedNames mode d.1).any d.2.contains with
  | true =>
    -- what was assigned is assigned still
    have hnew : (judgedNames mode d.1).any e.2.contains = true := by
      rw [List.any_eq_true] at hold ⊢
      obtain ⟨x, hx, hd⟩ := hold
      exact ⟨x, hx, List.contains_iff_mem.2 (h.grows.keeps x (List.contains_iff_mem.1 hd))⟩
    rw [hnew]
    exact .inl rfl
  | false =>
    cases hnew : (judgedNames mode d.1).any e.2.contains with
    | false => exact .inl rfl
    | true =>
      obtain ⟨x, hx, he⟩ := List.any_eq_true.1 hnew
      refine .inr ⟨rfl, rfl, x, mem_boundNames_of_judged hx, ?_⟩
      rcases h.grows.adds x (List.contains_iff_mem.1 he) with hd | hadded
      · rw [List.any_eq_false] at hold
        exact absurd (List.contains_iff_mem.2 hd) (hold x hx)
      · obtain ⟨a, ha, hax⟩ := List.mem_filterMap.1 hadded
        exact ⟨a, ha, assigns_iff.2 hax⟩

theorem issues_eq_facing {root : Node} (h : SoleProgram root) (mode : Resolution) :
    issues mode root = .ok ((facing (passedDown mode) (passedFirst mode root) [root]).map
      fun d => issueOf (judgedNames mode) d.2 d.1) := by
  have hselect := select_inherit (passedDown mode) (issueOf (judgedNames mode)) (passedFirst mode root) [root]
  rw [List.flatMap_singleton] at hselect
  rw [issues_eq_select h, issuesOfAll, hselect]

theorem rejudged_inserted {tree grown : Node} (htree : SoleProgram tree) (hu : u.DeclaresNothing)
    (h : Inserted Node.isBody u tree grown) (mode : Resolution) :
    ∃ judged : List Rejudged, judged.map (·.declaration) = tree.preorder.filter Node.isVarDeclaration ∧
      issues mode tree = .ok (judged.map (·.before)) ∧ issues mode grown = .ok (judged.map (·.after)) ∧
      ∀ r ∈ judged, r.OnlyLoosens u := by
  have hfirst : Extends u.assigned (passedFirst mode tree) (passedFirst mode grown) := by
    cases mode with
    | byName => exact h.assignedNames
    | byScope => exact .refl _ _
  have hfaces : List.Forall₂ (Faces mode u) (facing (passedDown mode) (passedFirst mode tree) [tree])
      (facing (passedDown mode) (passedFirst mode grown) [grown]) := forall₂_facing_inserted hu h hfirst
  obtain ⟨hlen, hmem⟩ := List.forall₂_iff_zip.1 hfaces
  have hdecls := map_fst_facing (passedDown mode) (passedFirst mode tree) [tree]
  rw [List.flatMap_singleton] at hdecls
  rw [issues_eq_facing htree, issues_eq_facing (h.soleProgram hu htree), ← hdecls]
  generalize facing (passedDown mode) (passedFirst mode tree) [tree] = olds at hlen hmem ⊢
  generalize facing (passedDown mode) (passedFirst mode grown) [grown] = news at hlen hmem ⊢
  have hpairs : ∃ pairs : List (_ × _), pairs.map Prod.fst = olds ∧ pairs.map Prod.snd = news ∧
      ∀ p ∈ pairs, Faces mode u p.1 p.2 :=
    ⟨olds.zip news, List.map_fst_zip (Nat.le_of_eq hlen), List.map_snd_zip (Nat.le_of_eq hlen.symm),
      fun p hp => hmem hp⟩
  obtain ⟨pairs, rfl, rfl, hpairs⟩ := hpairs
  refine ⟨pairs.map fun p =>
    ⟨p.1.1, issueOf (judgedNames mode) p.1.2 p.1.1, issueOf (judgedNames mode) p.2.2 p.2.1⟩, ?_, ?_, ?_, ?_⟩
  · rw [List.map_map, List.map_map]
    rfl
  · rw [List.map_map, List.map_map]
    rfl
  · rw [List.map_map, List.map_map]
    rfl
  · intro r hr
    obtain ⟨p, hp, rfl⟩ := List.mem_map.1 hr
    exact onlyLoosens_of_faces (hpairs p hp)

/-- A statement that declares nothing, put anywhere among the children of a program or block of a parsed
tree, leaves every declaration with its issue, or moves it from `const` to `let` for an assignment in it;
where it assigns no plain name, all issues stay. -/
theorem issues_inserted {grammar : Document.Grammar} {source : String} {identity : Option String} {tree grown : Node}
    (hparse : Document.parse grammar (some source) identity = .ok tree) (htype : (grammar source).type = "program")
    (hsole : ∀ m ∈ (grammar source).walk.tail, m.type ≠ "program") (hu : u.DeclaresNothing)
    (h : Inserted Node.holdsStatements u tree grown) (mode : Resolution) :
    (∃ judged : List Rejudged, judged.map (·.declaration) = tree.preorder.filter Node.isVarDeclaration ∧
      issues mode tree = .ok (judged.map (·.before)) ∧ issues mode grown = .ok (judged.map (·.after)) ∧
      ∀ r ∈ judged, r.OnlyLoosens u) ∧
    ((∀ a ∈ u.preorder, ∀ x, ¬ Assigns a x) → issues mode grown = issues mode tree) := by
  obtain rfl := Document.eq_ofGrammar_of_parse hparse
  have hbody := h.mono fun t ht => isBody_of_holdsStatements ht
  obtain ⟨judged, hdecls, hold, hnew, hloosens⟩ := rejudged_inserted (soleProgram_ofGrammar _ htype hsole) hu hbody mode
  refine ⟨⟨judged, hdecls, hold, hnew, hloosens⟩, fun hnone => ?_⟩
  have hsame : ∀ r ∈ judged, r.after = r.before := by
    intro r hr
    rcases (hloosens r hr).verdict with hsame | ⟨-, -, x, -, a, ha, hassigns⟩
    · exact hsame
    · exact absurd hassigns (hnone a ha x)
  rw [hold, hnew, List.map_congr_left hsame]

/-- A declaration before an empty block. -/
def spareText : String := "var x; {}"

/-- Its grammar tree. -/
def spareTree : Grammar.Node where
  type := "program"
  span := ⟨0, 9⟩
  children := [
    { type := "variable_declaration", span := ⟨0, 6⟩, children := [
      { type := "var", span := ⟨0, 3⟩, named := false },
      { type := "variable_declarator", point := ⟨0, 4⟩, span := ⟨4, 5⟩, children := [
        { type := "identifier", point := ⟨0, 4⟩, span := ⟨4, 5⟩, field := some "name" }] },
      { type := ";", point := ⟨0, 5⟩, span := ⟨5, 6⟩, named := false }] },
    { type := "statement_block", point := ⟨0, 7⟩, span := ⟨7, 9⟩, children := [
      { type := "\x7b", point := ⟨0, 7⟩, span := ⟨7, 8⟩, named := false },
      { type := "\x7d", point := ⟨0, 8⟩, span := ⟨8, 9⟩, named := false }] }]

/-- An assignment as a statement. -/
def assigningStatement (x : String) : Node where
  label := { kind := .other, type := "expression_statement" }
  children := [assigning x]

/-- The tree of the text with these statements in the block. -/
def spareNode (inner : List Node) : Node where
  label := { kind := .program, type := "program" }
  children := [
    { label := { kind := .declaration, type := "variable_declaration", keyword := some .kwVar }
      children := [
        { label := { kind := .declarator, type := "variable_declarator", column := 5 }
          children := [{ label := { kind := .identifier, type := "identifier", column := 5, name := some "x" } }]
          fields := [("name", .child 0)] }] },
    { label := { kind := .block, type := "statement_block", column := 8 }
      children := inner }]

theorem issues_inserted_spare :
    Document.parse (fun _ => spareTree) (some spareText) none = .ok (spareNode []) ∧
      (assigningStatement "x").DeclaresNothing ∧
      Inserted Node.holdsStatements (assigningStatement "x") (spareNode []) (spareNode [assigningStatement "x"]) ∧
      issues .byScope (spareNode []) = .ok [⟨"prefer_const", 1, 1, "Consider using 'const' instead of 'var' here."⟩] ∧
      issues .byScope (spareNode [assigningStatement "x"]) =
        .ok [⟨"prefer_let", 1, 1, "Consider using 'let' instead of 'var' here due to reassignment."⟩] ∧
      ∀ mode, ∃ judged : List Rejudged,
        judged.map (·.declaration) = (spareNode []).preorder.filter Node.isVarDeclaration ∧
        issues mode (spareNode []) = .ok (judged.map (·.before)) ∧
        issues mode (spareNode [assigningStatement "x"]) = .ok (judged.map (·.after)) ∧
        ∀ r ∈ judged, r.OnlyLoosens (assigningStatement "x") := by
  have hparse : Document.parse (fun _ => spareTree) (some spareText) none = .ok (spareNode []) := by
    have htree : ofGrammar (Text.Utf8.encode spareText.toList) spareTree = spareNode [] := by with_unfolding_all rfl
    rw [← htree]
    exact parse_clean (by decide) (by decide +kernel) none
  have hu : (assigningStatement "x").DeclaresNothing := ⟨rfl, by decide +kernel⟩
  have hinserted : Inserted Node.holdsStatements (assigningStatement "x") (spareNode [])
      (spareNode [assigningStatement "x"]) :=
    .inside (spareNode []) _ _ [_] [] rfl (.here _ [] [] rfl rfl)
  exact ⟨hparse, hu, hinserted, by decide +kernel, by decide +kernel,
    fun mode => (issues_inserted hparse rfl (by decide +kernel) hu hinserted mode).1⟩

end LetOrConst.Advice
