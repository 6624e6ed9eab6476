/-
Parentheses around the targets of assignments do not matter. However many of them are put around the left sides of
whichever assignments, what was found in a tree is found again (`Undisturbed`): its nodes keep their order and come
under new numbers, with nothing between them but parentheses; assignments assign the same names; the scopes hold the
same bindings and declarations, and the same assignments are recorded in them, up to the numbers; and all issues stay,
whichever way they are judged.
-/
import LetOrConst.Proofs.Advice.ByScope
import LetOrConst.Proofs.Scope.Spread
import Mathlib.Logic.Relation

namespace LetOrConst.Advice

open LetOrConst.Tree LetOrConst.Tree.Sample LetOrConst.Scope

/-- What is found in a tree is found in another, with its nodes numbered anew. -/
structure Undisturbed (ρ : Nat → Nat) (tree wrapped : Node) : Prop where
  /-- The nodes come in the order they came in. -/
  order : StrictMono ρ
  /-- Every node is there under its new number and assigns what it assigned. -/
  kept : ∀ i n, tree.preorder[i]? = some n →
    ∃ m, wrapped.preorder[ρ i]? = some m ∧ m.label = n.label ∧ m.assignedName? = n.assignedName?
  /-- Under all other numbers there are parentheses. -/
  added : ∀ j m, wrapped.preorder[j]? = some m →
    (∃ i < tree.size, ρ i = j) ∨ m.kind = .other ∧ m.type = "parenthesized_expression"
  /-- The same assignments are recorded, in scopes that hold the same. -/
  scopes : ∃ p q, build tree = .ok p ∧ build wrapped = .ok q ∧
    q.assignments = p.assignments.map (Assignment.renumber ρ) ∧ q.store = p.store.rename (Site.renumber ρ)
  /-- All issues are the same, in both ways of judging. -/
  issues : ∀ mode, ∃ found, Advice.issues mode tree = .ok found ∧ Advice.issues mode wrapped = .ok found

variable {ρ : Nat → Nat} {tree wrapped : Node}

/-! ## One step -/

theorem getElem?_preorder {root n : Node} {i : Nat} :
    root.preorder[i]? = some n ↔ ∃ p ∈ root.places, p.node = n ∧ p.number = i := by
  have hzip := placesAll_zipIdx [] 0 0 [root]
  rw [List.flatMap_singleton] at hzip
  rw [← List.mk_mem_zipIdx_iff_getElem?, ← hzip, List.mem_map]
  simp only [Prod.mk.injEq]
  rfl

theorem reachedSites_eq (h : Spread ρ tree.places wrapped.places) :
    reachedSites wrapped = (reachedSites tree).map (Site.renumber ρ) := by
  have hby : ∀ asg : Assignment, reachedBy wrapped (asg.renumber ρ) = (reachedBy tree asg).map (Site.renumber ρ) := by
    intro asg
    unfold reachedBy
    rw [h.built_eq]
    show (((built tree).rename _).resolve (asg.scope.getD 0) (some asg.name)).elim [] _ = _
    rw [Store.resolve_rename]
    cases (built tree).resolve (asg.scope.getD 0) (some asg.name) <;> rfl
  unfold reachedSites
  rw [h.assignments_eq, List.flatMap_map, List.map_flatMap]
  simp only [hby]

theorem isReached_eq (h : Spread ρ tree.places wrapped.places) (horder : StrictMono ρ) {p q : Place}
    (hpq : Kept ρ p q) : isReached wrapped q = isReached tree p := by
  have hindex : (reachedSites wrapped).map (·.index) = ((reachedSites tree).map (·.index)).map ρ := by
    rw [reachedSites_eq h, List.map_map, List.map_map]
    rfl
  unfold isReached
  rw [Bool.eq_iff_iff, List.contains_iff_mem, List.contains_iff_mem, hindex, hpq.number,
    List.mem_map_of_injective horder.injective]

theorem map_varDeclarations_eq {α : Type} {f g : Place → α} (h : Spread ρ tree.places wrapped.places)
    (hkept : ∀ p q, Kept ρ p q → p.node.isVarDeclaration = true → g q = f p) :
    (wrapped.places.filter (·.node.isVarDeclaration)).map g = (tree.places.filter (·.node.isVarDeclaration)).map f := by
  have hflat : ∀ (f : Place → α) (ps : List Place), (ps.filter (·.node.isVarDeclaration)).map f =
      ps.flatMap fun p => if p.node.isVarDeclaration then [f p] else [] := by
    intro f ps
    induction ps with
    | nil => rfl
    | cons p ps ih =>
      rw [List.filter_cons, List.flatMap_cons, ← ih]
      split <;> rfl
  rw [hflat, hflat]
  refine h.flatMap_eq (fun p q hpq => ?_) fun q hq => ?_
  · rw [hpq.isVarDeclaration]
    split
    · rename_i hvar
      rw [hkept p q hpq hvar]
    · rfl
  · simp [Node.isVarDeclaration, hq]

theorem assignedNames_eq (h : Spread ρ tree.places wrapped.places) (htree : tree.kind = .program)
    (hwrapped : wrapped.kind = .program) :
    assignedNames wrapped = assignedNames tree := by
  have hplaces : ∀ root : Node, root.kind = .program →
      assignedNames root = root.places.flatMap fun p => p.node.assignedName?.toList := by
    intro root hroot
    have hnodes : root.places.map (·.node) = root :: root.children.flatMap Node.walk := by
      rw [Node.places, placesAll_nodes, List.flatMap_singleton, Node.preorder_eq, funext Node.walk_eq]
    have hall : root.places.flatMap (fun p => p.node.assignedName?.toList) =
        (root.places.map (·.node)).filterMap Node.assignedName? := by
      rw [List.filterMap_eq_flatMap_toList, List.flatMap_map]
    rw [hall, hnodes, List.filterMap_cons_none (assignedName?_eq_none (by rw [hroot]; decide))]
    rfl
  rw [hplaces tree htree, hplaces wrapped hwrapped]
  refine h.flatMap_eq (fun p q hpq => by rw [hpq.assigned]) fun q hq => ?_
  rw [assignedName?_eq_none (by rw [hq]; decide)]
  rfl

theorem issues_eq (h : Spread ρ tree.places wrapped.places) (horder : StrictMono ρ) (htree : SoleProgram tree)
    (hwrapped : SoleProgram wrapped) (mode : Resolution) : issues mode wrapped = issues mode tree := by
  have hissue : ∀ (v : Verdict) {p q : Place}, Kept ρ p q → v.issue q.node = v.issue p.node := by
    intro v p q hpq
    simp only [Verdict.issue, Node.line, Node.column, hpq.label]
  cases mode with
  | byName =>
    show Except.ok (issuesByName wrapped) = Except.ok (issuesByName tree)
    unfold issuesByName
    rw [assignedNames_eq h htree.isProgram hwrapped.isProgram, varDeclarations_eq, varDeclarations_eq, List.map_map,
      List.map_map]
    refine congrArg _ (map_varDeclarations_eq h fun p q hpq hvar => ?_)
    have hassignment : p.node.kind ≠ .assignment := by
      intro hkind
      simp [Node.isVarDeclaration, hkind] at hvar
    show Verdict.issue _ q.node = Verdict.issue _ p.node
    rw [(hpq.names hassignment).declared, hissue _ hpq]
  | byScope =>
    rw [issues_byScope_eq htree, issues_byScope_eq hwrapped]
    refine congrArg _ (map_varDeclarations_eq h fun p q hpq _ => ?_)
    rw [isReached_eq h horder hpq, hissue _ hpq]

/-- A tree with one program in it, its root, in which functions list their parameters. -/
structure OrdinaryProgram (tree : Node) : Prop where
  sole : SoleProgram tree
  lists : ∀ n ∈ tree.preorder, n.ListsParameters

theorem OrdinaryProgram.parenthesized (htree : OrdinaryProgram tree) (h : Parenthesized tree wrapped) :
    OrdinaryProgram wrapped := by
  refine ⟨⟨h.kind.trans htree.sole.isProgram, ?_⟩, ?_⟩
  · refine h.forall_descendants (fun c d hcd hc => hcd.kind ▸ hc) (fun w hw => ?_) htree.sole.below
    rw [hw]
    decide
  · have hlists := htree.lists
    rw [Node.preorder_eq, List.forall_mem_cons] at hlists ⊢
    refine ⟨h.listsParameters hlists.1, ?_⟩
    refine h.forall_descendants (fun _ _ hcd => hcd.listsParameters) (fun w hw hfunction => ?_) hlists.2
    cases hw.symm.trans hfunction

theorem undisturbed_of_spread (htree : SoleProgram tree) (hwrapped : SoleProgram wrapped) (horder : StrictMono ρ)
    (h : Spread ρ tree.places wrapped.places) : Undisturbed ρ tree wrapped where
  order := horder
  kept := by
    intro i n hn
    obtain ⟨p, hp, rfl, rfl⟩ := getElem?_preorder.1 hn
    obtain ⟨q, hq, hpq⟩ := h.exists_kept hp
    exact ⟨q.node, getElem?_preorder.2 ⟨q, hq, rfl, hpq.number⟩, hpq.label, hpq.assigned⟩
  added := by
    intro j m hm
    obtain ⟨q, hq, rfl, rfl⟩ := getElem?_preorder.1 hm
    refine (h.kept_or_added hq).imp_left ?_
    rintro ⟨p, hp, hpq⟩
    have hlt := (List.getElem?_eq_some_iff.1 (getElem?_preorder.2 ⟨p, hp, rfl, rfl⟩)).1
    exact ⟨p.number, hlt, hpq.number.symm⟩
  scopes := ⟨_, _, build_eq htree, build_eq hwrapped, h.assignments_eq, h.built_eq⟩
  issues mode :=
    ⟨_, issues_eq_select htree mode, (issues_eq h horder htree hwrapped mode).trans (issues_eq_select htree mode)⟩

theorem exists_undisturbed (htree : OrdinaryProgram tree) (h : Parenthesized tree wrapped) :
    ∃ ρ, Undisturbed ρ tree wrapped := by
  obtain ⟨position, -, -, hspread⟩ := spread_parenthesized h htree.lists (.refl [])
  have hwrapped := htree.parenthesized h
  exact ⟨past position, undisturbed_of_spread htree.sole hwrapped.sole (past_strictMono position) hspread⟩

/-! ## Any number of steps -/

namespace Undisturbed

theorem refl (htree : SoleProgram tree) : Undisturbed id tree tree where
  order := strictMono_id
  kept _ n hn := ⟨n, hn, rfl, rfl⟩
  added j _ hm := .inl ⟨j, (List.getElem?_eq_some_iff.1 hm).1, rfl⟩
  scopes := ⟨_, _, build_eq htree, build_eq htree, (List.map_id _).symm, (Store.rename_id _).symm⟩
  issues mode := ⟨_, issues_eq_select htree mode, issues_eq_select htree mode⟩

theorem trans {σ : Nat → Nat} {middle : Node} (h : Undisturbed ρ tree middle) (h' : Undisturbed σ middle wrapped) :
    Undisturbed (σ ∘ ρ) tree wrapped where
  order := h'.order.comp h.order
  kept := by
    intro i n hn
    obtain ⟨m, hm, hlabel, hassigned⟩ := h.kept i n hn
    obtain ⟨t, ht, hlabel', hassigned'⟩ := h'.kept (ρ i) m hm
    exact ⟨t, ht, hlabel'.trans hlabel, hassigned'.trans hassigned⟩
  added := by
    intro j t ht
    rcases h'.added j t ht with ⟨k, hk, rfl⟩ | hnew
    · -- the node was in the middle, where it may have been new
      have hm := List.getElem?_eq_getElem hk
      rcases h.added k _ hm with ⟨i, hi, rfl⟩ | ⟨hkind, htype⟩
      · exact .inl ⟨i, hi, rfl⟩
      · obtain ⟨m, hm', hlabel, -⟩ := h'.kept k _ hm
        cases hm'.symm.trans ht
        exact .inr ⟨(congrArg Label.kind hlabel).trans hkind, (congrArg Label.type hlabel).trans htype⟩
    · exact .inr hnew
  scopes := by
    obtain ⟨p, q, hp, hq, hassignments, hstore⟩ := h.scopes
    obtain ⟨q', r, hq', hr, hassignments', hstore'⟩ := h'.scopes
    cases hq.symm.trans hq'
    refine ⟨p, r, hp, hr, ?_, ?_⟩
    · rw [hassignments', hassignments, List.map_map]
      rfl
    · rw [hstore', hstore, Store.rename_rename]
      rfl
  issues := by
    intro mode
    obtain ⟨found, hfound, hmiddle⟩ := h.issues mode
    obtain ⟨_, hmiddle', hlast⟩ := h'.issues mode
    cases hmiddle.symm.trans hmiddle'
    exact ⟨found, hfound, hlast⟩

end Undisturbed

/-- However many parentheses are put around the left sides of assignments, wherever they stand in a tree: its nodes,
what they assign, its scopes and the assignments recorded in them stay as they are but for the numbers of the nodes, and
its issues stay as they are. -/
theorem undisturbed_parenthesized (hsole : SoleProgram tree) (hlists : ∀ n ∈ tree.preorder, n.ListsParameters)
    (h : Relation.ReflTransGen Parenthesized tree wrapped) : ∃ ρ, Undisturbed ρ tree wrapped := by
  suffices hrun : OrdinaryProgram wrapped ∧ ∃ ρ, Undisturbed ρ tree wrapped from hrun.2
  induction h with
  | refl => exact ⟨⟨hsole, hlists⟩, id, .refl hsole⟩
  | tail _ hstep ih =>
    obtain ⟨hmiddle, ρ, hρ⟩ := ih
    obtain ⟨σ, hσ⟩ := exists_undisturbed hmiddle hstep
    exact ⟨hmiddle.parenthesized hstep, σ ∘ ρ, hρ.trans hσ⟩

/-- A node in parentheses. -/
def parens (c : Node) : Node where
  label := { kind := .other, type := "parenthesized_expression" }
  children := [c]

/-- An assignment to a target. -/
def targeting (target : Node) : Node := { assigning "x" with children := [target] }

/-- A declaration, an assignment in a function and one after it. -/
def targetedTwice (inner outer : Node) : Node :=
  program [declaring .kwVar "x", declaredFunction "f" [targeting inner], targeting outer]

/-- Both assignments as they are. -/
def bareTargets : Node := targetedTwice (identifier "x") (identifier "x")

/-- Two pairs of parentheses in the function and one after it. -/
def wrappedTargets : Node := targetedTwice (parens (parens (identifier "x"))) (parens (identifier "x"))

theorem parenthesized_targeting (target : Node) : Parenthesized (targeting target) (targeting (parens target)) :=
  .here _ _ target (parens target) [] [] rfl rfl rfl ⟨rfl, rfl, rfl⟩ rfl rfl rfl

theorem parenthesized_wrappedTargets : Relation.ReflTransGen Parenthesized bareTargets wrappedTargets := by
  have hinner : ∀ inner outer, Parenthesized (targetedTwice inner outer) (targetedTwice (parens inner) outer) :=
    fun inner outer => .inside (targetedTwice inner outer) _ _ [_] [_] rfl
      (.inside (declaredFunction "f" [targeting inner]) _ _ [_, _] [] rfl
        (.inside (block [targeting inner]) _ _ [] [] rfl (parenthesized_targeting inner)))
  have houter : ∀ inner outer, Parenthesized (targetedTwice inner outer) (targetedTwice inner (parens outer)) :=
    fun inner outer => .inside (targetedTwice inner outer) _ _ [_, _] [] rfl (parenthesized_targeting outer)
  exact .head (hinner _ _) (.head (hinner _ _) (.single (houter _ _)))

theorem undisturbed_parenthesized_twice :
    SoleProgram bareTargets ∧ (∀ n ∈ bareTargets.preorder, n.ListsParameters) ∧
      Relation.ReflTransGen Parenthesized bareTargets wrappedTargets ∧
      issues .byScope wrappedTargets =
        .ok [⟨"prefer_let", 1, 1, "Consider using 'let' instead of 'var' here due to reassignment."⟩] ∧
      ∃ ρ, Undisturbed ρ bareTargets wrappedTargets := by
  have hsole : SoleProgram bareTargets := ⟨rfl, by decide +kernel⟩
  have hlists : ∀ n ∈ bareTargets.preorder, n.ListsParameters := by decide +kernel
  exact ⟨hsole, hlists, parenthesized_wrappedTargets, by decide +kernel,
    undisturbed_parenthesized hsole hlists parenthesized_wrappedTargets⟩

end LetOrConst.Advice
