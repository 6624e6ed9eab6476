/-
The verdicts when assignments are resolved, said of places in the tree: one issue for every `var`
declaration, in document order, and `let` is advised exactly when some assignment to a name of the
declaration means the function or program that the name is hoisted to (`Reassigned`).
-/
import LetOrConst.Proofs.Advice.ByName
import LetOrConst.Proofs.Scope.Binds

namespace LetOrConst.Scope

open LetOrConst.Tree

variable {root : Node} {d a : Place} {x : String}

/-- A `var` declaration is assigned again: some assignment to one of its names means the host that
the declaration is hoisted to. -/
def Reassigned (root : Node) (d : Place) : Prop :=
  ∃ a ∈ root.places, ∃ x ∈ d.node.boundNames, Assigns a.node x ∧
    ∃ s, d.nearest? Node.hostsVars = some s ∧ Resolves root a x s

/-! ## Which declarations an assignment reaches -/

/-- The declarations that an assignment reaches in the store of a tree. -/
def reachedBy (root : Node) (asg : Assignment) : List Site :=
  ((built root).resolve (asg.scope.getD 0) (some asg.name)).elim [] (·.2.declarations)

/-- All declarations that the assignments of a tree reach. -/
def reachedSites (root : Node) : List Site := (root.places.filterMap Place.assignment?).flatMap (reachedBy root)

theorem scope?_assignment (h : SoleProgram root) (ha : a ∈ root.places) (hx : a.node.assignedName? = some x) :
    a.scope? = some a.here := by
  have hne : a.node.kind ≠ .program := by
    intro hk
    rw [assignedName?_eq_none (by rw [hk]; decide)] at hx
    cases hx
  obtain ⟨t, ht⟩ := exists_nearest h h.opensScope ha hne
  unfold Place.here Place.scope?
  rw [ht]
  rfl

theorem mapM_ok {α β : Type} {f : α → Except Fault β} {g : α → β} {xs : List α} (h : ∀ a ∈ xs, f a = .ok (g a)) :
    xs.mapM f = .ok (xs.map g) := by
  induction xs with
  | nil => rfl
  | cons a xs ih =>
    rw [List.mapM_cons, h a List.mem_cons_self, ih fun b hb => h b (List.mem_cons_of_mem a hb)]
    rfl

theorem reached_eq {p : Progress} {asg : Assignment} {id : Nat} (h : asg.scope = some id) :
    p.reached asg = .ok ((p.store.resolve id (some asg.name)).elim [] (·.2.declarations)) := by
  unfold Progress.reached
  simp only [h]
  cases p.store.resolve id (some asg.name) <;> rfl

/-- Every assignment is resolved without fault. -/
theorem reassigned_eq (h : SoleProgram root) :
    reassigned root = .ok (reachedSites root) := by
  have hall : ∀ asg ∈ root.places.filterMap Place.assignment?,
      Progress.reached { Progress.after {} root.places with root := some 0, current := some 0 } asg =
        .ok (reachedBy root asg) := by
    intro asg hasg
    obtain ⟨a, ha, hsome⟩ := List.mem_filterMap.1 hasg
    obtain ⟨x, hx, rfl⟩ := Option.map_eq_some_iff.1 hsome
    have hscope := scope?_assignment h ha hx
    unfold reachedBy
    rw [reached_eq hscope]
    simp only [hscope]
    rfl
  unfold reassigned
  rw [build_eq h, Progress.ok_bind]
  show ((root.places.filterMap Place.assignment?).mapM _ >>= _) = _
  rw [mapM_ok hall, reachedSites, List.flatMap_def]
  rfl

/-- An assignment reaches a `var` declaration of its name exactly when it means the host of the
declaration. -/
theorem index_mem_reachedBy (h : SoleProgram root) (ha : a ∈ root.places) (hx : a.node.assignedName? = some x)
    (hd : d ∈ root.places) (hvar : d.node.isVarDeclaration = true) :
    (∃ site ∈ reachedBy root ⟨a.scope?, a.site, x⟩, site.index = d.number) ↔
      x ∈ d.node.boundNames ∧ ∃ s, d.nearest? Node.hostsVars = some s ∧ Resolves root a x s := by
  have hscope := scope?_assignment h ha hx
  unfold reachedBy
  simp only [hscope, Option.getD_some]
  constructor
  · rintro ⟨site, hsite, hindex⟩
    cases hr : (built root).resolve a.here (some x) with
    | none => rw [hr] at hsite; cases hsite
    | some rb =>
      obtain ⟨r, b⟩ := rb
      rw [hr] at hsite
      obtain ⟨s, hres, -, hb⟩ := (resolve_eq_some_iff h ha hscope).1 hr
      obtain ⟨outer, hs, ho⟩ := hres.mem_places ha
      replace hsite : site ∈ b.declarations := hsite
      rw [declarations_of_bindingOf hb] at hsite
      obtain ⟨e, he, hdecl⟩ := List.mem_flatMap.1 hsite
      obtain ⟨hbound, hnear⟩ :=
        (remembers_iff h hs ho hd hvar).1 ⟨e, he, site, Option.mem_toList.1 hdecl, hindex⟩
      exact ⟨hbound, s, hnear, hres⟩
  · rintro ⟨hbound, s, hnear, hres⟩
    obtain ⟨outer, hs, ho⟩ := hres.mem_places ha
    obtain ⟨e, he, site, hdecl, hindex⟩ := (remembers_iff h hs ho hd hvar).2 ⟨hbound, hnear⟩
    cases hb : bindingOf (some x) (entriesOf root s (some x)) with
    | none => rw [bindingOf_eq_none.1 hb] at he; cases he
    | some b =>
      have hr := (resolve_eq_some_iff h ha hscope).2 ⟨s, hres, rfl, hb⟩
      rw [hr]
      refine ⟨site, ?_, hindex⟩
      show site ∈ b.declarations
      rw [declarations_of_bindingOf hb]
      exact List.mem_flatMap.2 ⟨e, he, Option.mem_toList.2 hdecl⟩

/-- Whether some assignment of a tree reaches a declaration. -/
def isReached (root : Node) (d : Place) : Bool := ((reachedSites root).map (·.index)).contains d.number

theorem isReached_iff (h : SoleProgram root) (hd : d ∈ root.places) (hvar : d.node.isVarDeclaration = true) :
    isReached root d = true ↔ Reassigned root d := by
  unfold isReached reachedSites
  rw [List.contains_iff_mem, List.mem_map]
  simp only [List.mem_flatMap, List.mem_filterMap]
  constructor
  · rintro ⟨site, ⟨asg, ⟨a, ha, hsome⟩, hsite⟩, hindex⟩
    obtain ⟨x, hx, rfl⟩ := Option.map_eq_some_iff.1 hsome
    obtain ⟨hbound, s, hnear, hres⟩ := (index_mem_reachedBy h ha hx hd hvar).1 ⟨site, hsite, hindex⟩
    exact ⟨a, ha, x, hbound, assigns_iff.2 hx, s, hnear, hres⟩
  · rintro ⟨a, ha, x, hbound, hassigns, s, hnear, hres⟩
    have hx := assigns_iff.1 hassigns
    obtain ⟨site, hsite, hindex⟩ := (index_mem_reachedBy h ha hx hd hvar).2 ⟨hbound, s, hnear, hres⟩
    exact ⟨site, ⟨_, ⟨a, ha, Option.map_eq_some_iff.2 ⟨x, hx, rfl⟩⟩, hsite⟩, hindex⟩

end LetOrConst.Scope

namespace LetOrConst.Advice

open LetOrConst.Tree LetOrConst.Tree.Sample LetOrConst.Scope

variable {root : Node}

/-! ## The verdicts -/

theorem varDeclarations_eq (root : Node) :
    varDeclarations root = (root.places.filter (·.node.isVarDeclaration)).map fun d => (d.node, d.number) := by
  have hzip := placesAll_zipIdx [] 0 0 [root]
  rw [List.flatMap_singleton] at hzip
  rw [varDeclarations_eq_filter, ← hzip, List.filter_map]
  rfl

/-- Scopes are built without fault, and every `var` declaration is judged by what reaches it. -/
theorem issues_byScope_eq (h : SoleProgram root) :
    issues .byScope root = .ok ((root.places.filter (·.node.isVarDeclaration)).map fun d =>
      (Verdict.ofReassigned (isReached root d)).issue d.node) := by
  have hjudged : issuesByScope root = .ok ((varDeclarations root).map fun d =>
      (Verdict.ofReassigned (((reachedSites root).map (·.index)).contains d.2)).issue d.1) := by
    -- without declarations the scopes are not even built
    unfold issuesByScope
    cases varDeclarations root with
    | nil => rfl
    | cons d ds => rw [reassigned_eq h]; rfl
  rw [varDeclarations_eq, List.map_map] at hjudged
  exact hjudged

/-- The places of a tree are its nodes in document order. Resolving yields one issue for each that is a
`var` declaration, in this order, and it advises `let` exactly for those that are assigned again. -/
theorem issues_byScope_verdicts (h : SoleProgram root) :
    root.places.map (·.node) = root.preorder ∧ ∃ found, issues .byScope root = .ok found ∧
      List.Forall₂ (fun d i => Advises (Reassigned root d) d.node i)
        (root.places.filter fun d => d.node.kind = .declaration ∧ d.node.label.keyword = some .kwVar) found := by
  have hvars : root.places.filter (fun d => d.node.kind = .declaration ∧ d.node.label.keyword = some .kwVar) =
      root.places.filter (·.node.isVarDeclaration) := by rw [isVarDeclaration_eq]
  have hnodes : root.places.map (·.node) = root.preorder := by
    rw [Node.places, placesAll_nodes, List.flatMap_singleton]
  refine ⟨hnodes, _, issues_byScope_eq h, ?_⟩
  rw [hvars, List.forall₂_map_right_iff, List.forall₂_same]
  intro d hd
  obtain ⟨hd, hvar⟩ := List.mem_filter.1 hd
  rw [← isReached_iff h hd hvar]
  exact advises_ofReassigned _ d.node

/-- A name that is assigned in a function, and one that is assigned under a `let` of the same name only. -/
def shadowed : Node :=
  program [declaring .kwVar "x", declaring .kwVar "y", block [declaring .kwLet "y", assigning "y"],
    declaredFunction "f" [assigning "x"]]

theorem issues_byScope_shadowed :
    SoleProgram shadowed ∧ shadowed.places.map (·.node) = shadowed.preorder ∧
      issues .byScope shadowed = .ok
        [⟨"prefer_let", 1, 1, "Consider using 'let' instead of 'var' here due to reassignment."⟩,
          ⟨"prefer_const", 1, 1, "Consider using 'const' instead of 'var' here."⟩] ∧
      ∃ x y,
        (shadowed.places.filter fun d => d.node.kind = .declaration ∧ d.node.label.keyword = some .kwVar) = [x, y] ∧
        x.node.boundNames = ["x"] ∧ Reassigned shadowed x ∧ y.node.boundNames = ["y"] ∧ ¬ Reassigned shadowed y := by
  have hsole : SoleProgram shadowed := ⟨rfl, by decide +kernel⟩
  have hissues : issues .byScope shadowed = .ok
      [⟨"prefer_let", 1, 1, "Consider using 'let' instead of 'var' here due to reassignment."⟩,
        ⟨"prefer_const", 1, 1, "Consider using 'const' instead of 'var' here."⟩] := by decide +kernel
  have hnames : (shadowed.places.filter fun d => d.node.kind = .declaration ∧ d.node.label.keyword = some .kwVar).map
      (·.node.boundNames) = [["x"], ["y"]] := by decide +kernel
  obtain ⟨hnodes, found, hfound, hall⟩ := issues_byScope_verdicts hsole
  refine ⟨hsole, hnodes, hissues, ?_⟩
  cases hissues.symm.trans hfound
  generalize (shadowed.places.filter fun d => d.node.kind = .declaration ∧ d.node.label.keyword = some .kwVar) = vars
    at hall hnames ⊢
  obtain _ | ⟨hx, _ | ⟨hy, _ | _⟩⟩ := hall
  obtain ⟨hxname, hyname⟩ : _ = ["x"] ∧ _ = ["y"] := by simpa using hnames
  refine ⟨_, _, rfl, hxname, Classical.not_not.1 fun h => ?_, hyname, fun h => ?_⟩
  · exact absurd (hx.prefersConst h).1 (by decide)
  · exact absurd (hy.prefersLet h).1 (by decide)

end LetOrConst.Advice
