/-
Verdicts do not depend on the order of statements. What a scope binds and what is assigned below it
is collected from whole trees, so that another order of statements changes it by a permutation only
(`MovesTo.scopeNames`, `MovesTo.openNames_children`). The names that are assigned at the host of a
declaration are passed down to it from there (`judge_eq_inherit`): every declaration is judged as
before, and the issues follow the declarations into their new order.
-/
import LetOrConst.Proofs.Advice.Judge
import LetOrConst.Proofs.Tree.Rearrange

namespace LetOrConst.Tree

theorem gather_eq_flatMap {α : Type} (stops : Node → Bool) (give : Node → List α) (ns : List Node) :
    gather stops give ns = ns.flatMap fun n => gather stops give [n] := by
  induction ns with
  | nil => rw [gather]; rfl
  | cons n rest ih =>
    rw [List.flatMap_cons, ← ih, gather, gather, gather, List.append_nil, List.append_assoc]

theorem openNames_eq_flatMap (ns : List Node) : Scope.openNames ns = ns.flatMap fun n => Scope.openNames [n] := by
  induction ns with
  | nil => rw [Scope.openNames]; rfl
  | cons n rest ih =>
    rw [List.flatMap_cons, ← ih, Scope.openNames, Scope.openNames, Scope.openNames, List.append_nil, List.append_assoc]

/-! ## Names given to scopes -/

section Named

variable {n m : Node}

theorem outerName?_congr (hlabel : m.label = n.label)
    (hnamed : (m.child? "name").map Node.label = (n.child? "name").map Node.label) :
    Scope.outerName? m = Scope.outerName? n := by
  have hname := congrArg (Option.map Label.name) hnamed
  rw [Option.map_map, Option.map_map] at hname
  unfold Scope.outerName? Node.type
  rw [hlabel]
  split
  · exact hname
  · rfl

/-- The name of the identifier under `name`, which functions in expressions and classes go by. -/
theorem plainName?_congr (hnamed : (m.child? "name").map Node.label = (n.child? "name").map Node.label) :
    ((m.child? "name").filter (·.kind = .identifier)).map (·.label.name) =
      ((n.child? "name").filter (·.kind = .identifier)).map (·.label.name) := by
  have hplain : ∀ t : Option Node, (t.filter (·.kind = .identifier)).map (·.label.name) =
      ((t.map Node.label).filter (·.kind = .identifier)).map Label.name := by
    intro t
    rw [Option.filter_map, Option.map_map]
    rfl
  rw [hplain, hplain, hnamed]

theorem className?_congr (hlabel : m.label = n.label)
    (hnamed : (m.child? "name").map Node.label = (n.child? "name").map Node.label) :
    Scope.className? m = Scope.className? n := by
  unfold Scope.className? Node.type
  rw [hlabel, plainName?_congr hnamed]

theorem innerName?_congr (hlabel : m.label = n.label)
    (hnamed : (m.child? "name").map Node.label = (n.child? "name").map Node.label) :
    Scope.innerName? m = Scope.innerName? n := by
  unfold Scope.innerName? Node.type
  rw [hlabel, plainName?_congr hnamed]

end Named

/-- What scopes take from a node is the same for another node, up to the order of names. -/
structure Node.Alike (n m : Node) : Prop where
  label : m.label = n.label
  named : (m.child? "name").map Node.label = (n.child? "name").map Node.label
  bound : m.boundNames.Perm n.boundNames
  caught : m.namesUnder "parameter" = n.namesUnder "parameter"
  parameters : (Scope.parameterNames m).Perm (Scope.parameterNames n)

namespace Node.Alike

variable {n m : Node}

theorem kind (h : n.Alike m) : m.kind = n.kind := congrArg Label.kind h.label

theorem opensScope (h : n.Alike m) : m.opensScope = n.opensScope := by
  unfold Node.opensScope
  rw [h.kind]

theorem hostsVars (h : n.Alike m) : m.hostsVars = n.hostsVars := by
  unfold Node.hostsVars
  rw [h.kind]

theorem isVarDeclaration (h : n.Alike m) : m.isVarDeclaration = n.isVarDeclaration := by
  unfold Node.isVarDeclaration
  rw [h.kind, h.label]

theorem outerName? (h : n.Alike m) : Scope.outerName? m = Scope.outerName? n := outerName?_congr h.label h.named

theorem className? (h : n.Alike m) : Scope.className? m = Scope.className? n := className?_congr h.label h.named

theorem innerName? (h : n.Alike m) : Scope.innerName? m = Scope.innerName? n := innerName?_congr h.label h.named

theorem aroundNames (h : n.Alike m) : m.aroundNames.Perm n.aroundNames := by
  unfold Node.aroundNames
  rw [h.kind, h.label, h.outerName?, h.className?]
  split
  · exact .refl _
  · exact .refl _
  · split
    · exact h.bound
    · exact .nil
  · exact .nil

theorem hoistedNames (h : n.Alike m) : m.hoistedNames.Perm n.hoistedNames := by
  unfold Node.hoistedNames
  rw [h.isVarDeclaration]
  split
  · exact h.bound
  · exact .nil

theorem ownNames (h : n.Alike m) : m.ownNames.Perm n.ownNames := by
  unfold Node.ownNames
  rw [h.kind, h.innerName?, h.caught]
  split
  · exact h.parameters.append_left _
  · exact .refl _
  · exact .nil

end Node.Alike

namespace Node.MovesTo

variable {n m : Node}

theorem parameterNames (h : n.MovesTo m) : (Scope.parameterNames m).Perm (Scope.parameterNames n) := by
  unfold Scope.parameterNames
  rw [h.namesUnder "parameter"]
  refine List.Perm.append_right _ ?_
  rcases h.child? "parameters" with ⟨hn, hm⟩ | ⟨c, d, hn, hm, hcd⟩
  · rw [hn, hm]
  · rw [hn, hm]
    -- nothing says that the list of parameters is no block, so its children may have moved
    obtain ⟨kids, hkids, hperm, -⟩ := hcd.children
    exact flatMap_perm hkids hperm fun t u htu => htu.bindingNames

theorem alike (h : n.MovesTo m) : n.Alike m where
  label := h.label
  named := by
    rcases h.child? "name" with ⟨hn, hm⟩ | ⟨c, d, hn, hm, hcd⟩
    · rw [hn, hm]
    · rw [hn, hm, Option.map_some, Option.map_some, hcd.label]
  bound := h.boundNames
  caught := h.namesUnder "parameter"
  parameters := h.parameterNames

theorem gather_children {α : Type} {stops : Node → Bool} {give : Node → List α}
    (hstops : ∀ c d : Node, c.MovesTo d → stops d = stops c)
    (hgive : ∀ c d : Node, c.MovesTo d → (give d).Perm (give c))
    (h : n.MovesTo m) : (gather stops give m.children).Perm (gather stops give n.children) := by
  rw [gather_eq_flatMap, gather_eq_flatMap stops give n.children]
  refine perm_children (fun c d hcd hbelow => ?_) h
  rw [← gather_eq_flatMap, ← gather_eq_flatMap] at hbelow
  rw [gather, gather, gather, gather, hstops c d hcd, List.append_nil, List.append_nil]
  refine (hgive c d hcd).append ?_
  split
  · exact .nil
  · exact hbelow

theorem scopeNames (h : n.MovesTo m) : (Scope.scopeNames m).Perm (Scope.scopeNames n) := by
  unfold Scope.scopeNames
  rw [h.alike.hostsVars]
  refine h.alike.ownNames.append (List.Perm.append ?_ ?_)
  · exact gather_children (fun _ _ hcd => hcd.alike.opensScope) (fun _ _ hcd => hcd.alike.aroundNames) h
  · split
    · exact gather_children (fun _ _ hcd => hcd.alike.hostsVars) (fun _ _ hcd => hcd.alike.hoistedNames) h
    · exact .nil

theorem openNames_children (h : n.MovesTo m) : (Scope.openNames m.children).Perm (Scope.openNames n.children) := by
  rw [openNames_eq_flatMap, openNames_eq_flatMap n.children]
  refine perm_children (fun c d hcd hbelow => ?_) h
  rw [← openNames_eq_flatMap, ← openNames_eq_flatMap] at hbelow
  have hmem : ∀ x, x ∈ Scope.scopeNames d ↔ x ∈ Scope.scopeNames c := fun x => hcd.scopeNames.mem_iff
  rw [Scope.openNames, Scope.openNames, Scope.openNames, Scope.openNames, List.append_nil, List.append_nil,
    hcd.assignedName?, hcd.alike.opensScope]
  refine List.Perm.append_left _ ?_
  split
  · simp only [hmem]
    exact hbelow.filter _
  · exact hbelow

theorem soleProgram (h : n.MovesTo m) (hn : Scope.SoleProgram n) : Scope.SoleProgram m := by
  have hkinds : (m.descendants.map Node.kind).Perm (n.descendants.map Node.kind) := by
    unfold Node.descendants
    rw [List.map_flatMap, List.map_flatMap]
    refine perm_children (fun c d hcd hbelow => ?_) h
    rw [← List.map_flatMap, ← List.map_flatMap] at hbelow
    rw [preorder_eq, preorder_eq, List.map_cons, List.map_cons, hcd.kind]
    exact hbelow.cons _
  refine ⟨h.kind.trans hn.isProgram, fun t ht hkind => ?_⟩
  obtain ⟨u, hu, huk⟩ := List.mem_map.1 (hkinds.mem_iff.1 (List.mem_map_of_mem ht))
  exact hn.below u hu (huk.trans hkind)

theorem assignedNames (h : n.MovesTo m) : (Advice.assignedNames m).Perm (Advice.assignedNames n) := by
  unfold Advice.assignedNames
  rw [List.filterMap_flatMap, List.filterMap_flatMap]
  refine perm_children (fun c d hcd hbelow => ?_) h
  simp only [walk_eq] at hbelow ⊢
  rw [← List.filterMap_flatMap, ← List.filterMap_flatMap] at hbelow
  rw [preorder_eq, preorder_eq, List.filterMap_cons, List.filterMap_cons, hcd.assignedName?]
  split
  · exact hbelow
  · exact hbelow.cons _

end Node.MovesTo
end LetOrConst.Tree

namespace LetOrConst.Advice

open LetOrConst.Tree LetOrConst.Tree.Sample LetOrConst.Scope

/-! ## Issues by what is passed down -/

/-- The issue of a node, taken as a declaration of some names, where `reached` are the names assigned. -/
def issueOf (names : Node → List String) (reached : List String) (n : Node) : Issue :=
  (Verdict.ofReassigned ((names n).any reached.contains)).issue n

/-- The names assigned at the host of the children of a node. -/
def reachedBelow (reached : List String) (n : Node) : List String :=
  if n.hostsVars then openNames n.children else reached

/-- The numbers of the nodes that declare with `var`, in document order. -/
def varNumbers (root : Node) : List Nat :=
  (root.preorder.zipIdx.filter fun d => d.1.kind = .declaration ∧ d.1.label.keyword = some .kwVar).map (·.2)

/-- Of what some nodes are given, that of the `var` declarations. -/
def select {α : Type} (ns : List Node) (given : List α) : List α :=
  ((ns.zip given).filter (·.1.isVarDeclaration)).map (·.2)

section Select

variable {α : Type}

theorem select_cons (n : Node) (ns : List Node) (x : α) (xs : List α) :
    select (n :: ns) (x :: xs) = (if n.isVarDeclaration then [x] else []) ++ select ns xs := by
  unfold select
  rw [List.zip_cons_cons, List.filter_cons]
  split <;> rfl

theorem select_append {ms ns : List Node} {xs ys : List α} (h : ms.length = xs.length) :
    select (ms ++ ns) (xs ++ ys) = select ms xs ++ select ns ys := by
  unfold select
  rw [List.zip_append h, List.filter_append, List.map_append]

theorem select_map (f : Node → α) (ns : List Node) :
    select ns (ns.map f) = (ns.filter Node.isVarDeclaration).map f := by
  induction ns with
  | nil => rfl
  | cons n ns ih =>
    rw [List.map_cons, select_cons, ih, List.filter_cons]
    split <;> rfl

/-- What the declarations are given is found in a table by their numbers. -/
theorem map_varNumbers {root : Node} {table : Nat → α} {xs : List α} (htable : Tabulates table 0 xs)
    (hlen : xs.length = root.size) : (varNumbers root).map table = select root.preorder xs := by
  unfold varNumbers select
  rw [isVarDeclaration_eq, ← htable, hlen, List.zip_map_right, List.filter_map, List.map_map, List.map_map, Node.size,
    List.zipIdx_eq_zip_range']
  rfl

/-- Where a property of the numbers tells the declarations, their numbers are those that have it. -/
theorem select_eq_filter {ns : List Node} {xs : List α} {flag : α → Bool}
    (h : ns.map Node.isVarDeclaration = xs.map flag) : select ns xs = xs.filter flag := by
  induction xs generalizing ns with
  | nil => unfold select; simp
  | cons x xs ih =>
    obtain ⟨n, ns, rfl, hn, hns⟩ := List.map_eq_cons_iff.1 h
    rw [select_cons, ih hns, hn, List.filter_cons]
    split <;> rfl

end Select

theorem judge_eq_select (reached : List String) (ns : List Node) :
    judge reached ns =
      select (ns.flatMap Node.preorder) (inherit (issueOf Node.boundNames) reachedBelow reached ns) := by
  induction ns using Node.forest_induction generalizing reached with
  | nil => rw [judge, inherit]; rfl
  | cons n rest ihc ihr =>
    rw [judge, ihc, ihr, inherit, List.flatMap_cons, Node.preorder_eq, List.cons_append, select_cons,
      select_append (length_inherit _ _).symm]
    rfl

theorem inherit_const {γ α : Type} (give : γ → Node → α) (c : γ) (ns : List Node) :
    inherit give (fun c _ => c) c ns = (ns.flatMap Node.preorder).map (give c) := by
  induction ns using Node.forest_induction with
  | nil => rw [inherit]; rfl
  | cons n rest ihc ihr =>
    rw [inherit, ihc, ihr, List.flatMap_cons, Node.preorder_eq, List.cons_append, List.map_cons, List.map_append]

/-- The names that a declaration is judged by. -/
def judgedNames : Resolution → Node → List String
  | .byName => Node.declaredNames
  | .byScope => Node.boundNames

/-- The assigned names that are passed down to the root. -/
def passedFirst : Resolution → Node → List String
  | .byName, root => assignedNames root
  | .byScope, _ => []

/-- The assigned names that are passed down from a node to its children. -/
def passedDown : Resolution → List String → Node → List String
  | .byName => fun reached _ => reached
  | .byScope => reachedBelow

/-- What all nodes of a tree are given, were they declarations. -/
def issuesOfAll (mode : Resolution) (root : Node) : List Issue :=
  inherit (issueOf (judgedNames mode)) (passedDown mode) (passedFirst mode root) [root]

variable {root : Node}

theorem issues_eq_select (h : SoleProgram root) (mode : Resolution) :
    issues mode root = .ok (select root.preorder (issuesOfAll mode root)) := by
  cases mode with
  | byName =>
    have hname : issuesByName root = ((varDeclarations root).map (·.1)).map
        (issueOf Node.declaredNames (assignedNames root)) := by
      rw [List.map_map]
      rfl
    have hgiven : issuesOfAll .byName root = root.preorder.map (issueOf Node.declaredNames (assignedNames root)) := by
      have hconst := inherit_const (issueOf Node.declaredNames) (assignedNames root) [root]
      rwa [List.flatMap_singleton] at hconst
    rw [hgiven, select_map, ← map_fst_varDeclarations, ← hname]
    rfl
  | byScope =>
    have hvar : root.isVarDeclaration = false := by simp [Node.isVarDeclaration, h.isProgram]
    have hgiven : issuesOfAll .byScope root = issueOf Node.boundNames [] root ::
        inherit (issueOf Node.boundNames) reachedBelow (openNames root.children) root.children := by
      have hpassed : reachedBelow [] root = openNames root.children := if_pos h.hostsVars
      show inherit (issueOf Node.boundNames) reachedBelow [] [root] = _
      rw [inherit, inherit, List.append_nil, hpassed]
    rw [hgiven, Node.preorder_eq, select_cons, hvar, issues_byScope_eq_judge h, judge_eq_select]
    rfl

theorem length_issuesOfAll (mode : Resolution) (root : Node) : (issuesOfAll mode root).length = root.size := by
  unfold issuesOfAll
  rw [length_inherit, List.flatMap_singleton, Node.size]

/-! ## Another order of statements -/

theorem judgedNames_perm (mode : Resolution) {n m : Node} (h : n.MovesTo m) :
    (judgedNames mode m).Perm (judgedNames mode n) := by
  cases mode with
  | byName => exact h.declaredNames
  | byScope => exact h.boundNames

theorem passedDown_perm (mode : Resolution) {n m : Node} (h : n.MovesTo m) {reached others : List String}
    (hperm : others.Perm reached) : (passedDown mode others m).Perm (passedDown mode reached n) := by
  cases mode with
  | byName => exact hperm
  | byScope =>
    show (reachedBelow others m).Perm (reachedBelow reached n)
    unfold reachedBelow
    rw [h.alike.hostsVars]
    split
    · exact h.openNames_children
    · exact hperm

theorem issueOf_eq {names : Node → List String} {n m : Node} (h : n.MovesTo m) (hnames : (names m).Perm (names n))
    {reached others : List String} (hperm : others.Perm reached) :
    issueOf names others m = issueOf names reached n := by
  have hany : (names m).any others.contains = (names n).any reached.contains := by
    rw [Bool.eq_iff_iff, List.any_eq_true, List.any_eq_true]
    simp only [List.contains_iff_mem, hnames.mem_iff, hperm.mem_iff]
  unfold issueOf Verdict.issue Node.line Node.column
  rw [hany, h.label]

/-- A rearranged tree gives its nodes what they were given under their old numbers. -/
theorem issuesOfAll_eq {new : Moved} (hr : Rearranged 0 [root] [new]) (mode : Resolution) {table : Nat → Issue}
    (htable : Tabulates table 0 (issuesOfAll mode root)) : issuesOfAll mode new.node = new.numbers.map table := by
  have hmoves : root.MovesTo new.node := ⟨0, new.numbers, hr⟩
  have hfirst : (passedFirst mode new.node).Perm (passedFirst mode root) := by
    cases mode with
    | byName => exact hmoves.assignedNames
    | byScope => exact .nil
  refine hr.inherit_eq (fun reached others => others.Perm reached) ?_ ?_ hfirst htable new (List.mem_singleton_self new)
  · intro reached others n m hperm hnm
    exact issueOf_eq hnm (judgedNames_perm mode hnm) hperm
  · intro reached others n m hperm hnm
    exact passedDown_perm mode hnm hperm

/-- The declarations of a rearranged tree are those of the tree before. -/
theorem varNumbers_perm {new : Moved} (hr : Rearranged 0 [root] [new]) (hlen : new.numbers.length = new.node.size) :
    ((varNumbers new.node).map fun j => new.numbers.getD j 0).Perm (varNumbers root) := by
  let flag : Nat → Bool := fun j => (root.preorder.map Node.isVarDeclaration).getD j false
  have hflag : (List.range' 0 root.size).map flag = root.preorder.map Node.isVarDeclaration := by
    have htabulates := tabulates_getD (root.preorder.map Node.isVarDeclaration) false
    unfold Tabulates at htabulates
    rwa [List.length_map] at htabulates
  have hnew : new.node.preorder.map Node.isVarDeclaration = new.numbers.map flag := by
    have htable : Tabulates flag 0 (inherit (fun (_ : Unit) n => n.isVarDeclaration) (fun c _ => c) () [root]) := by
      rw [inherit_const, List.flatMap_singleton]
      exact tabulates_getD _ _
    have hgiven := hr.inherit_eq (· = ·) (fun _ _ _ _ _ hnm => hnm.alike.isVarDeclaration)
      (fun _ _ _ _ hcd _ => hcd) rfl htable new (List.mem_singleton_self new)
    rwa [inherit_const, List.flatMap_singleton] at hgiven
  have hrange : Tabulates id 0 (List.range' 0 root.size) := by
    unfold Tabulates
    rw [List.length_range', List.map_id]
  have hbefore : (varNumbers root).map id = select root.preorder (List.range' 0 root.size) :=
    map_varNumbers hrange List.length_range'
  rw [map_varNumbers (tabulates_getD new.numbers 0) hlen, select_eq_filter hnew]
  rw [List.map_id, select_eq_filter hflag.symm] at hbefore
  have hperm := hr.numbers_perm
  rw [List.flatMap_singleton, List.flatMap_singleton] at hperm
  exact (hperm.filter flag).trans (List.Perm.of_eq hbefore.symm)

/-- Every `var` declaration of a rearranged tree is one of the tree before, and all of them are there.
It gets the same issue as before, and the issues stand in the new document order. -/
theorem issues_rearranged {new : Moved} (h : SoleProgram root) (hr : Rearranged 0 [root] [new]) (mode : Resolution) :
    new.numbers.Perm (List.range root.size) ∧
      ((varNumbers new.node).map fun j => new.numbers.getD j 0).Perm (varNumbers root) ∧
      ∃ issue : Nat → Issue,
        issues mode root = .ok ((varNumbers root).map issue) ∧
        issues mode new.node = .ok ((varNumbers new.node).map fun j => issue (new.numbers.getD j 0)) := by
  have hnew := issuesOfAll_eq hr mode (tabulates_getD (issuesOfAll mode root) default)
  have hlen : new.numbers.length = new.node.size := by
    rw [← length_issuesOfAll mode, hnew, List.length_map]
  refine ⟨?_, varNumbers_perm hr hlen, fun j => (issuesOfAll mode root).getD j default, ?_, ?_⟩
  · have hperm := hr.numbers_perm
    rwa [List.flatMap_singleton, List.flatMap_singleton, ← List.range_eq_range'] at hperm
  · rw [issues_eq_select h, map_varNumbers (tabulates_getD _ _) (length_issuesOfAll mode root)]
  · have hmoves : root.MovesTo new.node := ⟨0, new.numbers, hr⟩
    have htable := (tabulates_getD new.numbers 0).map fun j => (issuesOfAll mode root).getD j default
    rw [issues_eq_select (hmoves.soleProgram h), hnew, ← map_varNumbers htable (by rw [List.length_map, hlen])]
    rfl

/-- A function that assigns a name of its surroundings before it declares one of its own. -/
def innerEarly : Node := declaredFunction "f" [assigning "x", declaring .kwVar "y"]

/-- The same with the declaration first. -/
def innerLate : Node := declaredFunction "f" [declaring .kwVar "y", assigning "x"]

/-- Assignments that come before the declarations they reach. -/
def early : Node := program [assigning "x", innerEarly, declaring .kwVar "x"]

/-- The same with the declarations first. -/
def late : Moved where
  node := program [declaring .kwVar "x", innerLate, assigning "x"]
  numbers := [0, 12, 13, 14, 3, 4, 5, 6, 9, 10, 11, 7, 8, 1, 2]

theorem rearranged_late : Rearranged 0 [early] [late] := by
  have hassigning : ∀ x, (assigning x).size = 2 := fun x => by
    simp [Node.size_eq, Node.preorder_eq, assigning, identifier]
  have hdeclaring : ∀ x, (declaring .kwVar x).size = 3 := fun x => by
    simp [Node.size_eq, Node.preorder_eq, declaring, identifier]
  have hbody : Rearranged 6 [block [assigning "x", declaring .kwVar "y"]]
      [⟨block [declaring .kwVar "y", assigning "x"], [6, 9, 10, 11, 7, 8]⟩] :=
    .statements [⟨declaring .kwVar "y", [9, 10, 11]⟩, ⟨assigning "x", [7, 8]⟩] rfl rfl rfl
      (.stay (hassigning "x") (.stay (hdeclaring "y") (.nil 12))) (.swap _ _ _) (.nil _)
  have hparts : Rearranged 4 innerEarly.children
      [⟨identifier "f", [4]⟩, ⟨_, [5]⟩, ⟨block [declaring .kwVar "y", assigning "x"], [6, 9, 10, 11, 7, 8]⟩] :=
    .stay (k := 1) (by decide +kernel) (.stay (k := 1) (by decide +kernel) hbody)
  have hlast : Rearranged (3 + innerEarly.size) [declaring .kwVar "x"] [⟨declaring .kwVar "x", [12, 13, 14]⟩] := by
    have hsize : innerEarly.size = 9 := by decide +kernel
    rw [hsize]
    exact .stay (hdeclaring "x") (.nil 15)
  have hinner : Rearranged 3 [innerEarly, declaring .kwVar "x"]
      [⟨innerLate, [3, 4, 5, 6, 9, 10, 11, 7, 8]⟩, ⟨declaring .kwVar "x", [12, 13, 14]⟩] :=
    .inOrder hparts (.nil 0) hlast rfl rfl rfl rfl
  have hall : Rearranged 1 [assigning "x", innerEarly, declaring .kwVar "x"]
      [⟨assigning "x", [1, 2]⟩, ⟨innerLate, [3, 4, 5, 6, 9, 10, 11, 7, 8]⟩, ⟨declaring .kwVar "x", [12, 13, 14]⟩] :=
    .stay (hassigning "x") hinner
  exact .statements (i := 0) (n := early)
    [⟨declaring .kwVar "x", [12, 13, 14]⟩, ⟨innerLate, [3, 4, 5, 6, 9, 10, 11, 7, 8]⟩, ⟨assigning "x", [1, 2]⟩]
    rfl rfl rfl hall (List.reverse_perm [_, _, _]) (.nil _)

/-- The declarations at 12 and 9 have come to 1 and 8, with the issues that they had. -/
theorem issues_rearranged_late :
    SoleProgram early ∧ Rearranged 0 [early] [late] ∧ late.numbers.Perm (List.range early.size) ∧
      varNumbers early = [9, 12] ∧
      (varNumbers late.node).map (fun j => (j, late.numbers.getD j 0)) = [(1, 12), (8, 9)] ∧
      ∃ issue : Nat → Issue,
        issue 9 = ⟨"prefer_const", 1, 1, "Consider using 'const' instead of 'var' here."⟩ ∧
        issue 12 = ⟨"prefer_let", 1, 1, "Consider using 'let' instead of 'var' here due to reassignment."⟩ ∧
        issues .byScope early = .ok [issue 9, issue 12] ∧ issues .byScope late.node = .ok [issue 12, issue 9] := by
  have hsole : SoleProgram early := ⟨rfl, by decide +kernel⟩
  have hearly : varNumbers early = [9, 12] := by decide +kernel
  have hlate : varNumbers late.node = [1, 8] := by decide +kernel
  have hissues : issues .byScope early = .ok
      [⟨"prefer_const", 1, 1, "Consider using 'const' instead of 'var' here."⟩,
        ⟨"prefer_let", 1, 1, "Consider using 'let' instead of 'var' here due to reassignment."⟩] := by decide +kernel
  obtain ⟨hperm, -, issue, hbefore, hafter⟩ := issues_rearranged hsole rearranged_late .byScope
  rw [hearly] at hbefore
  rw [hlate] at hafter
  have hsame : [issue 9, issue 12] = _ := Except.ok.inj (hbefore.symm.trans hissues)
  rw [List.cons.injEq, List.cons.injEq] at hsame
  exact ⟨hsole, rearranged_late, hperm, hearly, by rw [hlate]; rfl, issue, hsame.1, hsame.2.1, hbefore, hafter⟩

end LetOrConst.Advice
