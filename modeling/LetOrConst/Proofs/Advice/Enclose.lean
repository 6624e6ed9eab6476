/-
Blocks are transparent to `var`. A statement is put into a block of its own, where nothing that it holds
directly declares a name in the scope around it (`Enclosed`). The new scope binds nothing (`Wraps.scopeNames`), so every
assigned name passes it and every `var` is hoisted past it: the scopes around it bind the same names, their
children leave the same names open (`Enclosed.openNames_children`), and every declaration is judged as
before, after one such step and so after any number of them.
-/
import LetOrConst.Proofs.Advice.Insert
import LetOrConst.Proofs.Tree.Alter
import Mathlib.Logic.Relation

namespace LetOrConst.Tree

/-- A node that declares names in the scope around it: with `let` or `const`, as a class or as a function. -/
def Node.declaresAround (n : Node) : Bool :=
  n.kind == .declaration && (n.label.keyword == some .kwLet || n.label.keyword == some .kwConst) ||
    n.type == "class_declaration" || n.type == "function_declaration" || n.type == "generator_function_declaration"

/-- The nodes of a tree with no scope node of the tree above them: those whose nearest scope node is the one around
the tree. -/
def Node.exposed (c : Node) : List Node := gather Node.opensScope (fun t => [t]) [c]

/-- A block that holds a statement and nothing else, where the statement leaves the scope around it alone. -/
structure Wraps (c w : Node) : Prop where
  plain : c.kind ≠ .identifier ∧ c.kind ≠ .pattern
  keeps : ∀ t ∈ c.exposed, t.declaresAround = false
  kind : w.kind = .block
  type : w.type = "statement_block"
  only : w.children = [c]

/-- A tree becomes another when a child of a node that takes part is put into a block of its own. Where the fields
of that node lead is left open. -/
inductive Enclosed (host : Node → Bool) : Node → Node → Prop where
  | here (n m c w : Node) (before after : List Node) (takes : host n = true) (split : n.children = before ++ c :: after)
      (wraps : Wraps c w) (label : m.label = n.label) (children : m.children = before ++ w :: after) : Enclosed host n m
  | inside (n c d : Node) (before after : List Node) (split : n.children = before ++ c :: after)
      (deeper : Enclosed host c d) : Enclosed host n { n with children := before ++ d :: after }

/-! ## The new block -/

theorem gather_eq_flatMap_give {α : Type} (stops : Node → Bool) (give : Node → List α) (ns : List Node) :
    gather stops give ns = (gather stops (fun t => [t]) ns).flatMap give := by
  induction ns using Node.forest_induction with
  | nil => rw [gather, gather]; rfl
  | cons n rest ihc ihr =>
    rw [gather, gather, List.flatMap_append, List.flatMap_append, List.flatMap_singleton, ihr]
    cases stops n with
    | true => rfl
    | false => simp only [Bool.false_eq_true, if_false, ihc]

theorem Node.aroundNames_eq_nil {t : Node} (h : t.declaresAround = false) : t.aroundNames = [] := by
  simp only [Node.declaresAround, Bool.or_eq_false_iff, Bool.and_eq_false_iff, beq_eq_false_iff_ne] at h
  obtain ⟨⟨⟨hlexical, hclass⟩, hfunction⟩, hgenerator⟩ := h
  unfold Node.aroundNames
  split
  · simp [Scope.outerName?, hfunction, hgenerator]
  · simp [Scope.className?, hclass]
  · rename_i hkind
    exact if_neg (by simpa [hkind] using hlexical)
  · rfl

namespace Wraps

variable {c w : Node}

theorem opensScope (h : Wraps c w) : w.opensScope = true := by simp [Node.opensScope, h.kind]

theorem hostsVars (h : Wraps c w) : w.hostsVars = false := by simp [Node.hostsVars, h.kind]

theorem isVarDeclaration (h : Wraps c w) : w.isVarDeclaration = false := by simp [Node.isVarDeclaration, h.kind]

theorem assignedName? (h : Wraps c w) : w.assignedName? = none := by simp [Node.assignedName?, h.kind]

theorem bindingNames (h : Wraps c w) : w.bindingNames = c.bindingNames := by
  rw [Node.bindingNames_eq_nil h.plain, Node.bindingNames_eq_nil (by simp [h.kind])]

/-- The statement gives nothing to the scope around it, so neither the scope around the block nor the block
misses or gets a name. -/
theorem gather_aroundNames (h : Wraps c w) : gather Node.opensScope Node.aroundNames [c] = [] := by
  rw [gather_eq_flatMap_give, List.flatMap_eq_nil_iff]
  intro t ht
  exact Node.aroundNames_eq_nil (h.keeps t ht)

theorem gather_around (h : Wraps c w) :
    gather Node.opensScope Node.aroundNames [w] = gather Node.opensScope Node.aroundNames [c] := by
  have hown : w.aroundNames = [] := by simp [Node.aroundNames, h.kind]
  rw [h.gather_aroundNames, gather, gather, hown, h.opensScope]
  rfl

/-- What is hoisted out of the statement is hoisted out of the block. -/
theorem gather_hoisted (h : Wraps c w) :
    gather Node.hostsVars Node.hoistedNames [w] = gather Node.hostsVars Node.hoistedNames [c] := by
  have hown : w.hoistedNames = [] := by simp [Node.hoistedNames, h.isVarDeclaration]
  rw [gather, hown, h.hostsVars, h.only, gather.eq_1]
  simp

/-- The new scope binds nothing. -/
theorem scopeNames (h : Wraps c w) : Scope.scopeNames w = [] := by
  have hown : w.ownNames = [] := by simp [Node.ownNames, h.kind]
  rw [Scope.scopeNames, hown, h.only, h.gather_aroundNames, h.hostsVars]
  rfl

/-- So every name that the statement leaves open passes it. -/
theorem openNames (h : Wraps c w) : Scope.openNames [w] = Scope.openNames [c] := by
  rw [Scope.openNames, h.assignedName?, h.opensScope, h.scopeNames, h.only, Scope.openNames.eq_1]
  simp

end Wraps

variable {host other : Node → Bool} {n m : Node}

namespace Enclosed

theorem mono (h : Enclosed host n m) (hall : ∀ t ∈ n.preorder, host t = true → other t = true) :
    Enclosed other n m := by
  induction h with
  | here n m c w before after takes split wraps label children =>
    refine .here n m c w before after (hall n ?_ takes) split wraps label children
    rw [Node.preorder_eq]
    exact List.mem_cons_self
  | inside n c d before after split deeper ih =>
    refine .inside n c d before after split (ih fun t ht => hall t ?_)
    rw [Node.preorder_eq, split, List.flatMap_append, List.flatMap_cons]
    simp [ht]

theorem altered (h : Enclosed Node.isBody n m) : Altered n m := by
  induction h with
  | here n m c w before after takes split wraps label children => exact .body n m takes label
  | inside n c d before after split deeper ih => exact .inside n c d before after split ih

theorem label (h : Enclosed host n m) : m.label = n.label := by
  cases h with
  | here n m c w before after takes split wraps label children => exact label
  | inside n c d before after split deeper => rfl

theorem kind (h : Enclosed host n m) : m.kind = n.kind := congrArg Label.kind h.label

theorem opensScope (h : Enclosed host n m) : m.opensScope = n.opensScope := by
  unfold Node.opensScope
  rw [h.kind]

theorem hostsVars (h : Enclosed host n m) : m.hostsVars = n.hostsVars := by
  unfold Node.hostsVars
  rw [h.kind]

theorem isVarDeclaration (h : Enclosed host n m) : m.isVarDeclaration = n.isVarDeclaration := by
  unfold Node.isVarDeclaration
  rw [h.kind, h.label]

/-- What is collected from the children stays if a block gives what its statement gives, and a tree gives what it
gave whenever its children do. -/
theorem flatMap_children {α : Type} {f : Node → List α} (hwraps : ∀ c w, Wraps c w → f w = f c)
    (hf : ∀ c d, Enclosed host c d → d.children.flatMap f = c.children.flatMap f → f d = f c)
    (h : Enclosed host n m) : m.children.flatMap f = n.children.flatMap f := by
  induction h with
  | here n m c w before after takes split wraps label children =>
    rw [children, split, List.flatMap_append, List.flatMap_append, List.flatMap_cons, List.flatMap_cons,
      hwraps c w wraps]
  | inside n c d before after split deeper ih =>
    rw [split, List.flatMap_append, List.flatMap_append, List.flatMap_cons, List.flatMap_cons, hf c d deeper ih]

/-! ## Names given to scopes -/

theorem parameterNames (h : Enclosed Node.isBody n m) (hn : n.isBody = false) :
    Scope.parameterNames m = Scope.parameterNames n := by
  unfold Scope.parameterNames
  rw [h.altered.namesUnder hn "parameter"]
  cases h with
  | here n m c w before after takes split wraps label children => cases hn.symm.trans takes
  | inside n c d before after split deeper =>
    rcases child?_below (d := d) split "parameters" with hsame | ⟨hc, hd⟩
    · rw [hsame]
    · rw [hc, hd]
      -- nothing says that the list of parameters is no block, so it may hold the new one
      have htargets := deeper.flatMap_children (fun _ _ => Wraps.bindingNames) fun _ _ htv _ => htv.altered.bindingNames
      exact congrArg (· ++ _) htargets

/-- A node that is no body has its own names and its place among scopes as before. -/
theorem alike (h : Enclosed Node.isBody n m) (hn : n.isBody = false) : n.Alike m where
  label := h.label
  named := by
    rcases h.altered.child? hn "name" with hsame | ⟨c, d, hc, hd, hcd⟩
    · rw [hsame]
    · rw [hc, hd, Option.map_some, Option.map_some, hcd.label]
  bound := .of_eq (h.altered.boundNames hn)
  caught := h.altered.namesUnder hn "parameter"
  parameters := .of_eq (h.parameterNames hn)

theorem aroundNames (h : Enclosed Node.isBody n m) : m.aroundNames = n.aroundNames := by
  unfold Node.aroundNames
  rw [h.kind]
  cases hn : n.isBody with
  | true => rcases Node.kind_of_isBody hn with hk | hk <;> rw [hk]
  | false => rw [h.label, (h.alike hn).outerName?, (h.alike hn).className?, h.altered.boundNames hn]

theorem hoistedNames (h : Enclosed Node.isBody n m) : m.hoistedNames = n.hoistedNames := by
  unfold Node.hoistedNames
  rw [h.isVarDeclaration]
  cases hn : n.isBody with
  | true => rcases Node.kind_of_isBody hn with hk | hk <;> simp [Node.isVarDeclaration, hk]
  | false => rw [h.altered.boundNames hn]

theorem ownNames (h : Enclosed Node.isBody n m) : m.ownNames = n.ownNames := by
  unfold Node.ownNames
  rw [h.kind]
  cases hn : n.isBody with
  | true => rcases Node.kind_of_isBody hn with hk | hk <;> rw [hk]
  | false => rw [(h.alike hn).innerName?, h.parameterNames hn, h.altered.namesUnder hn "parameter"]

/-! ## Scopes -/

theorem gather_children {stops : Node → Bool} {give : Node → List String} (h : Enclosed Node.isBody n m)
    (hwraps : ∀ c w, Wraps c w → gather stops give [w] = gather stops give [c])
    (hstops : ∀ c d, Enclosed Node.isBody c d → stops d = stops c)
    (hgive : ∀ c d, Enclosed Node.isBody c d → give d = give c) :
    gather stops give m.children = gather stops give n.children := by
  rw [gather_eq_flatMap, gather_eq_flatMap stops give n.children]
  refine flatMap_children hwraps (fun c d hcd hbelow => ?_) h
  rw [← gather_eq_flatMap, ← gather_eq_flatMap] at hbelow
  simp only [gather, hstops c d hcd, hgive c d hcd, hbelow]

/-- A scope binds what it bound. -/
theorem scopeNames (h : Enclosed Node.isBody n m) : Scope.scopeNames m = Scope.scopeNames n := by
  have haround := h.gather_children (fun _ _ => Wraps.gather_around) (fun _ _ => opensScope) (fun _ _ => aroundNames)
  have hhoisted := h.gather_children (fun _ _ => Wraps.gather_hoisted) (fun _ _ => hostsVars) (fun _ _ => hoistedNames)
  rw [Scope.scopeNames, Scope.scopeNames, h.ownNames, h.hostsVars, haround, hhoisted]

/-- The children of every node leave the names open that they left open. -/
theorem openNames_children (h : Enclosed Node.isBody n m) :
    Scope.openNames m.children = Scope.openNames n.children := by
  rw [openNames_eq_flatMap, openNames_eq_flatMap n.children]
  refine flatMap_children (fun _ _ => Wraps.openNames) (fun c d hcd hbelow => ?_) h
  rw [← openNames_eq_flatMap, ← openNames_eq_flatMap] at hbelow
  simp only [Scope.openNames, hcd.altered.assignedName?, hcd.opensScope, hcd.scopeNames, hbelow]

theorem assignedNames (h : Enclosed Node.isBody n m) : Advice.assignedNames m = Advice.assignedNames n := by
  unfold Advice.assignedNames
  rw [List.filterMap_flatMap, List.filterMap_flatMap]
  refine flatMap_children (fun c w hwraps => ?_) (fun c d hcd hbelow => ?_) h
  · rw [Node.walk_eq, Node.walk_eq, Node.preorder_eq, hwraps.only, List.flatMap_singleton,
      List.filterMap_cons_none hwraps.assignedName?]
  · simp only [Node.walk_eq] at hbelow ⊢
    rw [← List.filterMap_flatMap, ← List.filterMap_flatMap] at hbelow
    rw [Node.preorder_eq, Node.preorder_eq c, List.filterMap_cons, List.filterMap_cons, hcd.altered.assignedName?,
      hbelow]

/-! ## What stays of a tree -/

/-- Every node below the root had its label before or is a new block. -/
theorem label_below (h : Enclosed host n m) {t : Node} (ht : t ∈ m.descendants) :
    (∃ v ∈ n.descendants, v.label = t.label) ∨ t.kind = .block ∧ t.type = "statement_block" := by
  unfold Node.descendants at ht ⊢
  induction h with
  | here n m c w before after takes split wraps label children =>
    rw [children, List.flatMap_append, List.flatMap_cons, Node.preorder_eq w, wraps.only, List.flatMap_singleton] at ht
    rw [split, List.flatMap_append, List.flatMap_cons]
    simp only [List.mem_append, List.mem_cons] at ht ⊢
    rcases ht with ht | (rfl | ht) | ht
    · exact .inl ⟨t, .inl ht, rfl⟩
    · exact .inr ⟨wraps.kind, wraps.type⟩
    · exact .inl ⟨t, .inr (.inl ht), rfl⟩
    · exact .inl ⟨t, .inr (.inr ht), rfl⟩
  | inside n c d before after split deeper ih =>
    simp only [List.flatMap_append, List.flatMap_cons, Node.preorder_eq d] at ht
    rw [split, List.flatMap_append, List.flatMap_cons, Node.preorder_eq c]
    simp only [List.mem_append, List.mem_cons] at ht ⊢
    rcases ht with ht | (rfl | ht) | ht
    · exact .inl ⟨t, .inl ht, rfl⟩
    · exact .inl ⟨c, .inr (.inl (.inl rfl)), deeper.label.symm⟩
    · rcases ih ht with ⟨v, hv, hlabel⟩ | hnew
      · exact .inl ⟨v, .inr (.inl (.inr hv)), hlabel⟩
      · exact .inr hnew
    · exact .inl ⟨t, .inr (.inr ht), rfl⟩

end Enclosed
end LetOrConst.Tree

namespace LetOrConst.Advice

open LetOrConst.Tree LetOrConst.Tree.Sample LetOrConst.Scope

variable {mode : Resolution} {n m : Node} {reached : List String}

/-! ## One step -/

theorem passedDown_enclosed (h : Enclosed Node.isBody n m) : passedDown mode reached m = passedDown mode reached n := by
  cases mode with
  | byName => rfl
  | byScope =>
    show reachedBelow reached m = reachedBelow reached n
    rw [reachedBelow, reachedBelow, h.hostsVars, h.openNames_children]

theorem passedDown_wraps {c w : Node} (h : Wraps c w) : passedDown mode reached w = reached := by
  cases mode with
  | byName => rfl
  | byScope => exact if_neg (by simp [h.hostsVars])

theorem facing_wraps {c w : Node} (h : Wraps c w) :
    facing (passedDown mode) reached [w] = facing (passedDown mode) reached [c] := by
  rw [facing, h.isVarDeclaration, passedDown_wraps h, h.only, facing.eq_1]
  simp

/-- The issue of a node, if it is a declaration, stays. -/
theorem issueOf_enclosed (h : Enclosed Node.isBody n m) (hvar : n.isVarDeclaration = true) :
    issueOf (judgedNames mode) reached m = issueOf (judgedNames mode) reached n := by
  have hn : n.isBody = false := by
    rw [Node.isVarDeclaration, Bool.and_eq_true, beq_iff_eq] at hvar
    simp [Node.isBody, Node.holdsStatements, hvar.1]
  have hnames : judgedNames mode m = judgedNames mode n := by
    cases mode with
    | byName => exact h.altered.declaredNames hn
    | byScope => exact h.altered.boundNames hn
  unfold issueOf Verdict.issue Node.line Node.column
  rw [hnames, h.label]

/-- The issues of some trees under the names passed down to them. -/
def issuesFacing (mode : Resolution) (reached : List String) (ns : List Node) : List Issue :=
  (facing (passedDown mode) reached ns).map fun d => issueOf (judgedNames mode) d.2 d.1

theorem issuesFacing_append (ns ms : List Node) :
    issuesFacing mode reached (ns ++ ms) = issuesFacing mode reached ns ++ issuesFacing mode reached ms := by
  rw [issuesFacing, facing_append, List.map_append]
  rfl

theorem issuesFacing_cons (ns : List Node) :
    issuesFacing mode reached (n :: ns) = issuesFacing mode reached [n] ++ issuesFacing mode reached ns :=
  issuesFacing_append [n] ns

theorem issuesFacing_node (h : Enclosed Node.isBody n m)
    (hbelow : ∀ reached, issuesFacing mode reached m.children = issuesFacing mode reached n.children) :
    issuesFacing mode reached [m] = issuesFacing mode reached [n] := by
  have hkids := hbelow (passedDown mode reached n)
  unfold issuesFacing at hkids ⊢
  simp only [facing, List.map_append, List.append_nil, h.isVarDeclaration, passedDown_enclosed h, hkids]
  cases hvar : n.isVarDeclaration with
  | false => rfl
  | true => simp [issueOf_enclosed h hvar]

/-- Every declaration of a tree is judged as before. -/
theorem issuesFacing_enclosed (h : Enclosed Node.isBody n m) :
    issuesFacing mode reached [m] = issuesFacing mode reached [n] := by
  induction h generalizing reached with
  | here n m c w before after takes split wraps label children =>
    refine issuesFacing_node (.here n m c w before after takes split wraps label children) fun reached => ?_
    have hnew : issuesFacing mode reached [w] = issuesFacing mode reached [c] :=
      congrArg (List.map _) (facing_wraps wraps)
    rw [children, split, issuesFacing_append, issuesFacing_append, issuesFacing_cons, hnew, ← issuesFacing_cons]
  | inside n c d before after split deeper ih =>
    refine issuesFacing_node (.inside n c d before after split deeper) fun reached => ?_
    rw [split, issuesFacing_append, issuesFacing_append, issuesFacing_cons, ih, ← issuesFacing_cons]

/-- A tree whose root is its only program, and where no pair of parentheses passes for a body. -/
structure Regular (tree : Node) : Prop where
  sole : SoleProgram tree
  bodies : ∀ t ∈ tree.preorder, t.holdsStatements = true → t.isBody = true

theorem Regular.enclosed {tree wrapped : Node} (htree : Regular tree) (h : Enclosed Node.holdsStatements tree wrapped) :
    Regular wrapped := by
  have hsame : ∀ v ∈ tree.preorder, ∀ t : Node, v.label = t.label → t.holdsStatements = true → t.isBody = true := by
    intro v hv t hlabel hholds
    have hstatements : v.holdsStatements = t.holdsStatements := by simp only [Node.holdsStatements, Node.kind, hlabel]
    have hbody : v.isBody = t.isBody := by simp only [Node.isBody, Node.type, hstatements, hlabel]
    rw [← hbody]
    exact htree.bodies v hv (hstatements.trans hholds)
  refine ⟨⟨h.kind.trans htree.sole.isProgram, fun t ht hprogram => ?_⟩, fun t ht hholds => ?_⟩
  · rcases h.label_below ht with ⟨v, hv, hlabel⟩ | ⟨hkind, -⟩
    · exact htree.sole.below v hv ((congrArg Label.kind hlabel).trans hprogram)
    · cases hkind.symm.trans hprogram
  · rw [Node.preorder_eq, List.mem_cons] at ht
    rcases ht with rfl | ht
    · refine hsame tree ?_ t h.label.symm hholds
      rw [Node.preorder_eq]
      exact List.mem_cons_self
    · rcases h.label_below ht with ⟨v, hv, hlabel⟩ | ⟨hkind, htype⟩
      · refine hsame v ?_ t hlabel hholds
        rw [Node.preorder_eq]
        exact List.mem_cons_of_mem _ hv
      · simp [Node.isBody, Node.holdsStatements, hkind, htype]

theorem issues_step {tree wrapped : Node} (htree : Regular tree) (h : Enclosed Node.holdsStatements tree wrapped)
    (mode : Resolution) : issues mode wrapped = issues mode tree := by
  have hbody := h.mono htree.bodies
  have hfirst : passedFirst mode wrapped = passedFirst mode tree := by
    cases mode with
    | byName => exact hbody.assignedNames
    | byScope => rfl
  have hfacing : issuesFacing mode (passedFirst mode tree) [wrapped] =
      issuesFacing mode (passedFirst mode tree) [tree] := issuesFacing_enclosed hbody
  rw [issues_eq_facing htree.sole, issues_eq_facing (htree.enclosed h).sole, hfirst]
  exact congrArg Except.ok hfacing

/-! ## Any number of steps -/

theorem issues_run {tree wrapped : Node} (htree : Regular tree)
    (h : Relation.ReflTransGen (Enclosed Node.holdsStatements) tree wrapped) (mode : Resolution) :
    Regular wrapped ∧ issues mode wrapped = issues mode tree := by
  induction h with
  | refl => exact ⟨htree, rfl⟩
  | tail _ hstep ih => exact ⟨ih.1.enclosed hstep, (issues_step ih.1 hstep mode).trans ih.2⟩

/-- However often a child of a program or block of a parsed tree is put into a block of its own, where it declares
nothing in the scope that it stood in, all issues stay as they are. -/
theorem issues_enclosed {grammar : Document.Grammar} {source : String} {identity : Option String} {tree wrapped : Node}
    (hparse : Document.parse grammar (some source) identity = .ok tree) (htype : (grammar source).type = "program")
    (hsole : ∀ m ∈ (grammar source).walk.tail, m.type ≠ "program")
    (h : Relation.ReflTransGen (Enclosed Node.holdsStatements) tree wrapped) (mode : Resolution) :
    ∃ found, issues mode tree = .ok found ∧ issues mode wrapped = .ok found := by
  obtain rfl := Document.eq_ofGrammar_of_parse hparse
  have htree : Regular (ofGrammar (Text.Utf8.encode source.toList) (grammar source)) :=
    ⟨soleProgram_ofGrammar _ htype hsole, fun _ ht => isBody_of_holdsStatements ht⟩
  have hfound := issues_eq_facing htree.sole mode
  exact ⟨_, hfound, (issues_run htree h mode).2.trans hfound⟩

/-- A declaration, and a block that shadows its name and assigns it. -/
def shadowText : String := "var x; \x7b let x; x = 1; \x7d"

/-- Its grammar tree. -/
def shadowTree : Grammar.Node where
  type := "program"
  span := ⟨0, 24⟩
  children := [
    { type := "variable_declaration", span := ⟨0, 6⟩, children := [
      { type := "var", span := ⟨0, 3⟩, named := false },
      { type := "variable_declarator", point := ⟨0, 4⟩, span := ⟨4, 5⟩, children := [
        { type := "identifier", point := ⟨0, 4⟩, span := ⟨4, 5⟩, field := some "name" }] },
      { type := ";", point := ⟨0, 5⟩, span := ⟨5, 6⟩, named := false }] },
    { type := "statement_block", point := ⟨0, 7⟩, span := ⟨7, 24⟩, children := [
      { type := "\x7b", point := ⟨0, 7⟩, span := ⟨7, 8⟩, named := false },
      { type := "lexical_declaration", point := ⟨0, 9⟩, span := ⟨9, 15⟩, children := [
        { type := "let", point := ⟨0, 9⟩, span := ⟨9, 12⟩, named := false, field := some "kind" },
        { type := "variable_declarator", point := ⟨0, 13⟩, span := ⟨13, 14⟩, children := [
          { type := "identifier", point := ⟨0, 13⟩, span := ⟨13, 14⟩, field := some "name" }] },
        { type := ";", point := ⟨0, 14⟩, span := ⟨14, 15⟩, named := false }] },
      { type := "expression_statement", point := ⟨0, 16⟩, span := ⟨16, 22⟩, children := [
        { type := "assignment_expression", point := ⟨0, 16⟩, span := ⟨16, 21⟩, children := [
          { type := "identifier", point := ⟨0, 16⟩, span := ⟨16, 17⟩, field := some "left" },
          { type := "=", point := ⟨0, 18⟩, span := ⟨18, 19⟩, named := false },
          { type := "number", point := ⟨0, 20⟩, span := ⟨20, 21⟩, field := some "right" }] },
        { type := ";", point := ⟨0, 21⟩, span := ⟨21, 22⟩, named := false }] },
      { type := "\x7d", point := ⟨0, 23⟩, span := ⟨23, 24⟩, named := false }] }]

/-- The declaration in the tree of the text. -/
def shadowedVar : Node where
  label := { kind := .declaration, type := "variable_declaration", keyword := some .kwVar }
  children := [
    { label := { kind := .declarator, type := "variable_declarator", column := 5 }
      children := [{ label := { kind := .identifier, type := "identifier", column := 5, name := some "x" } }]
      fields := [("name", .child 0)] }]

/-- The block in it. -/
def shadowingBlock : Node where
  label := { kind := .block, type := "statement_block", column := 8 }
  children := [
    { label := { kind := .declaration, type := "lexical_declaration", column := 10, keyword := some .kwLet }
      children := [
        { label := { kind := .declarator, type := "variable_declarator", column := 14 }
          children := [{ label := { kind := .identifier, type := "identifier", column := 14, name := some "x" } }]
          fields := [("name", .child 0)] }] },
    { label := { kind := .other, type := "expression_statement", column := 17 }
      children := [
        { label := { kind := .assignment, type := "assignment_expression", column := 17, operator := some "=" }
          children := [
            { label := { kind := .identifier, type := "identifier", column := 17, name := some "x" } },
            { label := { kind := .other, type := "number", column := 21 } }]
          fields := [("left", .child 0), ("right", .child 1)] }] }]

theorem issues_enclosed_shadow :
    Document.parse (fun _ => shadowTree) (some shadowText) none = .ok (program [shadowedVar, shadowingBlock]) ∧
      Relation.ReflTransGen (Enclosed Node.holdsStatements) (program [shadowedVar, shadowingBlock])
        (program [block [block [shadowedVar]], block [shadowingBlock]]) ∧
      issues .byName (program [block [block [shadowedVar]], block [shadowingBlock]]) =
        .ok [⟨"prefer_let", 1, 1, "Consider using 'let' instead of 'var' here due to reassignment."⟩] ∧
      issues .byScope (program [block [block [shadowedVar]], block [shadowingBlock]]) =
        .ok [⟨"prefer_const", 1, 1, "Consider using 'const' instead of 'var' here."⟩] ∧
      ∀ mode, ∃ found, issues mode (program [shadowedVar, shadowingBlock]) = .ok found ∧
        issues mode (program [block [block [shadowedVar]], block [shadowingBlock]]) = .ok found := by
  have hparse : Document.parse (fun _ => shadowTree) (some shadowText) none =
      .ok (program [shadowedVar, shadowingBlock]) := by
    have htree : ofGrammar (Text.Utf8.encode shadowText.toList) shadowTree = program [shadowedVar, shadowingBlock] := by
      with_unfolding_all rfl
    rw [← htree]
    exact parse_clean (by decide) (by decide +kernel) none
  have hvar : Wraps shadowedVar (block [shadowedVar]) := ⟨by decide, by decide +kernel, rfl, rfl, rfl⟩
  have hblock : Wraps shadowingBlock (block [shadowingBlock]) := ⟨by decide, by decide +kernel, rfl, rfl, rfl⟩
  have hfirst : Enclosed Node.holdsStatements (program [shadowedVar, shadowingBlock])
      (program [block [shadowedVar], shadowingBlock]) := .here _ _ _ _ [] _ rfl rfl hvar rfl rfl
  have hsecond : Enclosed Node.holdsStatements (program [block [shadowedVar], shadowingBlock])
      (program [block [block [shadowedVar]], shadowingBlock]) :=
    .inside _ (block [shadowedVar]) (block [block [shadowedVar]]) [] _ rfl (.here _ _ _ _ [] [] rfl rfl hvar rfl rfl)
  have hthird : Enclosed Node.holdsStatements (program [block [block [shadowedVar]], shadowingBlock])
      (program [block [block [shadowedVar]], block [shadowingBlock]]) := .here _ _ _ _ [_] [] rfl rfl hblock rfl rfl
  have hrun := Relation.ReflTransGen.head hfirst (.head hsecond (.single hthird))
  exact ⟨hparse, hrun, by decide +kernel, by decide +kernel,
    issues_enclosed hparse rfl (by decide +kernel) hrun⟩

end LetOrConst.Advice
