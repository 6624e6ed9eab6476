/-
The verdicts when names are matched by their text: one issue for every `var` declaration, in
document order, and `let` is advised exactly when some assignment below the root, to a plain name
and through any parentheses, has the text of one of the declared names.
-/
import LetOrConst.Advice
import LetOrConst.Proofs.Tree.Names
import LetOrConst.Proofs.Tree.Visit
import Mathlib.Data.List.Forall2

namespace LetOrConst.Advice

open LetOrConst.Tree

/-! ## What an issue says -/

/-- An issue stands at a declaration and advises `let` when it is assigned again, and else `const`. -/
structure Advises (again : Prop) (d : Node) (i : Issue) : Prop where
  line : i.line = d.line
  column : i.column = d.column
  prefersLet : again → i.kind = "prefer_let" ∧
    i.message = "Consider using 'let' instead of 'var' here due to reassignment."
  prefersConst : ¬ again → i.kind = "prefer_const" ∧ i.message = "Consider using 'const' instead of 'var' here."

theorem advises_ofReassigned (b : Bool) (d : Node) : Advises (b = true) d ((Verdict.ofReassigned b).issue d) := by
  refine ⟨rfl, rfl, ?_, ?_⟩
  · rintro rfl
    exact ⟨rfl, rfl⟩
  · intro h
    rw [Bool.not_eq_true] at h
    subst h
    exact ⟨rfl, rfl⟩

/-! ## What is collected -/

theorem isVarDeclaration_eq :
    Node.isVarDeclaration = fun d => decide (d.kind = .declaration ∧ d.label.keyword = some .kwVar) := by
  funext d
  rw [Node.isVarDeclaration, Bool.eq_iff_iff]
  simp

/-- Visiting some trees adds their declarations, numbered from the nodes entered before. -/
theorem fold_collector (ns : List Node) (c : Collected) :
    collector.fold ns c =
      { declarations := c.declarations ++ ((ns.flatMap Node.preorder).zipIdx c.entered).filter (·.1.isVarDeclaration)
        entered := c.entered + (ns.flatMap Node.preorder).length } := by
  induction ns using Node.forest_induction generalizing c with
  | nil => simp [Visitor.fold]
  | cons n rest ihc ihr =>
    have hnext : c.entered + 1 + (n.children.flatMap Node.preorder).length = c.entered + n.preorder.length := by
      rw [Node.preorder_eq, List.length_cons]
      omega
    have hself : ((n.preorder).zipIdx c.entered).filter (·.1.isVarDeclaration) =
        (if n.isVarDeclaration then [(n, c.entered)] else []) ++
          ((n.children.flatMap Node.preorder).zipIdx (c.entered + 1)).filter (·.1.isVarDeclaration) := by
      rw [Node.preorder_eq, List.zipIdx_cons, List.filter_cons]
      split <;> rfl
    rw [Visitor.fold, ihr]
    simp only [collector, if_true]
    rw [← collector, ihc]
    simp only [hnext, List.flatMap_cons, List.zipIdx_append, List.filter_append, hself, List.append_assoc,
      List.length_append, ← Nat.add_assoc]

/-- The collected declarations are those of the walk. -/
theorem varDeclarations_eq_filter (root : Node) :
    varDeclarations root = root.preorder.zipIdx.filter (·.1.isVarDeclaration) := by
  rw [varDeclarations, Visitor.visit_eq_fold, fold_collector, List.flatMap_singleton]
  exact List.nil_append _

/-! ## Matching by text -/

theorem map_fst_varDeclarations (root : Node) :
    (varDeclarations root).map (·.1) = root.preorder.filter Node.isVarDeclaration := by
  rw [varDeclarations_eq_filter]
  show (List.filter (Node.isVarDeclaration ∘ Prod.fst) _).map Prod.fst = _
  rw [← List.filter_map, List.zipIdx_map_fst]

theorem mem_assignedNames {root : Node} {x : String} :
    x ∈ assignedNames root ↔ ∃ a ∈ root.descendants, Assigns a x := by
  have hwalk : root.children.flatMap Node.walk = root.descendants := by
    unfold Node.descendants
    congr 1
    funext c
    exact c.walk_eq
  unfold assignedNames
  rw [hwalk, List.mem_filterMap]
  simp only [assigns_iff]

/-- Matching by text yields one issue for every `var` declaration in document order. It advises
`let` exactly when a plain name of the declaration is assigned anywhere below the root. -/
theorem issues_byName_verdicts (root : Node) :
    ∃ found, issues .byName root = .ok found ∧
      List.Forall₂ (fun d i => Advises (∃ a ∈ root.descendants, ∃ x ∈ d.declaredNames, Assigns a x) d i)
        (root.preorder.filter fun d => d.kind = .declaration ∧ d.label.keyword = some .kwVar) found := by
  refine ⟨_, rfl, ?_⟩
  unfold issuesByName
  rw [← isVarDeclaration_eq, ← map_fst_varDeclarations, List.forall₂_map_left_iff, List.forall₂_map_right_iff,
    List.forall₂_same]
  rintro ⟨d, i⟩ -
  have hagain : (∃ a ∈ root.descendants, ∃ x ∈ d.declaredNames, Assigns a x) ↔
      d.declaredNames.any (assignedNames root).contains = true := by
    simp only [List.any_eq_true, List.contains_iff_mem, mem_assignedNames]
    constructor
    · rintro ⟨a, ha, x, hx, h⟩
      exact ⟨x, hx, a, ha, h⟩
    · rintro ⟨x, hx, a, ha, h⟩
      exact ⟨a, ha, x, hx, h⟩
  rw [hagain]
  exact advises_ofReassigned _ d

end LetOrConst.Advice
