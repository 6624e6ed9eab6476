/-
Resolving refines matching by text. Both ways judge the same `var` declarations at the same places.
Where the targets of a declaration are plain, the names it binds are the names it declares, so an
assignment that reaches it also matches it by text; and where the program is the only scope, every
assignment to one of its names reaches it.
-/
import LetOrConst.Proofs.Advice.Judge

namespace LetOrConst.Tree

/-- No declarator has a pattern as its target. -/
def Node.HasPlainTargets (d : Node) : Prop :=
  ∀ c ∈ d.declarators, ∀ target, c.child? "name" = some target → target.kind ≠ .pattern

/-- The program is the only scope of a tree. -/
def Node.HasNoInnerScope (root : Node) : Prop :=
  ∀ m ∈ root.preorder, m.kind ≠ .function ∧ m.kind ≠ .block ∧ m.kind ≠ .forLoop ∧ m.kind ≠ .catchClause

theorem Node.bindingNames_of_ne_pattern {n : Node} (h : n.kind ≠ .pattern) :
    n.bindingNames = if n.kind = .identifier then n.properName?.toList else [] := by
  rw [bindingNames, if_neg h]

/-- A declaration with plain targets binds the names it declares. -/
theorem Node.boundNames_eq_declaredNames {d : Node} (h : d.HasPlainTargets) : d.boundNames = d.declaredNames := by
  unfold boundNames declaredNames
  rw [List.filterMap_eq_flatMap_toList]
  refine List.flatMap_congr fun c hc => ?_
  unfold namesUnder
  cases hname : c.child? "name" with
  | none => rfl
  | some target =>
    simp only
    rw [bindingNames_of_ne_pattern (h c hc target hname)]
    split <;> rfl

theorem mem_descendants {root : Node} {p : Place} (hp : p ∈ Place.inner ⟨⟨0, 0, root⟩, []⟩) :
    p.node ∈ root.descendants := by
  unfold Node.descendants
  rw [← placesAll_nodes [⟨0, 0, root⟩] 1 (Spot.rankBelow ⟨0, 0, root⟩) root.children]
  exact List.mem_map_of_mem hp

theorem exists_place_of_mem_descendants {root m : Node} (hm : m ∈ root.descendants) :
    ∃ p ∈ Place.inner ⟨⟨0, 0, root⟩, []⟩, p.node = m := by
  unfold Node.descendants at hm
  rw [← placesAll_nodes [⟨0, 0, root⟩] 1 (Spot.rankBelow ⟨0, 0, root⟩) root.children] at hm
  exact List.mem_map.1 hm

end LetOrConst.Tree

namespace LetOrConst.Scope

open LetOrConst.Tree

variable {root : Node} {d : Place}

/-- An assignment that reaches a declaration with plain targets matches it by text. -/
theorem matched_of_reassigned (h : SoleProgram root) (hplain : d.node.HasPlainTargets) (hagain : Reassigned root d) :
    ∃ a ∈ root.descendants, ∃ x ∈ d.node.declaredNames, Assigns a x := by
  obtain ⟨a, ha, x, hx, hassigns, -⟩ := hagain
  rw [Node.boundNames_eq_declaredNames hplain] at hx
  refine ⟨a.node, ?_, x, hx, hassigns⟩
  rw [Node.places_eq, List.mem_cons] at ha
  rcases ha with rfl | ha
  · have hkind : root.kind = .assignment := hassigns.1
    rw [h.isProgram] at hkind
    cases hkind
  · exact mem_descendants ha

/-! ## A single scope -/

theorem opensScope_below (h : SoleProgram root) (hflat : root.HasNoInnerScope) {m : Node} (hm : m ∈ root.descendants) :
    m.opensScope = false := by
  have hprogram := h.below m hm
  obtain ⟨hf, hb, hl, hc⟩ := hflat m (by rw [Node.preorder_eq]; exact List.mem_cons_of_mem _ hm)
  unfold Node.opensScope
  cases hk : m.kind <;> simp_all

/-- Where the program is the only scope, it is the only scope node above a place. -/
theorem eq_root_of_opensScope (h : SoleProgram root) (hflat : root.HasNoInnerScope) (hd : d ∈ root.places) {t : Spot}
    (ht : t ∈ d.above) (ho : t.node.opensScope = true) : t = ⟨0, 0, root⟩ := by
  obtain ⟨inner, outer, habove⟩ := List.append_of_mem ht
  have hplace := (mem_of_above hd habove).1
  rw [Node.places_eq, List.mem_cons] at hplace
  rcases hplace with hroot | hinner
  · exact congrArg Place.toSpot hroot
  · have hclosed := opensScope_below h hflat (mem_descendants hinner)
    rw [ho] at hclosed
    cases hclosed

theorem nearest?_hostsVars_eq_root (h : SoleProgram root) (hflat : root.HasNoInnerScope) (hd : d ∈ root.places)
    (hvar : d.node.isVarDeclaration = true) : d.nearest? Node.hostsVars = some ⟨0, 0, root⟩ := by
  have hne : d.node.kind ≠ .program := by
    intro hk
    simp [Node.isVarDeclaration, hk] at hvar
  obtain ⟨t, ht⟩ := exists_nearest h h.hostsVars hd hne
  have hhost : t.node.hostsVars = true := by simpa using List.find?_some ht
  rw [ht, eq_root_of_opensScope h hflat hd (List.mem_of_find?_eq_some ht) (Node.opensScope_of_hostsVars hhost)]

/-- Where the program is the only scope, what matches a declaration by text reaches it. -/
theorem reassigned_of_matched (h : SoleProgram root) (hflat : root.HasNoInnerScope) (hd : d ∈ root.places)
    (hvar : d.node.isVarDeclaration = true) {m : Node} (hm : m ∈ root.descendants) {x : String}
    (hx : x ∈ d.node.boundNames) (hassigns : Assigns m x) : Reassigned root d := by
  obtain ⟨a, ha, rfl⟩ := exists_place_of_mem_descendants hm
  have hroot : ⟨⟨0, 0, root⟩, []⟩ ∈ root.places := mem_placesAll_cons.2 (.inl rfl)
  have hnear := nearest?_hostsVars_eq_root h hflat hd hvar
  obtain ⟨hmem, way, habove⟩ := (mem_inner_iff hroot).1 ha
  refine ⟨a, hmem, x, hx, hassigns, _, hnear, way, [], habove, h.opensScope, .hoisted d hd hnear hvar hx, ?_⟩
  -- a scope node on the way would be the program, below which the place stands once only
  intro t ht hto
  obtain ⟨inner, outer, hway⟩ := List.append_of_mem ht
  have hsplit : a.above = inner ++ t :: (outer ++ [⟨0, 0, root⟩]) := by rw [habove, hway]; simp
  have hplace := (mem_of_above hmem hsplit).1
  have hspot := eq_root_of_opensScope h hflat hmem (habove ▸ List.mem_append_left _ ht) hto
  have heq := eq_of_number_eq hroot hplace (by rw [hspot])
  simp at heq

end LetOrConst.Scope

namespace LetOrConst.Advice

open LetOrConst.Tree LetOrConst.Tree.Sample LetOrConst.Scope

variable {root : Node}

/-- Whether a declaration matches an assignment by text. -/
def isMatched (root d : Node) : Bool := d.declaredNames.any (assignedNames root).contains

theorem isMatched_iff {d : Node} :
    isMatched root d = true ↔ ∃ a ∈ root.descendants, ∃ x ∈ d.declaredNames, Assigns a x := by
  unfold isMatched
  simp only [List.any_eq_true, List.contains_iff_mem, mem_assignedNames]
  constructor
  · rintro ⟨x, hx, a, ha, hassigns⟩
    exact ⟨a, ha, x, hx, hassigns⟩
  · rintro ⟨a, ha, x, hx, hassigns⟩
    exact ⟨x, hx, a, ha, hassigns⟩

theorem issues_byName_eq (root : Node) :
    issues .byName root = .ok ((root.places.filter (·.node.isVarDeclaration)).map fun d =>
      (Verdict.ofReassigned (isMatched root d.node)).issue d.node) := by
  have hname : issuesByName root = (varDeclarations root).map fun d =>
      (Verdict.ofReassigned (isMatched root d.1)).issue d.1 := rfl
  rw [varDeclarations_eq, List.map_map] at hname
  exact congrArg Except.ok hname

theorem kind_eq_prefer_let {b : Bool} {d : Node} :
    ((Verdict.ofReassigned b).issue d).kind = "prefer_let" ↔ b = true := by
  cases b <;> simp [Verdict.ofReassigned, Verdict.issue, Verdict.kind]

/-- Both ways yield issues at the same places. For a declaration with plain targets `let` is advised
by text whenever it is by resolving, and in a tree without inner scopes both ways agree on it. -/
theorem issues_byScope_refines (h : SoleProgram root) :
    ∃ resolved matched, issues .byScope root = .ok resolved ∧ issues .byName root = .ok matched ∧
      List.Forall₂ (fun i j => i.line = j.line ∧ i.column = j.column) resolved matched ∧
      List.Forall₂ (fun (d : Node) i => i.line = d.line ∧ i.column = d.column)
        (root.preorder.filter Node.isVarDeclaration) resolved ∧
      ∀ (k : Nat) (d : Node) (i j : Issue),
        (root.preorder.filter Node.isVarDeclaration)[k]? = some d → resolved[k]? = some i →
        matched[k]? = some j → d.HasPlainTargets →
          (i.kind = "prefer_let" → j.kind = "prefer_let") ∧ (root.HasNoInnerScope → i = j) := by
  have hdecls : root.preorder.filter Node.isVarDeclaration =
      (root.places.filter (·.node.isVarDeclaration)).map (·.node) := by
    rw [← List.flatMap_singleton Node.preorder root, ← placesAll_nodes [] 0 0 [root], List.filter_map]
    rfl
  refine ⟨_, _, issues_byScope_eq h, issues_byName_eq root, ?_, ?_, ?_⟩
  · rw [List.forall₂_map_left_iff, List.forall₂_map_right_iff, List.forall₂_same]
    exact fun d _ => ⟨rfl, rfl⟩
  · rw [hdecls, List.forall₂_map_left_iff, List.forall₂_map_right_iff, List.forall₂_same]
    exact fun d _ => ⟨rfl, rfl⟩
  · intro k d i j hd hi hj hplain
    rw [hdecls, List.getElem?_map, Option.map_eq_some_iff] at hd
    rw [List.getElem?_map, Option.map_eq_some_iff] at hi hj
    obtain ⟨d, hk, rfl⟩ := hd
    obtain ⟨_, hk', rfl⟩ := hi
    cases hk.symm.trans hk'
    obtain ⟨_, hk', rfl⟩ := hj
    cases hk.symm.trans hk'
    obtain ⟨hmem, hvar⟩ := List.mem_filter.1 (List.mem_of_getElem? hk)
    have hrefines : isReached root d = true → isMatched root d.node = true := by
      rw [isReached_iff h hmem hvar, isMatched_iff]
      exact matched_of_reassigned h hplain
    refine ⟨?_, fun hflat => ?_⟩
    · rw [kind_eq_prefer_let, kind_eq_prefer_let]
      exact hrefines
    · have hback : isMatched root d.node = true → isReached root d = true := by
        rw [isReached_iff h hmem hvar, isMatched_iff, ← Node.boundNames_eq_declaredNames hplain]
        rintro ⟨a, ha, x, hx, hassigns⟩
        exact reassigned_of_matched h hflat hmem hvar ha hx hassigns
      rw [Bool.eq_iff_iff.2 ⟨hrefines, hback⟩]

/-- Two declarations at the top level, one of them assigned. -/
def single : Node := program [declaring .kwVar "x", assigning "x", declaring .kwVar "y"]

theorem issues_byScope_refines_single :
    SoleProgram single ∧ single.HasNoInnerScope ∧ (∀ d ∈ single.preorder, d.HasPlainTargets) ∧
      ∃ resolved matched, issues .byScope single = .ok resolved ∧ issues .byName single = .ok matched ∧
        List.Forall₂ (fun i j => i.line = j.line ∧ i.column = j.column) resolved matched ∧
        List.Forall₂ (fun (d : Node) i => i.line = d.line ∧ i.column = d.column)
          (single.preorder.filter Node.isVarDeclaration) resolved ∧
        ∀ (k : Nat) (d : Node) (i j : Issue), (single.preorder.filter Node.isVarDeclaration)[k]? = some d →
          resolved[k]? = some i → matched[k]? = some j → d.HasPlainTargets →
            (i.kind = "prefer_let" → j.kind = "prefer_let") ∧ (single.HasNoInnerScope → i = j) := by
  have hsole : SoleProgram single := ⟨rfl, by decide +kernel⟩
  refine ⟨hsole, ?_, ?_, issues_byScope_refines hsole⟩
  · unfold Node.HasNoInnerScope
    decide +kernel
  · intro d hd c hc target htarget
    have hall : ∀ d ∈ single.preorder, ∀ c ∈ d.declarators, ((c.child? "name").map (·.kind)) ≠ some .pattern := by
      decide +kernel
    have hkind := hall d hd c hc
    rw [htarget] at hkind
    simpa using hkind

end LetOrConst.Advice
