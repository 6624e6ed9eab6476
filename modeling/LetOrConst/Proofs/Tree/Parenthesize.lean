/-
Parentheses around the target of an assignment. One more pair goes around the left side of one assignment, anywhere in
a tree, and the field of the left side leads to it (`Parenthesized`). The parentheses are one more node that opens no
scope, every other node keeps its label, and no name is lost: assignments assign what they assigned, and all other
nodes bind and declare what they did (`Parenthesized.sameNames`).
-/
import LetOrConst.Proofs.Tree.Alter
import LetOrConst.Proofs.Tree.Place
import LetOrConst.Scope.Build

namespace LetOrConst.Tree

/-- A pair of parentheses around a node. -/
structure Parenthesizes (c w : Node) : Prop where
  kind : w.kind = .other
  type : w.type = "parenthesized_expression"
  only : w.children = [c]

/-- A tree becomes another when the left side of one of its assignments is put in parentheses. What else the fields of
that assignment lead to is left open. -/
inductive Parenthesized : Node → Node → Prop where
  /-- The left side of this assignment. -/
  | here (n m c w : Node) (before after : List Node) (assigns : n.kind = .assignment)
      (split : n.children = before ++ c :: after) (left : n.fields.lookup "left" = some (.child before.length))
      (wraps : Parenthesizes c w) (label : m.label = n.label) (children : m.children = before ++ w :: after)
      (now : m.child? "left" = some w) : Parenthesized n m
  /-- Somewhere in one of the children. -/
  | inside (n c d : Node) (before after : List Node) (split : n.children = before ++ c :: after)
      (deeper : Parenthesized c d) : Parenthesized n { n with children := before ++ d :: after }

/-- The parameters of a function stand in a list of parameters. -/
def Node.ListsParameters (n : Node) : Prop := n.kind = .function → ∀ t ∈ n.child? "parameters", t.kind = .parameters

instance (n : Node) : Decidable n.ListsParameters :=
  inferInstanceAs (Decidable (n.kind = .function → ∀ t ∈ n.child? "parameters", t.kind = .parameters))

/-- What scopes and verdicts read off a node is the same for another node. -/
structure Node.SameNames (n m : Node) : Prop where
  label : m.label = n.label
  named : (m.child? "name").map Node.label = (n.child? "name").map Node.label
  bound : m.boundNames = n.boundNames
  declared : m.declaredNames = n.declaredNames
  caught : m.namesUnder "parameter" = n.namesUnder "parameter"
  parameters : n.kind = .function → Scope.parameterNames m = Scope.parameterNames n

theorem Node.SameNames.refl (n : Node) : n.SameNames n := ⟨rfl, rfl, rfl, rfl, rfl, fun _ => rfl⟩

namespace Parenthesizes

variable {c w : Node}

theorem opensScope (h : Parenthesizes c w) : w.opensScope = false := by simp [Node.opensScope, h.kind]

theorem size (h : Parenthesizes c w) : w.size = c.size + 1 := by
  rw [Node.size_eq, h.only, List.flatMap_singleton, Node.size]

theorem scopeCount (h : Parenthesizes c w) : w.scopeCount = c.scopeCount := by
  rw [Node.scopeCount_eq, h.only, List.flatMap_singleton, h.opensScope, Node.scopeCount]
  rfl

theorem unwrapped (h : Parenthesizes c w) : w.unwrapped = c.unwrapped := Node.unwrapped_layer h.type h.only

end Parenthesizes

namespace Parenthesized

variable {n m : Node}

theorem label (h : Parenthesized n m) : m.label = n.label := by
  cases h with
  | here n m c w before after assigns split left wraps label => exact label
  | inside => rfl

theorem kind (h : Parenthesized n m) : m.kind = n.kind := congrArg Label.kind h.label

theorem child? (h : Parenthesized n m) (hn : n.kind ≠ .assignment) (field : String) :
    m.child? field = n.child? field ∨
      ∃ c d, n.child? field = some c ∧ m.child? field = some d ∧ Parenthesized c d := by
  cases h with
  | here n m c w before after assigns => exact absurd assigns hn
  | inside n c d before after split deeper =>
    rcases child?_below split field with hsame | ⟨hc, hd⟩
    · exact .inl hsame
    · exact .inr ⟨c, d, hc, hd, deeper⟩

/-! ## The nodes of the tree -/

/-- A property of all nodes below the root stays, if it stays of a node that changes and holds of the parentheses. -/
theorem forall_descendants {P : Node → Prop} (h : Parenthesized n m) (hstep : ∀ c d, Parenthesized c d → P c → P d)
    (hother : ∀ w : Node, w.kind = .other → P w) (hn : ∀ t ∈ n.descendants, P t) : ∀ t ∈ m.descendants, P t := by
  unfold Node.descendants at hn ⊢
  induction h with
  | here n m c w before after assigns split left wraps label children now =>
    rw [split] at hn
    rw [children]
    simp only [List.flatMap_append, List.flatMap_cons, List.mem_append, Node.preorder_eq w, wraps.only,
      List.flatMap_nil, List.append_nil, List.mem_cons] at hn ⊢
    rintro t (ht | (rfl | ht) | ht)
    · exact hn t (.inl ht)
    · exact hother t wraps.kind
    · exact hn t (.inr (.inl ht))
    · exact hn t (.inr (.inr ht))
  | inside n c d before after split deeper ih =>
    rw [split] at hn
    simp only [List.flatMap_append, List.flatMap_cons, List.mem_append, Node.preorder_eq c, Node.preorder_eq d,
      List.mem_cons] at hn ⊢
    rintro t (ht | (rfl | ht) | ht)
    · exact hn t (.inl ht)
    · exact hstep c t deeper (hn c (.inr (.inl (.inl rfl))))
    · exact ih (fun u hu => hn u (.inr (.inl (.inr hu)))) t ht
    · exact hn t (.inr (.inr ht))

theorem size (h : Parenthesized n m) : m.size = n.size + 1 := by
  induction h with
  | here n m c w before after assigns split left wraps label children now =>
    rw [Node.size_split split, Node.size_split children, wraps.size]
    omega
  | inside n c d before after split deeper ih =>
    rw [Node.size_split split, Node.size_split (n := { n with children := before ++ d :: after }) rfl, ih]
    omega

theorem opensScope (h : Parenthesized n m) : m.opensScope = n.opensScope := by
  unfold Node.opensScope
  rw [h.kind]

theorem scopeCount (h : Parenthesized n m) : m.scopeCount = n.scopeCount := by
  have hopens := h.opensScope
  induction h with
  | here n m c w before after assigns split left wraps label children now =>
    rw [Node.scopeCount_split split, Node.scopeCount_split children, wraps.scopeCount, hopens]
  | inside n c d before after split deeper ih =>
    rw [Node.scopeCount_split split, Node.scopeCount_split (n := { n with children := before ++ d :: after }) rfl,
      ih deeper.opensScope, hopens]

/-! ## Names that are bound -/

theorem bindingNames (h : Parenthesized n m) : m.bindingNames = n.bindingNames := by
  induction h with
  | here n m c w before after assigns split left wraps label =>
    -- an assignment is no target
    have hkind : n.kind ≠ .identifier ∧ n.kind ≠ .pattern := by simp [assigns]
    have hm : m.kind = n.kind := congrArg Label.kind label
    rw [Node.bindingNames_eq_nil hkind, Node.bindingNames_eq_nil (hm ▸ hkind)]
  | inside n c d before after split deeper ih => exact bindingNames_below split ih

theorem namesUnder (h : Parenthesized n m) (hn : n.kind ≠ .assignment) (field : String) :
    m.namesUnder field = n.namesUnder field := by
  rcases h.child? hn field with hsame | ⟨c, d, hc, hd, hcd⟩
  · exact namesUnder_congr (c := n) (d := n) (.inl hsame) rfl
  · exact namesUnder_congr (.inr ⟨hc, hd⟩) hcd.bindingNames

theorem flatMap_declarators {α : Type} {f : Node → List α} (h : Parenthesized n m) (hn : n.kind ≠ .assignment)
    (hf : ∀ c d, Parenthesized c d → c.kind ≠ .assignment → f d = f c) :
    m.declarators.flatMap f = n.declarators.flatMap f := by
  cases h with
  | here n m c w before after assigns => exact absurd assigns hn
  | inside n c d before after split deeper =>
    exact flatMap_declarators_below split deeper.kind fun hkind => hf c d deeper (by simp [hkind])

theorem boundNames (h : Parenthesized n m) (hn : n.kind ≠ .assignment) : m.boundNames = n.boundNames :=
  h.flatMap_declarators hn fun _ _ hcd hc => hcd.namesUnder hc "name"

theorem declaredNames (h : Parenthesized n m) (hn : n.kind ≠ .assignment) : m.declaredNames = n.declaredNames := by
  unfold Node.declaredNames
  rw [List.filterMap_eq_flatMap_toList, List.filterMap_eq_flatMap_toList]
  refine h.flatMap_declarators hn fun c d hcd hc => ?_
  rcases hcd.child? hc "name" with hsame | ⟨t, v, ht, hv, htv⟩
  · rw [hsame]
  · simp only [ht, hv, htv.kind, Node.properName?, htv.label]

theorem parameterNames (h : Parenthesized n m) (hn : n.kind = .function) (hlists : n.ListsParameters) :
    Scope.parameterNames m = Scope.parameterNames n := by
  have hassigns : n.kind ≠ .assignment := by simp [hn]
  unfold Scope.parameterNames
  rw [h.namesUnder hassigns]
  rcases h.child? hassigns "parameters" with hsame | ⟨c, d, hc, hd, hcd⟩
  · rw [hsame]
  · have hkind := hlists hn c hc
    rw [hc, hd]
    -- no child of a list of parameters is the left side of an assignment
    cases hcd with
    | here c d t w before after assigns => cases hkind.symm.trans assigns
    | inside c t v before after split deeper =>
      simp only [split, List.flatMap_append, List.flatMap_cons, deeper.bindingNames]

theorem sameNames (h : Parenthesized n m) (hn : n.kind ≠ .assignment) (hlists : n.ListsParameters) : n.SameNames m where
  label := h.label
  named := by
    rcases h.child? hn "name" with hsame | ⟨c, d, hc, hd, hcd⟩
    · rw [hsame]
    · rw [hc, hd, Option.map_some, Option.map_some, hcd.label]
  bound := h.boundNames hn
  declared := h.declaredNames hn
  caught := h.namesUnder hn "parameter"
  parameters hfunction := h.parameterNames hfunction hlists

/-! ## Names that are assigned -/

/-- What is left when parentheses are taken off has the label it had. -/
theorem unwrapped_label (h : Parenthesized n m) : m.unwrapped.label = n.unwrapped.label := by
  induction h with
  | here n m c w before after assigns split left wraps label children now =>
    exact unwrapped_label_below label split children (congrArg Node.label wraps.unwrapped)
  | inside n c d before after split deeper ih => exact unwrapped_label_below rfl split rfl ih

theorem assignedName? (h : Parenthesized n m) : m.assignedName? = n.assignedName? := by
  refine assignedName?_congr h.kind fun _ => ?_
  cases h with
  | here n m c w before after assigns split left wraps label children now =>
    have hc : n.child? "left" = some c := by simp [Node.child?, left, Node.inSlot?, split]
    exact .inr ⟨c, w, hc, now, congrArg Node.label wraps.unwrapped⟩
  | inside n c d before after split deeper =>
    rcases child?_below split "left" with hsame | ⟨hc, hd⟩
    · exact .inl hsame
    · exact .inr ⟨c, d, hc, hd, deeper.unwrapped_label⟩

/-! ## Lists of parameters -/

theorem listsParameters (h : Parenthesized n m) (hlists : n.ListsParameters) : m.ListsParameters := by
  intro hkind t ht
  rw [h.kind] at hkind
  rcases h.child? (by simp [hkind]) "parameters" with hsame | ⟨c, d, hc, hd, hcd⟩
  · exact hlists hkind t (hsame ▸ ht)
  · cases hd.symm.trans ht
    exact hcd.kind.trans (hlists hkind c hc)

end Parenthesized
end LetOrConst.Tree
