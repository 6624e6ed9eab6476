/-
Trees that differ inside one body only. A program or block keeps its label and may hold anything else, at any
depth; all around it stays (`Altered`). No name is read through a body: what other nodes bind, declare and
assign is read off their labels and fields, and stays as it is.
-/
import LetOrConst.Proofs.Tree.Names
import LetOrConst.Proofs.Tree.Rearrange

namespace LetOrConst.Tree

/-- A node that holds statements and is no pair of parentheses. -/
def Node.isBody (n : Node) : Bool := n.holdsStatements && n.type != "parenthesized_expression"

/-- A tree becomes another when one of its bodies becomes any node with the same label. -/
inductive Altered : Node → Node → Prop where
  | body (n m : Node) (isBody : n.isBody = true) (label : m.label = n.label) : Altered n m
  | inside (n c d : Node) (before after : List Node) (split : n.children = before ++ c :: after)
      (deeper : Altered c d) : Altered n { n with children := before ++ d :: after }

variable {n m : Node}

theorem Node.kind_of_isBody (h : n.isBody = true) : n.kind = .program ∨ n.kind = .block := by
  rw [Node.isBody, Bool.and_eq_true] at h
  simpa [Node.holdsStatements] using h.1

/-- A field that led to the changed child leads to what it has become. -/
theorem child?_below {c d : Node} {before after : List Node} (split : n.children = before ++ c :: after)
    (field : String) :
    Node.child? { n with children := before ++ d :: after } field = n.child? field ∨
      n.child? field = some c ∧ Node.child? { n with children := before ++ d :: after } field = some d := by
  unfold Node.child?
  cases n.fields.lookup field with
  | none => exact .inl rfl
  | some slot =>
    cases slot with
    | apart i => exact .inl rfl
    | child i =>
      show (before ++ d :: after)[i]? = n.children[i]? ∨ n.children[i]? = some c ∧ (before ++ d :: after)[i]? = some d
      rw [split]
      rcases Nat.lt_trichotomy i before.length with hi | rfl | hi
      · rw [List.getElem?_append_left hi, List.getElem?_append_left hi]
        exact .inl rfl
      · simp
      · obtain ⟨k, rfl⟩ := Nat.exists_eq_add_of_lt hi
        rw [List.getElem?_append_right (by omega), List.getElem?_append_right (by omega)]
        have hk : before.length + k + 1 - before.length = k + 1 := by omega
        rw [hk, List.getElem?_cons_succ, List.getElem?_cons_succ]
        exact .inl rfl

theorem Node.bindingNames_eq_nil (h : n.kind ≠ .identifier ∧ n.kind ≠ .pattern) : n.bindingNames = [] := by
  rw [Node.bindingNames_eq, if_neg h.1, if_neg h.2]

/-! ## One child that has become another -/

section Below

variable {c d : Node} {before after : List Node}

theorem namesUnder_congr {field : String} (h : m.child? field = n.child? field ∨
    n.child? field = some c ∧ m.child? field = some d) (hcd : d.bindingNames = c.bindingNames) :
    m.namesUnder field = n.namesUnder field := by
  unfold Node.namesUnder
  rcases h with hsame | ⟨hc, hd⟩
  · rw [hsame]
  · rw [hc, hd]
    exact hcd

theorem bindingNames_below (split : n.children = before ++ c :: after) (hcd : d.bindingNames = c.bindingNames) :
    Node.bindingNames { n with children := before ++ d :: after } = n.bindingNames := by
  have hunder := fun field => namesUnder_congr (child?_below (d := d) split field) hcd
  rw [Node.bindingNames_eq, Node.bindingNames_eq n, hunder, hunder, split]
  simp only [List.flatMap_append, List.flatMap_cons, hcd]
  rfl

theorem flatMap_declarators_below {α : Type} {f : Node → List α} (split : n.children = before ++ c :: after)
    (hkind : d.kind = c.kind) (hf : c.kind = .declarator → f d = f c) :
    (Node.declarators { n with children := before ++ d :: after }).flatMap f = n.declarators.flatMap f := by
  unfold Node.declarators
  rw [split, List.filter_append, List.filter_append, List.filter_cons, List.filter_cons, hkind]
  split
  · rename_i hdeclarator
    simp only [List.flatMap_append, List.flatMap_cons, hf (beq_iff_eq.1 hdeclarator)]
  · rfl

/-- What is left of a node when parentheses are taken off has the label it had, if this holds of the child that has
become another. -/
theorem unwrapped_label_below (label : m.label = n.label) (split : n.children = before ++ c :: after)
    (children : m.children = before ++ d :: after) (hcd : d.unwrapped.label = c.unwrapped.label) :
    m.unwrapped.label = n.unwrapped.label := by
  have hwrapper : m.isWrapper = n.isWrapper := by
    simp [Node.isWrapper, Node.type, label, split, children]
  by_cases hw : n.isWrapper = true
  · -- the child that has changed is the only one
    obtain ⟨htype, e, he⟩ := Node.isWrapper_iff.1 hw
    rw [split] at he
    obtain ⟨rfl, hrest⟩ : before = [] ∧ c :: after = [e] := by
      rcases List.append_eq_singleton_iff.1 he with hcase | ⟨-, hcase⟩
      · exact hcase
      · cases hcase
    obtain ⟨rfl, rfl⟩ : c = e ∧ after = [] := by simpa using hrest
    have hm : m.type = "parenthesized_expression" := (congrArg Label.type label).trans htype
    rw [Node.unwrapped_layer htype split, Node.unwrapped_layer hm children, hcd]
  · rw [Bool.not_eq_true] at hw
    rw [Node.unwrapped_bare hw, Node.unwrapped_bare (hwrapper.trans hw), label]

theorem assignedName?_congr (hkind : m.kind = n.kind)
    (hleft : n.kind = .assignment → m.child? "left" = n.child? "left" ∨
      ∃ c d, n.child? "left" = some c ∧ m.child? "left" = some d ∧ d.unwrapped.label = c.unwrapped.label) :
    m.assignedName? = n.assignedName? := by
  unfold Node.assignedName?
  rw [hkind]
  split
  · rename_i hassigns
    rcases hleft hassigns with hsame | ⟨c, d, hc, hd, hlabel⟩
    · rw [hsame]
    · have hcore : d.unwrapped.kind = c.unwrapped.kind := congrArg Label.kind hlabel
      simp only [hc, hd]
      rw [hcore, hlabel]
  · rfl

end Below

namespace Altered

theorem label (h : Altered n m) : m.label = n.label := by
  cases h with
  | body n m isBody label => exact label
  | inside n c d before after split deeper => rfl

theorem kind (h : Altered n m) : m.kind = n.kind := congrArg Label.kind h.label

theorem child? (h : Altered n m) (hn : n.isBody = false) (field : String) :
    m.child? field = n.child? field ∨ ∃ c d, n.child? field = some c ∧ m.child? field = some d ∧ Altered c d := by
  cases h with
  | body n m isBody label => cases hn.symm.trans isBody
  | inside n c d before after split deeper =>
    rcases child?_below split field with hsame | ⟨hc, hd⟩
    · exact .inl hsame
    · exact .inr ⟨c, d, hc, hd, deeper⟩

/-! ## Names that are bound -/

theorem bindingNames (h : Altered n m) : m.bindingNames = n.bindingNames := by
  induction h with
  | body n m isBody label =>
    -- a body is neither a name nor a pattern
    have hkind : n.kind ≠ .identifier ∧ n.kind ≠ .pattern := by
      rcases Node.kind_of_isBody isBody with hk | hk <;> simp [hk]
    have hm : m.kind = n.kind := congrArg Label.kind label
    rw [Node.bindingNames_eq_nil hkind, Node.bindingNames_eq_nil (hm ▸ hkind)]
  | inside n c d before after split deeper ih => exact bindingNames_below split ih

theorem namesUnder (h : Altered n m) (hn : n.isBody = false) (field : String) :
    m.namesUnder field = n.namesUnder field := by
  unfold Node.namesUnder
  rcases h.child? hn field with hsame | ⟨c, d, hc, hd, hcd⟩
  · rw [hsame]
  · rw [hc, hd]
    exact hcd.bindingNames

theorem flatMap_declarators {α : Type} {f : Node → List α} (h : Altered n m) (hn : n.isBody = false)
    (hf : ∀ c d, Altered c d → c.isBody = false → f d = f c) : m.declarators.flatMap f = n.declarators.flatMap f := by
  cases h with
  | body n m isBody label => cases hn.symm.trans isBody
  | inside n c d before after split deeper =>
    refine flatMap_declarators_below split deeper.kind fun hkind => hf c d deeper ?_
    simp [Node.isBody, Node.holdsStatements, hkind]

theorem boundNames (h : Altered n m) (hn : n.isBody = false) : m.boundNames = n.boundNames :=
  h.flatMap_declarators hn fun _ _ hcd hc => hcd.namesUnder hc "name"

theorem declaredNames (h : Altered n m) (hn : n.isBody = false) : m.declaredNames = n.declaredNames := by
  unfold Node.declaredNames
  rw [List.filterMap_eq_flatMap_toList, List.filterMap_eq_flatMap_toList]
  refine h.flatMap_declarators hn fun c d hcd hc => ?_
  rcases hcd.child? hc "name" with hsame | ⟨t, v, ht, hv, htv⟩
  · rw [hsame]
  · rw [ht, hv]
    simp only [htv.kind, Node.properName?, htv.label]

/-! ## Names that are assigned -/

/-- What is left when parentheses are taken off has the label it had. -/
theorem unwrapped_label (h : Altered n m) : m.unwrapped.label = n.unwrapped.label := by
  induction h with
  | body n m isBody label =>
    have htype : n.type ≠ "parenthesized_expression" := by
      rw [Node.isBody, Bool.and_eq_true, bne_iff_ne] at isBody
      exact isBody.2
    have hbare : ∀ t : Node, t.label = n.label → t.unwrapped.label = n.label := by
      intro t ht
      have hnot : t.isWrapper = false := by
        rw [Node.isWrapper, Node.type, ht, Bool.and_eq_false_iff, beq_eq_false_iff_ne]
        exact .inl htype
      rw [Node.unwrapped_bare hnot, ht]
    rw [hbare n rfl, hbare m label]
  | inside n c d before after split deeper ih => exact unwrapped_label_below rfl split rfl ih

theorem assignedName? (h : Altered n m) : m.assignedName? = n.assignedName? := by
  refine assignedName?_congr h.kind fun hkind => ?_
  have hn : n.isBody = false := by simp [Node.isBody, Node.holdsStatements, hkind]
  rcases h.child? hn "left" with hsame | ⟨c, d, hc, hd, hcd⟩
  · exact .inl hsame
  · exact .inr ⟨c, d, hc, hd, hcd.unwrapped_label⟩

end Altered
end LetOrConst.Tree
