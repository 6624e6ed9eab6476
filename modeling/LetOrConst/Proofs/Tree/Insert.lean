/-
Trees with one more node. The node goes anywhere among the children of a node that takes it in, at any
depth; the fields lead where they led (`Inserted`). Where only bodies take it in and it is no name and no
pattern, what is read off a node and its fields stays: the names it binds, declares and assigns. What is
collected from whole trees stays too, but for what the new node adds (`Inserted.extends_children`).
-/
import LetOrConst.Proofs.Tree.Alter
import LetOrConst.Proofs.Tree.WellFormed

namespace LetOrConst.Tree

/-- A slot after one more child at `position`. -/
def Slot.past (position : Nat) : Slot → Slot
  | .child i => .child (if i < position then i else i + 1)
  | .apart i => .apart i

/-- A tree becomes another when `u` is put among the children of a node that takes it in. -/
inductive Inserted (host : Node → Bool) (u : Node) : Node → Node → Prop where
  /-- Here, between some of the children. -/
  | here (n : Node) (before after : List Node) (takes : host n = true) (split : n.children = before ++ after) :
      Inserted host u n
        { n with
          children := before ++ u :: after
          fields := n.fields.map fun f => (f.1, f.2.past before.length) }
  /-- Somewhere in one of the children. -/
  | inside (n c d : Node) (before after : List Node) (split : n.children = before ++ c :: after)
      (deeper : Inserted host u c d) : Inserted host u n { n with children := before ++ d :: after }

variable {host other : Node → Bool} {u n m : Node}

theorem Inserted.mono (h : Inserted host u n m) (hall : ∀ t ∈ n.preorder, host t = true → other t = true) :
    Inserted other u n m := by
  induction h with
  | here n before after takes split =>
    refine .here n before after (hall n ?_ takes) split
    rw [Node.preorder_eq]
    exact List.mem_cons_self
  | inside n c d before after split deeper ih =>
    refine .inside n c d before after split (ih fun t ht => hall t ?_)
    rw [Node.preorder_eq, split, List.flatMap_append, List.flatMap_cons]
    simp [ht]

/-! ## Fields -/

theorem lookup_map_snd {α β : Type} (f : α → β) (key : String) (entries : List (String × α)) :
    (entries.map fun e => (e.1, f e.2)).lookup key = (entries.lookup key).map f := by
  induction entries with
  | nil => rfl
  | cons e entries ih =>
    rw [List.map_cons, List.lookup_cons, List.lookup_cons, ih]
    split <;> rfl

theorem getElem?_past (before after : List Node) (u : Node) (i : Nat) :
    (before ++ u :: after)[if i < before.length then i else i + 1]? = (before ++ after)[i]? := by
  split
  · rename_i hi
    rw [List.getElem?_append_left hi, List.getElem?_append_left hi]
  · rename_i hi
    rw [List.getElem?_append_right (by omega), List.getElem?_append_right (by omega),
      Nat.sub_add_comm (by omega), List.getElem?_cons_succ]

/-- The fields of the node that takes the new one in lead where they led. -/
theorem child?_here {before after : List Node} (split : n.children = before ++ after) (field : String) :
    Node.child?
        { n with
          children := before ++ u :: after
          fields := n.fields.map fun f => (f.1, f.2.past before.length) } field = n.child? field := by
  unfold Node.child?
  simp only
  rw [lookup_map_snd]
  cases n.fields.lookup field with
  | none => rfl
  | some slot =>
    cases slot with
    | child i =>
      show (before ++ u :: after)[if i < before.length then i else i + 1]? = n.children[i]?
      rw [getElem?_past, split]
    | apart i => rfl

namespace Inserted

theorem label (h : Inserted host u n m) : m.label = n.label := by
  cases h <;> rfl

theorem kind (h : Inserted host u n m) : m.kind = n.kind := congrArg Label.kind h.label

theorem child? (h : Inserted host u n m) (field : String) :
    m.child? field = n.child? field ∨
      ∃ c d, n.child? field = some c ∧ m.child? field = some d ∧ Inserted host u c d := by
  cases h with
  | here n before after takes split => exact .inl (child?_here split field)
  | inside n c d before after split deeper =>
    rcases child?_below split field with hsame | ⟨hc, hd⟩
    · exact .inl hsame
    · exact .inr ⟨c, d, hc, hd, deeper⟩

/-- What is collected from the children stays if the new node adds nothing and every changed child
gives what it gave. -/
theorem flatMap_children {α : Type} {f : Node → List α} (h : Inserted host u n m) (hu : f u = [])
    (hf : ∀ c d, Inserted host u c d → f d = f c) : m.children.flatMap f = n.children.flatMap f := by
  cases h with
  | here n before after takes split => simp [split, hu]
  | inside n c d before after split deeper => simp [split, hf c d deeper]

/-! ## Names -/

theorem properName? (h : Inserted host u n m) : m.properName? = n.properName? := by
  unfold Node.properName?
  rw [h.label]

theorem altered (h : Inserted Node.isBody u n m) : Altered n m := by
  induction h with
  | here n before after takes split => exact .body n _ takes rfl
  | inside n c d before after split deeper ih => exact .inside n c d before after split ih

theorem bindingNames (h : Inserted Node.isBody u n m) : m.bindingNames = n.bindingNames := h.altered.bindingNames

theorem namesUnder (h : Inserted Node.isBody u n m) (field : String) : m.namesUnder field = n.namesUnder field := by
  unfold Node.namesUnder
  rcases h.child? field with hsame | ⟨c, d, hc, hd, hcd⟩
  · rw [hsame]
  · rw [hc, hd]
    exact hcd.bindingNames

theorem flatMap_declarators {α : Type} {f : Node → List α} (h : Inserted host u n m) (hu : u.kind = .other)
    (hf : ∀ c d, Inserted host u c d → f d = f c) : m.declarators.flatMap f = n.declarators.flatMap f := by
  have hfilter : ∀ ns : List Node, (ns.filter (·.kind == .declarator)).flatMap f =
      ns.flatMap fun c => if c.kind = .declarator then f c else [] := by
    intro ns
    induction ns with
    | nil => rfl
    | cons c ns ih =>
      rw [List.filter_cons, List.flatMap_cons, ← ih]
      by_cases hc : c.kind = .declarator <;> simp [hc]
  unfold Node.declarators
  rw [hfilter, hfilter]
  refine h.flatMap_children (by simp [hu]) fun c d hcd => ?_
  rw [hcd.kind, hf c d hcd]

theorem boundNames (h : Inserted Node.isBody u n m) (hu : u.kind = .other) : m.boundNames = n.boundNames :=
  h.flatMap_declarators hu fun _ _ hcd => hcd.namesUnder "name"

theorem declaredNames (h : Inserted Node.isBody u n m) (hu : u.kind = .other) : m.declaredNames = n.declaredNames := by
  unfold Node.declaredNames
  rw [List.filterMap_eq_flatMap_toList, List.filterMap_eq_flatMap_toList]
  refine h.flatMap_declarators hu fun c d hcd => ?_
  rcases hcd.child? "name" with hsame | ⟨t, v, hc, hd, htv⟩
  · rw [hsame]
  · rw [hc, hd]
    simp only
    rw [htv.kind, htv.properName?]

theorem assignedName? (h : Inserted Node.isBody u n m) : m.assignedName? = n.assignedName? := h.altered.assignedName?

end Inserted

/-! ## What is collected from whole trees -/

/-- A list has what another has, and beyond that only what is added. -/
structure Extends {α : Type} (added old new : List α) : Prop where
  keeps : ∀ x ∈ old, x ∈ new
  adds : ∀ x ∈ new, x ∈ old ∨ x ∈ added

namespace Extends

variable {α : Type} {added old new : List α}

theorem refl (added xs : List α) : Extends added xs xs := ⟨fun _ hx => hx, fun _ hx => .inl hx⟩

theorem append {old' new' : List α} (h : Extends added old new) (h' : Extends added old' new') :
    Extends added (old ++ old') (new ++ new') := by
  constructor
  · intro x hx
    rcases List.mem_append.1 hx with hx | hx
    · exact List.mem_append_left _ (h.keeps x hx)
    · exact List.mem_append_right _ (h'.keeps x hx)
  · intro x hx
    rcases List.mem_append.1 hx with hx | hx
    · exact (h.adds x hx).imp_left (List.mem_append_left _)
    · exact (h'.adds x hx).imp_left (List.mem_append_right _)

theorem filter (h : Extends added old new) (p : α → Bool) : Extends added (old.filter p) (new.filter p) := by
  constructor
  · intro x hx
    obtain ⟨hx, hp⟩ := List.mem_filter.1 hx
    exact List.mem_filter.2 ⟨h.keeps x hx, hp⟩
  · intro x hx
    obtain ⟨hx, hp⟩ := List.mem_filter.1 hx
    exact (h.adds x hx).imp_left fun hold => List.mem_filter.2 ⟨hold, hp⟩

theorem mem_iff (h : Extends [] old new) (x : α) : x ∈ new ↔ x ∈ old := by
  refine ⟨fun hx => ?_, h.keeps x⟩
  rcases h.adds x hx with hold | hnone
  · exact hold
  · cases hnone

end Extends

/-- What is collected from the children grows by what is added, if the new node gives no more than that
and a tree gives no more than that whenever its children do. -/
theorem Inserted.extends_children {α : Type} {added : List α} {f : Node → List α} (hu : ∀ x ∈ f u, x ∈ added)
    (hf : ∀ c d, Inserted host u c d → Extends added (c.children.flatMap f) (d.children.flatMap f) →
      Extends added (f c) (f d))
    (h : Inserted host u n m) : Extends added (n.children.flatMap f) (m.children.flatMap f) := by
  induction h with
  | here n before after takes split =>
    have hnew : Extends added [] (f u) := ⟨fun x hx => absurd hx List.not_mem_nil, fun x hx => .inr (hu x hx)⟩
    rw [split, List.flatMap_append, List.flatMap_append, List.flatMap_cons]
    exact (Extends.refl added _).append (hnew.append (.refl added _))
  | inside n c d before after split deeper ih =>
    rw [split, List.flatMap_append, List.flatMap_append, List.flatMap_cons, List.flatMap_cons]
    exact (Extends.refl added _).append ((hf c d deeper ih).append (.refl added _))

/-! ## Bodies of a converted tree -/

/-- In a converted tree nothing that holds statements is a pair of parentheses. -/
theorem isBody_of_holdsStatements {bytes : List UInt8} {root : Grammar.Node}
    (hm : m ∈ (ofGrammar bytes root).preorder) (h : m.holdsStatements = true) : m.isBody = true := by
  rw [Node.isBody, h, Bool.true_and, bne_iff_ne]
  intro htype
  rw [Node.holdsStatements, (arises_ofGrammar bytes hm).wellFormed.kind, htype] at h
  cases h

end LetOrConst.Tree
