/-
Trees with their statements in another order. The children of programs and blocks are permuted at
any depth; all else stays: what is known of each node, the order of other children, and which node
stands under which field (`Rearranged`). Every node is followed through the change by the number it
had before (`Rearranged.numbers_perm`). Names are read off a node and its fields and stay as they are;
what is collected from a whole tree is collected in another order (`MovesTo.perm_children`); and what is passed
down on the way from the root gives every node the same as before (`Rearranged.inherit_eq`).
-/
import LetOrConst.Proofs.Tree.Names
import LetOrConst.Proofs.Tree.Place
import Mathlib.Data.List.Perm.Basic

namespace LetOrConst.Tree

/-- The children of programs and blocks are statements. -/
def Node.holdsStatements (n : Node) : Bool := n.kind == .program || n.kind == .block

/-- What has become of a tree, with the numbers that its nodes, in document order, had before. -/
structure Moved where
  node : Node
  numbers : List Nat

/-- The node in a slot of a node whose children and nodes kept apart have become these. -/
def Slot.among (children apart : List Moved) : Slot → Option Node
  | .child k => children[k]?.map (·.node)
  | .apart k => apart[k]?.map (·.node)

/-- What becomes of some trees, numbered from `i` on, when statements are put in another order. The
children of a node become `kept` and then stand in the order `shown`, which may be any for statements
and is the old one for all others. -/
inductive Rearranged : Nat → List Node → List Moved → Prop where
  | nil (i : Nat) : Rearranged i [] []
  | cons (i : Nat) (n moved : Node) (rest : List Node) (kept shown apart after : List Moved)
      (label : moved.label = n.label)
      (below : Rearranged (i + 1) n.children kept)
      (order : shown.Perm kept)
      (fixed : n.holdsStatements = false → shown = kept)
      (children : moved.children = shown.map (·.node))
      (aside : Rearranged 0 n.apart apart)
      (fields : ∀ f, moved.child? f = (n.fields.lookup f).bind (Slot.among kept apart))
      (beside : Rearranged (i + n.size) rest after) :
      Rearranged i (n :: rest) (⟨moved, i :: shown.flatMap (·.numbers)⟩ :: after)

/-- A node becomes another when statements are put in another order. -/
def Node.MovesTo (n m : Node) : Prop := ∃ i numbers, Rearranged i [n] [⟨m, numbers⟩]

variable {i : Nat} {n m : Node} {ns : List Node} {ms : List Moved}

theorem Rearranged.forall₂ (h : Rearranged i ns ms) : List.Forall₂ (fun n m => n.MovesTo m.node) ns ms := by
  induction h with
  | nil i => exact .nil
  | cons i n moved rest kept shown apart after label below order fixed children aside fields _ _ _ ih =>
    exact .cons ⟨i, _, .cons i n moved [] kept shown apart [] label below order fixed children aside fields (.nil _)⟩ ih

theorem Rearranged.getElem? (h : Rearranged i ns ms) (k : Nat) :
    (ns[k]? = none ∧ ms[k]?.map (·.node) = none) ∨
      ∃ c d, ns[k]? = some c ∧ ms[k]?.map (·.node) = some d ∧ c.MovesTo d := by
  have hall := h.forall₂
  clear h
  induction hall generalizing k with
  | nil => exact .inl ⟨rfl, rfl⟩
  | cons hmoves _ ih =>
    cases k with
    | zero => exact .inr ⟨_, _, rfl, rfl, hmoves⟩
    | succ k => exact ih k

theorem flatMap_eq_of_forall₂ {α : Type} {R : Node → Node → Prop} {f : Node → List α} {xs ys : List Node}
    (h : List.Forall₂ R xs ys) (hf : ∀ x ∈ xs, ∀ y, R x y → f y = f x) : ys.flatMap f = xs.flatMap f := by
  induction h with
  | nil => rfl
  | cons hxy _ ih =>
    rw [List.flatMap_cons, List.flatMap_cons, hf _ List.mem_cons_self _ hxy,
      ih fun x hx => hf x (List.mem_cons_of_mem _ hx)]

/-! ## A node and what it becomes -/

namespace Node.MovesTo

theorem label (h : n.MovesTo m) : m.label = n.label := by
  obtain ⟨i, numbers, h⟩ := h
  cases h
  assumption

theorem kind (h : n.MovesTo m) : m.kind = n.kind := congrArg Label.kind h.label

theorem type (h : n.MovesTo m) : m.type = n.type := congrArg Label.type h.label

theorem children (h : n.MovesTo m) :
    ∃ kids, List.Forall₂ MovesTo n.children kids ∧ m.children.Perm kids ∧
      (n.holdsStatements = false → m.children = kids) := by
  obtain ⟨i, numbers, h⟩ := h
  cases h with
  | cons _ _ _ _ kept shown _ _ _ below order fixed children =>
    refine ⟨kept.map (·.node), ?_, ?_, fun hn => ?_⟩
    · rw [List.forall₂_map_right_iff]
      exact below.forall₂
    · rw [children]
      exact order.map _
    · rw [children, fixed hn]

theorem child? (h : n.MovesTo m) (field : String) :
    (n.child? field = none ∧ m.child? field = none) ∨
      ∃ c d, n.child? field = some c ∧ m.child? field = some d ∧ c.MovesTo d := by
  obtain ⟨i, numbers, h⟩ := h
  cases h with
  | cons _ _ _ _ kept _ apart _ _ below _ _ _ aside fields =>
    rw [fields]
    unfold Node.child?
    cases n.fields.lookup field with
    | none => exact .inl ⟨rfl, rfl⟩
    | some slot =>
      cases slot with
      | child k => exact below.getElem? k
      | apart k => exact aside.getElem? k

theorem declarators (h : n.MovesTo m) :
    ∃ kids, List.Forall₂ MovesTo n.declarators kids ∧ m.declarators.Perm kids := by
  obtain ⟨kids, hkids, hperm, -⟩ := h.children
  refine ⟨kids.filter (·.kind == .declarator), List.rel_filter ?_ hkids, hperm.filter _⟩
  intro c d hcd
  simp only [hcd.kind]

/-- What a function that nothing changes collects from some nodes is collected in another order. -/
theorem flatMap_perm {α : Type} {f : Node → List α} {xs kids ys : List Node} (hkids : List.Forall₂ MovesTo xs kids)
    (hperm : ys.Perm kids) (hf : ∀ c d : Node, c.MovesTo d → f d = f c) : (ys.flatMap f).Perm (xs.flatMap f) := by
  rw [← flatMap_eq_of_forall₂ hkids fun c _ d hcd => hf c d hcd]
  exact hperm.flatMap_right f

/-! ## Names -/

theorem properName? (h : n.MovesTo m) : m.properName? = n.properName? := by
  unfold Node.properName?
  rw [h.label]

theorem bindingNames (h : n.MovesTo m) : m.bindingNames = n.bindingNames := by
  -- the names come from a field or from the children, and all of these are smaller
  induction hsize : sizeOf n using Nat.strongRecOn generalizing n m with
  | _ size ih =>
    have hunder : ∀ field, m.namesUnder field = n.namesUnder field := by
      intro field
      unfold Node.namesUnder
      rcases h.child? field with ⟨hn, hm⟩ | ⟨c, d, hn, hm, hcd⟩
      · rw [hn, hm]
      · rw [hn, hm]
        exact ih _ (hsize ▸ sizeOf_lt_of_child? hn) hcd rfl
    rw [bindingNames_eq, bindingNames_eq, h.kind, h.type, h.properName?, hunder, hunder]
    split
    · rfl
    · split
      · rename_i hpattern
        -- the children of a pattern are no statements, so they stand as before
        obtain ⟨kids, hkids, -, hfixed⟩ := h.children
        rw [hfixed (by simp [holdsStatements, hpattern])]
        rw [flatMap_eq_of_forall₂ hkids fun c hc d hcd => ih _ (hsize ▸ sizeOf_lt_of_mem_children hc) hcd rfl]
      · rfl

theorem namesUnder (h : n.MovesTo m) (field : String) : m.namesUnder field = n.namesUnder field := by
  unfold Node.namesUnder
  rcases h.child? field with ⟨hn, hm⟩ | ⟨c, d, hn, hm, hcd⟩
  · rw [hn, hm]
  · rw [hn, hm]
    exact hcd.bindingNames

theorem boundNames (h : n.MovesTo m) : m.boundNames.Perm n.boundNames := by
  obtain ⟨kids, hkids, hperm⟩ := h.declarators
  exact flatMap_perm hkids hperm fun c d hcd => hcd.namesUnder "name"

theorem declaredNames (h : n.MovesTo m) : m.declaredNames.Perm n.declaredNames := by
  obtain ⟨kids, hkids, hperm⟩ := h.declarators
  unfold Node.declaredNames
  rw [List.filterMap_eq_flatMap_toList, List.filterMap_eq_flatMap_toList]
  refine flatMap_perm hkids hperm fun c d hcd => ?_
  rcases hcd.child? "name" with ⟨hc, hd⟩ | ⟨t, u, hc, hd, htu⟩
  · rw [hc, hd]
  · rw [hc, hd]
    simp only
    rw [htu.kind, htu.properName?]

theorem isWrapper (h : n.MovesTo m) : m.isWrapper = n.isWrapper := by
  obtain ⟨kids, hkids, hperm, -⟩ := h.children
  unfold Node.isWrapper
  rw [h.type, hperm.length_eq, hkids.length_eq]

theorem unwrapped (h : n.MovesTo m) : n.unwrapped.MovesTo m.unwrapped := by
  induction hsize : sizeOf n using Nat.strongRecOn generalizing n m with
  | _ size ih =>
    by_cases hw : n.isWrapper = true
    · -- there is one child only, and so one order
      obtain ⟨htype, c, hc⟩ := isWrapper_iff.1 hw
      obtain ⟨kids, hkids, hperm, -⟩ := h.children
      rw [hc] at hkids
      cases hkids with
      | cons hcd hnil =>
        cases hnil
        have hlt : sizeOf c < sizeOf n := sizeOf_lt_of_mem_children (by rw [hc]; exact List.mem_singleton_self c)
        rw [unwrapped_layer htype hc, unwrapped_layer (h.type.trans htype) (List.perm_singleton.1 hperm)]
        exact ih _ (hsize ▸ hlt) hcd rfl
    · rw [Bool.not_eq_true] at hw
      rw [unwrapped_bare hw, unwrapped_bare (h.isWrapper.trans hw)]
      exact h

theorem assignedName? (h : n.MovesTo m) : m.assignedName? = n.assignedName? := by
  unfold Node.assignedName?
  rw [h.kind]
  rcases h.child? "left" with ⟨hn, hm⟩ | ⟨c, d, hn, hm, hcd⟩
  · rw [hn, hm]
  · rw [hn, hm]
    simp only
    rw [hcd.unwrapped.kind, hcd.unwrapped.label]

end Node.MovesTo

/-! ## Whole trees -/

theorem Rearranged.perm_flatMap {α : Type} {f : Node → List α}
    (hf : ∀ n m : Node, n.MovesTo m → (m.children.flatMap f).Perm (n.children.flatMap f) → (f m).Perm (f n))
    (h : Rearranged i ns ms) : ((ms.map (·.node)).flatMap f).Perm (ns.flatMap f) := by
  induction h with
  | nil i => exact .nil
  | cons i n moved rest kept shown apart after label below order fixed children aside fields beside ihb _ ihr =>
    have hmoves : n.MovesTo moved :=
      ⟨i, _, .cons i n moved [] kept shown apart [] label below order fixed children aside fields (.nil _)⟩
    have hbelow : (moved.children.flatMap f).Perm (n.children.flatMap f) := by
      rw [children]
      exact ((order.map _).flatMap_right f).trans ihb
    exact (hf n moved hmoves hbelow).append ihr

/-- What is collected from whole trees is collected from the children in another order, if that
holds for a tree whenever it holds for its children. -/
theorem Node.MovesTo.perm_children {α : Type} {f : Node → List α}
    (hf : ∀ n m : Node, n.MovesTo m → (m.children.flatMap f).Perm (n.children.flatMap f) → (f m).Perm (f n))
    (h : n.MovesTo m) : (m.children.flatMap f).Perm (n.children.flatMap f) := by
  obtain ⟨i, numbers, h⟩ := h
  cases h with
  | cons _ _ _ _ kept shown _ _ _ below order _ children =>
    rw [children]
    exact ((order.map _).flatMap_right f).trans (below.perm_flatMap hf)

/-- The numbers of the nodes are those they had, in another order. -/
theorem Rearranged.numbers_perm (h : Rearranged i ns ms) :
    (ms.flatMap (·.numbers)).Perm (List.range' i (ns.flatMap Node.preorder).length) := by
  induction h with
  | nil i => exact .nil
  | cons i n moved rest kept shown apart after label below order fixed children aside fields beside ihb _ ihr =>
    have hsize : (n.preorder).length = (n.children.flatMap Node.preorder).length + 1 := Node.size_eq n
    rw [List.flatMap_cons, List.flatMap_cons, List.length_append, ← List.range'_append_1, hsize, List.range'_succ]
    refine List.Perm.append (List.Perm.cons i ?_) ?_
    · exact (order.flatMap_right _).trans ihb
    · rw [← hsize]
      exact ihr

/-! ## Ways to rearrange -/

/-- A node whose children keep their order keeps its fields as they are. -/
theorem Rearranged.inOrder {moved : Node} {rest : List Node} {kept apart after : List Moved}
    (below : Rearranged (i + 1) n.children kept) (aside : Rearranged 0 n.apart apart)
    (beside : Rearranged (i + n.size) rest after) (label : moved.label = n.label)
    (children : moved.children = kept.map (·.node)) (hapart : moved.apart = apart.map (·.node))
    (hfields : moved.fields = n.fields) :
    Rearranged i (n :: rest) (⟨moved, i :: kept.flatMap (·.numbers)⟩ :: after) := by
  refine .cons i n moved rest kept kept apart after label below (.refl _) (fun _ => rfl) children aside
    (fun f => ?_) beside
  unfold Node.child?
  rw [hfields]
  congr 1
  funext slot
  cases slot with
  | child k => rw [Slot.among, ← List.getElem?_map, ← children]; rfl
  | apart k => rw [Slot.among, ← List.getElem?_map, ← hapart]; rfl

/-- Statements may take any order, where no field leads to them. -/
theorem Rearranged.statements {rest : List Node} {kept after : List Moved} (shown : List Moved)
    (hn : n.holdsStatements = true) (hfields : n.fields = []) (happart : n.apart = [])
    (below : Rearranged (i + 1) n.children kept) (order : shown.Perm kept)
    (beside : Rearranged (i + n.size) rest after) :
    Rearranged i (n :: rest)
      (⟨{ n with children := shown.map (·.node) }, i :: shown.flatMap (·.numbers)⟩ :: after) := by
  refine .cons i n _ rest kept shown [] after rfl below order (fun hnot => ?_) rfl ?_ (fun f => ?_) beside
  · rw [hn] at hnot
    cases hnot
  · rw [happart]
    exact .nil 0
  · unfold Node.child?
    rw [hfields]
    rfl

/-- Trees that stay as they are, numbered from `i` on. -/
def unmoved (i : Nat) : List Node → List Moved
  | [] => []
  | n :: rest => ⟨n, List.range' i n.size⟩ :: unmoved (i + n.size) rest

theorem map_node_unmoved (i : Nat) (ns : List Node) : (unmoved i ns).map (·.node) = ns := by
  induction ns generalizing i with
  | nil => rfl
  | cons n rest ih => rw [unmoved, List.map_cons, ih]

theorem flatMap_numbers_unmoved (i : Nat) (ns : List Node) :
    (unmoved i ns).flatMap (·.numbers) = List.range' i (ns.flatMap Node.preorder).length := by
  induction ns generalizing i with
  | nil => rfl
  | cons n rest ih =>
    rw [unmoved, List.flatMap_cons, ih, List.flatMap_cons, List.length_append, ← List.range'_append_1]
    rfl

theorem Rearranged.cons_unmoved {rest : List Node} {after : List Moved}
    (below : Rearranged (i + 1) n.children (unmoved (i + 1) n.children))
    (aside : Rearranged 0 n.apart (unmoved 0 n.apart)) (beside : Rearranged (i + n.size) rest after) :
    Rearranged i (n :: rest) (⟨n, List.range' i n.size⟩ :: after) := by
  have hnumbers : List.range' i n.size = i :: (unmoved (i + 1) n.children).flatMap (·.numbers) := by
    rw [flatMap_numbers_unmoved, Node.size_eq, List.range'_succ]
  rw [hnumbers]
  exact .inOrder below aside beside rfl (map_node_unmoved _ _).symm (map_node_unmoved _ _).symm rfl

/-- Everything may stay as it is. -/
theorem rearranged_unmoved (i : Nat) : ∀ ns : List Node, Rearranged i ns (unmoved i ns)
  | [] => .nil i
  | n :: rest => .cons_unmoved (rearranged_unmoved (i + 1) n.children) (rearranged_unmoved 0 n.apart)
      (rearranged_unmoved (i + n.size) rest)
termination_by ns => sizeOf ns
decreasing_by
  · exact Node.sizeOf_children_lt_cons n rest
  · cases n
    simp only [List.cons.sizeOf_spec, Node.mk.sizeOf_spec]
    omega
  · exact Branching.sizeOf_rest_lt_cons n rest

theorem Rearranged.stay {k : Nat} {rest : List Node} {after : List Moved} (hsize : n.size = k)
    (beside : Rearranged (i + k) rest after) : Rearranged i (n :: rest) (⟨n, List.range' i k⟩ :: after) := by
  subst hsize
  exact .cons_unmoved (rearranged_unmoved _ _) (rearranged_unmoved _ _) beside

/-! ## Passing down -/

/-- What every node is given, in document order, when something is passed down to the children. -/
def inherit {γ α : Type} (give : γ → Node → α) (down : γ → Node → γ) : γ → List Node → List α
  | _, [] => []
  | c, n :: rest => give c n :: (inherit give down (down c n) n.children ++ inherit give down c rest)
termination_by _ ns => sizeOf ns
decreasing_by
  · exact Node.sizeOf_children_lt_cons n rest
  · exact Branching.sizeOf_rest_lt_cons n rest

section Inherit

variable {γ α : Type} {give : γ → Node → α} {down : γ → Node → γ}

theorem length_inherit (c : γ) (ns : List Node) :
    (inherit give down c ns).length = (ns.flatMap Node.preorder).length := by
  induction ns using Node.forest_induction generalizing c with
  | nil => rw [inherit]; rfl
  | cons n rest ihc ihr =>
    rw [inherit, List.flatMap_cons, Node.preorder_eq, List.length_cons, List.length_append, List.length_append,
      List.length_cons, ihc, ihr]
    omega

theorem inherit_eq_flatMap (c : γ) (ns : List Node) :
    inherit give down c ns = ns.flatMap fun n => inherit give down c [n] := by
  induction ns with
  | nil => rw [inherit]; rfl
  | cons n rest ih =>
    rw [List.flatMap_cons, ← ih, inherit, inherit, inherit, List.append_nil, List.cons_append]

/-- A table has the entries of a list from a number on. -/
def Tabulates (table : Nat → α) (i : Nat) (xs : List α) : Prop := (List.range' i xs.length).map table = xs

theorem tabulates_cons {table : Nat → α} {i : Nat} {x : α} {xs : List α} :
    Tabulates table i (x :: xs) ↔ table i = x ∧ Tabulates table (i + 1) xs := by
  unfold Tabulates
  rw [List.length_cons, List.range'_succ, List.map_cons, List.cons.injEq]

theorem tabulates_append {table : Nat → α} {i : Nat} {xs ys : List α} :
    Tabulates table i (xs ++ ys) ↔ Tabulates table i xs ∧ Tabulates table (i + xs.length) ys := by
  unfold Tabulates
  rw [List.length_append, ← List.range'_append_1, List.map_append]
  constructor
  · intro h
    exact List.append_inj h (by rw [List.length_map, List.length_range'])
  · rintro ⟨hx, hy⟩
    rw [hx, hy]

theorem Tabulates.map {β : Type} {table : Nat → α} {i : Nat} {xs : List α} (h : Tabulates table i xs) (f : α → β) :
    Tabulates (f ∘ table) i (xs.map f) := by
  unfold Tabulates at h ⊢
  rw [List.length_map, ← List.map_map, h]

theorem tabulates_getD (xs : List α) (default : α) : Tabulates (fun j => xs.getD j default) 0 xs := by
  unfold Tabulates
  refine List.ext_getElem (by simp) fun j _ hj => ?_
  simp [hj]

/-- Every node is given what it was given before, where what is passed down agrees at the start and
goes on to agree. -/
theorem Rearranged.inherit_eq (agree : γ → γ → Prop)
    (hgive : ∀ c d n m, agree c d → n.MovesTo m → give d m = give c n)
    (hdown : ∀ c d n m, agree c d → n.MovesTo m → agree (down c n) (down d m)) {table : Nat → α}
    (h : Rearranged i ns ms) {c d : γ} (hcd : agree c d) (htable : Tabulates table i (inherit give down c ns)) :
    ∀ m ∈ ms, inherit give down d [m.node] = m.numbers.map table := by
  induction h generalizing c d with
  | nil i => exact fun m hm => absurd hm List.not_mem_nil
  | cons i n moved rest kept shown apart after label below order fixed children aside fields beside ihb _ ihr =>
    have hmoves : n.MovesTo moved :=
      ⟨i, _, .cons i n moved [] kept shown apart [] label below order fixed children aside fields (.nil _)⟩
    rw [inherit, tabulates_cons, tabulates_append, length_inherit] at htable
    obtain ⟨hown, hbelow, hrest⟩ := htable
    have hlen : i + 1 + (n.children.flatMap Node.preorder).length = i + n.size := by rw [Node.size_eq]; omega
    rw [hlen] at hrest
    intro m hm
    rcases List.mem_cons.1 hm with rfl | hm
    · -- the children are the same as before the last change of order, each with its own numbers
      have hkids : ∀ k ∈ shown, inherit give down (down d moved) [k.node] = k.numbers.map table :=
        fun k hk => ihb (hdown c d n moved hcd hmoves) hbelow k (order.mem_iff.1 hk)
      simp only
      rw [inherit, inherit, List.append_nil, children, inherit_eq_flatMap, List.flatMap_map, List.map_cons,
        List.map_flatMap, List.flatMap_congr hkids, hgive c d n moved hcd hmoves, hown]
    · exact ihr hcd hrest m hm

end Inherit

end LetOrConst.Tree
