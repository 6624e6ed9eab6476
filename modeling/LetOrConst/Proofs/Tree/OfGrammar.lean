/-
The tree of a grammar tree by recursion. The agenda of the conversion builds every node from its
finished children (`assemble_enter`), so the result is the recursion `convert` (`ofGrammar_eq`). The
children of a converted node are its converted visible children; in the head of a loop over a
collection the first child under `left` is put into a declaration (`children_convert`).
-/
import LetOrConst.Tree.OfGrammar
import LetOrConst.Proofs.Grammar.Order
import LetOrConst.Proofs.Tree.Order

namespace LetOrConst.Grammar.Node

theorem sizeOf_lt_of_mem_visible {n c : Node} (h : c ∈ n.visible) : sizeOf c < sizeOf n := visibly.sizeOf_lt_of_mem h

theorem sizeOf_visible_lt_cons (n : Node) (rest : List Node) : sizeOf n.visible < sizeOf (n :: rest) :=
  visibly.sizeOf_below_lt_cons n rest

/-- Induction over lists of grammar trees, down to the visible children of the first and along the
rest. -/
@[elab_as_elim]
theorem visible_induction {P : List Node → Prop} (nil : P [])
    (cons : ∀ n rest, P n.visible → P rest → P (n :: rest)) (ns : List Node) : P ns :=
  visibly.forest_induction nil cons ns

theorem mem_descendants_of_visible {n m : Node} (h : m ∈ n.visible.flatMap preorder) : m ∈ n.descendants := by
  obtain ⟨c, hc, hm⟩ := List.mem_flatMap.1 h
  exact List.mem_flatMap.2 ⟨c, (List.mem_filter.1 hc).1, hm⟩

end LetOrConst.Grammar.Node

namespace LetOrConst.Tree

open LetOrConst.Grammar (Point)

variable (bytes : List UInt8)

/-- A node over its converted visible children. -/
def convert (bytes : List UInt8) (n : Grammar.Node) : Node :=
  build bytes n (n.visible.attach.map fun ⟨c, _⟩ => convert bytes c)
termination_by sizeOf n
decreasing_by exact Grammar.Node.sizeOf_lt_of_mem_visible (by assumption)

theorem convert_eq (n : Grammar.Node) : convert bytes n = build bytes n (n.visible.map (convert bytes)) := by
  rw [convert]
  simp

/-- What stands on the agenda to be entered ends converted on the stack, the last on top. -/
theorem assemble_enter (ns : List Grammar.Node) (rest : List (Pending Grammar.Node)) (done : List Node) :
    assemble bytes (ns.map .enter ++ rest) done =
      assemble bytes rest ((ns.map (convert bytes)).reverse ++ done) := by
  induction ns using Grammar.Node.visible_induction generalizing rest done with
  | nil => rfl
  | cons n ns ihc ihr =>
    -- the finished children are the top of the stack, in reverse
    have hlen : n.visible.length = (n.visible.map (convert bytes)).reverse.length := by simp
    rw [List.map_cons, List.cons_append, assemble, ihc, assemble, hlen, List.take_left, List.drop_left,
      List.reverse_reverse, ← convert_eq, ihr, List.map_cons, List.reverse_cons, List.append_assoc]
    rfl

theorem ofGrammar_eq (root : Grammar.Node) : ofGrammar bytes root = convert bytes root := by
  have h := assemble_enter bytes [root] [] []
  rw [List.map_singleton, List.append_nil, assemble] at h
  unfold ofGrammar
  rw [h]
  rfl

/-! ## Fields -/

theorem lookup_filter_ne {α : Type} {key k : String} (h : key ≠ k) (l : List (String × α)) :
    (l.filter (·.1 ≠ k)).lookup key = l.lookup key := by
  induction l with
  | nil => rfl
  | cons e l ih =>
    obtain ⟨j, v⟩ := e
    by_cases hj : j = k
    · subst hj
      rw [List.filter_cons_of_neg (by simp), ih, List.lookup_cons, beq_false_of_ne h]
    · rw [List.filter_cons_of_pos (by simpa using hj), List.lookup_cons, List.lookup_cons, ih]

theorem lookup_firstEntries {α : Type} (key : String) (l : List (String × α)) :
    (firstEntries l).lookup key = l.lookup key := by
  induction l with
  | nil => rfl
  | cons e l ih =>
    obtain ⟨k, v⟩ := e
    rw [firstEntries, List.lookup_cons, List.lookup_cons]
    by_cases h : key = k
    · simp [h]
    · rw [lookup_filter_ne h, ih]

/-- The entry that a visible child makes among the fields of its parent, if it stands under one. -/
def fieldEntry (c : Grammar.Node) (i : Nat) : Option (String × Slot) :=
  (c.field.filter (· ≠ "")).map (·, .child i)

theorem fieldSlots_eq (vs : List Grammar.Node) :
    fieldSlots vs = firstEntries (vs.zipIdx.filterMap fun c => fieldEntry c.1 c.2) := by
  unfold fieldSlots fieldEntry
  congr 2
  funext c
  obtain ⟨c, i⟩ := c
  cases hf : c.field with
  | none => simp [hf]
  | some f => by_cases hempty : f = "" <;> simp [hf, hempty, Option.filter]

/-- Of children that are numbered from `k` on, a field has the first that stands under it. -/
theorem lookup_fieldEntries {key : String} (hkey : key ≠ "") (vs : List Grammar.Node) (k : Nat) :
    ((vs.zipIdx k).filterMap fun c => fieldEntry c.1 c.2).lookup key =
      (vs.findIdx? (·.field = some key)).map fun i => .child (i + k) := by
  induction vs generalizing k with
  | nil => rfl
  | cons c vs ih =>
    have hnext : (vs.findIdx? (·.field = some key)).map (fun i => Slot.child (i + (k + 1))) =
        ((vs.findIdx? (·.field = some key)).map (· + 1)).map fun i => Slot.child (i + k) := by
      rw [Option.map_map]
      congr 1
      funext i
      exact congrArg Slot.child (by show i + (k + 1) = i + 1 + k; omega)
    have hnone : c.field ≠ some key → fieldEntry c k = none ∨ ∃ f, f ≠ key ∧ fieldEntry c k = some (f, .child k) := by
      intro hne
      unfold fieldEntry
      cases hf : c.field.filter (· ≠ "") with
      | none => exact .inl rfl
      | some f =>
        refine .inr ⟨f, ?_, rfl⟩
        rintro rfl
        exact hne (Option.filter_eq_some_iff.1 hf).1
    rw [List.zipIdx_cons, List.filterMap_cons, List.findIdx?_cons]
    by_cases hc : c.field = some key
    · have hentry : fieldEntry c k = some (key, .child k) := by simp [fieldEntry, hc, Option.filter, hkey]
      simp [hentry, hc]
    · rw [if_neg (by simpa using hc), ← hnext, ← ih]
      rcases hnone hc with hentry | ⟨f, hf, hentry⟩
      · simp [hentry]
      · simp [hentry, List.lookup_cons, beq_false_of_ne (Ne.symm hf)]

theorem lookup_fieldSlots {key : String} (hkey : key ≠ "") (vs : List Grammar.Node) :
    (fieldSlots vs).lookup key = (vs.findIdx? (·.field = some key)).map .child := by
  rw [fieldSlots_eq, lookup_firstEntries, lookup_fieldEntries hkey]
  rfl

/-! ## Heads of loops -/

/-- The converted children, of which the first under `left` is put into a declaration when the node
has a keyword in its head. -/
def recast (head : Option (Keyword × Point)) : List Grammar.Node → List Node
  | [] => []
  | c :: rest =>
    if c.field = some "left" then
      head.elim (convert bytes c) (fun h => headDeclaration h.1 h.2 (convert bytes c)) :: rest.map (convert bytes)
    else convert bytes c :: recast head rest

theorem recast_none (vs : List Grammar.Node) : recast bytes none vs = vs.map (convert bytes) := by
  induction vs with
  | nil => rfl
  | cons c vs ih =>
    rw [recast, ih, List.map_cons]
    split <;> rfl

theorem recast_some (keyword : Keyword) (place : Point) (vs : List Grammar.Node) :
    recast bytes (some (keyword, place)) vs =
      match vs.findIdx? (·.field = some "left") with
      | some i => (vs.map (convert bytes)).modify i (headDeclaration keyword place)
      | none => vs.map (convert bytes) := by
  induction vs with
  | nil => rfl
  | cons c vs ih =>
    rw [recast, List.findIdx?_cons, ih]
    by_cases hleft : c.field = some "left"
    · simp [hleft]
    · cases vs.findIdx? (·.field = some "left") <;> simp [hleft]

theorem children_convert (n : Grammar.Node) :
    (convert bytes n).children = recast bytes (headKeyword? bytes n) n.visible := by
  rw [convert_eq, build]
  rcases headKeyword? bytes n with _ | ⟨keyword, place⟩
  · rw [recast_none]
  · rw [recast_some, lookup_fieldSlots (by decide)]
    cases n.visible.findIdx? (·.field = some "left") <;> rfl

theorem label_convert (n : Grammar.Node) : (convert bytes n).label = labelOf bytes n := by
  rw [convert_eq]
  rfl

/-! ## Nodes of a converted tree -/

/-- Where a node of converted trees comes from: it is a converted node, one of the trees or visible below
them, or the declaration of the target in the head of a loop, or the declarator in such a declaration. -/
inductive Arises (bytes : List UInt8) (vs : List Grammar.Node) : Node → Prop where
  | converted (c : Grammar.Node) (mem : c ∈ vs.flatMap Grammar.Node.preorder) (seen : c ∈ vs ∨ c.isVisible = true) :
      Arises bytes vs (convert bytes c)
  | declaration (keyword : Keyword) (place : Point) (c : Grammar.Node) :
      Arises bytes vs (headDeclaration keyword place (convert bytes c))
  | declarator (keyword : Keyword) (place : Point) (c : Grammar.Node) (d : Node)
      (only : (headDeclaration keyword place (convert bytes c)).children = [d]) : Arises bytes vs d

variable {bytes}

theorem Arises.mono {vs ws : List Grammar.Node} {m : Node} (h : Arises bytes vs m)
    (hsub : ∀ c ∈ vs.flatMap Grammar.Node.preorder, c ∈ ws.flatMap Grammar.Node.preorder)
    (hseen : ∀ c ∈ vs, c ∈ ws ∨ c.isVisible = true) : Arises bytes ws m := by
  cases h with
  | converted c mem seen => exact .converted c (hsub c mem) (seen.elim (hseen c) .inr)
  | declaration keyword place c => exact .declaration keyword place c
  | declarator keyword place c _ only => exact .declarator keyword place c m only

/-- Every node of converted trees comes from one of these. -/
theorem arises_of_recast {head : Option (Keyword × Point)} {vs : List Grammar.Node} {m : Node}
    (hm : m ∈ (recast bytes head vs).flatMap Node.preorder) : Arises bytes vs m := by
  induction vs using Grammar.Node.visible_induction generalizing head with
  | nil => rw [recast] at hm; cases hm
  | cons n rest ihc ihr =>
    have hself : m ∈ (convert bytes n).preorder → Arises bytes (n :: rest) m := by
      intro hm
      rw [Node.preorder_eq, List.mem_cons, children_convert] at hm
      rcases hm with rfl | hm
      · exact .converted n (List.mem_flatMap.2 ⟨n, List.mem_cons_self, Grammar.Node.branching.mem_preorder_self n⟩)
          (.inl List.mem_cons_self)
      · refine (ihc hm).mono (fun c hc => ?_) fun c hc => .inr (List.mem_filter.1 hc).2
        rw [List.flatMap_cons, Grammar.Node.preorder_eq]
        exact List.mem_append_left _ (List.mem_cons_of_mem n (Grammar.Node.mem_descendants_of_visible hc))
    have hhead : ∀ keyword place, m ∈ (headDeclaration keyword place (convert bytes n)).preorder →
        Arises bytes (n :: rest) m := by
      intro keyword place hm
      rw [headDeclaration, Node.preorder_eq, List.mem_cons, List.flatMap_singleton, Node.preorder_eq, List.mem_cons,
        List.flatMap_singleton] at hm
      rcases hm with rfl | rfl | hm
      · exact .declaration keyword place n
      · exact .declarator keyword place n _ rfl
      · exact hself hm
    have hrest : ∀ head, m ∈ (recast bytes head rest).flatMap Node.preorder → Arises bytes (n :: rest) m := by
      intro head hm
      refine (ihr hm).mono (fun c hc => ?_) fun c hc => .inl (List.mem_cons_of_mem n hc)
      rw [List.flatMap_cons]
      exact List.mem_append_right _ hc
    rw [recast] at hm
    split at hm
    · rw [← recast_none, List.flatMap_cons, List.mem_append] at hm
      rcases hm with hm | hm
      · rcases head with _ | ⟨keyword, place⟩
        · exact hself hm
        · exact hhead keyword place hm
      · exact hrest none hm
    · rw [List.flatMap_cons, List.mem_append] at hm
      rcases hm with hm | hm
      · exact hself hm
      · exact hrest head hm

variable (bytes)

theorem arises_ofGrammar {root : Grammar.Node} {m : Node} (hm : m ∈ (ofGrammar bytes root).preorder) :
    Arises bytes [root] m := by
  have hone : recast bytes none [root] = [ofGrammar bytes root] := by rw [recast_none, ofGrammar_eq]; rfl
  have hrecast : m ∈ (recast bytes none [root]).flatMap Node.preorder := by rwa [hone, List.flatMap_singleton]
  exact arises_of_recast hrecast

/-! ## Programs -/

theorem ofType_eq_program {type : String} (h : Kind.ofType type = .program) : type = "program" := by
  unfold Kind.ofType at h
  split at h
  · rfl
  all_goals cases h

/-- A program in a converted list of nodes was a program before. -/
theorem program_of_recast {head : Option (Keyword × Point)} {vs : List Grammar.Node} {m : Node}
    (hm : m ∈ (recast bytes head vs).flatMap Node.preorder) (hk : m.kind = .program) :
    ∃ c ∈ vs.flatMap Grammar.Node.preorder, c.type = "program" := by
  cases arises_of_recast hm with
  | converted c mem seen =>
    rw [Node.kind, label_convert] at hk
    exact ⟨c, mem, ofType_eq_program hk⟩
  | declaration keyword place c => cases hk
  | declarator keyword place c _ only =>
    cases only
    cases hk

end LetOrConst.Tree
