/-
The conversion as a recursion. A node bears what its grammar node alone says of it (`Bears`); its children and
fields are the converted visible children, save that a loop over a collection with a keyword in its head holds a
declaration in the place of its target (`Recursive`). Leaving these declarations out of the document order of
a converted tree gives the visible nodes of the grammar tree in their order (`Erased`). The agenda and the
register of finished nodes both come to that recursion (`ofGrammar_recursive`).
-/
import LetOrConst.Proofs.Grammar.Order
import LetOrConst.Proofs.Tree.Keyed

namespace LetOrConst.Grammar.Node

/-- A node and its visible descendants in document order. -/
def shown (n : Node) : List Node := visibly.preorder n

theorem shown_eq (n : Node) : n.shown = n :: n.visible.flatMap shown := visibly.preorder_eq n

end LetOrConst.Grammar.Node

namespace LetOrConst.Tree

open LetOrConst.Grammar (Point)
open LetOrConst.Grammar.Node (First)

/-! ## Loops that declare their target -/

/-- The node is a loop over a collection that declares its target: its first child under `kind` is a keyword,
and the target is its first visible child under `left`. -/
structure Declares (bytes : List UInt8) (n : Grammar.Node) (keyword : Keyword) (place : Point)
    (left : Grammar.Node) : Prop where
  loop : n.type = "for_in_statement"
  keyword : ∃ k, First (·.field = some "kind") n.children k ∧ k.text bytes = keyword.text ∧ k.point = place
  target : First (·.field = some "left") n.visible left

/-- A declaration of one target at the place of its keyword. -/
structure DeclarationOf (keyword : Keyword) (place : Point) (left d : Node) : Prop where
  kind : d.kind = .declaration
  type : d.type = if keyword = .kwVar then "variable_declaration" else "lexical_declaration"
  place : d.line = place.row + 1 ∧ d.column = place.column + 1
  keyword : d.label.keyword = some keyword
  fields : ∀ f, d.child? f = none
  /-- It holds one declarator, and that holds the target as its only child and under `name`. -/
  declarator : ∃ r, d.children = [r] ∧ r.kind = .declarator ∧ r.type = "variable_declarator" ∧
    r.line = left.line ∧ r.column = left.column ∧ r.children = [left] ∧
    ∀ f, r.child? f = if f = "name" then some left else none

theorem declarationOf_headDeclaration (keyword : Keyword) (place : Point) (left : Node) :
    DeclarationOf keyword place left (headDeclaration keyword place left) where
  kind := rfl
  type := rfl
  place := ⟨rfl, rfl⟩
  keyword := rfl
  fields _ := rfl
  declarator := by
    refine ⟨_, rfl, rfl, rfl, rfl, rfl, rfl, fun f => ?_⟩
    rw [Node.child?, List.lookup_cons]
    by_cases hf : f = "name"
    · rw [if_pos hf, beq_iff_eq.2 hf]
      rfl
    · rw [if_neg hf, beq_false_of_ne hf]
      rfl

theorem first_iff_fieldChild? {n c : Grammar.Node} {f : String} :
    First (·.field = some f) n.children c ↔ n.fieldChild? f = some c :=
  Grammar.Node.first_iff_find? fun _ => beq_iff_eq

theorem ofText?_eq_some_iff {s : String} {k : Keyword} : Keyword.ofText? s = some k ↔ s = k.text := by
  constructor
  · intro h
    have htext := List.find?_some (p := fun k : Keyword => k.text == s) h
    exact (beq_iff_eq.1 htext).symm
  · rintro rfl
    cases k <;> rfl

variable (bytes : List UInt8)

theorem headKeyword?_eq_some_iff {n : Grammar.Node} {keyword : Keyword} {place : Point} :
    headKeyword? bytes n = some (keyword, place) ↔ n.type = "for_in_statement" ∧
      ∃ k, First (·.field = some "kind") n.children k ∧ k.text bytes = keyword.text ∧ k.point = place := by
  unfold headKeyword?
  by_cases htype : n.type = "for_in_statement"
  · rw [if_pos htype, Option.bind_eq_some_iff]
    simp only [first_iff_fieldChild?, htype, true_and, Option.map_eq_some_iff, Prod.mk.injEq, ofText?_eq_some_iff]
    constructor
    · rintro ⟨k, hk, _, htext, rfl, rfl⟩
      exact ⟨k, hk, htext, rfl⟩
    · rintro ⟨k, hk, htext, rfl⟩
      exact ⟨k, hk, _, htext, rfl, rfl⟩
  · simp [htype]

/-! ## The node by itself -/

/-- The node bears what is known of it by itself from its grammar node. -/
structure Bears (bytes : List UInt8) (n : Grammar.Node) (t : Node) : Prop where
  kind : t.kind = .ofType n.type
  type : t.type = n.type
  line : t.line = n.point.row + 1
  column : t.column = n.point.column + 1
  /-- The name of an identifier is its text. -/
  name : ∀ x, t.label.name = some x ↔ Kind.ofType n.type = .identifier ∧ x = n.text bytes
  /-- The keyword of a declaration is `var` by its type, or else the text of its first child under `kind`. -/
  keyword : ∀ k, t.label.keyword = some k ↔ n.type = "variable_declaration" ∧ k = .kwVar ∨
    n.type = "lexical_declaration" ∧ ∃ c, First (·.field = some "kind") n.children c ∧ c.text bytes = k.text
  /-- The operator of an assignment is the plain one by its type, or else the text of its first child under
  `operator`. -/
  operator : ∀ x, t.label.operator = some x ↔ n.type = "assignment_expression" ∧ x = "=" ∨
    n.type = "augmented_assignment_expression" ∧
      ∃ c, First (·.field = some "operator") n.children c ∧ c.text bytes = x

variable {bytes} in
theorem bears_of_label {n : Grammar.Node} {t : Node} (h : t.label = labelOf bytes n) : Bears bytes n t := by
  refine ⟨congrArg Label.kind h, congrArg Label.type h, congrArg Label.line h, congrArg Label.column h, fun x => ?_,
    fun k => ?_, fun x => ?_⟩
  · rw [h, labelOf]
    by_cases hkind : Kind.ofType n.type = .identifier <;> simp [hkind, eq_comm]
  · rw [h, labelOf]
    simp only [first_iff_fieldChild?]
    by_cases hvar : n.type = "variable_declaration"
    · simp [hvar, eq_comm]
    · by_cases hlexical : n.type = "lexical_declaration"
      · simp [hlexical, keywordText?, Option.bind_eq_some_iff, ofText?_eq_some_iff]
      · simp [hvar, hlexical]
  · rw [h, labelOf]
    simp only [first_iff_fieldChild?]
    by_cases hplain : n.type = "assignment_expression"
    · simp [hplain, eq_comm]
    · by_cases haugmented : n.type = "augmented_assignment_expression"
      · simp [haugmented]
      · simp [hplain, haugmented]

/-! ## The recursion -/

/-- The function converts every node by recursion. -/
structure Recursive (bytes : List UInt8) (conv : Grammar.Node → Node) : Prop where
  /-- What is known of a node by itself is known from the grammar node alone. -/
  own : ∀ n, Bears bytes n (conv n)
  /-- The children are the converted visible children. -/
  children : ∀ n, (∀ keyword place left, ¬ Declares bytes n keyword place left) →
    (conv n).children = n.visible.map conv
  /-- Under a field stands the first visible child there. -/
  field : ∀ n f c, f ≠ "" → First (·.field = some f) n.visible c →
    (f = "left" → ∀ keyword place left, ¬ Declares bytes n keyword place left) → (conv n).child? f = some (conv c)
  /-- A loop that declares its target has a declaration in that one place and under `left`. -/
  declared : ∀ n keyword place left, Declares bytes n keyword place left →
    ∃ before after d, n.visible = before ++ left :: after ∧ (∀ c ∈ before, c.field ≠ some "left") ∧
      DeclarationOf keyword place (conv left) d ∧ (conv n).children = before.map conv ++ d :: after.map conv ∧
      (conv n).child? "left" = some d
  /-- There is no other field. -/
  absent : ∀ n f, (f = "" ∨ ∀ c ∈ n.visible, c.field ≠ some f) → (conv n).child? f = none

theorem recast_append {before : List Grammar.Node} (hbefore : ∀ c ∈ before, c.field ≠ some "left")
    (head : Option (Keyword × Point)) (vs : List Grammar.Node) :
    recast bytes head (before ++ vs) = before.map (convert bytes) ++ recast bytes head vs := by
  induction before with
  | nil => rfl
  | cons c before ih =>
    rw [List.cons_append, recast, if_neg (hbefore c List.mem_cons_self),
      ih fun d hd => hbefore d (List.mem_cons_of_mem c hd)]
    rfl

theorem recast_of_no_left {vs : List Grammar.Node} (h : ∀ c ∈ vs, c.field ≠ some "left")
    (head : Option (Keyword × Point)) : recast bytes head vs = vs.map (convert bytes) := by
  have := recast_append bytes h head []
  rwa [List.append_nil, recast, List.append_nil] at this

theorem getElem?_recast {head : Option (Keyword × Point)} {vs : List Grammar.Node} {i : Nat} {c : Grammar.Node}
    (hc : vs[i]? = some c) (hfield : c.field ≠ some "left") : (recast bytes head vs)[i]? = some (convert bytes c) := by
  induction vs generalizing i with
  | nil => cases hc
  | cons v vs ih =>
    rw [recast]
    cases i with
    | zero =>
      cases hc
      rw [if_neg hfield]
      rfl
    | succ i =>
      split
      · rw [List.getElem?_cons_succ, List.getElem?_map]
        exact congrArg (Option.map (convert bytes)) hc
      · exact ih hc

/-- A field is looked up among the children by the number of the first that stands under it. -/
theorem child?_convert {n : Grammar.Node} {f : String} (hf : f ≠ "") :
    (convert bytes n).child? f = (n.visible.findIdx? (·.field = some f)).bind ((convert bytes n).children[·]?) := by
  have hfields : (convert bytes n).fields = fieldSlots n.visible := by rw [convert_eq_record]
  rw [Node.child?, hfields, lookup_fieldSlots hf]
  cases n.visible.findIdx? (·.field = some f) <;> rfl

theorem child?_of_first {n c : Grammar.Node} {f : String} (hf : f ≠ "") {before after : List Grammar.Node}
    (hsplit : n.visible = before ++ c :: after) (hc : c.field = some f) (hbefore : ∀ b ∈ before, b.field ≠ some f) :
    (convert bytes n).child? f = (convert bytes n).children[before.length]? := by
  have hidx : n.visible.findIdx? (·.field = some f) = some before.length := by
    rw [hsplit, List.findIdx?_append, List.findIdx?_eq_none_iff.2 fun b hb => by simpa using hbefore b hb]
    simp [List.findIdx?_cons, hc]
  rw [child?_convert bytes hf, hidx]
  rfl

/-- A loop that declares its target holds the declaration among its children and under `left`. -/
theorem convert_declares {n left : Grammar.Node} {keyword : Keyword} {place : Point}
    (h : Declares bytes n keyword place left) : ∃ before after, n.visible = before ++ left :: after ∧
      (∀ c ∈ before, c.field ≠ some "left") ∧
      (convert bytes n).children = before.map (convert bytes) ++
        headDeclaration keyword place (convert bytes left) :: after.map (convert bytes) ∧
      (convert bytes n).child? "left" = some (headDeclaration keyword place (convert bytes left)) := by
  obtain ⟨before, after, hsplit, hleft, hbefore⟩ := h.target
  have hchildren : (convert bytes n).children = before.map (convert bytes) ++
      headDeclaration keyword place (convert bytes left) :: after.map (convert bytes) := by
    rw [children_convert, (headKeyword?_eq_some_iff bytes).2 ⟨h.loop, h.keyword⟩, hsplit, recast_append bytes hbefore,
      recast, if_pos hleft]
    rfl
  refine ⟨before, after, hsplit, hbefore, hchildren, ?_⟩
  rw [child?_of_first bytes (by decide) hsplit hleft hbefore, hchildren]
  simp

/-- Where no target is declared, every child is a converted one. -/
theorem children_of_not_declares {n : Grammar.Node} (h : ∀ keyword place left, ¬ Declares bytes n keyword place left) :
    (convert bytes n).children = n.visible.map (convert bytes) := by
  rw [children_convert]
  cases hhead : headKeyword? bytes n with
  | none => exact recast_none bytes n.visible
  | some head =>
    obtain ⟨hloop, hkeyword⟩ := (headKeyword?_eq_some_iff bytes).1 hhead
    refine recast_of_no_left bytes (fun c hc hleft => ?_) _
    -- a child under `left` makes a first one
    cases hfind : n.visible.find? (·.field = some "left") with
    | none => exact absurd hleft (by simpa using List.find?_eq_none.1 hfind c hc)
    | some left =>
      exact h _ _ left ⟨hloop, hkeyword, (Grammar.Node.first_iff_find? fun _ => decide_eq_true_iff).2 hfind⟩

theorem field_convert {n c : Grammar.Node} {f : String} (hf : f ≠ "") (hc : First (·.field = some f) n.visible c)
    (hleft : f = "left" → ∀ keyword place left, ¬ Declares bytes n keyword place left) :
    (convert bytes n).child? f = some (convert bytes c) := by
  obtain ⟨before, after, hsplit, hfield, hbefore⟩ := hc
  have hnth : n.visible[before.length]? = some c := by
    rw [hsplit]
    simp
  rw [child?_of_first bytes hf hsplit hfield hbefore]
  by_cases h : f = "left"
  · rw [children_of_not_declares bytes (hleft h), List.getElem?_map, hnth]
    rfl
  · rw [children_convert]
    refine getElem?_recast bytes hnth fun hc => h ?_
    rw [hfield] at hc
    exact Option.some.inj hc

theorem child?_of_absent {n : Grammar.Node} {f : String} (h : f = "" ∨ ∀ c ∈ n.visible, c.field ≠ some f) :
    (convert bytes n).child? f = none := by
  by_cases hf : f = ""
  · have hnone : (fieldSlots n.visible).lookup f = none := by
      rw [fieldSlots_eq, lookup_firstEntries, List.lookup_eq_none_iff]
      intro e he
      obtain ⟨c, -, hc⟩ := List.mem_filterMap.1 he
      unfold fieldEntry at hc
      obtain ⟨g, hg, rfl⟩ := Option.map_eq_some_iff.1 hc
      have hne : g ≠ "" := of_decide_eq_true (Option.filter_eq_some_iff.1 hg).2
      exact bne_iff_ne.2 fun heq => hne (heq.symm.trans hf)
    rw [Node.child?, convert_eq_record, hnone]
    rfl
  · have hall := h.resolve_left hf
    rw [child?_convert bytes hf, List.findIdx?_eq_none_iff.2 fun c hc => by simpa using hall c hc]
    rfl

theorem recursive_ofGrammar : Recursive bytes (ofGrammar bytes) := by
  have hconv : ofGrammar bytes = convert bytes := funext (ofGrammar_eq bytes)
  rw [hconv]
  refine ⟨fun n => bears_of_label (label_convert bytes n), fun n => children_of_not_declares bytes,
    fun n f c => field_convert bytes, ?_, fun n f => child?_of_absent bytes⟩
  intro n keyword place left h
  obtain ⟨before, after, hsplit, hbefore, hchildren, hfield⟩ := convert_declares bytes h
  exact ⟨before, after, _, hsplit, hbefore, declarationOf_headDeclaration keyword place _, hchildren, hfield⟩

/-! ## The nodes of the result -/

/-- The nodes of a converted tree without the declarations of targets, against the visible nodes of the grammar
tree: each bears what its grammar node says of it. A declaration and its declarator stand right before the
target of a loop and are left out together. -/
inductive Erased (bytes : List UInt8) (root : Grammar.Node) : List Node → List Grammar.Node → Prop where
  | nil : Erased bytes root [] []
  | node {t : Node} {n : Grammar.Node} {ts : List Node} {ns : List Grammar.Node} (own : Bears bytes n t)
      (rest : Erased bytes root ts ns) : Erased bytes root (t :: ts) (n :: ns)
  | pair {loop left : Grammar.Node} {keyword : Keyword} {place : Point} {d r t : Node} {ts : List Node}
      {ns : List Grammar.Node} (mem : loop ∈ root.shown) (declares : Declares bytes loop keyword place left)
      (declaration : DeclarationOf keyword place t d) (declarator : d.children = [r])
      (own : Bears bytes left t) (rest : Erased bytes root ts ns) :
      Erased bytes root (d :: r :: t :: ts) (left :: ns)

variable {bytes}

theorem Erased.append {root : Grammar.Node} {ts ts' : List Node} {ns ns' : List Grammar.Node}
    (h : Erased bytes root ts ns) (h' : Erased bytes root ts' ns') : Erased bytes root (ts ++ ts') (ns ++ ns') := by
  induction h with
  | nil => exact h'
  | node own rest ih => exact .node own ih
  | pair mem declares declaration declarator own rest ih => exact .pair mem declares declaration declarator own ih

/-- Some children of a node, from one on before which none stands under `left`. -/
def TailOf (loop : Grammar.Node) (vs : List Grammar.Node) : Prop :=
  ∃ before, loop.visible = before ++ vs ∧ ∀ b ∈ before, b.field ≠ some "left"

theorem TailOf.next {loop n : Grammar.Node} {rest : List Grammar.Node} (h : TailOf loop (n :: rest))
    (hn : n.field ≠ some "left") : TailOf loop rest := by
  obtain ⟨before, hsplit, hbefore⟩ := h
  refine ⟨before ++ [n], by rw [hsplit, List.append_assoc]; rfl, fun b hb => ?_⟩
  rcases List.mem_append.1 hb with hb | hb
  · exact hbefore b hb
  · rw [List.mem_singleton.1 hb]
    exact hn

theorem TailOf.declares {loop n : Grammar.Node} {rest : List Grammar.Node} (h : TailOf loop (n :: rest))
    (hn : n.field = some "left") {keyword : Keyword} {place : Point}
    (hhead : headKeyword? bytes loop = some (keyword, place)) : Declares bytes loop keyword place n := by
  obtain ⟨before, hsplit, hbefore⟩ := h
  obtain ⟨htype, hkind⟩ := (headKeyword?_eq_some_iff bytes).1 hhead
  exact ⟨htype, hkind, before, rest, hsplit, hn, hbefore⟩

/-- The converted children of a node, or of its tail, without the declaration among them. -/
theorem erased_recast {root : Grammar.Node} {vs : List Grammar.Node}
    (hmem : ∀ m ∈ vs.flatMap Grammar.Node.shown, m ∈ root.shown) (head : Option (Keyword × Point))
    (hhead : head ≠ none → ∃ loop ∈ root.shown, headKeyword? bytes loop = head ∧ TailOf loop vs) :
    Erased bytes root ((recast bytes head vs).flatMap Node.preorder) (vs.flatMap Grammar.Node.shown) := by
  -- down with the head of the node itself, along with the same head until the target has passed
  induction vs using Grammar.Node.visible_induction generalizing head with
  | nil => exact .nil
  | cons n rest ihc ihr =>
    have hn : n ∈ root.shown := by
      refine hmem n ?_
      rw [List.flatMap_cons, Grammar.Node.shown_eq]
      exact List.mem_append_left _ List.mem_cons_self
    have hbelow : Erased bytes root ((convert bytes n).children.flatMap Node.preorder)
        (n.visible.flatMap Grammar.Node.shown) := by
      rw [children_convert]
      refine ihc (fun m hm => hmem m ?_) _ fun _ => ⟨n, hn, rfl, [], rfl, by simp⟩
      rw [List.flatMap_cons, Grammar.Node.shown_eq]
      exact List.mem_append_left _ (List.mem_cons_of_mem n hm)
    have hrest : ∀ m ∈ rest.flatMap Grammar.Node.shown, m ∈ root.shown := by
      intro m hm
      refine hmem m ?_
      rw [List.flatMap_cons]
      exact List.mem_append_right _ hm
    have hself : Erased bytes root (convert bytes n).preorder n.shown := by
      rw [Node.preorder_eq, Grammar.Node.shown_eq]
      exact .node (bears_of_label (label_convert bytes n)) hbelow
    rw [recast, List.flatMap_cons]
    split
    · next hleft =>
      rw [List.flatMap_cons, ← recast_none]
      refine .append ?_ (ihr hrest none fun h => absurd rfl h)
      cases head with
      | none => exact hself
      | some head =>
        obtain ⟨keyword, place⟩ := head
        obtain ⟨loop, hloop, hkeyword, htail⟩ := hhead (by simp)
        rw [Option.elim_some, Node.preorder_eq, headDeclaration, List.flatMap_singleton, Node.preorder_eq,
          List.flatMap_singleton, Node.preorder_eq, Grammar.Node.shown_eq]
        exact .pair hloop (htail.declares hleft hkeyword) (declarationOf_headDeclaration keyword place _) rfl
          (bears_of_label (label_convert bytes n)) hbelow
    · next hleft =>
      rw [List.flatMap_cons]
      refine .append hself (ihr hrest head fun h => ?_)
      obtain ⟨loop, hloop, hkeyword, htail⟩ := hhead h
      exact ⟨loop, hloop, hkeyword, htail.next hleft⟩

theorem erased_ofGrammar (root : Grammar.Node) : Erased bytes root (ofGrammar bytes root).walk root.shown := by
  have h : Erased bytes root ((recast bytes none [root]).flatMap Node.preorder) ([root].flatMap Grammar.Node.shown) :=
    erased_recast (by simp) none fun h => absurd rfl h
  rw [recast_none, List.map_singleton, List.flatMap_singleton, List.flatMap_singleton] at h
  rw [Node.walk_eq, ofGrammar_eq]
  exact h

/-- The conversion terminates with one finished node, which is the tree of the root; with a register in which no
two nodes share a key it never lacks a node and comes to the same tree. That tree is given by recursion, and
its nodes are the visible ones of the grammar tree and the declarations of targets. -/
theorem ofGrammar_recursive {ι : Type} [DecidableEq ι] {key : List Nat → ι} {root : Grammar.Node}
    (hkeys : KeysApart key ⟨[], root⟩) :
    assemble bytes [.enter root] [] = [ofGrammar bytes root] ∧
      ofGrammarKeyed bytes key root = some (ofGrammar bytes root) ∧
      Recursive bytes (ofGrammar bytes) ∧
      Erased bytes root (ofGrammar bytes root).walk root.shown := by
  refine ⟨?_, ofGrammarKeyed_eq bytes hkeys, recursive_ofGrammar bytes, erased_ofGrammar root⟩
  have hrun := assemble_enter bytes [root] [] []
  rw [List.map_singleton, List.append_nil, assemble] at hrun
  rw [hrun, ofGrammar_eq]
  rfl

/-- The text of a loop over a collection with a remark before its target. -/
def remarkedText : List UInt8 := Text.Utf8.encode "for (const /*k*/ k of xs) m ;".toList

/-- Its tree, in which the remark and a second node behind the head stand under `left` like the target. -/
def remarkedLoop : Grammar.Node where
  type := "program"
  span := ⟨0, 29⟩
  children := [{
    type := "for_in_statement"
    span := ⟨0, 29⟩
    children := [
      { type := "for", span := ⟨0, 3⟩, named := false },
      { type := "(", point := ⟨0, 4⟩, span := ⟨4, 5⟩, named := false },
      { type := "const", point := ⟨0, 5⟩, span := ⟨5, 10⟩, named := false, field := some "kind" },
      { type := "comment", point := ⟨0, 11⟩, span := ⟨11, 16⟩, field := some "left" },
      { type := "identifier", point := ⟨0, 17⟩, span := ⟨17, 18⟩, field := some "left" },
      { type := "of", point := ⟨0, 19⟩, span := ⟨19, 21⟩, named := false, field := some "operator" },
      { type := "identifier", point := ⟨0, 22⟩, span := ⟨22, 24⟩, field := some "right" },
      { type := ")", point := ⟨0, 24⟩, span := ⟨24, 25⟩, named := false },
      { type := "identifier", point := ⟨0, 26⟩, span := ⟨26, 27⟩, field := some "left" },
      { type := "empty_statement", point := ⟨0, 28⟩, span := ⟨28, 29⟩, field := some "body" }] }]

theorem ofGrammar_recursive_remarked :
    KeysApart (fun address => address) ⟨[], remarkedLoop⟩ ∧
      (ofGrammar remarkedText remarkedLoop).walk.map (fun t => (t.type, t.column)) =
        [("program", 1), ("for_in_statement", 1), ("lexical_declaration", 6), ("variable_declarator", 18),
          ("identifier", 18), ("identifier", 23), ("identifier", 27), ("empty_statement", 29)] ∧
      assemble remarkedText [.enter remarkedLoop] [] = [ofGrammar remarkedText remarkedLoop] ∧
      ofGrammarKeyed remarkedText (fun address => address) remarkedLoop = some (ofGrammar remarkedText remarkedLoop) ∧
      Recursive remarkedText (ofGrammar remarkedText) ∧
      Erased remarkedText remarkedLoop (ofGrammar remarkedText remarkedLoop).walk remarkedLoop.shown := by
  have hkeys : KeysApart (fun address => address) ⟨[], remarkedLoop⟩ := by
    unfold KeysApart
    decide +kernel
  exact ⟨hkeys, by decide +kernel, ofGrammar_recursive hkeys⟩

end LetOrConst.Tree
