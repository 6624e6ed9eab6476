/-
Comments and tokens do not count. Out of a grammar tree may be cut, at any depth, subtrees that are comments
or tokens, hold no fault and no markup and do not stand where a keyword or an operator is looked up (`Idle`).
What the conversion and the search for errors read of a node is the node by itself (`alone`), so both see the
same: the visible children, the nodes under `kind` and `operator`, and the faults and pieces of markup of the
two trees agree one by one, and parsing comes to the same result (`parse_pruned`).
-/
import LetOrConst.Proofs.Document.Reject
import LetOrConst.Proofs.Tree.Convert

namespace LetOrConst.Grammar.Node

/-! ## Cutting subtrees -/

/-- A subtree that may be cut: a comment or a token that is in no place of a keyword or an operator, without
any fault or markup. -/
structure Idle (n : Node) : Prop where
  unseen : n.isComment = true ∨ n.named = false
  unmarked : n.field ≠ some "kind" ∧ n.field ≠ some "operator"
  sound : ∀ m ∈ n.preorder, ¬ m.Faulty
  plain : ∀ m ∈ n.preorder, ¬ m.Markup

theorem Idle.leaf {n : Node} (hleaf : n.children = [])
    (h : (n.isComment = true ∨ n.named = false) ∧ (n.field ≠ some "kind" ∧ n.field ≠ some "operator") ∧
      n.isFault = false ∧ n.isMarkup = false) : n.Idle := by
  obtain ⟨hunseen, hunmarked, hsound, hplain⟩ := h
  have honly : ∀ m ∈ n.preorder, m = n := by
    intro m hm
    rw [preorder_eq, hleaf] at hm
    exact List.mem_singleton.1 hm
  refine ⟨hunseen, hunmarked, fun m hm hfaulty => ?_, fun m hm hmarkup => ?_⟩
  · rw [honly m hm, ← isFault_iff, hsound] at hfaulty
    cases hfaulty
  · rw [honly m hm, ← isMarkup_iff, hplain] at hmarkup
    cases hmarkup

/-- The second trees are what is left of the first when idle subtrees are cut, some of the trees themselves or
subtrees at any depth below them. -/
inductive Pruned : List Node → List Node → Prop where
  | nil : Pruned [] []
  | cut {ns ms : List Node} (n : Node) (idle : n.Idle) (rest : Pruned ns ms) : Pruned (n :: ns) ms
  | keep {ns ms : List Node} (n : Node) (kids : List Node) (below : Pruned n.children kids) (rest : Pruned ns ms) :
      Pruned (n :: ns) ({ n with children := kids } :: ms)

/-- Below the root of a tree idle subtrees are cut. -/
def PrunesTo (root root' : Node) : Prop := ∃ kids, Pruned root.children kids ∧ root' = { root with children := kids }

/-! ## What is left -/

/-- A node by itself, without what is below it. -/
def alone (n : Node) : Node := { n with children := [] }

theorem eq_of_alone {α : Type} {f : Node → α} (hf : ∀ n, f n.alone = f n) (n : Node) (kids : List Node) :
    f { n with children := kids } = f n := by
  rw [← hf n, ← hf { n with children := kids }]
  rfl

section

variable {ns ms : List Node} {p : Node → Bool}

/-- The trees with a property that no idle one has are all left, in order. -/
theorem Pruned.filter_eq (h : Pruned ns ms) (hp : ∀ n, p n.alone = p n) (hidle : ∀ n, n.Idle → p n = false) :
    (ms.filter p).map alone = (ns.filter p).map alone := by
  induction h with
  | nil => rfl
  | cut n idle rest ih => rw [List.filter_cons_of_neg (by simp [hidle n idle]), ih]
  | keep n kids below rest ihc ihr =>
    rw [List.filter_cons, List.filter_cons, eq_of_alone hp n kids]
    cases p n with
    | false => exact ihr
    | true => exact congrArg (n.alone :: ·) ihr

/-- The nodes with a property that is nowhere in an idle tree are all left, in document order. -/
theorem Pruned.filter_preorder (h : Pruned ns ms) (hp : ∀ n, p n.alone = p n)
    (hidle : ∀ n : Node, n.Idle → ∀ m ∈ n.preorder, p m = false) :
    ((ms.flatMap preorder).filter p).map alone = ((ns.flatMap preorder).filter p).map alone := by
  induction h with
  | nil => rfl
  | cut n idle rest ih =>
    have hnone : n.preorder.filter p = [] := List.filter_eq_nil_iff.2 fun m hm => by simp [hidle n idle m hm]
    rw [List.flatMap_cons, List.filter_append, hnone, List.nil_append, ih]
  | keep n kids below rest ihc ihr =>
    have hself : (({ n with children := kids } : Node).preorder.filter p).map alone =
        (n.preorder.filter p).map alone := by
      rw [preorder_eq, preorder_eq n, List.filter_cons, List.filter_cons, eq_of_alone hp n kids]
      cases p n with
      | false => exact ihc
      | true => exact congrArg (n.alone :: ·) ihc
    rw [List.flatMap_cons, List.flatMap_cons, List.filter_append, List.filter_append, List.map_append,
      List.map_append, hself, ihr]

theorem find?_alone (h : (ms.filter p).map alone = (ns.filter p).map alone) :
    (ms.find? p).map alone = (ns.find? p).map alone := by
  rw [← List.head?_filter, ← List.head?_filter, ← List.head?_map, ← List.head?_map, h]

/-- What is read of a node by itself is read alike. -/
theorem bind_alone {α : Type} {f : Node → Option α} (hf : ∀ n, f n.alone = f n) {o o' : Option Node}
    (h : o'.map alone = o.map alone) : o'.bind f = o.bind f := by
  have hread : ∀ o : Option Node, (o.map alone).bind f = o.bind f := by
    intro o
    cases o with
    | none => rfl
    | some n => exact hf n
  rw [← hread o', h, hread]

theorem map_alone {α : Type} {f : Node → α} (hf : ∀ n, f n.alone = f n) {o o' : Option Node}
    (h : o'.map alone = o.map alone) : o'.map f = o.map f := by
  rw [Option.map_eq_bind, Option.map_eq_bind]
  exact bind_alone (f := some ∘ f) (fun n => congrArg some (hf n)) h

end

variable {n : Node} {kids : List Node}

theorem Idle.isVisible (h : n.Idle) : n.isVisible = false := by
  rcases h.unseen with hcomment | htoken
  · simp [Node.isVisible, hcomment]
  · simp [Node.isVisible, htoken]

theorem Pruned.fieldChild? (h : Pruned n.children kids) {key : String} (hkey : key = "kind" ∨ key = "operator") :
    (({ n with children := kids } : Node).fieldChild? key).map alone = (n.fieldChild? key).map alone := by
  refine find?_alone (h.filter_eq (fun _ => rfl) fun m idle => beq_false_of_ne ?_)
  rcases hkey with rfl | rfl
  · exact idle.unmarked.1
  · exact idle.unmarked.2

/-! ## Faults and markup -/

theorem firstFault?_eq (root : Node) :
    root.firstFault? = (root.descendants.find? isFault).or ((some root).filter isFault) := by
  have hhas : root.hasFault = (root.isFault || root.descendants.any isFault) := by
    rw [hasFault, walk_eq_preorder, preorder_eq, List.any_cons]
    rfl
  rw [firstFault?, hhas, tail_walk]
  cases hfind : root.descendants.find? isFault with
  | some m =>
    have hany : root.descendants.any isFault = true :=
      List.any_eq_true.2 ⟨m, List.mem_of_find?_eq_some hfind, List.find?_some hfind⟩
    simp [hany]
  | none =>
    have hany : root.descendants.any isFault = false :=
      List.any_eq_false.2 (List.find?_eq_none.1 hfind)
    simp [hany, Option.filter]

variable {root root' : Node}

theorem PrunesTo.firstFault? (h : PrunesTo root root') : root'.firstFault?.map alone = root.firstFault?.map alone := by
  obtain ⟨kids, hkids, rfl⟩ := h
  have hbelow := find?_alone (hkids.filter_preorder (p := isFault) (fun _ => rfl) fun n idle m hm =>
    Bool.eq_false_iff.2 fun hfault => idle.sound m hm (isFault_iff.1 hfault))
  rw [firstFault?_eq, firstFault?_eq, Option.map_or, Option.map_or]
  refine congrArg₂ Option.or hbelow ?_
  have hkeep : ({ root with children := kids } : Node).isFault = root.isFault := rfl
  rw [Option.filter_some, Option.filter_some, hkeep]
  split <;> rfl

theorem PrunesTo.firstMarkup? (h : PrunesTo root root') :
    root'.firstMarkup?.map alone = root.firstMarkup?.map alone := by
  obtain ⟨kids, hkids, rfl⟩ := h
  have hwhole := (Pruned.keep root kids hkids .nil).filter_preorder (p := isMarkup) (fun _ => rfl) fun n idle m hm =>
    Bool.eq_false_iff.2 fun hmarkup => idle.plain m hm (isMarkup_iff.1 hmarkup)
  rw [List.flatMap_singleton, List.flatMap_singleton] at hwhole
  rw [Node.firstMarkup?, Node.firstMarkup?, walk_eq_preorder, walk_eq_preorder]
  exact find?_alone hwhole

end LetOrConst.Grammar.Node

namespace LetOrConst.Tree

open LetOrConst.Grammar.Node (Pruned PrunesTo alone bind_alone map_alone)

variable (bytes : List UInt8)

/-! ## The tree -/

/-- The fields of a node follow from the fields of its visible children. -/
theorem fieldSlots_congr {vs ws : List Grammar.Node} (h : ws.map (·.field) = vs.map (·.field)) :
    fieldSlots ws = fieldSlots vs := by
  have hread : ∀ us : List Grammar.Node, us.zipIdx.filterMap (fun c => fieldEntry c.1 c.2) =
      (us.map (·.field)).zipIdx.filterMap fun c => (c.1.filter (· ≠ "")).map (·, Slot.child c.2) := by
    intro us
    rw [List.zipIdx_map, List.filterMap_map]
    rfl
  rw [fieldSlots_eq, fieldSlots_eq, hread, hread, h]

section

variable {n : Grammar.Node} {kids : List Grammar.Node}

theorem labelOf_pruned (h : Pruned n.children kids) : labelOf bytes { n with children := kids } = labelOf bytes n := by
  have hkind := map_alone (f := fun k => k.text bytes) (fun _ => rfl) (h.fieldChild? (.inl rfl))
  have hoperator := map_alone (f := fun k => k.text bytes) (fun _ => rfl) (h.fieldChild? (.inr rfl))
  simp only [labelOf, keywordText?, hkind, hoperator]
  rfl

theorem headKeyword?_pruned (h : Pruned n.children kids) :
    headKeyword? bytes { n with children := kids } = headKeyword? bytes n := by
  rw [headKeyword?, headKeyword?, bind_alone (fun _ => rfl) (h.fieldChild? (.inl rfl))]

theorem build_pruned (h : Pruned n.children kids) : build bytes { n with children := kids } = build bytes n := by
  have hvisible : (kids.filter (·.isVisible)).map alone = (n.children.filter (·.isVisible)).map alone :=
    h.filter_eq (fun _ => rfl) fun _ idle => idle.isVisible
  have hfields : fieldSlots ({ n with children := kids } : Grammar.Node).visible = fieldSlots n.visible := by
    have hfield := congrArg (List.map (·.field)) hvisible
    rw [List.map_map, List.map_map] at hfield
    exact fieldSlots_congr hfield
  funext children
  simp only [build, labelOf_pruned bytes h, headKeyword?_pruned bytes h, hfields]

end

/-- The visible ones of pruned trees convert as before. -/
theorem convert_visible_pruned {ns ms : List Grammar.Node} (h : Pruned ns ms) :
    (ms.filter (·.isVisible)).map (convert bytes) = (ns.filter (·.isVisible)).map (convert bytes) := by
  induction h with
  | nil => rfl
  | cut n idle rest ih => rw [List.filter_cons_of_neg (by simp [idle.isVisible]), ih]
  | keep n kids below rest ihc ihr =>
    have hself : convert bytes { n with children := kids } = convert bytes n := by
      rw [convert_eq, convert_eq, build_pruned bytes below]
      exact congrArg (build bytes n) ihc
    have hkeep : ({ n with children := kids } : Grammar.Node).isVisible = n.isVisible := rfl
    rw [List.filter_cons, List.filter_cons, hkeep]
    cases n.isVisible with
    | false => exact ihr
    | true => simp [hself, ihr]

theorem ofGrammar_pruned {root root' : Grammar.Node} (h : PrunesTo root root') :
    ofGrammar bytes root' = ofGrammar bytes root := by
  obtain ⟨kids, hkids, rfl⟩ := h
  rw [ofGrammar_eq, ofGrammar_eq, convert_eq, convert_eq, build_pruned bytes hkids]
  exact congrArg (build bytes root) (convert_visible_pruned bytes hkids)

end LetOrConst.Tree

namespace LetOrConst.Document

open LetOrConst.Grammar.Node (Idle Pruned PrunesTo map_alone)

theorem malformed?_pruned {source : String} {identity : Option String} {root root' : LetOrConst.Grammar.Node}
    (h : PrunesTo root root') : malformed? source identity root' = malformed? source identity root := by
  have hread : ∀ n, malformed? source identity n =
      (n.firstFault?.map fun m => malformedAt source identity m (faultMessage (Text.Utf8.encode source.toList) m)).or
        (n.firstMarkup?.map fun m => malformedAt source identity m markupMessage) := by
    intro n
    rw [malformed?]
    cases n.firstFault? <;> rfl
  rw [hread, hread, map_alone (fun _ => rfl) h.firstFault?, map_alone (fun _ => rfl) h.firstMarkup?]

/-- A text parses alike, to the same tree or with the same error, whether or not its grammar tree holds comments
and tokens that are idle. -/
theorem parse_pruned {grammar grammar' : Grammar} {source : String} (h : PrunesTo (grammar source) (grammar' source))
    (identity : Option String) : parse grammar' (some source) identity = parse grammar (some source) identity := by
  by_cases hempty : source = ""
  · have hnone : some source = none ∨ some source = some "" := .inr (congrArg some hempty)
    rw [parse_empty grammar identity hnone, parse_empty grammar' identity hnone]
  · rw [parse_text grammar identity hempty, parse_text grammar' identity hempty, malformed?_pruned h,
      Tree.ofGrammar_pruned _ h]

/-- The loop over a collection of `remarkedLoop` without its remark and the tokens around its head. -/
def bareLoop : LetOrConst.Grammar.Node where
  type := "program"
  span := ⟨0, 29⟩
  children := [{
    type := "for_in_statement"
    span := ⟨0, 29⟩
    children := [
      { type := "const", point := ⟨0, 5⟩, span := ⟨5, 10⟩, named := false, field := some "kind" },
      { type := "identifier", point := ⟨0, 17⟩, span := ⟨17, 18⟩, field := some "left" },
      { type := "of", point := ⟨0, 19⟩, span := ⟨19, 21⟩, named := false, field := some "operator" },
      { type := "identifier", point := ⟨0, 22⟩, span := ⟨22, 24⟩, field := some "right" },
      { type := "identifier", point := ⟨0, 26⟩, span := ⟨26, 27⟩, field := some "left" },
      { type := "empty_statement", point := ⟨0, 28⟩, span := ⟨28, 29⟩, field := some "body" }] }]

theorem parse_pruned_bareLoop :
    PrunesTo Tree.remarkedLoop bareLoop ∧
      parse (fun _ => bareLoop) (some "for (const /*k*/ k of xs) m ;") none =
        parse (fun _ => Tree.remarkedLoop) (some "for (const /*k*/ k of xs) m ;") none ∧
      parse (fun _ => bareLoop) (some "for (const /*k*/ k of xs) m ;") none =
        .ok (Tree.ofGrammar Tree.remarkedText bareLoop) := by
  have hpruned : PrunesTo Tree.remarkedLoop bareLoop := by
    refine ⟨_, .keep _ _ ?_ .nil, rfl⟩
    refine .cut _ (.leaf rfl (by decide +kernel)) <| .cut _ (.leaf rfl (by decide +kernel)) <| .keep _ [] .nil <|
      .cut _ (.leaf rfl (by decide +kernel)) <| .keep _ [] .nil <| .keep _ [] .nil <| .keep _ [] .nil <|
      .cut _ (.leaf rfl (by decide +kernel)) <| .keep _ [] .nil <| .keep _ [] .nil .nil
  have hclean : malformed? "for (const /*k*/ k of xs) m ;" none bareLoop = none := by decide +kernel
  refine ⟨hpruned, parse_pruned hpruned none, ?_⟩
  rw [parse_text _ none (by decide), hclean]
  rfl

end LetOrConst.Document
