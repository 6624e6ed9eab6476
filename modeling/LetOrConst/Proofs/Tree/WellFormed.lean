/-
Every node of a parsed tree is well formed: its kind goes with its type, its places count from one, its
fields lead to children of its own, and name, keyword and operator are there for the nodes that have them.
A node is a converted one, or the declaration of a target in the head of a loop, or the declarator in it
(`Arises`); each of the three is well formed by itself, so nothing is carried through the conversion. What is
below the root is visible, and so no comment.
-/
import LetOrConst.Proofs.Document.Reject
import LetOrConst.Proofs.Tree.Convert

namespace LetOrConst.Tree

/-- What holds of every node of a parsed tree. -/
structure Node.WellFormed (n : Node) : Prop where
  kind : n.kind = .ofType n.type
  place : 1 ≤ n.line ∧ 1 ≤ n.column
  /-- Every field leads to one of the children. -/
  fields : ∀ e ∈ n.fields, ∃ i c, e.2 = .child i ∧ n.children[i]? = some c ∧ n.child? e.1 = some c
  /-- No node is kept apart from the children. -/
  apart : n.apart = []
  name : n.label.name.isSome = true ↔ n.kind = .identifier
  keyword : n.label.keyword.isSome = true → n.kind = .declaration
  keywordVar : n.type = "variable_declaration" → n.label.keyword = some .kwVar
  operator : n.label.operator.isSome = true → n.kind = .assignment
  operatorPlain : n.type = "assignment_expression" → n.label.operator = some "="

/-! ## Fields -/

theorem mem_of_firstEntries {α : Type} {e : String × α} {l : List (String × α)} (h : e ∈ firstEntries l) : e ∈ l := by
  induction l with
  | nil => exact h
  | cons d l ih =>
    obtain ⟨k, v⟩ := d
    rw [firstEntries, List.mem_cons] at h
    rcases h with rfl | h
    · exact List.mem_cons_self
    · exact List.mem_cons_of_mem _ (ih (List.mem_filter.1 h).1)

/-- Every key has one entry, and that is the one found under it. -/
theorem lookup_of_firstEntries {α : Type} {e : String × α} {l : List (String × α)} (h : e ∈ firstEntries l) :
    (firstEntries l).lookup e.1 = some e.2 := by
  induction l with
  | nil => cases h
  | cons d l ih =>
    obtain ⟨k, v⟩ := d
    rw [firstEntries, List.mem_cons] at h
    rw [firstEntries, List.lookup_cons]
    rcases h with rfl | h
    · simp
    · obtain ⟨hmem, hne⟩ := List.mem_filter.1 h
      have hkey : e.1 ≠ k := by simpa using hne
      rw [beq_false_of_ne hkey, lookup_filter_ne hkey]
      exact ih hmem

theorem slot_of_fieldSlots {vs : List Grammar.Node} {e : String × Slot} (h : e ∈ fieldSlots vs) :
    ∃ i, e.2 = .child i ∧ i < vs.length := by
  rw [fieldSlots_eq] at h
  obtain ⟨⟨c, i⟩, hc, hentry⟩ := List.mem_filterMap.1 (mem_of_firstEntries h)
  unfold fieldEntry at hentry
  obtain ⟨f, -, rfl⟩ := Option.map_eq_some_iff.1 hentry
  exact ⟨i, rfl, (List.mem_zipIdx' hc).1⟩

theorem length_recast (bytes : List UInt8) (head : Option (Keyword × Grammar.Point)) (vs : List Grammar.Node) :
    (recast bytes head vs).length = vs.length := by
  induction vs with
  | nil => rfl
  | cons c vs ih =>
    rw [recast]
    split <;> simp [ih]

theorem fields_convert (bytes : List UInt8) (n : Grammar.Node) : ∀ e ∈ (convert bytes n).fields, ∃ i c,
    e.2 = .child i ∧ (convert bytes n).children[i]? = some c ∧ (convert bytes n).child? e.1 = some c := by
  intro e he
  rw [convert_eq_record] at he ⊢
  obtain ⟨i, hslot, hi⟩ := slot_of_fieldSlots he
  have hlen : i < (recast bytes (headKeyword? bytes n) n.visible).length := by rwa [length_recast]
  have hlookup : (fieldSlots n.visible).lookup e.1 = some e.2 := by
    rw [fieldSlots_eq] at he ⊢
    exact lookup_of_firstEntries he
  refine ⟨i, _, hslot, List.getElem?_eq_getElem hlen, ?_⟩
  rw [Node.child?, hlookup, hslot]
  exact List.getElem?_eq_getElem hlen

/-! ## The three sorts of nodes -/

/-- What only two types have is had by nodes of their kind. -/
theorem ofType_of_isSome {α : Type} {type first second : String} {k : Kind} {x y : Option α}
    (hfirst : Kind.ofType first = k) (hsecond : Kind.ofType second = k)
    (h : (if type = first then x else if type = second then y else none).isSome = true) : Kind.ofType type = k := by
  split at h
  · rename_i htype
    rw [htype, hfirst]
  · split at h
    · rename_i htype
      rw [htype, hsecond]
    · cases h

theorem wellFormed_convert (bytes : List UInt8) (n : Grammar.Node) : (convert bytes n).WellFormed where
  kind := by rw [Node.kind, Node.type, label_convert]; rfl
  place := by
    rw [Node.line, Node.column, label_convert]
    simp only [labelOf]
    omega
  fields := fields_convert bytes n
  apart := by rw [convert_eq_record]
  name := by
    rw [Node.kind, label_convert]
    simp only [labelOf]
    by_cases hkind : Kind.ofType n.type = .identifier <;> simp [hkind]
  keyword := by
    rw [Node.kind, label_convert]
    exact ofType_of_isSome rfl rfl
  keywordVar := by
    rw [Node.type, label_convert]
    intro htype
    exact if_pos htype
  operator := by
    rw [Node.kind, label_convert]
    exact ofType_of_isSome rfl rfl
  operatorPlain := by
    rw [Node.type, label_convert]
    intro htype
    exact if_pos htype

theorem wellFormed_headDeclaration (keyword : Keyword) (place : Grammar.Point) (left : Node) :
    (headDeclaration keyword place left).WellFormed where
  kind := by cases keyword <;> rfl
  place := by
    simp only [Node.line, Node.column, headDeclaration]
    omega
  fields e he := by cases he
  apart := rfl
  name := by simp [headDeclaration, Node.kind]
  keyword _ := rfl
  keywordVar := by cases keyword <;> simp [headDeclaration, Node.type]
  operator h := by cases h
  operatorPlain := by cases keyword <;> simp [headDeclaration, Node.type]

theorem wellFormed_headDeclarator {keyword : Keyword} {place : Grammar.Point} {left d : Node} (hleft : left.WellFormed)
    (hd : (headDeclaration keyword place left).children = [d]) : d.WellFormed := by
  cases hd
  refine ⟨rfl, hleft.place, ?_, rfl, by simp [Node.kind], ?_, ?_, ?_, ?_⟩
  · intro e he
    cases List.mem_singleton.1 he
    exact ⟨0, left, rfl, rfl, rfl⟩
  · rintro ⟨⟩
  · simp [Node.type]
  · rintro ⟨⟩
  · simp [Node.type]

theorem Arises.wellFormed {bytes : List UInt8} {vs : List Grammar.Node} {n : Node} (h : Arises bytes vs n) :
    n.WellFormed := by
  cases h with
  | converted c mem seen => exact wellFormed_convert bytes c
  | declaration keyword place c => exact wellFormed_headDeclaration keyword place _
  | declarator keyword place c _ only => exact wellFormed_headDeclarator (wellFormed_convert bytes c) only

/-- What arises from visible nodes is no comment. -/
theorem Arises.type_ne_comment {bytes : List UInt8} {vs : List Grammar.Node} {n : Node} (h : Arises bytes vs n)
    (hvs : ∀ c ∈ vs, c.isVisible = true) : n.type ≠ "comment" ∧ n.type ≠ "html_comment" := by
  cases h with
  | converted c mem seen =>
    have hvisible : c.isVisible = true := seen.elim (hvs c) id
    rw [Node.type, label_convert]
    simp_all [Grammar.Node.isVisible, Grammar.Node.isComment, labelOf]
  | declaration keyword place c => cases keyword <;> simp [headDeclaration, Node.type]
  | declarator keyword place c _ only =>
    cases only
    simp [Node.type]

end LetOrConst.Tree

namespace LetOrConst.Document

open LetOrConst.Tree

/-- Every node of a parsed tree is well formed, and none below the root is a comment. -/
theorem parse_wellFormed {grammar : Grammar} {source identity : Option String} {tree : Node}
    (h : parse grammar source identity = .ok tree) :
    (∀ n ∈ tree.preorder, n.WellFormed) ∧
      ∀ n ∈ tree.descendants, n.type ≠ "comment" ∧ n.type ≠ "html_comment" := by
  obtain ⟨text, rfl⟩ : ∃ text, source = some text := by
    cases source with
    | none =>
      rw [parse_empty grammar identity (.inl rfl)] at h
      cases h
    | some text => exact ⟨text, rfl⟩
  obtain rfl := eq_ofGrammar_of_parse h
  constructor
  · intro n hn
    exact (arises_ofGrammar _ hn).wellFormed
  · intro n hn
    rw [Node.descendants, ofGrammar_eq, children_convert] at hn
    exact (arises_of_recast hn).type_ne_comment fun c hc => (List.mem_filter.1 hc).2

theorem parse_wellFormed_remarked :
    ∃ tree, parse (fun _ => remarkedLoop) (some "for (const /*k*/ k of xs) m ;") none = .ok tree ∧
      tree.walk.map Node.kind =
        [.program, .forLoop, .declaration, .declarator, .identifier, .identifier, .identifier, .other] ∧
      (∀ n ∈ tree.preorder, n.WellFormed) ∧
      ∀ n ∈ tree.descendants, n.type ≠ "comment" ∧ n.type ≠ "html_comment" := by
  have hclean : malformed? "for (const /*k*/ k of xs) m ;" none remarkedLoop = none := by decide +kernel
  have hparse : parse (fun _ => remarkedLoop) (some "for (const /*k*/ k of xs) m ;") none =
      .ok (ofGrammar remarkedText remarkedLoop) := by
    rw [parse_text _ none (by decide), hclean]
    rfl
  exact ⟨_, hparse, by decide +kernel, parse_wellFormed hparse⟩

end LetOrConst.Document
