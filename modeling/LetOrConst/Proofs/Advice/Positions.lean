/-
From a text to its issues no `var` is lost, doubled or invented. The places of the issues are read
off the grammar tree: of its visible nodes in document order, the declarations with `var`, and each
`var` in the head of a loop over a collection, which comes just before what its target holds
(`varPositions`). Converting puts that `var` into a declaration around the target, and so its place
among the others (`positions_recast`).
-/
import LetOrConst.Document
import LetOrConst.Proofs.Advice.ByScope
import LetOrConst.Proofs.Tree.OfGrammar

namespace LetOrConst.Grammar

/-- A place counted from one. -/
def Point.position (p : Point) : Int × Int := (p.row + 1, p.column + 1)

namespace Node

variable (bytes : List UInt8)

/-- The place of the first child under `kind`, when its text is `var`. -/
def varKeyword? (n : Node) : Option Point :=
  ((n.fieldChild? "kind").filter (·.text bytes = "var")).map (·.point)

/-- Whether a node is a declaration with `var`. -/
def declaresVar (n : Node) : Prop :=
  n.type = "variable_declaration" ∨ n.type = "lexical_declaration" ∧ (n.varKeyword? bytes).isSome = true

instance (n : Node) : Decidable (n.declaresVar bytes) := inferInstanceAs (Decidable (_ ∨ _))

/-- The place of `var` in the head of a loop over a collection. -/
def varHead? (n : Node) : Option Point := if n.type = "for_in_statement" then n.varKeyword? bytes else none

/-- The places of every `var` in some nodes and in what is visible below them; `head` is the `var`
in the head that the nodes stand in, which goes to the first of them under `left`. -/
def varPositions (head : Option Point) : List Node → List (Int × Int)
  | [] => []
  | n :: rest =>
    (if n.field = some "left" then (head.map Point.position).toList else []) ++
      ((if n.declaresVar bytes then [n.point.position] else []) ++
        (varPositions (n.varHead? bytes) n.visible ++
          varPositions (if n.field = some "left" then none else head) rest))
termination_by ns => sizeOf ns
decreasing_by
  · exact sizeOf_visible_lt_cons n rest
  · exact Branching.sizeOf_rest_lt_cons n rest

end Node
end LetOrConst.Grammar

namespace LetOrConst.Tree

open LetOrConst.Grammar (Point)

variable (bytes : List UInt8)

/-- The places of the `var` declarations of some trees in document order. -/
def positionsOf (ns : List Node) : List (Int × Int) :=
  ((ns.flatMap Node.preorder).filter Node.isVarDeclaration).map fun d => (d.line, d.column)

theorem positionsOf_cons (n : Node) (rest : List Node) :
    positionsOf (n :: rest) =
      (if n.isVarDeclaration then [(n.line, n.column)] else []) ++ (positionsOf n.children ++ positionsOf rest) := by
  unfold positionsOf
  rw [List.flatMap_cons, Node.preorder_eq, List.cons_append, List.filter_cons, List.filter_append]
  split <;> simp

/-! ## Declarations of a converted tree -/

theorem ofText?_eq_kwVar {s : String} : Keyword.ofText? s = some .kwVar ↔ s = "var" := by
  constructor
  · intro h
    have hs := List.find?_some (p := fun k : Keyword => k.text == s) h
    exact (beq_iff_eq.1 hs).symm
  · rintro rfl
    rfl

theorem isVarDeclaration_convert (n : Grammar.Node) :
    (convert bytes n).isVarDeclaration = true ↔ n.declaresVar bytes := by
  unfold Node.isVarDeclaration Node.kind Grammar.Node.declaresVar Grammar.Node.varKeyword?
  rw [label_convert]
  by_cases hvar : n.type = "variable_declaration"
  · have hkind : (labelOf bytes n).kind = .declaration := by rw [labelOf, hvar]; rfl
    have hkeyword : (labelOf bytes n).keyword = some .kwVar := by rw [labelOf]; exact if_pos hvar
    simp [hkind, hkeyword, hvar]
  · by_cases hlex : n.type = "lexical_declaration"
    · have hkind : (labelOf bytes n).kind = .declaration := by rw [labelOf, hlex]; rfl
      have hkeyword : (labelOf bytes n).keyword = (keywordText? n bytes).bind Keyword.ofText? := by
        simp [labelOf, hlex]
      rw [hkind, hkeyword]
      unfold keywordText?
      cases n.fieldChild? "kind" with
      | none => simp [hvar]
      | some k => by_cases htext : k.text bytes = "var" <;> simp [hlex, ofText?_eq_kwVar, htext, Option.filter]
    · have hkeyword : (labelOf bytes n).keyword = none := by simp [labelOf, hvar, hlex]
      simp [hkeyword, hvar, hlex]

/-- The place in a head, when its keyword is `var`. -/
def varPlace (head : Option (Keyword × Point)) : Option Point := (head.filter (·.1 = .kwVar)).map (·.2)

theorem varPlace_headKeyword? (n : Grammar.Node) : varPlace (headKeyword? bytes n) = n.varHead? bytes := by
  unfold varPlace headKeyword? Grammar.Node.varHead? Grammar.Node.varKeyword?
  split
  · cases n.fieldChild? "kind" with
    | none => rfl
    | some k =>
      by_cases htext : k.text bytes = "var"
      · simp [htext, ofText?_eq_kwVar.2 rfl, Option.filter]
      · have hne : Keyword.ofText? (k.text bytes) ≠ some .kwVar := fun h => htext (ofText?_eq_kwVar.1 h)
        cases hk : Keyword.ofText? (k.text bytes) with
        | none => simp [hk, htext, Option.filter]
        | some keyword => simp_all [Option.filter]
  · rfl

/-- The declaration put around the target in a head stands just before what the target holds. -/
theorem positionsOf_headDeclaration (keyword : Keyword) (place : Point) (left : Node) (cs : List Node) :
    positionsOf (headDeclaration keyword place left :: cs) =
      ((varPlace (some (keyword, place))).map Point.position).toList ++ positionsOf (left :: cs) := by
  have hdeclaration : (headDeclaration keyword place left).isVarDeclaration = (keyword == .kwVar) := by
    cases keyword <;> rfl
  have hhead : (if keyword == .kwVar then [place.position] else []) =
      ((varPlace (some (keyword, place))).map Point.position).toList := by
    cases keyword <;> rfl
  have hbelow : positionsOf (headDeclaration keyword place left).children ++ positionsOf cs =
      positionsOf (left :: cs) := by
    rw [headDeclaration, positionsOf_cons, positionsOf_cons left, positionsOf_cons left]
    simp [Node.isVarDeclaration, Node.kind, positionsOf]
  rw [positionsOf_cons, hdeclaration, hbelow, ← hhead]
  rfl

/-- A converted list of nodes has its `var` declarations at the places of every `var` in it. -/
theorem positions_recast (head : Option (Keyword × Point)) (vs : List Grammar.Node) :
    positionsOf (recast bytes head vs) = Grammar.Node.varPositions bytes (varPlace head) vs := by
  induction vs using Grammar.Node.visible_induction generalizing head with
  | nil => rw [recast, Grammar.Node.varPositions]; rfl
  | cons n rest ihc ihr =>
    have hone : ∀ cs, positionsOf (convert bytes n :: cs) = (if n.declaresVar bytes then [n.point.position] else []) ++
        (Grammar.Node.varPositions bytes (n.varHead? bytes) n.visible ++ positionsOf cs) := by
      intro cs
      rw [positionsOf_cons, children_convert, ihc, varPlace_headKeyword?]
      simp only [isVarDeclaration_convert]
      congr 1
      unfold Node.line Node.column
      rw [label_convert]
      rfl
    rw [recast, Grammar.Node.varPositions]
    by_cases hleft : n.field = some "left"
    · -- the target takes the head, and what comes after it stands in none
      simp only [hleft, if_true]
      rw [← recast_none]
      rcases head with _ | ⟨keyword, place⟩
      · rw [Option.elim_none, hone, ihr]
        rfl
      · rw [Option.elim_some, positionsOf_headDeclaration, hone, ihr]
        rfl
    · simp only [hleft, if_false, List.nil_append]
      rw [hone, ihr]

theorem positions_ofGrammar (root : Grammar.Node) :
    positionsOf [ofGrammar bytes root] = Grammar.Node.varPositions bytes none [root] := by
  have h := positions_recast bytes none [root]
  rw [recast_none, List.map_singleton] at h
  rw [ofGrammar_eq]
  exact h

end LetOrConst.Tree

namespace LetOrConst.Advice

open LetOrConst.Tree LetOrConst.Scope

/-! ## Places of issues -/

theorem positions_byName (root : Node) : ∃ found, issues .byName root = .ok found ∧
    found.map (fun i => (i.line, i.column)) = positionsOf [root] := by
  refine ⟨_, rfl, ?_⟩
  unfold issuesByName positionsOf
  rw [List.flatMap_singleton, ← map_fst_varDeclarations, List.map_map, List.map_map]
  rfl

theorem positions_byScope {root : Node} (h : SoleProgram root) : ∃ found, issues .byScope root = .ok found ∧
    found.map (fun i => (i.line, i.column)) = positionsOf [root] := by
  refine ⟨_, issues_byScope_eq h, ?_⟩
  unfold positionsOf
  rw [← placesAll_nodes [] 0 0 [root], List.filter_map, List.map_map, List.map_map]
  rfl

theorem parse_clean {grammar : Document.Grammar} {source : String} (hne : source ≠ "")
    (hclean : ∀ m ∈ (grammar source).walk, m.type ≠ "ERROR" ∧ m.missing = false ∧ "jsx_".isPrefixOf m.type = false)
    (identity : Option String) :
    Document.parse grammar (some source) identity =
      .ok (ofGrammar (Text.Utf8.encode source.toList) (grammar source)) := by
  have hfault : (grammar source).hasFault = false := by
    rw [Grammar.Node.hasFault, List.any_eq_false]
    intro m hm
    simp [Grammar.Node.isFault, hclean m hm]
  have hmarkup : (grammar source).firstMarkup? = none := by
    rw [Grammar.Node.firstMarkup?, List.find?_eq_none]
    intro m hm
    simp [Grammar.Node.isMarkup, hclean m hm]
  have hnone : Document.malformed? source identity (grammar source) = none := by
    rw [Document.malformed?, Grammar.Node.firstFault?, hfault, hmarkup]
    rfl
  have hsome : (some source).filter (· ≠ "") = some source := by simp [Option.filter, hne]
  rw [Document.parse, hsome]
  simp only [hnone]

theorem soleProgram_ofGrammar (bytes : List UInt8) {root : Grammar.Node} (htype : root.type = "program")
    (hbelow : ∀ m ∈ root.walk.tail, m.type ≠ "program") : SoleProgram (ofGrammar bytes root) := by
  rw [ofGrammar_eq]
  refine ⟨?_, fun m hm hk => ?_⟩
  · rw [Node.kind, label_convert, labelOf, htype]
    rfl
  · rw [Node.descendants, children_convert] at hm
    obtain ⟨c, hc, hprogram⟩ := program_of_recast bytes hm hk
    refine hbelow c ?_ hprogram
    rw [Grammar.Node.tail_walk]
    exact Grammar.Node.mem_descendants_of_visible hc

/-- The issues of a text stand at every `var` of its grammar tree, in its order, however assignments
are matched; to resolve them, the root has to be the only program. -/
theorem positions_of_text (grammar : Document.Grammar) {source : String} (identity : Option String) (hne : source ≠ "")
    (hclean : ∀ m ∈ (grammar source).walk, m.type ≠ "ERROR" ∧ m.missing = false ∧ "jsx_".isPrefixOf m.type = false) :
    ∃ tree, Document.parse grammar (some source) identity = .ok tree ∧
      (∃ found, issues .byName tree = .ok found ∧ found.map (fun i => (i.line, i.column)) =
        Grammar.Node.varPositions (Text.Utf8.encode source.toList) none [grammar source]) ∧
      ((grammar source).type = "program" → (∀ m ∈ (grammar source).walk.tail, m.type ≠ "program") →
        ∃ found, issues .byScope tree = .ok found ∧ found.map (fun i => (i.line, i.column)) =
          Grammar.Node.varPositions (Text.Utf8.encode source.toList) none [grammar source]) := by
  refine ⟨_, parse_clean hne hclean identity, ?_, fun htype hbelow => ?_⟩
  · rw [← positions_ofGrammar]
    exact positions_byName _
  · rw [← positions_ofGrammar]
    exact positions_byScope (soleProgram_ofGrammar _ htype hbelow)

/-- A loop over a collection with a `var` in its head and one in its body. -/
def loopText : String := "for (var k in o) var x;"

/-- Its grammar tree. -/
def loopTree : Grammar.Node where
  type := "program"
  span := ⟨0, 23⟩
  children := [{
    type := "for_in_statement"
    span := ⟨0, 23⟩
    children := [
      { type := "for", span := ⟨0, 3⟩, named := false },
      { type := "(", point := ⟨0, 4⟩, span := ⟨4, 5⟩, named := false },
      { type := "var", point := ⟨0, 5⟩, span := ⟨5, 8⟩, named := false, field := some "kind" },
      { type := "identifier", point := ⟨0, 9⟩, span := ⟨9, 10⟩, field := some "left" },
      { type := "in", point := ⟨0, 11⟩, span := ⟨11, 13⟩, named := false, field := some "operator" },
      { type := "identifier", point := ⟨0, 14⟩, span := ⟨14, 15⟩, field := some "right" },
      { type := ")", point := ⟨0, 15⟩, span := ⟨15, 16⟩, named := false },
      { type := "variable_declaration", point := ⟨0, 17⟩, span := ⟨17, 23⟩, field := some "body", children := [
        { type := "var", point := ⟨0, 17⟩, span := ⟨17, 20⟩, named := false },
        { type := "variable_declarator", point := ⟨0, 21⟩, span := ⟨21, 22⟩, children := [
          { type := "identifier", point := ⟨0, 21⟩, span := ⟨21, 22⟩, field := some "name" }] },
        { type := ";", point := ⟨0, 22⟩, span := ⟨22, 23⟩, named := false }] }] }]

theorem positions_of_loopText :
    loopText ≠ "" ∧
      (∀ m ∈ loopTree.walk, m.type ≠ "ERROR" ∧ m.missing = false ∧ "jsx_".isPrefixOf m.type = false) ∧
      Grammar.Node.varPositions (Text.Utf8.encode loopText.toList) none [loopTree] = [(1, 6), (1, 18)] ∧
      ∃ tree, Document.parse (fun _ => loopTree) (some loopText) none = .ok tree ∧
        (∃ found, issues .byName tree = .ok found ∧ found.map (fun i => (i.line, i.column)) =
          Grammar.Node.varPositions (Text.Utf8.encode loopText.toList) none [loopTree]) ∧
        ∃ found, issues .byScope tree = .ok found ∧ found.map (fun i => (i.line, i.column)) =
          Grammar.Node.varPositions (Text.Utf8.encode loopText.toList) none [loopTree] := by
  have hne : loopText ≠ "" := by decide
  have hclean : ∀ m ∈ loopTree.walk, m.type ≠ "ERROR" ∧ m.missing = false ∧ "jsx_".isPrefixOf m.type = false := by
    decide +kernel
  obtain ⟨tree, hparse, hname, hscope⟩ := positions_of_text (fun _ => loopTree) none hne hclean
  exact ⟨hne, hclean, by decide +kernel, tree, hparse, hname, hscope rfl (by decide +kernel)⟩

end LetOrConst.Advice
