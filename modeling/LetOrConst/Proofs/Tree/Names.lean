/-
Assignments to plain names, said by rules. Parentheses around a single node are taken off layer by
layer until something else is left (`Unwraps`); an assignment assigns a name when what is left of
its left side is an identifier with that name (`Assigns`).
-/
import LetOrConst.Tree.Names

namespace LetOrConst.Tree

/-- A node without its outer layers of parentheses, each around a single node. -/
inductive Unwraps : Node → Node → Prop where
  | bare (n : Node) (other : n.type = "parenthesized_expression" → n.children.length ≠ 1) : Unwraps n n
  | layer (n c core : Node) (type : n.type = "parenthesized_expression") (only : n.children = [c])
      (inside : Unwraps c core) : Unwraps n core

/-- A node is an assignment to a plain name. -/
def Assigns (a : Node) (x : String) : Prop :=
  a.kind = .assignment ∧ ∃ left core, a.child? "left" = some left ∧ Unwraps left core ∧
    core.kind = .identifier ∧ core.label.name = some x

theorem Node.isWrapper_iff {n : Node} :
    n.isWrapper = true ↔ n.type = "parenthesized_expression" ∧ ∃ c, n.children = [c] := by
  rw [Node.isWrapper, Bool.and_eq_true, beq_iff_eq, beq_iff_eq, List.length_eq_one_iff]

theorem Node.unwrapped_layer {n c : Node} (h : n.type = "parenthesized_expression") (hc : n.children = [c]) :
    n.unwrapped = c.unwrapped := by
  have hw : n.isWrapper = true := Node.isWrapper_iff.2 ⟨h, c, hc⟩
  rw [Node.unwrapped, if_pos hw]
  split
  · rename_i d rest hd
    rw [hc] at hd
    cases hd
    rfl
  · rename_i hd
    rw [hc] at hd
    cases hd

theorem Node.unwrapped_bare {n : Node} (h : n.isWrapper = false) : n.unwrapped = n := by
  rw [Node.unwrapped, if_neg (Bool.not_eq_true _ ▸ h)]

/-- Taking off all parentheses is what the rules say. -/
theorem unwraps_iff {n core : Node} : Unwraps n core ↔ n.unwrapped = core := by
  constructor
  · intro h
    induction h with
    | bare n other =>
      apply Node.unwrapped_bare
      rw [← Bool.not_eq_true, Node.isWrapper_iff]
      rintro ⟨htype, c, hc⟩
      exact other htype (by rw [hc]; rfl)
    | layer n c core type only _ ih => rw [Node.unwrapped_layer type only, ih]
  · rintro rfl
    -- every layer has the next one as its only child, so the size of the node goes down
    induction h : sizeOf n using Nat.strongRecOn generalizing n with
    | _ size ih =>
      by_cases hw : n.isWrapper = true
      · obtain ⟨htype, c, hc⟩ := Node.isWrapper_iff.1 hw
        have hlt : sizeOf c < sizeOf n := Node.sizeOf_lt_of_mem_children (by rw [hc]; exact List.mem_singleton_self c)
        rw [Node.unwrapped_layer htype hc]
        exact .layer n c _ htype hc (ih _ (h ▸ hlt) rfl)
      · rw [Node.unwrapped_bare (Bool.not_eq_true _ ▸ hw)]
        refine .bare n fun htype hlen => hw (Node.isWrapper_iff.2 ⟨htype, List.length_eq_one_iff.1 hlen⟩)

theorem assigns_iff {a : Node} {x : String} : Assigns a x ↔ a.assignedName? = some x := by
  unfold Assigns Node.assignedName?
  simp only [unwraps_iff]
  by_cases hk : a.kind = .assignment
  · cases hl : a.child? "left" with
    | none => simp [hk]
    | some left => by_cases hi : left.unwrapped.kind = .identifier <;> simp [hk, hi]
  · simp [hk]

/-! ## Binding -/

/-- What a target binds, by its kind and type. -/
theorem Node.bindingNames_eq (n : Node) :
    n.bindingNames =
      if n.kind = .identifier then n.properName?.toList
      else if n.kind = .pattern then
        if n.type = "assignment_pattern" ∨ n.type = "object_assignment_pattern" then n.namesUnder "left"
        else if n.type = "pair_pattern" then n.namesUnder "value"
        else n.children.flatMap bindingNames
      else [] := by
  rw [bindingNames]
  unfold namesUnder
  simp only [List.flatMap_subtype, List.unattach_attach]
  congr 3
  · split <;> rename_i h <;> simp only [h]
  · congr 1
    split <;> rename_i h <;> simp only [h]

/-! ## Small trees -/

namespace Sample

/-- An identifier. -/
def identifier (x : String) : Node := { label := { kind := .identifier, type := "identifier", name := some x } }

/-- A declaration of one name. -/
def declaring (keyword : Keyword) (x : String) : Node where
  label :=
    { kind := .declaration
      type := if keyword = .kwVar then "variable_declaration" else "lexical_declaration"
      keyword := some keyword }
  children := [{
    label := { kind := .declarator, type := "variable_declarator" }
    children := [identifier x]
    fields := [("name", .child 0)] }]

/-- An assignment to a name. -/
def assigning (x : String) : Node where
  label := { kind := .assignment, type := "assignment_expression", operator := some "=" }
  children := [identifier x]
  fields := [("left", .child 0)]

/-- A block of statements. -/
def block (body : List Node) : Node where
  label := { kind := .block, type := "statement_block" }
  children := body

/-- A declared function without parameters. -/
def declaredFunction (x : String) (body : List Node) : Node where
  label := { kind := .function, type := "function_declaration" }
  children := [identifier x, { label := { kind := .parameters, type := "formal_parameters" } }, block body]
  fields := [("name", .child 0), ("parameters", .child 1), ("body", .child 2)]

/-- A program. -/
def program (body : List Node) : Node where
  label := { kind := .program, type := "program" }
  children := body

end Sample

end LetOrConst.Tree
