/-
The same statements as a program and as the body of a function. In a program all names of the
statements share one scope. In a function the `var` names are bound by the function, but the names
of declared functions by its body, which stands in between: an assignment to a name that is both
ends there and does not reach the `var`. The verdicts are the same exactly when this takes the last
reached name from no declaration, and so not for every list of statements.
-/
import LetOrConst.Proofs.Advice.Judge

namespace LetOrConst.Tree.Node

/-- The names that a node gives to the scope around it as a declared function. -/
def functionNames (n : Node) : List String := if n.kind = .function then n.aroundNames else []

/-- The names that a node gives to the scope around it with `let`, with `const` or as a class. -/
def blockNames (n : Node) : List String := if n.kind = .function then [] else n.aroundNames

theorem mem_aroundNames_iff {n : Node} {x : String} :
    x ∈ n.aroundNames ↔ x ∈ n.functionNames ∨ x ∈ n.blockNames := by
  unfold functionNames blockNames
  split <;> simp

end LetOrConst.Tree.Node

namespace LetOrConst.Advice

open LetOrConst.Tree LetOrConst.Tree.Sample LetOrConst.Scope

/-- The `var` declarations that are hoisted out of some statements. -/
def hoistedVars (ns : List Node) : List Node :=
  gather Node.hostsVars (fun n => if n.isVarDeclaration then [n] else []) ns

/-- The names of the functions that are declared directly among some statements. -/
def levelFunctionNames (ns : List Node) : List String := gather Node.opensScope Node.functionNames ns

/-- The names declared with `let`, with `const` or as classes directly among some statements. -/
def levelBlockNames (ns : List Node) : List String := gather Node.opensScope Node.blockNames ns

/-! ## What the verdicts depend on -/

theorem length_ownIssue (xs ys : List String) (n : Node) : (ownIssue xs n).length = (ownIssue ys n).length := by
  unfold ownIssue
  split <;> rfl

theorem length_judge (xs ys : List String) (ns : List Node) : (judge xs ns).length = (judge ys ns).length := by
  induction ns using Node.forest_induction generalizing xs ys with
  | nil => rw [judge, judge]
  | cons n rest ihc ihr =>
    simp only [judge, List.length_append]
    rw [length_ownIssue xs ys, ihc _ (if n.hostsVars then openNames n.children else ys), ihr xs ys]

theorem ownIssue_eq_iff {xs ys : List String} {n : Node} :
    ownIssue xs n = ownIssue ys n ↔
      (n.isVarDeclaration = true → n.boundNames.any xs.contains = n.boundNames.any ys.contains) := by
  unfold ownIssue
  cases n.isVarDeclaration with
  | false => simp
  | true =>
    cases n.boundNames.any xs.contains <;> cases n.boundNames.any ys.contains <;>
      simp [Verdict.ofReassigned, Verdict.issue, Verdict.kind]

/-- What is assigned around some statements matters to the declarations hoisted out of them only. -/
theorem judge_eq_judge_iff {xs ys : List String} {ns : List Node} :
    judge xs ns = judge ys ns ↔
      ∀ d ∈ hoistedVars ns, d.boundNames.any xs.contains = d.boundNames.any ys.contains := by
  induction ns using Node.forest_induction with
  | nil => simp [judge, hoistedVars, gather]
  | cons n rest ihc ihr =>
    have hbelow : judge (if n.hostsVars then openNames n.children else xs) n.children =
        judge (if n.hostsVars then openNames n.children else ys) n.children ↔
          (n.hostsVars = false → judge xs n.children = judge ys n.children) := by
      cases n.hostsVars <;> simp
    -- the parts of the two lists have the same lengths, so they are compared one by one
    have hsplit : judge xs (n :: rest) = judge ys (n :: rest) ↔
        ownIssue xs n = ownIssue ys n ∧ (n.hostsVars = false → judge xs n.children = judge ys n.children) ∧
          judge xs rest = judge ys rest := by
      rw [← hbelow, judge, judge]
      constructor
      · intro h
        obtain ⟨hown, h⟩ := List.append_inj h (length_ownIssue _ _ _)
        obtain ⟨hchildren, hrest⟩ := List.append_inj h (length_judge _ _ _)
        exact ⟨hown, hchildren, hrest⟩
      · rintro ⟨hown, hchildren, hrest⟩
        rw [hown, hchildren, hrest]
    rw [hsplit, ownIssue_eq_iff, ihc, ihr]
    unfold hoistedVars
    rw [gather]
    cases n.isVarDeclaration <;> cases n.hostsVars <;> simp [or_imp, forall_and]

/-! ## Statements as the body of a function -/

/-- A declared function without parameters whose body has the given statements. -/
structure Encloses (f : Node) (body : List Node) : Prop where
  kind : f.kind = .function
  type : f.type = "function_declaration"
  parts : ∃ name parameters block, f.children = [name, parameters, block] ∧
    f.child? "name" = some name ∧ name.kind = .identifier ∧ name.children = [] ∧
    f.child? "parameters" = some parameters ∧ parameters.kind = .parameters ∧ parameters.children = [] ∧
    f.child? "body" = some block ∧ block.kind = .block ∧ block.children = body
  noOther : f.child? "parameter" = none

variable {f : Node} {body : List Node}

/-- The body of a function is judged by the names that no declaration of the body itself binds. -/
theorem judge_encloses (h : Encloses f body) (reached : List String) :
    judge reached [f] =
      judge ((openNames body).filter (· ∉ gather Node.opensScope Node.aroundNames body)) body := by
  obtain ⟨name, parameters, block, hf, -, hname, hnil, -, hparams, hnone, -, hblock, hbody⟩ := h.parts
  have hopen : openNames f.children =
      (openNames body).filter (· ∉ gather Node.opensScope Node.aroundNames body) := by
    simp [hf, openNames, Node.assignedName?, Node.opensScope, scopeNames, Node.ownNames, Node.hostsVars, hname, hnil,
      hparams, hnone, hblock, hbody]
  simp only [judge, ownIssue, Node.isVarDeclaration, Node.hostsVars, h.kind]
  rw [hopen, hf]
  simp [judge, ownIssue, Node.isVarDeclaration, Node.hostsVars, hname, hnil, hparams, hnone, hblock, hbody]

theorem preorder_encloses (h : Encloses f body) {m : Node} (hm : m ∈ f.preorder) :
    m ∈ body.flatMap Node.preorder ∨ m.kind ≠ .program := by
  obtain ⟨name, parameters, block, hf, -, hname, hnil, -, hparams, hnone, -, hblock, hbody⟩ := h.parts
  simp only [Node.preorder_eq f, Node.preorder_eq name, Node.preorder_eq parameters, Node.preorder_eq block, hf, hnil,
    hnone, hbody, List.flatMap_cons, List.flatMap_nil, List.mem_cons, List.mem_append, List.not_mem_nil, or_false] at hm
  rcases hm with rfl | rfl | rfl | rfl | hm
  · exact .inr (by rw [h.kind]; decide)
  · exact .inr (by rw [hname]; decide)
  · exact .inr (by rw [hparams]; decide)
  · exact .inr (by rw [hblock]; decide)
  · exact .inl hm

theorem mem_gather_aroundNames {x : String} :
    x ∈ gather Node.opensScope Node.aroundNames body ↔ x ∈ levelFunctionNames body ∨ x ∈ levelBlockNames body := by
  unfold levelFunctionNames levelBlockNames
  simp only [mem_gather [] 0 0 body, Node.mem_aroundNames_iff, and_or_left, exists_or]

/-- Where no name is declared both with `var` and in a block-scoped way, the statements of a program
get the same verdicts as the body of a function exactly when every declaration hoisted out of them
that is reached by some name is also reached by one that no declared function among them has. -/
theorem issues_level_iff {program wrapped : Node} (hnone : ∀ m ∈ body.flatMap Node.preorder, m.kind ≠ .program)
    (hlegal : ∀ d ∈ hoistedVars body, ∀ x ∈ d.boundNames, x ∉ levelBlockNames body)
    (hprogram : program.kind = .program) (hbody : program.children = body)
    (hwrapped : wrapped.kind = .program) (hf : wrapped.children = [f]) (hencloses : Encloses f body) :
    ∃ top inner, issues .byScope program = .ok top ∧ issues .byScope wrapped = .ok inner ∧
      (top = inner ↔ ∀ d ∈ hoistedVars body, (∃ x ∈ d.boundNames, x ∈ openNames body) →
        ∃ x ∈ d.boundNames, x ∈ openNames body ∧ x ∉ levelFunctionNames body) := by
  have hsole : SoleProgram program := ⟨hprogram, by rw [Node.descendants, hbody]; exact hnone⟩
  have hsole' : SoleProgram wrapped := by
    refine ⟨hwrapped, fun m hm => ?_⟩
    rw [Node.descendants, hf, List.flatMap_singleton] at hm
    rcases preorder_encloses hencloses hm with hm | hm
    · exact hnone m hm
    · exact hm
  refine ⟨_, _, issues_byScope_eq_judge hsole, issues_byScope_eq_judge hsole', ?_⟩
  rw [hbody, hf, judge_encloses hencloses, judge_eq_judge_iff]
  refine forall₂_congr fun d hd => ?_
  -- of what the body binds, only declared functions can have a name of a hoisted declaration
  have hinner : d.boundNames.any
      ((openNames body).filter (· ∉ gather Node.opensScope Node.aroundNames body)).contains = true ↔
        ∃ x ∈ d.boundNames, x ∈ openNames body ∧ x ∉ levelFunctionNames body := by
    simp only [List.any_eq_true, List.contains_iff_mem, List.mem_filter, decide_eq_true_eq, mem_gather_aroundNames,
      not_or]
    refine exists_congr fun x => and_congr_right fun hx => and_congr_right fun _ => and_iff_left ?_
    exact hlegal d hd x hx
  have htop : d.boundNames.any (openNames body).contains = true ↔ ∃ x ∈ d.boundNames, x ∈ openNames body := by
    simp only [List.any_eq_true, List.contains_iff_mem]
  rw [Bool.eq_iff_iff, hinner, htop]
  constructor
  · exact Iff.mp
  · refine fun h => ⟨h, ?_⟩
    rintro ⟨x, hx, hopen, -⟩
    exact ⟨x, hx, hopen⟩

/-- A `var` and a declared function of the same name, which is assigned. -/
def redeclared : List Node := [declaring .kwVar "x", declaredFunction "x" [], assigning "x"]

theorem encloses_declaredFunction (x : String) (body : List Node) : Encloses (declaredFunction x body) body :=
  ⟨rfl, rfl, ⟨_, _, _, rfl, rfl, rfl, rfl, rfl, rfl, rfl, rfl, rfl, rfl⟩, rfl⟩

theorem issues_level_redeclared :
    (∀ m ∈ redeclared.flatMap Node.preorder, m.kind ≠ .program) ∧
      (∀ d ∈ hoistedVars redeclared, ∀ x ∈ d.boundNames, x ∉ levelBlockNames redeclared) ∧
        ∃ top inner, issues .byScope (program redeclared) = .ok top ∧
          issues .byScope (program [declaredFunction "f" redeclared]) = .ok inner ∧
            (top = inner ↔ ∀ d ∈ hoistedVars redeclared, (∃ x ∈ d.boundNames, x ∈ openNames redeclared) →
              ∃ x ∈ d.boundNames, x ∈ openNames redeclared ∧ x ∉ levelFunctionNames redeclared) :=
  ⟨by decide +kernel, by decide +kernel, issues_level_iff (by decide +kernel) (by decide +kernel) rfl rfl rfl rfl
    (encloses_declaredFunction "f" redeclared)⟩

/-- The verdict is `let` at the top level and `const` in a function. -/
theorem issues_level_differ :
    issues .byScope (program redeclared) =
        .ok [⟨"prefer_let", 1, 1, "Consider using 'let' instead of 'var' here due to reassignment."⟩] ∧
      issues .byScope (program [declaredFunction "f" redeclared]) =
        .ok [⟨"prefer_const", 1, 1, "Consider using 'const' instead of 'var' here."⟩] := by
  constructor <;> decide +kernel

end LetOrConst.Advice
