/-
The verdicts of resolving by recursion on the tree alone. A list of trees leaves open the names it
assigns and no scope node on the way out binds (`openNames`); the `var` declarations below a
function or program are assigned again when one of their names is left open by its children
(`judge`). There are no places in it and no numbers, so what follows from it about a change of the
tree needs to look at the changed part only. It is what resolving computes (`issues_byScope_eq_judge`).
-/
import LetOrConst.Proofs.Advice.ByScope
import LetOrConst.Proofs.Tree.Shallow

namespace LetOrConst.Scope

open LetOrConst.Tree

/-- The names that a scope node binds. -/
def scopeNames (n : Node) : List String :=
  n.ownNames ++ (gather Node.opensScope Node.aroundNames n.children ++
    if n.hostsVars then gather Node.hostsVars Node.hoistedNames n.children else [])

/-- The names that are assigned in some trees and bound by no scope node on the way out of them. -/
def openNames : List Node → List String
  | [] => []
  | n :: rest =>
    n.assignedName?.toList ++
      ((if n.opensScope then (openNames n.children).filter (· ∉ scopeNames n) else openNames n.children) ++
        openNames rest)
termination_by ns => sizeOf ns
decreasing_by
  · exact Node.sizeOf_children_lt_cons n rest
  · exact Node.sizeOf_children_lt_cons n rest
  · exact Branching.sizeOf_rest_lt_cons n rest

variable {root : Node} {above outer : List Spot} {i k : Nat} {ns : List Node} {s : Spot} {x : String}

theorem binds_iff_scopeNames (hs : ⟨s, outer⟩ ∈ root.places) (ho : s.node.opensScope = true) :
    Binds root s x ↔ x ∈ scopeNames s.node := by
  unfold scopeNames
  rw [binds_iff_names, List.mem_append, List.mem_append, mem_gather_children hs ho]
  refine or_congr_right (or_congr_right ?_)
  cases hv : s.node.hostsVars with
  | true =>
    rw [if_pos rfl, mem_gather_children hs hv]
  | false =>
    -- nothing has a node that is no host as its nearest host
    simp only [Bool.false_eq_true, if_false, List.not_mem_nil, iff_false]
    rintro ⟨p, hp, hnear, -⟩
    have hstop := ((nearest?_eq_some_iff hs hp).1 hnear).1
    rw [hv] at hstop
    cases hstop

/-- A name cannot pass a scope node that binds it. -/
def Stops (root : Node) (x : String) (t : Spot) : Prop := t.node.opensScope = true ∧ Binds root t x

/-- The open names of some trees are those of the assignments with a clear way out. -/
theorem mem_openNames (hmem : ∀ p ∈ placesAll above i k ns, p ∈ root.places) :
    x ∈ openNames ns ↔ ∃ a ∈ placesAll above i k ns, Clear (Stops root x) above a ∧ Assigns a.node x := by
  induction ns using Node.forest_induction generalizing above i k with
  | nil => simp [openNames, placesAll]
  | cons n rest ihc ihr =>
    simp only [mem_placesAll_cons] at hmem
    have hn := hmem _ (.inl rfl)
    have hinner := ihc fun p hp => hmem p (.inr (.inl hp))
    rw [openNames, List.mem_append, List.mem_append]
    simp only [mem_placesAll_cons, or_and_right, exists_or, exists_eq_left]
    refine or_congr ?_ (or_congr ?_ (ihr fun p hp => hmem p (.inr (.inr hp))))
    · rw [assigns_iff, Option.mem_toList]
      exact (and_iff_right clear_self).symm
    · -- from below the node, the way out leads past the node itself
      have hbelow : ∀ p ∈ Place.inner ⟨⟨i, k, n⟩, above⟩, Clear (Stops root x) above p ↔ _ :=
        fun p hp => clear_cons hp
      have hstop : Stops root x ⟨i, k, n⟩ ↔ n.opensScope = true ∧ x ∈ scopeNames n :=
        and_congr_right fun ho => binds_iff_scopeNames hn ho
      have hpass : (x ∈ if n.opensScope then (openNames n.children).filter (· ∉ scopeNames n)
            else openNames n.children) ↔
          x ∈ openNames n.children ∧ ¬ Stops root x ⟨i, k, n⟩ := by
        rw [hstop]
        cases n.opensScope <;> simp
      rw [hpass, hinner, ← exists_and_right]
      refine exists_congr fun p => ?_
      constructor
      · rintro ⟨⟨hp, hclear, ha⟩, hnot⟩
        exact ⟨hp, (hbelow p hp).2 ⟨hclear, hnot⟩, ha⟩
      · rintro ⟨hp, hclear, ha⟩
        obtain ⟨hclear, hnot⟩ := (hbelow p hp).1 hclear
        exact ⟨⟨hp, hclear, ha⟩, hnot⟩

/-- A `var` declaration is assigned again exactly when the children of its host leave one of its
names open. -/
theorem reassigned_iff_openNames {d : Place} (hd : d ∈ root.places) (hvar : d.node.isVarDeclaration = true)
    (hs : ⟨s, outer⟩ ∈ root.places) (hnear : d.nearest? Node.hostsVars = some s) :
    Reassigned root d ↔ ∃ x ∈ d.node.boundNames, x ∈ openNames s.node.children := by
  have hinside : ∀ p ∈ Place.inner ⟨s, outer⟩, p ∈ root.places := fun p hp => mem_of_inner hs hp
  have hopen : ∀ x, x ∈ openNames s.node.children ↔ _ := fun x => mem_openNames hinside
  simp only [hopen]
  constructor
  · rintro ⟨a, ha, x, hx, hassigns, s', hnear', inner, outer', habove, ho, -, hinner⟩
    obtain rfl : s' = s := Option.some_inj.1 (hnear'.symm.trans hnear)
    cases eq_of_number_eq hs (mem_of_above ha habove).1 rfl
    refine ⟨x, hx, a, (mem_inner_iff hs).2 ⟨ha, inner, habove⟩, ⟨inner, habove, ?_⟩, hassigns⟩
    rintro t ht ⟨hto, hbinds⟩
    exact hinner t ht hto hbinds
  · rintro ⟨x, hx, a, ha, ⟨way, habove, hclear⟩, hassigns⟩
    have hhost : s.node.hostsVars = true := ((nearest?_eq_some_iff hs hd).1 hnear).1
    exact ⟨a, mem_of_inner hs ha, x, hx, hassigns, s, hnear, way, outer, habove, Node.opensScope_of_hostsVars hhost,
      .hoisted d hd hnear hvar hx, fun t ht hto hbinds => hclear t ht ⟨hto, hbinds⟩⟩

end LetOrConst.Scope

namespace LetOrConst.Advice

open LetOrConst.Tree LetOrConst.Scope

/-- The issue of a node itself, if it is a `var` declaration, where `reached` are the names assigned
at its host. -/
def ownIssue (reached : List String) (n : Node) : List Issue :=
  if n.isVarDeclaration then [(Verdict.ofReassigned (n.boundNames.any reached.contains)).issue n] else []

/-- The issues of some trees, where `reached` are the names assigned at the host around them. -/
def judge (reached : List String) : List Node → List Issue
  | [] => []
  | n :: rest =>
    ownIssue reached n ++
      (judge (if n.hostsVars then openNames n.children else reached) n.children ++ judge reached rest)
termination_by ns => sizeOf ns
decreasing_by
  · exact Node.sizeOf_children_lt_cons n rest
  · exact Branching.sizeOf_rest_lt_cons n rest

variable {root : Node} {above outer : List Spot} {i k : Nat} {ns : List Node} {s : Spot}

theorem map_issue_eq_judge (h : SoleProgram root) (hmem : ∀ p ∈ placesAll above i k ns, p ∈ root.places)
    (hs : ⟨s, outer⟩ ∈ root.places) (hnear : above.find? (·.node.hostsVars) = some s) :
    ((placesAll above i k ns).filter (·.node.isVarDeclaration)).map
        (fun d => (Verdict.ofReassigned (isReached root d)).issue d.node) =
      judge (openNames s.node.children) ns := by
  induction ns using Node.forest_induction generalizing above i k s outer with
  | nil => simp [judge, placesAll]
  | cons n rest ihc ihr =>
    simp only [mem_placesAll_cons] at hmem
    have hn := hmem _ (.inl rfl)
    have hrest := ihr (fun p hp => hmem p (.inr (.inr hp))) hs hnear
    have hbelow : ((Place.inner ⟨⟨i, k, n⟩, above⟩).filter (·.node.isVarDeclaration)).map
          (fun d => (Verdict.ofReassigned (isReached root d)).issue d.node) =
        judge (if n.hostsVars then openNames n.children else openNames s.node.children) n.children := by
      -- a function is the host of what is below it, any other node leaves the host as it is
      cases hv : n.hostsVars with
      | true => exact ihc (fun p hp => hmem p (.inr (.inl hp))) hn (by simp [hv])
      | false => exact ihc (fun p hp => hmem p (.inr (.inl hp))) hs (by simp [hv, hnear])
    unfold Place.inner at hbelow
    rw [placesAll, List.filter_cons, List.filter_append, judge, ← hbelow, ← hrest]
    cases hvar : n.isVarDeclaration with
    | false => simp [ownIssue, hvar]
    | true =>
      have hagain : isReached root ⟨⟨i, k, n⟩, above⟩ = n.boundNames.any (openNames s.node.children).contains := by
        rw [Bool.eq_iff_iff, isReached_iff h hn hvar, reassigned_iff_openNames hn hvar hs hnear]
        simp only [List.any_eq_true, List.contains_iff_mem]
      simp [ownIssue, hvar, hagain]

/-- Resolving computes the recursion. -/
theorem issues_byScope_eq_judge (h : SoleProgram root) :
    issues .byScope root = .ok (judge (openNames root.children) root.children) := by
  have hroot : ⟨⟨0, 0, root⟩, []⟩ ∈ root.places := mem_placesAll_cons.2 (.inl rfl)
  have hvar : root.isVarDeclaration = false := by simp [Node.isVarDeclaration, h.isProgram]
  have hinside : ∀ p ∈ Place.inner ⟨⟨0, 0, root⟩, []⟩, p ∈ root.places := fun p hp => mem_of_inner hroot hp
  have hjudge := map_issue_eq_judge h hinside hroot (by simp [h.hostsVars])
  rw [issues_byScope_eq h, Node.places_eq, List.filter_cons, if_neg (by simp [hvar])]
  exact congrArg Except.ok hjudge

end LetOrConst.Advice
