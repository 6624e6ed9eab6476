/-
What a place does to a store, said of the place alone: it makes entries in the nearest scope around
it, entries in the nearest host of `var` names around it, opens a scope of its own if it is a scope
node, and makes entries there. Scopes are named by the rank of the node that opens them. The frames
of all places of a tree are those of its scope nodes in document order (`framesOf_effects`), and
every entry goes to a scope that is open by then (`bounded_effects`).
-/
import LetOrConst.Scope.Build
import LetOrConst.Proofs.Scope.Run
import LetOrConst.Proofs.Tree.Place

namespace LetOrConst.Tree

open LetOrConst.Scope (Op Site Name Assignment)

/-- The kind of scope that a node opens, if it opens one. -/
def Node.scopeKind (n : Node) : Scope.Kind :=
  match n.kind with
  | .program => .program
  | .function => .function
  | .catchClause => .caught
  | _ => .block

theorem Node.hostsVars_scopeKind (n : Node) : n.scopeKind.hostsVars = n.hostsVars := by
  rw [Node.scopeKind, Node.hostsVars]
  cases n.kind <;> rfl

namespace Place

/-- The place as the scopes remember it. -/
def site (p : Place) : Site := ⟨p.number, p.node.line, p.node.column⟩

/-- The scope around a place, if there is one. -/
def scope? (p : Place) : Option Nat := (p.nearest? Node.opensScope).map (·.rank)

/-- The scope around a place; the outermost when there is none. -/
def here (p : Place) : Nat := p.scope?.getD 0

/-- The scope around a place in which `var` names come to rest. -/
def host (p : Place) : Nat := ((p.nearest? Node.hostsVars).map (·.rank)).getD 0

/-- Entries in the scope around a place: the names of declared functions and classes, and those
declared with `let` and `const`. -/
def aroundEntries (p : Place) : List (Scope.Entry Name Site) :=
  match p.node.kind with
  | .function => (Scope.outerName? p.node).toList.map (⟨·, .function, none⟩)
  | .classDef => (Scope.className? p.node).toList.map (⟨·, .classDef, none⟩)
  | .declaration =>
    match p.node.label.keyword with
    | some .kwLet => p.node.boundNames.map (⟨some ·, .declared .kwLet, some p.site⟩)
    | some .kwConst => p.node.boundNames.map (⟨some ·, .declared .kwConst, some p.site⟩)
    | _ => []
  | _ => []

/-- Entries in the host around a place: the names declared with `var`. -/
def hostEntries (p : Place) : List (Scope.Entry Name Site) :=
  if p.node.isVarDeclaration then p.node.boundNames.map (⟨some ·, .declared .kwVar, some p.site⟩) else []

/-- Entries in the scope that a place opens: the own name of a function in an expression, its
parameters, and what a handler catches. -/
def ownEntries (p : Place) : List (Scope.Entry Name Site) :=
  match p.node.kind with
  | .function =>
    (Scope.innerName? p.node).toList.map (⟨·, .function, none⟩) ++
      (Scope.parameterNames p.node).map (⟨some ·, .param, none⟩)
  | .catchClause => (p.node.namesUnder "parameter").map (⟨some ·, .caught, none⟩)
  | _ => []

/-- All operations that a place causes. -/
def effects (p : Place) : List (Op Name Site) :=
  p.aroundEntries.map (.declared p.here) ++ (p.hostEntries.map (.declared p.host) ++
    ((if p.node.opensScope then [.opened p.node.scopeKind p.site p.scope?] else []) ++
      p.ownEntries.map (.declared p.rank)))

/-- The assignment to a plain name that a place is. -/
def assignment? (p : Place) : Option Assignment := p.node.assignedName?.map (⟨p.scope?, p.site, ·⟩)

theorem ownEntries_eq_nil {p : Place} (h : p.node.opensScope = false) : p.ownEntries = [] := by
  cases hk : p.node.kind <;> simp [ownEntries, Node.opensScope, hk] at h ⊢

theorem opensScope_of_own {p : Place} (h : p.ownEntries ≠ []) : p.node.opensScope = true := by
  by_contra hn
  exact h (ownEntries_eq_nil (Bool.not_eq_true _ ▸ hn))

/-- The scope of a scope node as it is opened. -/
def frame (p : Place) : Scope.Frame Name Site := { kind := p.node.scopeKind, place := p.site, parent := p.scope? }

end Place
end LetOrConst.Tree

namespace LetOrConst.Scope

open LetOrConst.Tree

variable {κ ν : Type} {above : List Spot} {ns : List Node}

theorem framesOf_declared (id : Nat) (es : List (Entry κ ν)) : framesOf (es.map (Op.declared id)) = [] := by
  induction es with
  | nil => rfl
  | cons e es ih => exact ih

theorem bounded_declared {count id : Nat} (es : List (Entry κ ν)) (h : es ≠ [] → id < count) :
    Bounded count (es.map (Op.declared id)) := by
  induction es with
  | nil => trivial
  | cons e es ih => exact ⟨h (List.cons_ne_nil _ _), ih fun _ => h (List.cons_ne_nil _ _)⟩

theorem framesOf_effect (p : Place) : framesOf p.effects = if p.node.opensScope then [p.frame] else [] := by
  simp only [Place.effects, framesOf_append, framesOf_declared, List.nil_append, List.append_nil]
  split <;> rfl

theorem length_framesOf_effect (i k : Nat) (n : Node) (above : List Spot) :
    k + (framesOf (Place.effects ⟨⟨i, k, n⟩, above⟩)).length = Spot.rankBelow ⟨i, k, n⟩ := by
  rw [framesOf_effect, Spot.rankBelow]
  split <;> rfl

/-- The frames that places open are those of the scope nodes among them. -/
theorem framesOf_effects (ps : List Place) :
    framesOf (ps.flatMap Place.effects) =
      (ps.filter (·.node.opensScope)).map Place.frame := by
  induction ps with
  | nil => rfl
  | cons p ps ih =>
    rw [List.flatMap_cons, framesOf_append, framesOf_effect, ih, List.filter_cons]
    split <;> rfl

theorem find?_rank_lt {prop : Node → Bool} {count : Nat} (h0 : 0 < count)
    (h : ∀ t ∈ above, prop t.node = true → t.rank < count) :
    (((above.find? (prop ·.node)).map (·.rank)).getD 0) < count := by
  cases ht : above.find? (prop ·.node) with
  | none => exact h0
  | some t =>
    have hp := List.find?_some ht
    exact h t (List.mem_of_find?_eq_some ht) hp

theorem bounded_effect {i k : Nat} (n : Node) (h0 : 0 < k)
    (h : ∀ t ∈ above, t.node.opensScope = true → t.rank < k) : Bounded k (Place.effects ⟨⟨i, k, n⟩, above⟩) := by
  rw [Place.effects, bounded_append, bounded_append, bounded_append, framesOf_declared, framesOf_declared]
  refine ⟨bounded_declared _ fun _ => find?_rank_lt h0 h, bounded_declared _ fun _ => ?_, ?_, ?_⟩
  · exact find?_rank_lt h0 fun t ht hv => h t ht (Node.opensScope_of_hostsVars hv)
  · split <;> trivial
  · refine bounded_declared _ fun hne => ?_
    have ho : n.opensScope = true := Place.opensScope_of_own hne
    simp [ho, framesOf]

/-- The entries of some places below `above` go to scopes that are open by then. -/
theorem bounded_effects {i k : Nat} (h0 : 0 < k) (h : ∀ t ∈ above, t.node.opensScope = true → t.rank < k) :
    Bounded k ((placesAll above i k ns).flatMap Place.effects) := by
  induction ns using Node.forest_induction generalizing above i k with
  | nil => rw [placesAll]; trivial
  | cons n rest ihc ihr =>
    have hle : k ≤ Spot.rankBelow ⟨i, k, n⟩ := Nat.le_add_right _ _
    rw [placesAll, List.flatMap_cons, List.flatMap_append, bounded_append, bounded_append, length_framesOf_effect,
      framesOf_effects, List.length_map, length_scopes, Spot.rankBelow_add]
    refine ⟨bounded_effect n h0 h, ihc (Nat.lt_of_lt_of_le h0 hle) fun t ht ho => ?_, ?_⟩
    · rcases List.mem_cons.1 ht with rfl | ht
      · simp only at ho
        simp [Spot.rankBelow, ho]
      · exact Nat.lt_of_lt_of_le (h t ht ho) hle
    · exact ihr (by omega) fun t ht ho => Nat.lt_of_lt_of_le (h t ht ho) (Nat.le_add_right _ _)

end LetOrConst.Scope
