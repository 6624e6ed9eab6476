/-
The places of a tree, found again in a tree with more parentheses. They come in the same order under new numbers, each
with the same names and the same scopes around it, and between them stand only parentheses (`Spread`). Nothing that
scopes collect comes from parentheses, so all of it is as before up to the numbers (`Spread.flatMap_eq`): the
operations on the store, and so the store itself (`Spread.built_eq`), and the assignments.

One more pair of parentheses moves the numbers of all places behind it by one (`spread_parenthesized`).
-/
import LetOrConst.Proofs.Advice.Rearrange
import LetOrConst.Proofs.Scope.Rename
import LetOrConst.Proofs.Scope.Resolve
import LetOrConst.Proofs.Tree.Parenthesize
import Mathlib.Order.Monotone.Basic

namespace LetOrConst.Scope

open LetOrConst.Tree

/-- A site under another number. -/
def Site.renumber (ρ : Nat → Nat) (s : Site) : Site := { s with index := ρ s.index }

/-- An assignment under another number. -/
def Assignment.renumber (ρ : Nat → Nat) (a : Assignment) : Assignment := { a with site := a.site.renumber ρ }

/-- The nearest scope and the nearest host on one way up are also nearest on another. -/
structure SameAbove (above above' : List Spot) : Prop where
  scope : (above'.find? (·.node.opensScope)).map (·.rank) = (above.find? (·.node.opensScope)).map (·.rank)
  host : (above'.find? (·.node.hostsVars)).map (·.rank) = (above.find? (·.node.hostsVars)).map (·.rank)

/-- A place is found again under a new number. -/
structure Kept (ρ : Nat → Nat) (p q : Place) : Prop where
  number : q.number = ρ p.number
  rank : q.rank = p.rank
  above : SameAbove p.above q.above
  label : q.node.label = p.node.label
  assigned : q.node.assignedName? = p.node.assignedName?
  names : p.node.kind ≠ .assignment → p.node.SameNames q.node

/-- All places of one list are found again in another, in order, and beyond them it has only parentheses. -/
inductive Spread (ρ : Nat → Nat) : List Place → List Place → Prop where
  | nil : Spread ρ [] []
  | kept {p q : Place} {ps qs : List Place} (same : Kept ρ p q) (rest : Spread ρ ps qs) : Spread ρ (p :: ps) (q :: qs)
  | added {q : Place} {ps qs : List Place} (kind : q.node.kind = .other)
      (type : q.node.type = "parenthesized_expression") (rest : Spread ρ ps qs) : Spread ρ ps (q :: qs)

variable {ρ : Nat → Nat} {above above' : List Spot}

namespace SameAbove

theorem refl (above : List Spot) : SameAbove above above := ⟨rfl, rfl⟩

theorem cons (h : SameAbove above above') {n m : Node} (hlabel : m.label = n.label) (i j k : Nat) :
    SameAbove (⟨i, k, n⟩ :: above) (⟨j, k, m⟩ :: above') := by
  have hopens : m.opensScope = n.opensScope := by simp only [Node.opensScope, Node.kind, hlabel]
  have hhosts : m.hostsVars = n.hostsVars := by simp only [Node.hostsVars, Node.kind, hlabel]
  constructor
  · simp only [List.find?_cons, hopens]
    cases n.opensScope
    · exact h.scope
    · rfl
  · simp only [List.find?_cons, hhosts]
    cases n.hostsVars
    · exact h.host
    · rfl

/-- Parentheses on the way up change nothing. -/
theorem past (h : SameAbove above above') {w : Node} (hw : w.kind = .other) (j k : Nat) :
    SameAbove above (⟨j, k, w⟩ :: above') := by
  have hopens : w.opensScope = false := by simp [Node.opensScope, hw]
  have hhosts : w.hostsVars = false := by simp [Node.hostsVars, hw]
  constructor
  · simp only [List.find?_cons, hopens]
    exact h.scope
  · simp only [List.find?_cons, hhosts]
    exact h.host

end SameAbove

/-! ## What a place does -/

namespace Kept

variable {p q : Place}

theorem kind (h : Kept ρ p q) : q.node.kind = p.node.kind := congrArg Label.kind h.label

theorem opensScope (h : Kept ρ p q) : q.node.opensScope = p.node.opensScope := by
  unfold Node.opensScope
  rw [h.kind]

theorem isVarDeclaration (h : Kept ρ p q) : q.node.isVarDeclaration = p.node.isVarDeclaration := by
  unfold Node.isVarDeclaration
  rw [h.kind, h.label]

theorem site (h : Kept ρ p q) : q.site = p.site.renumber ρ := by
  simp only [Place.site, Site.renumber, Node.line, Node.column, h.number, h.label]

theorem scope? (h : Kept ρ p q) : q.scope? = p.scope? := h.above.scope

theorem here (h : Kept ρ p q) : q.here = p.here := congrArg (Option.getD · 0) h.scope?

theorem host (h : Kept ρ p q) : q.host = p.host := congrArg (Option.getD · 0) h.above.host

theorem assignment? (h : Kept ρ p q) : q.assignment? = p.assignment?.map (Assignment.renumber ρ) := by
  unfold Place.assignment?
  rw [h.assigned, h.scope?, h.site, Option.map_map]
  rfl

theorem aroundEntries (h : Kept ρ p q) (hn : p.node.kind ≠ .assignment) :
    q.aroundEntries = p.aroundEntries.map (·.rename (Site.renumber ρ)) := by
  have hnames := h.names hn
  unfold Place.aroundEntries
  rw [h.kind, h.label, h.site, outerName?_congr hnames.label hnames.named, className?_congr hnames.label hnames.named,
    hnames.bound]
  split
  · rw [List.map_map]; rfl
  · rw [List.map_map]; rfl
  · split
    · rw [List.map_map]; rfl
    · rw [List.map_map]; rfl
    · rfl
  · rfl

theorem hostEntries (h : Kept ρ p q) (hn : p.node.kind ≠ .assignment) :
    q.hostEntries = p.hostEntries.map (·.rename (Site.renumber ρ)) := by
  unfold Place.hostEntries
  rw [h.isVarDeclaration, h.site, (h.names hn).bound]
  split
  · rw [List.map_map]; rfl
  · rfl

theorem ownEntries (h : Kept ρ p q) (hn : p.node.kind ≠ .assignment) :
    q.ownEntries = p.ownEntries.map (·.rename (Site.renumber ρ)) := by
  have hnames := h.names hn
  unfold Place.ownEntries
  rw [h.kind]
  split
  · rename_i hfunction
    rw [innerName?_congr hnames.label hnames.named, hnames.parameters hfunction, List.map_append, List.map_map,
      List.map_map]
    rfl
  · rw [hnames.caught, List.map_map]; rfl
  · rfl

/-- A place does what it did, under its new number. -/
theorem effects (h : Kept ρ p q) : q.effects = p.effects.map (·.rename (Site.renumber ρ)) := by
  by_cases hn : p.node.kind = .assignment
  · have hclosed : p.node.opensScope = false := by simp [Node.opensScope, hn]
    have hp : p.effects = [] := effects_eq_nil hclosed (by simp [hn])
    have hq : q.effects = [] := effects_eq_nil (h.opensScope.trans hclosed) (by simp [h.kind, hn])
    rw [hp, hq]
    rfl
  · have hkind : q.node.scopeKind = p.node.scopeKind := by
      unfold Node.scopeKind
      rw [h.kind]
    unfold Place.effects
    rw [h.aroundEntries hn, h.hostEntries hn, h.ownEntries hn, h.here, h.host, h.scope?, h.rank, h.opensScope, h.site,
      hkind]
    simp only [List.map_append, List.map_map]
    refine congrArg₂ _ rfl (congrArg₂ _ rfl (congrArg₂ _ ?_ rfl))
    split <;> rfl

end Kept

/-! ## What is collected from all places -/

namespace Spread

variable {ps qs ps' qs' : List Place}

theorem append (h : Spread ρ ps qs) (h' : Spread ρ ps' qs') : Spread ρ (ps ++ ps') (qs ++ qs') := by
  induction h with
  | nil => exact h'
  | kept same _ ih => exact .kept same ih
  | added kind type _ ih => exact .added kind type ih

theorem exists_kept (h : Spread ρ ps qs) {p : Place} (hp : p ∈ ps) : ∃ q ∈ qs, Kept ρ p q := by
  induction h with
  | nil => cases hp
  | @kept r q ps qs same _ ih =>
    rcases List.mem_cons.1 hp with rfl | hp
    · exact ⟨q, List.mem_cons_self, same⟩
    · obtain ⟨q, hq, hkept⟩ := ih hp
      exact ⟨q, List.mem_cons_of_mem _ hq, hkept⟩
  | added kind type _ ih =>
    obtain ⟨q, hq, hkept⟩ := ih hp
    exact ⟨q, List.mem_cons_of_mem _ hq, hkept⟩

theorem kept_or_added (h : Spread ρ ps qs) {q : Place} (hq : q ∈ qs) :
    (∃ p ∈ ps, Kept ρ p q) ∨ q.node.kind = .other ∧ q.node.type = "parenthesized_expression" := by
  induction h with
  | nil => cases hq
  | @kept p r ps qs same _ ih =>
    rcases List.mem_cons.1 hq with rfl | hq
    · exact .inl ⟨p, List.mem_cons_self, same⟩
    · exact (ih hq).imp_left fun ⟨p, hp, hkept⟩ => ⟨p, List.mem_cons_of_mem _ hp, hkept⟩
  | added kind type _ ih =>
    rcases List.mem_cons.1 hq with rfl | hq
    · exact .inr ⟨kind, type⟩
    · exact ih hq

/-- What kept places give the same of, and parentheses nothing, is collected from both lists alike. -/
theorem flatMap_eq {α : Type} {f g : Place → List α} (h : Spread ρ ps qs) (hkept : ∀ p q, Kept ρ p q → g q = f p)
    (hother : ∀ q : Place, q.node.kind = .other → g q = []) : qs.flatMap g = ps.flatMap f := by
  induction h with
  | nil => rfl
  | kept same _ ih => rw [List.flatMap_cons, List.flatMap_cons, hkept _ _ same, ih]
  | added kind type _ ih => rw [List.flatMap_cons, hother _ kind, ih, List.nil_append]

theorem assignments_eq (h : Spread ρ ps qs) :
    qs.filterMap Place.assignment? = (ps.filterMap Place.assignment?).map (Assignment.renumber ρ) := by
  rw [List.map_filterMap, List.filterMap_eq_flatMap_toList, List.filterMap_eq_flatMap_toList]
  refine h.flatMap_eq (fun p q hpq => by rw [hpq.assignment?]) fun q hq => ?_
  rw [Place.assignment?, assignedName?_eq_none (by rw [hq]; decide)]
  rfl

variable {tree wrapped : Node}

/-- The store that is built is the same up to the numbers of its places. -/
theorem built_eq (h : Spread ρ tree.places wrapped.places) : built wrapped = (built tree).rename (Site.renumber ρ) := by
  have hops : opsOf wrapped = (opsOf tree).map (·.rename (Site.renumber ρ)) := by
    unfold opsOf
    rw [List.map_flatMap]
    refine h.flatMap_eq (fun p q hpq => hpq.effects) fun q hq => ?_
    exact effects_eq_nil (by simp [Node.opensScope, hq]) (by simp [hq])
  unfold built
  rw [hops, ← Store.run_rename]
  rfl

end Spread

/-! ## Trees that stay -/

/-- Trees that stay are found again where they begin. -/
theorem spread_same {ns : List Node} {i j k : Nat} (h : SameAbove above above')
    (hρ : ∀ x, x < (ns.flatMap Node.preorder).length → ρ (i + x) = j + x) :
    Spread ρ (placesAll above i k ns) (placesAll above' j k ns) := by
  induction ns using Node.forest_induction generalizing above above' i j k with
  | nil => rw [placesAll, placesAll]; exact .nil
  | cons n rest ihc ihr =>
    rw [List.flatMap_cons, List.length_append, ← Node.size, Node.size_eq] at hρ
    rw [placesAll, placesAll]
    refine .kept ⟨(hρ 0 (by omega)).symm, rfl, h, rfl, rfl, fun _ => .refl n⟩ (.append ?_ ?_)
    · refine ihc (h.cons rfl i j k) fun x hx => ?_
      rw [Nat.add_assoc, hρ (1 + x) (by omega), Nat.add_assoc]
    · refine ihr h fun x hx => ?_
      rw [Node.size_eq, Nat.add_assoc, hρ _ (by omega), ← Nat.add_assoc]

/-! ## One more pair of parentheses -/

/-- Numbers after one more node at `position`. -/
def past (position i : Nat) : Nat := if i < position then i else i + 1

theorem past_strictMono (position : Nat) : StrictMono (past position) := by
  intro i j hij
  unfold past
  split <;> split <;> omega

theorem past_of_lt {position i : Nat} (h : i < position) : past position i = i := if_pos h

theorem past_of_le {position i : Nat} (h : position ≤ i) : past position i = i + 1 := if_neg (Nat.not_lt.2 h)

section Below

variable {n m c d : Node} {before after : List Node} {i k first rank position : Nat}

/-- Where a child has one more place, all places behind it move. -/
theorem spread_below (h : Parenthesized n m) (hlists : n.ListsParameters) (habove : SameAbove above above')
    (split : n.children = before ++ c :: after) (children : m.children = before ++ d :: after)
    (hsize : d.size = c.size + 1) (hcount : d.scopeCount = c.scopeCount)
    (hfirst : first = i + 1 + (before.flatMap Node.preorder).length)
    (hrank : rank = Spot.rankBelow ⟨i, k, n⟩ + (before.flatMap Node.preorder).countP Node.opensScope)
    (hbefore : first ≤ position) (hafter : position ≤ first + c.size)
    (hchild : Spread (past position) (placesAll (⟨i, k, n⟩ :: above) first rank [c])
      (placesAll (⟨i, k, m⟩ :: above') first rank [d])) :
    Spread (past position) (placesAll above i k [n]) (placesAll above' i k [m]) := by
  have hbelow : Spot.rankBelow ⟨i, k, m⟩ = Spot.rankBelow ⟨i, k, n⟩ := by simp only [Spot.rankBelow, h.opensScope]
  have hwithin : SameAbove (⟨i, k, n⟩ :: above) (⟨i, k, m⟩ :: above') := habove.cons h.label i i k
  have hcons : ∀ t : Node, t :: after = [t] ++ after := fun _ => rfl
  rw [placesAll_singleton, placesAll_singleton, split, children, hbelow, placesAll_append, placesAll_append, hcons c,
    hcons d, placesAll_append _ _ _ [c], placesAll_append _ _ _ [d], ← hfirst, ← hrank]
  simp only [List.flatMap_singleton]
  rw [← Node.size, ← Node.size, ← Node.scopeCount, ← Node.scopeCount, hsize, hcount]
  have hroot : i = past position i := (past_of_lt (by omega)).symm
  refine .kept ⟨hroot, rfl, habove, h.label, h.assignedName?, fun hn => h.sameNames hn hlists⟩
    (.append ?_ (.append hchild ?_))
  · exact spread_same hwithin fun x hx => past_of_lt (by omega)
  · refine spread_same hwithin fun x _ => ?_
    rw [past_of_le (by omega)]
    omega

/-- Behind one more pair of parentheses all places move by one. -/
theorem spread_parenthesized (h : Parenthesized n m) (hlists : ∀ t ∈ n.preorder, t.ListsParameters)
    (habove : SameAbove above above') :
    ∃ position, i < position ∧ position ≤ i + n.size ∧
      Spread (past position) (placesAll above i k [n]) (placesAll above' i k [m]) := by
  have hroot : n.ListsParameters := hlists n (by rw [Node.preorder_eq]; exact List.mem_cons_self)
  induction h generalizing above above' i k with
  | here n m c w before after assigns split left wraps label children now =>
    have hsize := Node.size_split split
    have hthis := Parenthesized.here n m c w before after assigns split left wraps label children now
    refine ⟨i + 1 + (before.flatMap Node.preorder).length, by omega, by omega, ?_⟩
    refine spread_below hthis hroot habove split children wraps.size wraps.scopeCount rfl rfl (Nat.le_refl _)
      (Nat.le_add_right _ _) ?_
    -- the parentheses take the number of what they stand around
    have hrank : ∀ j rank, Spot.rankBelow ⟨j, rank, w⟩ = rank := fun j rank => by
      simp [Spot.rankBelow, wraps.opensScope]
    rw [placesAll_singleton _ _ _ w, wraps.only, hrank]
    refine .added wraps.kind wraps.type (spread_same ((habove.cons label i i k).past wraps.kind _ _) fun x _ => ?_)
    rw [past_of_le (Nat.le_add_right _ _)]
    omega
  | inside n c d before after split deeper ih =>
    have hsize := Node.size_split split
    have hmem : ∀ t ∈ c.preorder, t ∈ n.preorder := by
      intro t ht
      rw [Node.preorder_eq n, split, List.flatMap_append, List.flatMap_cons]
      simp [ht]
    have hc : c.ListsParameters := hlists c (hmem c (by rw [Node.preorder_eq]; exact List.mem_cons_self))
    have hthis := Parenthesized.inside n c d before after split deeper
    obtain ⟨position, hbefore, hafter, hchild⟩ :=
      ih (fun t ht => hlists t (hmem t ht)) (habove.cons hthis.label i i k) hc
    exact ⟨position, by omega, by omega,
      spread_below hthis hroot habove split rfl deeper.size deeper.scopeCount rfl rfl (Nat.le_of_lt hbefore) hafter
        hchild⟩

end Below

end LetOrConst.Scope
