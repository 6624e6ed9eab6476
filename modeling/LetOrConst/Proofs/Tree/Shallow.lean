/-
What stands in some trees without a node of a given sort in between. `gather` collects it by
recursion on the trees; of places, it is what has a clear way up to the trees (`mem_gather`), and
below a node of that sort, what has this node as the nearest of its sort (`mem_gather_children`).
-/
import LetOrConst.Proofs.Tree.Place

namespace LetOrConst.Tree

variable {α : Type}

/-- Collects what the nodes of some trees give, without going below a node that stops. -/
def gather (stops : Node → Bool) (give : Node → List α) : List Node → List α
  | [] => []
  | n :: rest =>
    give n ++ ((if stops n then [] else gather stops give n.children) ++ gather stops give rest)
termination_by ns => sizeOf ns
decreasing_by
  · exact Node.sizeOf_children_lt_cons n rest
  · exact Branching.sizeOf_rest_lt_cons n rest

/-- Nothing on the way from a place up to `above` is in the way. -/
def Clear (blocks : Spot → Prop) (above : List Spot) (p : Place) : Prop :=
  ∃ way, p.above = way ++ above ∧ ∀ t ∈ way, ¬ blocks t

variable {blocks : Spot → Prop} {above : List Spot} {i k : Nat} {ns : List Node} {p : Place} {s : Spot}

theorem clear_self : Clear blocks above ⟨s, above⟩ := ⟨[], rfl, by simp⟩

theorem clear_cons (hp : p ∈ placesAll (s :: above) i k ns) :
    Clear blocks above p ↔ Clear blocks (s :: above) p ∧ ¬ blocks s := by
  constructor
  · rintro ⟨way, hway, hclear⟩
    obtain ⟨inner, hinner, -⟩ := above_split hp
    have hsplit : way = inner ++ [s] := by
      rw [hinner, List.append_cons] at hway
      exact (List.append_cancel_right hway).symm
    subst hsplit
    exact ⟨⟨inner, hinner, fun t ht => hclear t (List.mem_append_left _ ht)⟩,
      hclear s (List.mem_append_right _ (List.mem_singleton_self s))⟩
  · rintro ⟨⟨way, hway, hclear⟩, hs⟩
    refine ⟨way ++ [s], by rw [hway, List.append_cons], fun t ht => ?_⟩
    rcases List.mem_append.1 ht with ht | ht
    · exact hclear t ht
    · rw [List.mem_singleton.1 ht]
      exact hs

/-- What is gathered is given by the places with a clear way up. -/
theorem mem_gather {stops : Node → Bool} {give : Node → List α} {x : α} (above : List Spot) (i k : Nat)
    (ns : List Node) :
    x ∈ gather stops give ns ↔
      ∃ p ∈ placesAll above i k ns, Clear (fun t => stops t.node = true) above p ∧ x ∈ give p.node := by
  induction ns using Node.forest_induction generalizing above i k with
  | nil => simp [gather, placesAll]
  | cons n rest ihc ihr =>
    rw [gather, List.mem_append, List.mem_append]
    simp only [mem_placesAll_cons, or_and_right, exists_or, exists_eq_left]
    refine or_congr ?_ (or_congr ?_ (ihr above _ _))
    · exact (and_iff_right clear_self).symm
    · have hbelow : ∀ p ∈ Place.inner ⟨⟨i, k, n⟩, above⟩, Clear (fun t => stops t.node = true) above p ↔ _ :=
        fun p hp => clear_cons hp
      cases hs : stops n with
      | true =>
        simp only [if_true, List.not_mem_nil, false_iff]
        rintro ⟨p, hp, hclear, -⟩
        exact ((hbelow p hp).1 hclear).2 hs
      | false =>
        simp only [Bool.false_eq_true, if_false]
        rw [ihc (⟨i, k, n⟩ :: above) (i + 1) (Spot.rankBelow ⟨i, k, n⟩)]
        refine exists_congr fun p => and_congr_right fun hp => and_congr_left fun _ => ?_
        rw [hbelow p hp]
        simp [hs]

section Root

variable {root : Node} {outer : List Spot}

theorem mem_inner_iff (hs : ⟨s, outer⟩ ∈ root.places) :
    p ∈ Place.inner ⟨s, outer⟩ ↔ p ∈ root.places ∧ ∃ way, p.above = way ++ s :: outer := by
  constructor
  · intro hp
    obtain ⟨way, hway, -⟩ := above_split hp
    exact ⟨mem_of_inner hs hp, way, hway⟩
  · rintro ⟨hp, way, hway⟩
    exact (mem_of_above hp hway).2

/-- The nearest spot of a sort above a place is the one that the way up to is clear of the sort. -/
theorem nearest?_eq_some_iff (hs : ⟨s, outer⟩ ∈ root.places) {stops : Node → Bool} (hp : p ∈ root.places) :
    p.nearest? stops = some s ↔
      stops s.node = true ∧ p ∈ Place.inner ⟨s, outer⟩ ∧ Clear (fun t => stops t.node = true) (s :: outer) p := by
  unfold Place.nearest?
  rw [List.find?_eq_some_iff_append]
  refine and_congr_right fun _ => ⟨?_, ?_⟩
  · rintro ⟨way, outer', hway, hclear⟩
    -- the spot is one place only, so what is above it is given with it
    have heq := eq_of_number_eq hs (mem_of_above hp hway).1 rfl
    cases heq
    refine ⟨(mem_inner_iff hs).2 ⟨hp, way, hway⟩, way, hway, fun t ht => ?_⟩
    simpa using hclear t ht
  · rintro ⟨-, way, hway, hclear⟩
    refine ⟨way, outer, hway, fun t ht => ?_⟩
    simpa using hclear t ht

/-- What is gathered below a node that stops is given by the places whose nearest such node it is. -/
theorem mem_gather_children (hs : ⟨s, outer⟩ ∈ root.places) {stops : Node → Bool} (hstop : stops s.node = true)
    {give : Node → List α} {x : α} :
    x ∈ gather stops give s.node.children ↔ ∃ p ∈ root.places, p.nearest? stops = some s ∧ x ∈ give p.node := by
  rw [mem_gather (s :: outer) (s.number + 1) s.rankBelow]
  constructor
  · rintro ⟨p, hp, hclear, hx⟩
    have hmem := mem_of_inner hs hp
    exact ⟨p, hmem, (nearest?_eq_some_iff hs hmem).2 ⟨hstop, hp, hclear⟩, hx⟩
  · rintro ⟨p, hp, hnear, hx⟩
    obtain ⟨-, hinner, hclear⟩ := (nearest?_eq_some_iff hs hp).1 hnear
    exact ⟨p, hinner, hclear, hx⟩

end Root

end LetOrConst.Tree
