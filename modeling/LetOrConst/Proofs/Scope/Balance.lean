/-
The building of scopes, turn by turn. In the middle of a visit the agenda says what stands around:
every node above is still to be left, the nearest first, and before each stand those of its children
that are still to be entered (`Awaits`). The innermost open scope and the scopes around it are the
scope nodes that are still to be left. One turn keeps this, whether it enters a node or leaves one
(`Standing.step`), so it holds at every point of every visit (`standing_of_reaches`): there is always
an innermost scope to work in, and leaving a node below the root never closes the scope of the root.
-/
import LetOrConst.Proofs.Scope.Build

namespace LetOrConst.Scope

open LetOrConst.Tree

variable {root : Node} {p : Progress} {above : List Spot} {agenda : List (Pending Node)} {i k : Nat}

/-! ## Leaving a node -/

namespace Ready

variable {s : Spot}

theorem parent_current (h : Ready p (s :: above) i k) (ho : s.node.opensScope = true)
    (hosted : ∃ t ∈ above, t.node.hostsVars = true) :
    ∃ t, above.find? (·.node.opensScope) = some t ∧ p.store.parent? s.rank = some t.rank ∧
      p.store.outline t.rank = (above.filter (·.node.opensScope)).map fun t => (t.rank, t.node.scopeKind) := by
  obtain ⟨t, ht, hv⟩ := hosted
  have hto := Node.opensScope_of_hostsVars hv
  have hmem : t ∈ above.filter (·.node.opensScope) := List.mem_filter.2 ⟨ht, hto⟩
  obtain ⟨u, rest, hu⟩ := List.exists_cons_of_ne_nil (List.ne_nil_of_mem hmem)
  have hcurrent : p.current = some s.rank := by simp [h.current, ho]
  have houtline := h.outline _ hcurrent
  rw [List.filter_cons, if_pos ho, hu, List.map_cons, List.map_cons] at houtline
  obtain ⟨hparent, hrest⟩ := Store.outline_parent houtline
  refine ⟨u, ?_, hparent, by rw [hu]; exact hrest⟩
  rw [← List.head?_filter, hu]
  rfl

/-- Leaving the nearest node above, a visit stands where it stood before that node was entered. -/
theorem leave (h : Ready p (s :: above) i k) (hn : s.node.kind ≠ .program)
    (hosted : ∃ t ∈ above, t.node.hostsVars = true) :
    ∃ q, Scope.leave s.node p = .ok q ∧ Ready q above i k := by
  have hbelow : ∀ t ∈ above, t.node.opensScope = true → t.rank < k := fun t ht => h.below t (List.mem_cons_of_mem _ ht)
  by_cases ho : s.node.opensScope = true
  · obtain ⟨t, ht, hparent, houtline⟩ := h.parent_current ho hosted
    have hcurrent : p.current = some s.rank := by simp [h.current, ho]
    rw [leave_scope ho hn, Progress.pop_eq hcurrent, hparent]
    refine ⟨_, rfl, ⟨h.entered, h.count, hosted, hbelow, by rw [ht]; rfl, fun c hc => ?_⟩⟩
    cases hc
    exact houtline
  · rw [Bool.not_eq_true] at ho
    rw [leave_plain (.inl ho)]
    refine ⟨p, rfl, ⟨h.entered, h.count, hosted, hbelow, ?_, fun c hc => ?_⟩⟩
    · rw [h.current, List.find?_cons, ho]
    · rw [h.outline c hc, List.filter_cons, ho]
      rfl

end Ready

/-! ## The agenda and what stands above -/

/-- The nodes of an agenda that are still to be left. -/
def toLeave (agenda : List (Pending Node)) : List Node :=
  agenda.filterMap fun
    | .enter _ => none
    | .leave n => some n

/-- The agenda of a visit that stands below `above`. -/
inductive Awaits (root : Node) : List Spot → List (Pending Node) → Prop where
  | outermost (ns : List Node) (plain : ∀ m ∈ ns.flatMap Node.preorder, m.kind ≠ .program) :
      Awaits root [⟨0, 0, root⟩] (ns.map .enter ++ [.leave root])
  | within (s : Spot) (above : List Spot) (ns : List Node) (rest : List (Pending Node))
      (plain : ∀ m ∈ ns.flatMap Node.preorder, m.kind ≠ .program) (inner : s.node.kind ≠ .program)
      (around : Awaits root above rest) : Awaits root (s :: above) (ns.map .enter ++ .leave s.node :: rest)

namespace Awaits

theorem root_mem (h : Awaits root above agenda) : ⟨0, 0, root⟩ ∈ above := by
  induction h with
  | outermost ns _ => exact List.mem_singleton_self _
  | within s above ns rest _ _ _ ih => exact List.mem_cons_of_mem _ ih

theorem toLeave_eq (h : Awaits root above agenda) : toLeave agenda = above.map (·.node) := by
  have henter : ∀ ns : List Node, toLeave (ns.map .enter) = [] := by
    intro ns
    unfold toLeave
    rw [List.filterMap_map]
    exact List.filterMap_eq_nil_iff.2 fun _ _ => rfl
  have happend : ∀ xs ys, toLeave (xs ++ ys) = toLeave xs ++ toLeave ys := fun xs ys => List.filterMap_append
  induction h with
  | outermost ns _ => rw [happend, henter]; rfl
  | within s above ns rest _ _ _ ih =>
    rw [happend, henter, List.nil_append, List.map_cons, ← ih]
    rfl

/-- The next thing to do is to enter a tree without a program, or to leave the nearest node above. -/
theorem next (h : Awaits root above agenda) :
    (∃ n rest, agenda = .enter n :: rest ∧ Awaits root above rest ∧ ∀ m ∈ n.preorder, m.kind ≠ .program) ∨
      (above = [⟨0, 0, root⟩] ∧ agenda = [.leave root]) ∨
      ∃ s outer rest, above = s :: outer ∧ agenda = .leave s.node :: rest ∧ s.node.kind ≠ .program ∧
        Awaits root outer rest := by
  cases h with
  | outermost ns plain =>
    cases ns with
    | nil => exact .inr (.inl ⟨rfl, rfl⟩)
    | cons n ns =>
      rw [List.flatMap_cons] at plain
      exact .inl ⟨n, _, rfl, .outermost ns fun m hm => plain m (List.mem_append_right _ hm),
        fun m hm => plain m (List.mem_append_left _ hm)⟩
  | within s above ns rest plain inner around =>
    cases ns with
    | nil => exact .inr (.inr ⟨s, above, rest, rfl, rfl, inner, around⟩)
    | cons n ns =>
      rw [List.flatMap_cons] at plain
      exact .inl ⟨n, _, rfl, .within s above ns rest (fun m hm => plain m (List.mem_append_right _ hm)) inner around,
        fun m hm => plain m (List.mem_append_left _ hm)⟩

end Awaits

/-! ## Every turn -/

/-- Where a visit can stand: before the root, somewhere below it, or at the end. -/
inductive Standing (root : Node) : List (Pending Node) × Except Fault Progress → Prop where
  | start : Standing root ([.enter root], .ok {})
  | inside (p : Progress) (above : List Spot) (i k : Nat) (agenda : List (Pending Node)) (ready : Ready p above i k)
      (awaits : Awaits root above agenda) : Standing root (agenda, .ok p)
  | finished (p : Progress) (opened : 0 < p.store.scopes.length) (back : p.current = some 0) : Standing root ([], .ok p)

theorem Standing.step (hroot : SoleProgram root) {c d : List (Pending Node) × Except Fault Progress}
    (h : Standing root c) (hs : builder.Step c d) : Standing root d := by
  cases h with
  | start =>
    cases hs with
    | below n rest s goes =>
      have hentered : (builder.enter root (.ok {})).1 = enter root {} := rfl
      rw [hentered, enter_root hroot]
      exact .inside _ _ _ _ _ (ready_root hroot) (.outermost _ hroot.below)
    | decline n rest s stays => cases stays
  | inside p above i k agenda ready awaits =>
    rcases awaits.next with ⟨n, rest, rfl, hrest, plain⟩ | ⟨rfl, rfl⟩ | ⟨s, outer, rest, rfl, rfl, hn, hrest⟩
    · -- what was around the node is now around its children, with the node itself to be left first
      cases hs with
      | below n rest s goes =>
        have hentered : (builder.enter n (.ok p)).1 = enter n p := rfl
        rw [Node.preorder_eq] at plain
        have hn : n.kind ≠ .program := plain n List.mem_cons_self
        rw [hentered, enter_eq (ready.entering n) hn]
        exact .inside _ _ _ _ _ (ready.entered_below n)
          (.within ⟨i, k, n⟩ above n.children rest (fun m hm => plain m (List.mem_cons_of_mem _ hm)) hn hrest)
      | decline n rest s stays => cases stays
    · -- the root is left without closing its scope
      cases hs with
      | leave n rest s =>
        have hleft : builder.leave root (.ok p) = leave root p := rfl
        rw [hleft, leave_plain (.inr hroot.isProgram)]
        exact .finished p (ready.count ▸ ready.pos) (by simp [ready.current, hroot.opensScope])
    · cases hs with
      | leave n rest s =>
        have hosted : ∃ t ∈ outer, t.node.hostsVars = true := ⟨_, hrest.root_mem, hroot.hostsVars⟩
        obtain ⟨q, hq, hready⟩ := ready.leave hn hosted
        have hleft : builder.leave s.node (.ok p) = leave s.node p := rfl
        rw [hleft, hq]
        exact .inside q outer i k rest hready hrest
  | finished p opened back => cases hs

/-- A visit stands in one of these ways at every point. -/
theorem standing_of_reaches (hroot : SoleProgram root) {c : List (Pending Node) × Except Fault Progress}
    (h : Relation.ReflTransGen builder.Step ([.enter root], .ok {}) c) : Standing root c := by
  induction h with
  | refl => exact .start
  | tail _ hs ih => exact ih.step hroot hs

/-- A visit has an innermost open scope `c`. While there is something left to do, it and the scopes around it
are those of the scope nodes still to be left, and one below the root has a scope around it. -/
structure Steady (agenda : List (Pending Node)) (p : Progress) (c : Nat) : Prop where
  current : p.current = some c
  opened : c < p.store.scopes.length
  mirrors : agenda ≠ [] →
    (p.store.outline c).map (·.2) = ((toLeave agenda).filter Node.opensScope).map Node.scopeKind
  closes : ∀ n rest, agenda = .leave n :: rest → n.opensScope = true → n.kind ≠ .program →
    ∃ outer, p.store.parent? c = some outer

theorem Standing.steady (hroot : SoleProgram root) {s : Except Fault Progress} (h : Standing root (agenda, s)) :
    (agenda = [.enter root] ∧ s = .ok {}) ∨ ∃ p c, s = .ok p ∧ Steady agenda p c := by
  cases h with
  | start => exact .inl ⟨rfl, rfl⟩
  | finished p opened back =>
    refine .inr ⟨p, 0, rfl, back, opened, fun hne => absurd rfl hne, fun n rest hnil => ?_⟩
    cases hnil
  | inside p above i k agenda ready awaits =>
    obtain ⟨t, ht⟩ := Option.isSome_iff_exists.1 (List.find?_isSome (p := (·.node.opensScope)).2
      ⟨_, awaits.root_mem, hroot.opensScope⟩)
    have hcurrent : p.current = some t.rank := by rw [ready.current, ht]; rfl
    refine .inr ⟨p, t.rank, rfl, hcurrent, ready.current_lt hcurrent, fun _ => ?_, fun n rest hagenda ho hn => ?_⟩
    · rw [ready.outline _ hcurrent, awaits.toLeave_eq, List.filter_map, List.map_map, List.map_map]
      rfl
    · rcases awaits.next with ⟨m, _, hm, -⟩ | ⟨-, hm⟩ | ⟨s, outer, _, rfl, hm, -, hrest⟩
      · rw [hm] at hagenda
        cases hagenda
      · rw [hm] at hagenda
        cases hagenda
        exact absurd hroot.isProgram hn
      · rw [hm] at hagenda
        cases hagenda
        obtain ⟨u, -, hparent, -⟩ := ready.parent_current ho ⟨_, hrest.root_mem, hroot.hostsVars⟩
        rw [List.find?_cons, ho] at ht
        cases ht
        exact ⟨u.rank, hparent⟩

/-! ## The whole visit -/

/-- A visit of a tree that ends in a state. After the root has been entered there is always a scope to work
in, and in the end the scope of the root is the innermost again. -/
structure Balanced (root : Node) (p : Progress) : Prop where
  reached : Relation.ReflTransGen builder.Step ([.enter root], .ok {}) ([], .ok p)
  steady : ∀ agenda s, Relation.ReflTransGen builder.Step ([.enter root], .ok {}) (agenda, s) →
    (agenda = [.enter root] ∧ s = .ok {}) ∨ ∃ q c, s = .ok q ∧ Steady agenda q c
  outermost : p.root = some 0
  back : p.current = p.root

theorem balanced_of_build (hroot : SoleProgram root) (hp : build root = .ok p) : Balanced root p := by
  refine ⟨?_, fun agenda s h => (standing_of_reaches hroot h).steady hroot, ?_, ?_⟩
  · rw [← hp]
    exact builder.reaches_run [.enter root] (.ok {})
  · rw [build_eq hroot] at hp
    cases hp
    rfl
  · rw [build_eq hroot] at hp
    cases hp
    rfl

end LetOrConst.Scope
