/-
What a target binds, said of positions in it. A pattern with a default or with a key binds through one field, any
other pattern through all its children (`BindsAt`); the identifiers that are reached through such positions alone
are the ones that are bound (`Bound`), and they are listed from left to right by the way that leads to them
(`exists_listed`). So nothing that stands beside the binding positions matters: defaults, keys and whatever is no
target may be anything else (`Redressed.bindingNames`).
-/
import LetOrConst.Proofs.Advice.Refine
import LetOrConst.Proofs.Tree.Alter
import Mathlib.Data.List.Flatten

namespace LetOrConst.Tree

open LetOrConst.Tree.Sample

/-- The field through which a pattern binds, if it binds through one: the target of a default, or the value of a
pair. -/
def Node.bindingField? (n : Node) : Option String :=
  if n.type = "assignment_pattern" ∨ n.type = "object_assignment_pattern" then some "left"
  else if n.type = "pair_pattern" then some "value"
  else none

/-- The binding positions of a pattern, counted from left to right. -/
inductive BindsAt (n : Node) : Nat → Node → Prop where
  | field (f : String) (c : Node) (pattern : n.kind = .pattern) (through : n.bindingField? = some f)
      (under : n.child? f = some c) : BindsAt n 0 c
  | child (i : Nat) (c : Node) (pattern : n.kind = .pattern) (through : n.bindingField? = none)
      (stands : n.children[i]? = some c) : BindsAt n i c

/-- What is reached from a target through binding positions alone, with the positions on the way. -/
inductive Reaches : Node → List Nat → Node → Prop where
  | here (n : Node) : Reaches n [] n
  | through (n c m : Node) (i : Nat) (way : List Nat) (position : BindsAt n i c) (further : Reaches c way m) :
      Reaches n (i :: way) m

/-- A way leads from a target to an identifier with a name that is not empty. -/
def Bound (target : Node) (way : List Nat) (x : String) : Prop :=
  ∃ m, Reaches target way m ∧ m.kind = .identifier ∧ m.label.name = some x ∧ x ≠ ""

/-- All names that are found on some ways, each with its way, from left to right. -/
structure Listed (given : List Nat → String → Prop) (found : List (List Nat × String)) : Prop where
  ordered : found.Pairwise fun a b => a.1 < b.1
  complete : ∀ way x, (way, x) ∈ found ↔ given way x

/-- A target becomes another when something beside its binding positions is replaced. -/
inductive Redressed : Node → Node → Prop where
  /-- A child of a pattern that binds through a field, but not the one under the field, by anything. -/
  | beside (n c d : Node) (f : String) (before after : List Node) (pattern : n.kind = .pattern)
      (through : n.bindingField? = some f) (split : n.children = before ++ c :: after)
      (other : n.fields.lookup f ≠ some (.child before.length)) :
      Redressed n { n with children := before ++ d :: after }
  /-- A child of any other pattern that is no target, by another that is none. -/
  | plain (n c d : Node) (before after : List Node) (pattern : n.kind = .pattern) (through : n.bindingField? = none)
      (split : n.children = before ++ c :: after) (old : c.kind ≠ .identifier ∧ c.kind ≠ .pattern)
      (new : d.kind ≠ .identifier ∧ d.kind ≠ .pattern) : Redressed n { n with children := before ++ d :: after }
  /-- Somewhere in a child. -/
  | inside (n c d : Node) (before after : List Node) (split : n.children = before ++ c :: after)
      (deeper : Redressed c d) : Redressed n { n with children := before ++ d :: after }
  /-- Somewhere in a node that is reached through a field only. -/
  | aside (n c d : Node) (before after : List Node) (split : n.apart = before ++ c :: after)
      (deeper : Redressed c d) : Redressed n { n with apart := before ++ d :: after }

variable {n m c d target : Node}

theorem Node.bindingNames_field {f : String} (h : n.kind = .pattern) (hf : n.bindingField? = some f) :
    n.bindingNames = n.namesUnder f := by
  rw [bindingNames_eq, if_neg (by rw [h]; decide), if_pos h]
  unfold bindingField? at hf
  split at hf
  · rename_i htype
    cases hf
    rw [if_pos htype]
  · rename_i htype
    split at hf
    · rename_i hpair
      cases hf
      rw [if_neg htype, if_pos hpair]
    · cases hf

theorem Node.bindingNames_children (h : n.kind = .pattern) (hf : n.bindingField? = none) :
    n.bindingNames = n.children.flatMap bindingNames := by
  rw [bindingNames_eq, if_neg (by rw [h]; decide), if_pos h]
  unfold bindingField? at hf
  split at hf
  · cases hf
  · rename_i htype
    split at hf
    · cases hf
    · rename_i hpair
      rw [if_neg htype, if_neg hpair]

/-! ## Lists of ways -/

namespace Listed

variable {given other : List Nat → String → Prop} {found more : List (List Nat × String)}

theorem nil (h : ∀ way x, ¬ given way x) : Listed given [] := ⟨.nil, fun way x => by simp [h]⟩

theorem congr (h : Listed given found) (hgiven : ∀ way x, given way x ↔ other way x) : Listed other found :=
  ⟨h.ordered, fun way x => (h.complete way x).trans (hgiven way x)⟩

/-- Ways that all go on from one position. -/
theorem under (h : Listed given found) (i : Nat) :
    Listed (fun way x => ∃ rest, way = i :: rest ∧ given rest x) (found.map fun e => (i :: e.1, e.2)) := by
  refine ⟨List.pairwise_map.2 (h.ordered.imp fun hab => List.cons_lt_cons_iff.2 (.inr ⟨rfl, hab⟩)), fun way x => ?_⟩
  simp only [List.mem_map, Prod.mk.injEq, Prod.exists]
  constructor
  · rintro ⟨rest, y, hmem, rfl, rfl⟩
    exact ⟨rest, rfl, (h.complete rest y).1 hmem⟩
  · rintro ⟨rest, rfl, hgiven⟩
    exact ⟨rest, x, (h.complete rest x).2 hgiven, rfl, rfl⟩

/-- Ways of which the first ones stand left of the others. -/
theorem append (h : Listed given found) (h' : Listed other more)
    (hleft : ∀ v x, given v x → ∀ w y, other w y → v < w) :
    Listed (fun way x => given way x ∨ other way x) (found ++ more) := by
  refine ⟨List.pairwise_append.2 ⟨h.ordered, h'.ordered, ?_⟩, fun way x => ?_⟩
  · rintro ⟨v, x⟩ hv ⟨w, y⟩ hw
    exact hleft v x ((h.complete v x).1 hv) w y ((h'.complete w y).1 hw)
  · rw [List.mem_append, h.complete, h'.complete]

end Listed

/-! ## The names of a target -/

theorem bound_of_ne_pattern {way : List Nat} {x : String} (h : n.kind ≠ .pattern) :
    Bound n way x ↔ way = [] ∧ n.kind = .identifier ∧ n.properName? = some x := by
  unfold Bound Node.properName?
  rw [Option.filter_eq_some_iff, decide_eq_true_iff]
  constructor
  · rintro ⟨m, hreaches, hkind, hname⟩
    cases hreaches with
    | here => exact ⟨rfl, hkind, hname⟩
    | through _ c _ i way position =>
      cases position with
      | field f c pattern => exact absurd pattern h
      | child i c pattern => exact absurd pattern h
  · rintro ⟨rfl, hkind, hname⟩
    exact ⟨n, .here n, hkind, hname⟩

theorem bound_pattern {way : List Nat} {x : String} (h : n.kind = .pattern) :
    Bound n way x ↔ ∃ i c rest, way = i :: rest ∧ BindsAt n i c ∧ Bound c rest x := by
  constructor
  · rintro ⟨m, hreaches, hkind, hname⟩
    cases hreaches with
    | here => cases hkind.symm.trans h
    | through _ c _ i way position further => exact ⟨i, c, way, rfl, position, m, further, hkind, hname⟩
  · rintro ⟨i, c, rest, rfl, position, m, further, hm⟩
    exact ⟨m, .through n c m i rest position further, hm⟩

theorem bindsAt_field {f : String} {i : Nat} (h : n.kind = .pattern) (hf : n.bindingField? = some f) :
    BindsAt n i c ↔ i = 0 ∧ n.child? f = some c := by
  constructor
  · intro hat
    cases hat with
    | field g c pattern through under =>
      cases hf.symm.trans through
      exact ⟨rfl, under⟩
    | child i c pattern through => cases hf.symm.trans through
  · rintro ⟨rfl, hc⟩
    exact .field f c h hf hc

theorem bindsAt_child {i : Nat} (h : n.kind = .pattern) (hf : n.bindingField? = none) :
    BindsAt n i c ↔ n.children[i]? = some c := by
  constructor
  · intro hat
    cases hat with
    | field g c pattern through => cases hf.symm.trans through
    | child i c pattern through stands => exact stands
  · exact .child i c h hf

/-- The children of a pattern one after the other, counted from `k` on. -/
theorem exists_listed_children (cs : List Node) (k : Nat)
    (h : ∀ c ∈ cs, ∃ found, Listed (Bound c) found ∧ c.bindingNames = found.map (·.2)) :
    ∃ found, Listed (fun way x => ∃ i c rest, way = (k + i) :: rest ∧ cs[i]? = some c ∧ Bound c rest x) found ∧
      cs.flatMap Node.bindingNames = found.map (·.2) := by
  induction cs generalizing k with
  | nil => exact ⟨[], .nil (by simp), rfl⟩
  | cons c cs ih =>
    obtain ⟨found, hfound, hnames⟩ := h c List.mem_cons_self
    obtain ⟨more, hmore, hothers⟩ := ih (k + 1) fun d hd => h d (List.mem_cons_of_mem c hd)
    refine ⟨_, ((hfound.under k).append hmore ?_).congr fun way x => ?_, ?_⟩
    · rintro _ x ⟨v, rfl, -⟩ _ y ⟨i, d, w, rfl, -⟩
      exact List.cons_lt_cons_iff.2 (.inl (by omega))
    · constructor
      · rintro (⟨rest, rfl, hx⟩ | ⟨i, d, rest, rfl, hd, hx⟩)
        · exact ⟨0, c, rest, rfl, rfl, hx⟩
        · exact ⟨i + 1, d, rest, by rw [Nat.add_right_comm]; rfl, hd, hx⟩
      · rintro ⟨i, d, rest, rfl, hd, hx⟩
        cases i with
        | zero =>
          cases hd
          exact .inl ⟨rest, rfl, hx⟩
        | succ i => exact .inr ⟨i, d, rest, by rw [Nat.add_right_comm]; rfl, hd, hx⟩
    · rw [List.flatMap_cons, hnames, hothers, List.map_append, List.map_map]
      rfl

/-- A target binds the identifiers that are reached through binding positions, from left to right. -/
theorem exists_listed (target : Node) :
    ∃ found, Listed (Bound target) found ∧ target.bindingNames = found.map (·.2) := by
  induction hsize : sizeOf target using Nat.strongRecOn generalizing target with
  | _ size ih =>
    by_cases hkind : target.kind = .pattern
    · cases hf : target.bindingField? with
      | some f =>
        rw [Node.bindingNames_field hkind hf, Node.namesUnder]
        cases hc : target.child? f with
        | none =>
          refine ⟨[], .nil fun way x => ?_, rfl⟩
          simp [bound_pattern hkind, bindsAt_field hkind hf, hc]
        | some c =>
          obtain ⟨found, hfound, hnames⟩ := ih _ (hsize ▸ Node.sizeOf_lt_of_child? hc) c rfl
          refine ⟨_, (hfound.under 0).congr fun way x => ?_, ?_⟩
          · simp [bound_pattern hkind, bindsAt_field hkind hf, hc]
          · show c.bindingNames = _
            rw [hnames, List.map_map]
            rfl
      | none =>
        rw [Node.bindingNames_children hkind hf]
        obtain ⟨found, hfound, hnames⟩ := exists_listed_children target.children 0 fun c hc =>
          ih _ (hsize ▸ Node.sizeOf_lt_of_mem_children hc) c rfl
        refine ⟨found, hfound.congr fun way x => ?_, hnames⟩
        simp [bound_pattern hkind, bindsAt_child hkind hf]
    · rw [Node.bindingNames_of_ne_pattern hkind]
      by_cases hid : target.kind = .identifier
      · rw [if_pos hid]
        cases hname : target.properName? with
        | none =>
          refine ⟨[], .nil fun way x => ?_, rfl⟩
          simp [bound_of_ne_pattern hkind, hname]
        | some y =>
          refine ⟨[([], y)], ⟨List.pairwise_singleton _ _, fun way x => ?_⟩, rfl⟩
          simp [bound_of_ne_pattern hkind, hid, hname, eq_comm]
      · rw [if_neg hid]
        refine ⟨[], .nil fun way x => ?_, rfl⟩
        simp [bound_of_ne_pattern hkind, hid]

/-! ## Beside the binding positions -/

theorem getElem?_replaced (before after : List Node) (c d : Node) (i : Nat) :
    (before ++ d :: after)[i]? = (before ++ c :: after)[i]? ∨
      i = before.length ∧ (before ++ c :: after)[i]? = some c ∧ (before ++ d :: after)[i]? = some d := by
  rcases Nat.lt_trichotomy i before.length with hi | rfl | hi
  · rw [List.getElem?_append_left hi, List.getElem?_append_left hi]
    exact .inl rfl
  · simp
  · obtain ⟨k, rfl⟩ := Nat.exists_eq_add_of_lt hi
    left
    rw [List.getElem?_append_right (by omega), List.getElem?_append_right (by omega),
      show before.length + k + 1 - before.length = k + 1 by omega]
    rfl

theorem child?_beside {f : String} {before after : List Node} (split : n.children = before ++ c :: after)
    (h : n.fields.lookup f ≠ some (.child before.length)) :
    Node.child? { n with children := before ++ d :: after } f = n.child? f := by
  unfold Node.child?
  cases hslot : n.fields.lookup f with
  | none => rfl
  | some slot =>
    cases slot with
    | apart i => rfl
    | child i =>
      show (before ++ d :: after)[i]? = n.children[i]?
      rw [split]
      rcases getElem?_replaced before after c d i with hsame | ⟨rfl, -⟩
      · exact hsame
      · exact absurd hslot h

theorem child?_aside {before after : List Node} (split : n.apart = before ++ c :: after) (field : String) :
    Node.child? { n with apart := before ++ d :: after } field = n.child? field ∨
      n.child? field = some c ∧ Node.child? { n with apart := before ++ d :: after } field = some d := by
  unfold Node.child?
  cases n.fields.lookup field with
  | none => exact .inl rfl
  | some slot =>
    cases slot with
    | child i => exact .inl rfl
    | apart i =>
      show (before ++ d :: after)[i]? = n.apart[i]? ∨ n.apart[i]? = some c ∧ (before ++ d :: after)[i]? = some d
      rw [split]
      exact (getElem?_replaced before after c d i).imp_right And.right

/-- What a target binds does not depend on what stands beside its binding positions. -/
theorem Redressed.bindingNames (h : Redressed n m) : m.bindingNames = n.bindingNames := by
  induction h with
  | beside n c d f before after pattern through split other =>
    rw [Node.bindingNames_field pattern through]
    rw [Node.bindingNames_field (n := { n with children := before ++ d :: after }) pattern through, Node.namesUnder,
      child?_beside split other, Node.namesUnder]
  | plain n c d before after pattern through split old new =>
    rw [Node.bindingNames_children pattern through]
    rw [Node.bindingNames_children (n := { n with children := before ++ d :: after }) pattern through, split]
    simp only [List.flatMap_append, List.flatMap_cons, Node.bindingNames_eq_nil old, Node.bindingNames_eq_nil new]
  | inside n c d before after split deeper ih => exact bindingNames_below split ih
  | aside n c d before after split deeper ih =>
    have hunder := fun field => namesUnder_congr (child?_aside (d := d) split field) ih
    rw [Node.bindingNames_eq, Node.bindingNames_eq n, hunder, hunder]
    rfl

/-! ## Declarations -/

theorem declaredNames_sublist (d : Node) : d.declaredNames.Sublist (d.declarators.flatMap (·.namesUnder "name")) := by
  unfold Node.declaredNames
  rw [List.filterMap_eq_flatMap_toList]
  refine List.Sublist.flatMap_right _ fun c _ => ?_
  unfold Node.namesUnder
  cases c.child? "name" with
  | none => exact .slnil
  | some target =>
    simp only
    split
    · rename_i hid
      rw [Node.bindingNames_eq, if_pos hid]
    · exact List.nil_sublist _

/-- A target binds exactly what is reached through binding positions, whatever stands beside them; and the plain
names of a declaration are among the names that its declarators bind, and all of them when no target is a
pattern. -/
theorem bindingNames_exact :
    (∀ target : Node, ∃ found, Listed (Bound target) found ∧ target.bindingNames = found.map (·.2)) ∧
    (∀ target other : Node, Redressed target other → other.bindingNames = target.bindingNames) ∧
    ∀ d : Node, d.kind = .declaration →
      d.declaredNames.Sublist (d.declarators.flatMap (·.namesUnder "name")) ∧
        (d.HasPlainTargets → d.declaredNames = d.declarators.flatMap (·.namesUnder "name")) :=
  ⟨exists_listed, fun _ _ => Redressed.bindingNames,
    fun d _ => ⟨declaredNames_sublist d, fun hplain => (Node.boundNames_eq_declaredNames hplain).symm⟩⟩

/-- A pattern for an object: a name with a default, and under a key an array of a name and the rest. -/
def unpacking (fallback : Node) : Node where
  label := { kind := .pattern, type := "object_pattern" }
  children := [
    { label := { kind := .pattern, type := "object_assignment_pattern" }
      children := [identifier "a", fallback]
      fields := [("left", .child 0), ("right", .child 1)] },
    { label := { kind := .pattern, type := "pair_pattern" }
      children := [
        { label := { kind := .other, type := "property_identifier" } },
        { label := { kind := .pattern, type := "array_pattern" }
          children := [
            identifier "c",
            { label := { kind := .pattern, type := "rest_pattern" }, children := [identifier "d"] }] }]
      fields := [("key", .child 0), ("value", .child 1)] }]

theorem bindingNames_exact_unpacking :
    (unpacking (identifier "b")).bindingNames = ["a", "c", "d"] ∧
      Redressed (unpacking (identifier "b")) (unpacking (unpacking (identifier "e"))) ∧
      (unpacking (unpacking (identifier "e"))).bindingNames = (unpacking (identifier "b")).bindingNames ∧
      ∃ found, Listed (Bound (unpacking (identifier "b"))) found ∧
        (unpacking (identifier "b")).bindingNames = found.map (·.2) := by
  have hredressed : Redressed (unpacking (identifier "b")) (unpacking (unpacking (identifier "e"))) :=
    .inside _ _ _ [] _ rfl (.beside _ _ (unpacking (identifier "e")) "left" [identifier "a"] [] rfl rfl rfl (by decide))
  exact ⟨by decide +kernel, hredressed, bindingNames_exact.2.1 _ _ hredressed, bindingNames_exact.1 _⟩

end LetOrConst.Tree
