/-
Which scope node binds a name, and which one an assignment means, said of places in the tree: there
is no order of events in it and no store. Both agree with the store that is built: a scope node
binds a name exactly when some entry of the name goes to its scope (`binds_iff`), and what a name
resolves to is the nearest scope node on the way up that binds it (`resolve_eq_some_iff`).
-/
import LetOrConst.Proofs.Scope.Resolve

namespace LetOrConst.Tree

/-- A scope node binds a name. -/
inductive Binds (root : Node) (s : Spot) (x : String) : Prop where
  /-- Names declared with `let` and `const` are bound in the nearest scope node. -/
  | lexical (p : Place) (mem : p ∈ root.places) (near : p.nearest? Node.opensScope = some s)
      (kind : p.node.kind = .declaration)
      (keyword : p.node.label.keyword = some .kwLet ∨ p.node.label.keyword = some .kwConst)
      (bound : x ∈ p.node.boundNames)
  /-- So is the name of a declared class. -/
  | declaredClass (p : Place) (mem : p ∈ root.places) (near : p.nearest? Node.opensScope = some s)
      (kind : p.node.kind = .classDef) (type : p.node.type = "class_declaration")
      (target : Node) (named : p.node.child? "name" = some target) (plain : target.kind = .identifier)
      (name : target.label.name = some x)
  /-- So is the name of a declared function. -/
  | declaredFunction (p : Place) (mem : p ∈ root.places) (near : p.nearest? Node.opensScope = some s)
      (kind : p.node.kind = .function)
      (type : p.node.type = "function_declaration" ∨ p.node.type = "generator_function_declaration")
      (target : Node) (named : p.node.child? "name" = some target) (name : target.label.name = some x)
  /-- A function binds what is in its list of parameters. -/
  | parameter (kind : s.node.kind = .function) (list target : Node) (listed : s.node.child? "parameters" = some list)
      (mem : target ∈ list.children) (bound : x ∈ target.bindingNames)
  /-- A function with a single parameter and no list binds that one. -/
  | soleParameter (kind : s.node.kind = .function) (target : Node) (given : s.node.child? "parameter" = some target)
      (bound : x ∈ target.bindingNames)
  /-- A function in an expression binds its own name. -/
  | ownName (kind : s.node.kind = .function)
      (type : s.node.type = "function_expression" ∨ s.node.type = "function" ∨ s.node.type = "generator_function")
      (target : Node) (named : s.node.child? "name" = some target) (plain : target.kind = .identifier)
      (name : target.label.name = some x)
  /-- A handler binds what it catches. -/
  | caught (kind : s.node.kind = .catchClause) (target : Node) (given : s.node.child? "parameter" = some target)
      (bound : x ∈ target.bindingNames)
  /-- Names declared with `var` are bound in the nearest function or program. -/
  | hoisted (p : Place) (mem : p ∈ root.places) (near : p.nearest? Node.hostsVars = some s)
      (var : p.node.isVarDeclaration = true) (bound : x ∈ p.node.boundNames)

/-- A name at a place means what it means in the nearest scope node around the place that binds it. -/
def Resolves (root : Node) (p : Place) (x : String) (s : Spot) : Prop :=
  ∃ inner outer, p.above = inner ++ s :: outer ∧ s.node.opensScope = true ∧ Binds root s x ∧
    ∀ t ∈ inner, t.node.opensScope = true → ¬ Binds root t x

theorem Resolves.mem_places {root : Node} {p : Place} {x : String} {s : Spot} (h : Resolves root p x s)
    (hp : p ∈ root.places) : ∃ outer, ⟨s, outer⟩ ∈ root.places ∧ s.node.opensScope = true := by
  obtain ⟨inner, outer, ha, ho, -, -⟩ := h
  exact ⟨outer, (mem_of_above hp ha).1, ho⟩

namespace Node

/-- The names that a node gives to the scope around it. -/
def aroundNames (n : Node) : List String :=
  match n.kind with
  | .function => (Scope.outerName? n).join.toList
  | .classDef => (Scope.className? n).join.toList
  | .declaration => if n.label.keyword = some .kwLet ∨ n.label.keyword = some .kwConst then n.boundNames else []
  | _ => []

/-- The names that a node gives to the function or program around it. -/
def hoistedNames (n : Node) : List String := if n.isVarDeclaration then n.boundNames else []

/-- The names that a node gives to the scope it opens. -/
def ownNames (n : Node) : List String :=
  match n.kind with
  | .function => (Scope.innerName? n).join.toList ++ Scope.parameterNames n
  | .catchClause => n.namesUnder "parameter"
  | _ => []

end Node
end LetOrConst.Tree

namespace LetOrConst.Scope

open LetOrConst.Tree

variable {root : Node} {p : Place} {s : Spot} {x : String} {e : Entry Name Site}

/-! ## The scopes that entries go to -/

/-- A place other than the root has a nearest node of every sort that the root is of. -/
theorem exists_nearest (h : SoleProgram root) {prop : Node → Bool} (hroot : prop root = true) (hp : p ∈ root.places)
    (hne : p.node.kind ≠ .program) : ∃ t, p.nearest? prop = some t := by
  have habove : ⟨0, 0, root⟩ ∈ p.above := by
    rcases root_or_below hp with rfl | ha
    · exact absurd h.isProgram hne
    · exact ha
  exact Option.isSome_iff_exists.1 (List.find?_isSome.2 ⟨_, habove, hroot⟩)

theorem rank_eq_nearest_iff (h : SoleProgram root) {prop : Node → Bool}
    (hprop : ∀ n : Node, prop n = true → n.opensScope = true) (hroot : prop root = true) (hp : p ∈ root.places)
    (hne : p.node.kind ≠ .program) {outer : List Spot} (hs : ⟨s, outer⟩ ∈ root.places)
    (ho : s.node.opensScope = true) :
    s.rank = ((p.nearest? prop).map (·.rank)).getD 0 ↔ p.nearest? prop = some s := by
  obtain ⟨t, ht⟩ := exists_nearest h hroot hp hne
  have hto : t.node.opensScope = true := hprop _ (by simpa using List.find?_some ht)
  rw [ht, Option.map_some, Option.getD_some, Option.some_inj]
  constructor
  · intro hr
    exact eq_of_above_rank hp (List.mem_of_find?_eq_some ht) hto hs ho hr.symm
  · rintro rfl
    rfl

theorem rank_eq_here_iff (h : SoleProgram root) (hp : p ∈ root.places) (hne : p.node.kind ≠ .program)
    {outer : List Spot} (hs : ⟨s, outer⟩ ∈ root.places) (ho : s.node.opensScope = true) :
    s.rank = p.here ↔ p.nearest? Node.opensScope = some s :=
  rank_eq_nearest_iff h (fun _ hn => hn) h.opensScope hp hne hs ho

theorem rank_eq_host_iff (h : SoleProgram root) (hp : p ∈ root.places) (hne : p.node.kind ≠ .program)
    {outer : List Spot} (hs : ⟨s, outer⟩ ∈ root.places) (ho : s.node.opensScope = true) :
    s.rank = p.host ↔ p.nearest? Node.hostsVars = some s :=
  rank_eq_nearest_iff h (fun _ => Node.opensScope_of_hostsVars) h.hostsVars hp hne hs ho

/-! ## Binding and entries -/

theorem outerName?_eq_some {n : Node} :
    outerName? n = some (some x) ↔ (n.type = "function_declaration" ∨ n.type = "generator_function_declaration") ∧
      ∃ target, n.child? "name" = some target ∧ target.label.name = some x := by
  unfold outerName?
  split <;> simp_all

theorem innerName?_eq_some {n : Node} :
    innerName? n = some (some x) ↔
      (n.type = "function_expression" ∨ n.type = "function" ∨ n.type = "generator_function") ∧
        ∃ target, n.child? "name" = some target ∧ target.kind = .identifier ∧ target.label.name = some x := by
  unfold innerName?
  split <;> simp_all [and_assoc]

theorem className?_eq_some {n : Node} :
    className? n = some (some x) ↔ n.type = "class_declaration" ∧
      ∃ target, n.child? "name" = some target ∧ target.kind = .identifier ∧ target.label.name = some x := by
  unfold className?
  split <;> simp_all [and_assoc]

theorem mem_namesUnder {n : Node} {field : String} :
    x ∈ n.namesUnder field ↔ ∃ target, n.child? field = some target ∧ x ∈ target.bindingNames := by
  unfold Node.namesUnder
  split <;> simp_all

theorem mem_parameterNames {n : Node} :
    x ∈ parameterNames n ↔
      (∃ list, n.child? "parameters" = some list ∧ ∃ target ∈ list.children, x ∈ target.bindingNames) ∨
        ∃ target, n.child? "parameter" = some target ∧ x ∈ target.bindingNames := by
  unfold parameterNames
  rw [List.mem_append, mem_namesUnder]
  split <;> simp_all

theorem mem_aroundNames {n : Node} :
    x ∈ n.aroundNames ↔
      n.kind = .declaration ∧ (n.label.keyword = some .kwLet ∨ n.label.keyword = some .kwConst) ∧ x ∈ n.boundNames ∨
        n.kind = .classDef ∧ className? n = some (some x) ∨ n.kind = .function ∧ outerName? n = some (some x) := by
  unfold Node.aroundNames
  cases n.kind <;> simp [Option.join_eq_some_iff]

theorem mem_hoistedNames {n : Node} : x ∈ n.hoistedNames ↔ n.isVarDeclaration = true ∧ x ∈ n.boundNames := by
  unfold Node.hoistedNames
  split <;> simp_all

theorem mem_ownNames {n : Node} :
    x ∈ n.ownNames ↔
      n.kind = .function ∧ (innerName? n = some (some x) ∨ x ∈ parameterNames n) ∨
        n.kind = .catchClause ∧ x ∈ n.namesUnder "parameter" := by
  unfold Node.ownNames
  cases n.kind <;> simp [Option.join_eq_some_iff]

/-- A scope node binds its own names, those given to the scope around by the nodes whose nearest
scope node it is, and, as a host, those hoisted to it. -/
theorem binds_iff_names :
    Binds root s x ↔ x ∈ s.node.ownNames ∨
      (∃ p ∈ root.places, p.nearest? Node.opensScope = some s ∧ x ∈ p.node.aroundNames) ∨
        ∃ p ∈ root.places, p.nearest? Node.hostsVars = some s ∧ x ∈ p.node.hoistedNames := by
  simp only [mem_ownNames, mem_aroundNames, mem_hoistedNames, innerName?_eq_some, className?_eq_some,
    outerName?_eq_some, mem_namesUnder, mem_parameterNames]
  constructor
  · rintro (⟨p, hp, near, kind, keyword, bound⟩ | ⟨p, hp, near, kind, type, target, named, plain, name⟩ |
      ⟨p, hp, near, kind, type, target, named, name⟩ | ⟨kind, list, target, listed, mem, bound⟩ |
      ⟨kind, target, given, bound⟩ | ⟨kind, type, target, named, plain, name⟩ | ⟨kind, target, given, bound⟩ |
      ⟨p, hp, near, var, bound⟩)
    · exact .inr (.inl ⟨p, hp, near, .inl ⟨kind, keyword, bound⟩⟩)
    · exact .inr (.inl ⟨p, hp, near, .inr (.inl ⟨kind, type, target, named, plain, name⟩)⟩)
    · exact .inr (.inl ⟨p, hp, near, .inr (.inr ⟨kind, type, target, named, name⟩)⟩)
    · exact .inl (.inl ⟨kind, .inr (.inl ⟨list, listed, target, mem, bound⟩)⟩)
    · exact .inl (.inl ⟨kind, .inr (.inr ⟨target, given, bound⟩)⟩)
    · exact .inl (.inl ⟨kind, .inl ⟨type, target, named, plain, name⟩⟩)
    · exact .inl (.inr ⟨kind, target, given, bound⟩)
    · exact .inr (.inr ⟨p, hp, near, var, bound⟩)
  · rintro ((⟨kind, ⟨type, target, named, plain, name⟩ | ⟨list, listed, target, mem, bound⟩ | ⟨target, given, bound⟩⟩ |
      ⟨kind, target, given, bound⟩) |
      ⟨p, hp, near, ⟨kind, keyword, bound⟩ | ⟨kind, type, target, named, plain, name⟩ |
        ⟨kind, type, target, named, name⟩⟩ | ⟨p, hp, near, var, bound⟩)
    · exact .ownName kind type target named plain name
    · exact .parameter kind list target listed mem bound
    · exact .soleParameter kind target given bound
    · exact .caught kind target given bound
    · exact .lexical p hp near kind keyword bound
    · exact .declaredClass p hp near kind type target named plain name
    · exact .declaredFunction p hp near kind type target named name
    · exact .hoisted p hp near var bound

theorem exists_aroundEntries : (∃ e ∈ p.aroundEntries, e.name = some x) ↔ x ∈ p.node.aroundNames := by
  unfold Place.aroundEntries Node.aroundNames
  cases p.node.kind with
  | declaration => rcases p.node.label.keyword with _ | _ | _ | _ <;> simp
  | _ => simp [Option.join_eq_some_iff]

theorem exists_hostEntries : (∃ e ∈ p.hostEntries, e.name = some x) ↔ x ∈ p.node.hoistedNames := by
  unfold Place.hostEntries Node.hoistedNames
  split <;> simp

theorem exists_ownEntries : (∃ e ∈ p.ownEntries, e.name = some x) ↔ x ∈ p.node.ownNames := by
  unfold Place.ownEntries Node.ownNames
  cases p.node.kind <;> simp [or_and_right, exists_or, Option.join_eq_some_iff]

theorem kind_ne_program {n : Node} (hx : x ∈ n.aroundNames ∨ x ∈ n.hoistedNames) : n.kind ≠ .program := by
  rw [mem_aroundNames, mem_hoistedNames] at hx
  intro hk
  simp [hk, Node.isVarDeclaration] at hx

/-- A scope node binds a name exactly when some place makes an entry of it in its scope. -/
theorem binds_iff (h : SoleProgram root) {outer : List Spot} (hs : ⟨s, outer⟩ ∈ root.places)
    (ho : s.node.opensScope = true) : Binds root s x ↔ ∃ e, e ∈ entriesOf root s (some x) := by
  rw [binds_iff_names]
  simp only [mem_entriesOf, mem_effects]
  constructor
  · rintro (hx | ⟨p, hp, near, hx⟩ | ⟨p, hp, near, hx⟩)
    · obtain ⟨e, he, hname⟩ := exists_ownEntries (p := ⟨s, outer⟩).2 hx
      exact ⟨e, hname, ⟨s, outer⟩, hs, .inr (.inr ⟨rfl, he⟩)⟩
    · obtain ⟨e, he, hname⟩ := exists_aroundEntries.2 hx
      have hr := (rank_eq_here_iff h hp (kind_ne_program (.inl hx)) hs ho).2 near
      exact ⟨e, hname, p, hp, .inl ⟨hr, he⟩⟩
    · obtain ⟨e, he, hname⟩ := exists_hostEntries.2 hx
      have hr := (rank_eq_host_iff h hp (kind_ne_program (.inr hx)) hs ho).2 near
      exact ⟨e, hname, p, hp, .inr (.inl ⟨hr, he⟩)⟩
  · rintro ⟨e, hname, p, hp, ⟨hr, he⟩ | ⟨hr, he⟩ | ⟨hr, he⟩⟩
    · have hx := exists_aroundEntries.1 ⟨e, he, hname⟩
      exact .inr (.inl ⟨p, hp, (rank_eq_here_iff h hp (kind_ne_program (.inl hx)) hs ho).1 hr, hx⟩)
    · have hx := exists_hostEntries.1 ⟨e, he, hname⟩
      exact .inr (.inr ⟨p, hp, (rank_eq_host_iff h hp (kind_ne_program (.inr hx)) hs ho).1 hr, hx⟩)
    · -- a place with entries in its own scope is the scope node of that rank
      have hpo : p.node.opensScope = true := Place.opensScope_of_own (List.ne_nil_of_mem he)
      have hsp := eq_of_rank_eq hs hp ho hpo hr
      have hx := exists_ownEntries.1 ⟨e, he, hname⟩
      rw [← hsp] at hx
      exact .inl hx

/-! ## Resolving -/

theorem bindingOf_above (h : SoleProgram root) (hp : p ∈ root.places) (hs : s ∈ p.above)
    (ho : s.node.opensScope = true) : Binds root s x ↔ bindingOf (some x) (entriesOf root s (some x)) ≠ none := by
  obtain ⟨_, outer, ha⟩ := List.append_of_mem hs
  rw [binds_iff h (mem_of_above hp ha).1 ho, Ne, bindingOf_eq_none, List.eq_nil_iff_forall_not_mem, not_forall_not]

/-- What a name resolves to is its binding in the nearest scope node that binds it. -/
theorem resolve_eq_some_iff (h : SoleProgram root) (hp : p ∈ root.places) {c r : Nat} (hc : p.scope? = some c)
    {b : Binding Name Site} :
    (built root).resolve c (some x) = some (r, b) ↔
      ∃ s, Resolves root p x s ∧ r = s.rank ∧ bindingOf (some x) (entriesOf root s (some x)) = some b := by
  rw [resolve_built h hp hc, List.findSome?_eq_some_iff]
  constructor
  · rintro ⟨before, s, after, hfilter, hb, hbefore⟩
    -- before the scope node stand scope nodes that do not bind the name, and nodes that open no scope
    obtain ⟨inner₁, rest, ha, rfl, hrest⟩ := List.filter_eq_append_iff.1 hfilter
    obtain ⟨inner₂, outer, rfl, hskip, ho, -⟩ := List.filter_eq_cons_iff.1 hrest
    obtain ⟨b', hb, hpair⟩ := Option.map_eq_some_iff.1 hb
    cases hpair
    have hs : s ∈ p.above := by simp [ha]
    refine ⟨s, ⟨inner₁ ++ inner₂, outer, by simp [ha], ho, ?_, fun t ht hto => ?_⟩, rfl, hb⟩
    · rw [bindingOf_above h hp hs ho, hb]
      exact Option.some_ne_none _
    · rcases List.mem_append.1 ht with ht | ht
      · have htp : t ∈ p.above := by simp [ha, ht]
        have hnone := hbefore t (List.mem_filter.2 ⟨ht, hto⟩)
        rw [bindingOf_above h hp htp hto, not_not]
        exact Option.map_eq_none_iff.1 hnone
      · exact absurd hto (hskip t ht)
  · rintro ⟨s, ⟨inner, outer, ha, ho, -, hinner⟩, rfl, hb⟩
    refine ⟨inner.filter (·.node.opensScope), s, outer.filter (·.node.opensScope), ?_, by rw [hb]; rfl, fun t ht => ?_⟩
    · rw [ha, List.filter_append, List.filter_cons, if_pos ho]
    · obtain ⟨ht, hto⟩ := List.mem_filter.1 ht
      have htp : t ∈ p.above := by simp [ha, ht]
      have hnot := hinner t ht hto
      rw [bindingOf_above h hp htp hto, not_not] at hnot
      rw [hnot]
      rfl

/-! ## Remembered declarations -/

theorem declaration_of_around {site : Site} (he : e ∈ p.aroundEntries) (hd : e.declaration = some site) :
    site = p.site ∧ p.node.isVarDeclaration = false := by
  unfold Place.aroundEntries at he
  split at he
  · obtain ⟨_, -, rfl⟩ := List.mem_map.1 he
    cases hd
  · obtain ⟨_, -, rfl⟩ := List.mem_map.1 he
    cases hd
  · split at he
    · rename_i hlet
      obtain ⟨_, -, rfl⟩ := List.mem_map.1 he
      cases hd
      exact ⟨rfl, by simp [Node.isVarDeclaration, hlet]⟩
    · rename_i hconst
      obtain ⟨_, -, rfl⟩ := List.mem_map.1 he
      cases hd
      exact ⟨rfl, by simp [Node.isVarDeclaration, hconst]⟩
    · cases he
  · cases he

theorem declaration_of_host {site : Site} (he : e ∈ p.hostEntries) (hd : e.declaration = some site) :
    site = p.site := by
  unfold Place.hostEntries at he
  split at he
  · obtain ⟨_, -, rfl⟩ := List.mem_map.1 he
    cases hd
    rfl
  · cases he

theorem declaration_of_own (he : e ∈ p.ownEntries) : e.declaration = none := by
  unfold Place.ownEntries at he
  split at he
  · rcases List.mem_append.1 he with he | he
    · obtain ⟨_, -, rfl⟩ := List.mem_map.1 he
      rfl
    · obtain ⟨_, -, rfl⟩ := List.mem_map.1 he
      rfl
  · obtain ⟨_, -, rfl⟩ := List.mem_map.1 he
    rfl
  · cases he

/-- The scope of a spot remembers a `var` declaration under a name exactly when the declaration
binds the name and the spot is its host. -/
theorem remembers_iff (h : SoleProgram root) {outer : List Spot} (hs : ⟨s, outer⟩ ∈ root.places)
    (ho : s.node.opensScope = true) {d : Place} (hd : d ∈ root.places) (hvar : d.node.isVarDeclaration = true) :
    (∃ e ∈ entriesOf root s (some x), ∃ site, e.declaration = some site ∧ site.index = d.number) ↔
      x ∈ d.node.boundNames ∧ d.nearest? Node.hostsVars = some s := by
  simp only [mem_entriesOf]
  constructor
  · rintro ⟨e, ⟨hname, p, hp, he⟩, site, hsite, hindex⟩
    -- the number of the site is that of the place that made the entry
    rcases mem_effects.1 he with ⟨-, he⟩ | ⟨hr, he⟩ | ⟨-, he⟩
    · obtain ⟨rfl, hnot⟩ := declaration_of_around he hsite
      rw [eq_of_number_eq hp hd hindex, hvar] at hnot
      cases hnot
    · obtain rfl := declaration_of_host he hsite
      obtain rfl := eq_of_number_eq hp hd hindex
      have hx := exists_hostEntries.1 ⟨e, he, hname⟩
      exact ⟨(mem_hoistedNames.1 hx).2, (rank_eq_host_iff h hp (kind_ne_program (.inr hx)) hs ho).1 hr⟩
    · rw [declaration_of_own he] at hsite
      cases hsite
  · rintro ⟨hx, near⟩
    have hmem : x ∈ d.node.hoistedNames := mem_hoistedNames.2 ⟨hvar, hx⟩
    have hr := (rank_eq_host_iff h hd (kind_ne_program (.inr hmem)) hs ho).2 near
    have he : ⟨some x, .declared .kwVar, some d.site⟩ ∈ d.hostEntries := by
      unfold Place.hostEntries
      rw [if_pos hvar]
      exact List.mem_map_of_mem hx
    exact ⟨_, ⟨rfl, d, hd, mem_effects.2 (.inr (.inl ⟨hr, he⟩))⟩, d.site, rfl, rfl⟩

end LetOrConst.Scope
