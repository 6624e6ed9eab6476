/-
Functions confine assignments. A declaration below a function is at home in the function or in a scope
below it (`home_within`), and what is at home in a scope stands below its node (`mem_inner_of_home`). An
assignment finds a binding only in a scope around it, so one that reaches a declaration below a function
stands below the function itself (`mem_inner_of_marks`). From inside, a name that the function binds is
found no further out than in the function (`resolves_within`), and its binding holds nothing but what
stands below the function.
-/
import LetOrConst.Proofs.Advice.ByScope
import LetOrConst.Proofs.Scope.Conserve

namespace LetOrConst.Tree

/-- A site that stands below a place. -/
def Place.Covers (f : Place) (site : Scope.Site) : Prop := ∃ q ∈ f.inner, q.site = site

variable {root : Node} {d f q : Place} {s : Spot}

theorem eq_of_site_eq (hd : d ∈ root.places) (hq : q ∈ root.places) (h : d.site = q.site) : d = q :=
  eq_of_number_eq hd hq (congrArg Scope.Site.index h)

theorem mem_inner_of_within (hq : q ∈ f :: f.inner) (hd : d ∈ q.inner) : d ∈ f.inner := by
  rcases List.mem_cons.1 hq with rfl | hq
  · exact hd
  · exact mem_of_inner hq hd

theorem mem_places_of_within (hf : f ∈ root.places) (hq : q ∈ f :: f.inner) : q ∈ root.places := by
  rcases List.mem_cons.1 hq with rfl | hq
  · exact hf
  · exact mem_of_inner hf hq

/-- Going up from below a place, a search that would stop at the place ends no further up. -/
theorem find?_above_within {stops : Spot → Bool} (hd : d ∈ f.inner) (hf : stops f.toSpot = true)
    (hs : d.above.find? stops = some s) : ∃ outer, ⟨s, outer⟩ ∈ f :: f.inner := by
  obtain ⟨way, hway, hin⟩ := above_split hd
  rw [hway, List.find?_append] at hs
  cases hfind : way.find? stops with
  | none =>
    rw [hfind, Option.none_or, List.find?_cons, hf] at hs
    cases hs
    exact ⟨f.above, List.mem_cons_self⟩
  | some t =>
    rw [hfind, Option.some_or] at hs
    cases hs
    obtain ⟨xs, ys, hxs⟩ := List.append_of_mem (List.mem_of_find?_eq_some hfind)
    exact ⟨_, List.mem_cons_of_mem _ (hin xs s ys hxs).1⟩

end LetOrConst.Tree

namespace LetOrConst.Scope

open LetOrConst.Tree LetOrConst.Tree.Sample

variable {root : Node} {a d f q : Place} {s : Spot} {x : String} {b : Binding Name Site}

/-- An assignment marks a declaration: its name resolves to a binding that holds the declaration. -/
def Progress.Marks (p : Progress) (asg : Assignment) (site : Site) : Prop :=
  ∃ id r b, asg.scope = some id ∧ p.store.resolve id (some asg.name) = some (r, b) ∧ site ∈ b.declarations

/-- An assignment finds its name in the scope of a place or in one below it, in a binding all of whose
declarations stand below the place. -/
def Progress.Keeps (p : Progress) (f : Place) (asg : Assignment) : Prop :=
  ∃ id r found b, asg.scope = some id ∧ p.store.resolve id (some asg.name) = some (r, b) ∧
    p.store.scopes[r]? = some found ∧ found.find? (some asg.name) = some b ∧
    (r = f.rank ∨ f.Covers found.place) ∧ ∀ site ∈ b.declarations, f.Covers site

/-- What is kept below a place marks nothing outside it. -/
theorem Progress.Keeps.covers {p : Progress} {asg : Assignment} {site : Site} (h : p.Keeps f asg)
    (hmarks : p.Marks asg site) : f.Covers site := by
  obtain ⟨id, r, found, b, hscope, hresolve, -, -, -, hall⟩ := h
  obtain ⟨id', r', b', hscope', hresolve', hsite⟩ := hmarks
  rw [hscope] at hscope'
  cases hscope'
  have hsame := hresolve.symm.trans hresolve'
  cases hsame
  exact hall site hsite

/-! ## Homes and boundaries -/

/-- The home of a declaration is the nearest scope node of a sort that all hosts of `var` belong to. -/
theorem nearest?_of_home {c : Nat} (h : d.home? = some c) :
    ∃ (sort : Node → Bool) (s : Spot), d.nearest? sort = some s ∧ s.rank = c ∧
      (∀ n : Node, sort n = true → n.opensScope = true) ∧ ∀ n : Node, n.hostsVars = true → sort n = true := by
  unfold Place.home? at h
  split at h
  · obtain ⟨s, hs, hrank⟩ := Option.map_eq_some_iff.1 h
    exact ⟨Node.hostsVars, s, hs, hrank, fun _ => Node.opensScope_of_hostsVars, fun _ hn => hn⟩
  · obtain ⟨s, hs, hrank⟩ := Option.map_eq_some_iff.1 h
    exact ⟨Node.opensScope, s, hs, hrank, fun _ hn => hn, fun _ => Node.opensScope_of_hostsVars⟩
  · cases h

/-- What is at home in a scope stands below its node. -/
theorem mem_inner_of_home (hd : d ∈ root.places) (hq : q ∈ root.places) (ho : q.node.opensScope = true)
    (hhome : d.home? = some q.rank) : d ∈ q.inner := by
  obtain ⟨sort, s, hs, hrank, hopens, -⟩ := nearest?_of_home hhome
  obtain ⟨hsort, inner, outer, ha, -⟩ := List.find?_eq_some_iff_append.1 hs
  obtain ⟨hmem, hin⟩ := mem_of_above hd ha
  rwa [eq_of_rank_eq hmem hq (hopens _ hsort) ho hrank] at hin

/-- What stands below a function is at home in the function or below it. -/
theorem home_within (hf : f ∈ root.places) (hhosts : f.node.hostsVars = true) (hd : d ∈ f.inner)
    (hq : q ∈ root.places) (ho : q.node.opensScope = true) (hhome : d.home? = some q.rank) : q ∈ f :: f.inner := by
  obtain ⟨sort, s, hs, hrank, hopens, hall⟩ := nearest?_of_home hhome
  have hsort : sort s.node = true := by simpa using List.find?_some hs
  obtain ⟨outer, hwithin⟩ := find?_above_within hd (hall _ hhosts) hs
  rwa [eq_of_rank_eq (mem_places_of_within hf hwithin) hq (hopens _ hsort) ho hrank] at hwithin

/-- A binding of a scope holds nothing but what is at home in the scope. -/
theorem home_of_declarations (h : SoleProgram root) {outer : List Spot} (hs : ⟨s, outer⟩ ∈ root.places)
    (ho : s.node.opensScope = true) (hb : bindingOf (some x) (entriesOf root s (some x)) = some b) {site : Site}
    (hsite : site ∈ b.declarations) : ∃ d ∈ root.places, d.home? = some s.rank ∧ d.site = site := by
  have hframe := getElem?_built h hs ho
  have hall := declarations_built h hs ho hframe (some x)
  rw [find?_built h hs ho hframe, hb, Option.elim_some] at hall
  rw [hall] at hsite
  obtain ⟨d, hd, hsite⟩ := List.mem_flatMap.1 hsite
  split at hsite
  · rename_i hhome
    exact ⟨d, hd, hhome, (List.mem_replicate.1 hsite).2.symm⟩
  · cases hsite

/-! ## Assignments and boundaries -/

/-- The assignments that are noted are those of the tree. -/
theorem mem_assignments {asg : Assignment} :
    asg ∈ (Progress.after {} root.places).assignments ↔
      ∃ a ∈ root.places, ∃ x, a.node.assignedName? = some x ∧ asg = ⟨a.scope?, a.site, x⟩ := by
  show asg ∈ [] ++ root.places.filterMap Place.assignment? ↔ _
  rw [List.nil_append, List.mem_filterMap]
  constructor
  · rintro ⟨a, ha, hsome⟩
    obtain ⟨x, hx, rfl⟩ := Option.map_eq_some_iff.1 hsome
    exact ⟨a, ha, x, hx, rfl⟩
  · rintro ⟨a, ha, x, hx, rfl⟩
    exact ⟨a, ha, Option.map_eq_some_iff.2 ⟨x, hx, rfl⟩⟩

/-- An assignment that marks what stands below a function stands below it too. -/
theorem mem_inner_of_marks (h : SoleProgram root) (hf : f ∈ root.places) (hhosts : f.node.hostsVars = true)
    (hd : d ∈ f.inner) (ha : a ∈ root.places)
    (hmarks : (Progress.after {} root.places).Marks ⟨a.scope?, a.site, x⟩ d.site) : a ∈ f.inner := by
  obtain ⟨id, r, b, hscope, hresolve, hsite⟩ := hmarks
  obtain ⟨s, ⟨inner, outer, hway, ho, -, -⟩, -, hb⟩ := (resolve_eq_some_iff h ha hscope).1 hresolve
  obtain ⟨hs, hbelow⟩ := mem_of_above ha hway
  obtain ⟨e, he, hhome, hsame⟩ := home_of_declarations h hs ho hb hsite
  rw [eq_of_site_eq he (mem_of_inner hf hd) hsame] at hhome
  exact mem_inner_of_within (home_within hf hhosts hd hs ho hhome) hbelow

/-- From below a scope node that binds a name, the name means a scope no further out. -/
theorem resolves_within (hopens : f.node.opensScope = true) (hbinds : Binds root f.toSpot x) (ha : a ∈ f.inner) :
    ∃ s outer, Resolves root a x s ∧ ⟨s, outer⟩ ∈ f :: f.inner := by
  classical
  let stops : Spot → Bool := fun t => decide (t.node.opensScope = true ∧ Binds root t x)
  have hf : stops f.toSpot = true := decide_eq_true ⟨hopens, hbinds⟩
  obtain ⟨way, hway, -⟩ := above_split ha
  have hmem : f.toSpot ∈ a.above := by rw [hway]; simp
  obtain ⟨s, hs⟩ := Option.isSome_iff_exists.1 (List.find?_isSome.2 ⟨_, hmem, hf⟩)
  obtain ⟨outer, hwithin⟩ := find?_above_within ha hf hs
  obtain ⟨hstop, inner, rest, hsplit, hbefore⟩ := List.find?_eq_some_iff_append.1 hs
  obtain ⟨ho, hb⟩ := of_decide_eq_true hstop
  refine ⟨s, outer, ⟨inner, rest, hsplit, ho, hb, fun t ht hto htb => ?_⟩, hwithin⟩
  have hnot := hbefore t ht
  rw [Bool.not_eq_true', decide_eq_false_iff_not] at hnot
  exact hnot ⟨hto, htb⟩

/-- An assignment below a scope node, to a name that it binds, is kept below it. -/
theorem keeps_of_binds (h : SoleProgram root) (hf : f ∈ root.places) (ho : f.node.opensScope = true)
    (ha : a ∈ f.inner) (hx : a.node.assignedName? = some x) (hbinds : Binds root f.toSpot x) :
    (Progress.after {} root.places).Keeps f ⟨a.scope?, a.site, x⟩ := by
  have hmem := mem_of_inner hf ha
  have hscope := scope?_assignment h hmem hx
  obtain ⟨s, outer, hres, hwithin⟩ := resolves_within ho hbinds ha
  obtain ⟨-, -, -, hso, hsb, -⟩ := id hres
  have hs := mem_places_of_within hf hwithin
  obtain ⟨e, he⟩ := (binds_iff h hs hso).1 hsb
  cases hb : bindingOf (some x) (entriesOf root s (some x)) with
  | none =>
    rw [bindingOf_eq_none.1 hb] at he
    cases he
  | some b =>
    have hframe := getElem?_built h hs hso
    refine ⟨a.here, s.rank, _, b, hscope, (resolve_eq_some_iff h hmem hscope).2 ⟨s, hres, rfl, hb⟩, hframe,
      (find?_built h hs hso hframe _).trans hb, ?_, fun site hsite => ?_⟩
    · rcases List.mem_cons.1 hwithin with rfl | hin
      · exact .inl rfl
      · exact .inr ⟨_, hin, rfl⟩
    · obtain ⟨d, hd, hhome, rfl⟩ := home_of_declarations h hs hso hb hsite
      exact ⟨d, mem_inner_of_within hwithin (mem_inner_of_home hd hs hso hhome), rfl⟩

/-! ## What is assigned again -/

theorem mem_reachedBy (h : SoleProgram root) (ha : a ∈ root.places) (hx : a.node.assignedName? = some x) {site : Site} :
    site ∈ reachedBy root ⟨a.scope?, a.site, x⟩ ↔
      (Progress.after {} root.places).Marks ⟨a.scope?, a.site, x⟩ site := by
  have hscope := scope?_assignment h ha hx
  unfold reachedBy Progress.Marks
  simp only [hscope, Option.getD_some]
  show _ ∈ ((built root).resolve a.here (some x)).elim [] _ ↔
    ∃ id r b, some a.here = some id ∧ (built root).resolve id (some x) = some (r, b) ∧ _
  constructor
  · intro hsite
    cases hr : (built root).resolve a.here (some x) with
    | none => rw [hr] at hsite; cases hsite
    | some rb =>
      rw [hr] at hsite
      exact ⟨a.here, rb.1, rb.2, rfl, hr, hsite⟩
  · rintro ⟨id, r, b, hid, hr, hsite⟩
    cases hid
    rw [hr]
    exact hsite

theorem mem_reachedSites (h : SoleProgram root) {site : Site} :
    site ∈ reachedSites root ↔ ∃ asg ∈ (Progress.after {} root.places).assignments,
      (Progress.after {} root.places).Marks asg site := by
  unfold reachedSites
  simp only [List.mem_flatMap, List.mem_filterMap, mem_assignments]
  constructor
  · rintro ⟨asg, ⟨a, ha, hsome⟩, hsite⟩
    obtain ⟨x, hx, rfl⟩ := Option.map_eq_some_iff.1 hsome
    exact ⟨_, ⟨a, ha, x, hx, rfl⟩, (mem_reachedBy h ha hx).1 hsite⟩
  · rintro ⟨asg, ⟨a, ha, x, hx, rfl⟩, hmarks⟩
    exact ⟨_, ⟨a, ha, Option.map_eq_some_iff.2 ⟨x, hx, rfl⟩⟩, (mem_reachedBy h ha hx).2 hmarks⟩

/-! ## Functions -/

/-- What a function keeps apart, of the scopes of a tree and the declarations that are assigned again. -/
structure Confines (root : Node) (p : Progress) (again : List Site) (f : Place) : Prop where
  /-- The function has a scope of its own, which has bindings of the names that the function binds. -/
  scope : ∃ own, p.store.scopes[f.rank]? = some own ∧ own.kind = .function ∧ own.place = f.site ∧
    ∀ x, (own.find? (some x)).isSome = true ↔ Binds root f.toSpot x
  /-- The declarations that are assigned again are those that some assignment marks. -/
  marked : ∀ site, site ∈ again ↔ ∃ asg ∈ p.assignments, p.Marks asg site
  /-- A declaration below the function that is assigned again is marked by an assignment below it. -/
  inside : ∀ d ∈ f.inner, d.site ∈ again → ∃ asg ∈ p.assignments, f.Covers asg.site ∧ p.Marks asg d.site
  /-- No assignment outside the function marks a declaration below it. -/
  outside : ∀ asg ∈ p.assignments, ¬ f.Covers asg.site → ∀ d ∈ f.inner, ¬ p.Marks asg d.site
  /-- An assignment below the function, to a name that it binds, finds the name no further out. -/
  kept : ∀ asg ∈ p.assignments, f.Covers asg.site → Binds root f.toSpot asg.name → p.Keeps f asg
  /-- So it marks no declaration outside the function. -/
  sealed : ∀ asg ∈ p.assignments, f.Covers asg.site → Binds root f.toSpot asg.name →
    ∀ site, p.Marks asg site → f.Covers site

/-- Every function of a tree confines assignments: from outside none marks a declaration below it, and from
below it none that assigns a name of the function marks a declaration outside. -/
theorem build_confines (h : SoleProgram root) (hf : f ∈ root.places) (hk : f.node.kind = .function) :
    ∃ p again, build root = .ok p ∧ reassigned root = .ok again ∧ Confines root p again f := by
  have hhosts : f.node.hostsVars = true := by simp [Node.hostsVars, hk]
  have ho := Node.opensScope_of_hostsVars hhosts
  have hframe := getElem?_built h hf ho
  have hmarking : ∀ asg ∈ (Progress.after {} root.places).assignments, ∀ d ∈ f.inner,
      (Progress.after {} root.places).Marks asg d.site → f.Covers asg.site := by
    intro asg hasg d hd hmarks
    obtain ⟨a, ha, x, -, rfl⟩ := mem_assignments.1 hasg
    exact ⟨a, mem_inner_of_marks h hf hhosts hd ha hmarks, rfl⟩
  have hkept : ∀ asg ∈ (Progress.after {} root.places).assignments, f.Covers asg.site →
      Binds root f.toSpot asg.name → (Progress.after {} root.places).Keeps f asg := by
    intro asg hasg hcovers hbinds
    obtain ⟨a, ha, x, hx, rfl⟩ := mem_assignments.1 hasg
    obtain ⟨q, hq, hsite⟩ := hcovers
    rw [eq_of_site_eq (mem_of_inner hf hq) ha hsite] at hq
    exact keeps_of_binds h hf ho hq hx hbinds
  refine ⟨_, _, build_eq h, reassigned_eq h, ⟨_, hframe, ?_, rfl, fun x => ?_⟩, fun site => mem_reachedSites h,
    fun d hd hagain => ?_, fun asg hasg hnot d hd hmarks => hnot (hmarking asg hasg d hd hmarks), hkept,
    fun asg hasg hcovers hbinds site => (hkept asg hasg hcovers hbinds).covers⟩
  · show f.node.scopeKind = .function
    simp [Node.scopeKind, hk]
  · rw [find?_built h hf ho hframe, binds_iff h hf ho, Option.isSome_iff_ne_none, Ne, bindingOf_eq_none,
      List.eq_nil_iff_forall_not_mem, not_forall_not]
  · obtain ⟨asg, hasg, hmarks⟩ := (mem_reachedSites h).1 hagain
    exact ⟨asg, hasg, hmarking asg hasg d hd hmarks, hmarks⟩

/-- A function that assigns a `var` of its own and one of the program, and the program assigning both names. -/
def crossing : Node :=
  program [declaring .kwVar "x", declaring .kwVar "y",
    declaredFunction "f" [declaring .kwVar "x", assigning "x", assigning "y"], assigning "x"]

/-- The function has number 7, its `var` number 11. The assignments mark that one, then from inside the other
`var` of the program, and from outside the one with the name that the function binds. -/
theorem build_confines_crossing :
    SoleProgram crossing ∧ ∃ f ∈ crossing.places, f.node.kind = .function ∧ f.number = 7 ∧
      ∃ p again, build crossing = .ok p ∧ reassigned crossing = .ok again ∧ Confines crossing p again f ∧
        p.assignments.map (fun a => (a.name, a.site.index)) = [("x", 14), ("y", 16), ("x", 18)] ∧
        again.map (·.index) = [11, 4, 1] := by
  have hsole : SoleProgram crossing := ⟨rfl, by decide +kernel⟩
  have hfun : ∃ f ∈ crossing.places, f.node.kind = .function ∧ f.number = 7 := by decide +kernel
  have hassignments : (build crossing).map (fun p => p.assignments.map fun a => (a.name, a.site.index)) =
      .ok [("x", 14), ("y", 16), ("x", 18)] := by decide +kernel
  have hagain : (reassigned crossing).map (·.map (·.index)) = .ok [11, 4, 1] := by decide +kernel
  obtain ⟨f, hf, hk, hnumber⟩ := hfun
  obtain ⟨p, again, hp, ha, hconfines⟩ := build_confines hsole hf hk
  rw [hp] at hassignments
  rw [ha] at hagain
  exact ⟨hsole, f, hf, hk, hnumber, p, again, hp, ha, hconfines, Except.ok.inj hassignments, Except.ok.inj hagain⟩

end LetOrConst.Scope
