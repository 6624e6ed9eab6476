/-
Where declarations end up. A store remembers the places that declared a name in the binding of the name;
nothing that a run declares is lost or kept twice (`remembered_run`), and a scope has one binding of a name
(`nodup_declareAll`). In the scopes of a tree a declaration with a keyword has one home: the nearest
function or program for `var`, the nearest scope node for `let` and `const` (`Place.home?`). All that such
a place does is to declare its names there (`effects_of_home`), and no other place is remembered
(`declaration_of_homeless`). So the declarations that a binding holds can be read off the tree
(`declarations_built`), and a binding made by a parameter, by a handler or by `var` is found in a scope of the right
kind only (`origin_built`).
-/
import LetOrConst.Proofs.Scope.Nesting
import Mathlib.Data.List.Perm.Basic

namespace LetOrConst.Scope

/-! ## What a store remembers -/

section Remembered

variable {κ ν : Type}

/-- The places that the bindings of a scope hold, each with the name it is held under. -/
def Frame.remembered (f : Frame κ ν) : List (κ × ν) := f.bindings.flatMap fun b => b.declarations.map (b.name, ·)

/-- The places that the bindings of all scopes hold. -/
def Store.remembered (st : Store κ ν) : List (κ × ν) := st.scopes.flatMap Frame.remembered

/-- What an operation gives to be remembered. -/
def Op.given : Op κ ν → List (κ × ν)
  | opened _ _ _ => []
  | declared _ e => e.declaration.toList.map (e.name, ·)

theorem entriesIn_append (id : Nat) :
    ∀ xs ys : List (Op κ ν), entriesIn id (xs ++ ys) = entriesIn id xs ++ entriesIn id ys
  | [], _ => rfl
  | .opened _ _ _ :: xs, ys => entriesIn_append id xs ys
  | .declared _ _ :: xs, ys => by
    rw [List.cons_append, entriesIn, entriesIn, entriesIn_append id xs ys]
    split <;> rfl

theorem entriesIn_flatMap {α : Type} (id : Nat) (f : α → List (Op κ ν)) (xs : List α) :
    entriesIn id (xs.flatMap f) = xs.flatMap fun x => entriesIn id (f x) := by
  induction xs with
  | nil => rfl
  | cons x xs ih => rw [List.flatMap_cons, List.flatMap_cons, entriesIn_append, ih]

theorem entriesIn_declared (id target : Nat) (es : List (Entry κ ν)) :
    entriesIn id (es.map (.declared target)) = if target = id then es else [] := by
  induction es with
  | nil => rw [List.map_nil, entriesIn, ite_self]
  | cons e es ih =>
    rw [List.map_cons, entriesIn, ih]
    split <;> rfl

variable [DecidableEq κ]

theorem remembered_bind (x : κ) (origin : Origin) (declaration : Option ν) (bs : List (Binding κ ν)) :
    ((bind x origin declaration bs).flatMap fun b => b.declarations.map (b.name, ·)).Perm
      ((bs.flatMap fun b => b.declarations.map (b.name, ·)) ++ declaration.toList.map (x, ·)) := by
  induction bs with
  | nil => rw [bind, List.flatMap_singleton]; exact .refl _
  | cons b bs ih =>
    rw [bind]
    split
    · rename_i hb
      subst hb
      rw [List.flatMap_cons, List.flatMap_cons, List.map_append, List.append_assoc, List.append_assoc]
      exact List.perm_append_comm.append_left _
    · rw [List.flatMap_cons, List.flatMap_cons, List.append_assoc]
      exact ih.append_left _

theorem remembered_declared {st : Store κ ν} {id : Nat} (e : Entry κ ν) (h : id < st.scopes.length) :
    ((Op.declared id e).apply st).remembered.Perm (st.remembered ++ (Op.declared id e).given) := by
  have hscopes : st.scopes = st.scopes.take id ++ st.scopes[id] :: st.scopes.drop (id + 1) := by
    rw [List.getElem_cons_drop, List.take_append_drop]
  unfold Store.remembered
  rw [Op.apply_declared, List.modify_eq_take_cons_drop h]
  conv_rhs => rw [hscopes]
  rw [List.flatMap_append, List.flatMap_append, List.flatMap_cons, List.flatMap_cons, List.append_assoc]
  refine List.Perm.append_left _ ?_
  -- what is new stands at the end of its own scope, and is moved behind the scopes after that
  refine ((remembered_bind e.name e.origin e.declaration _).append_right _).trans ?_
  rw [List.append_assoc, List.append_assoc]
  exact List.perm_append_comm.append_left _

/-- A run adds what its declarations give, each once. -/
theorem remembered_run {st : Store κ ν} {ops : List (Op κ ν)} (h : Bounded st.scopes.length ops) :
    (st.run ops).remembered.Perm (st.remembered ++ ops.flatMap Op.given) := by
  induction ops generalizing st with
  | nil => rw [List.flatMap_nil, List.append_nil]; exact .refl _
  | cons op ops ih =>
    rw [Store.run_cons, List.flatMap_cons, ← List.append_assoc]
    cases op with
    | opened kind place parent =>
      have hsame : ((Op.opened kind place parent).apply st).remembered = st.remembered := by
        have hadopt : ∀ (f : Frame κ ν) ids, (f.adopt ids).remembered = f.remembered := fun f ids => rfl
        rw [Store.remembered, List.flatMap_def, Op.map_opened hadopt, List.flatten_append]
        exact List.append_nil _
      rw [Op.given, List.append_nil, ← hsame]
      exact ih (by rw [Op.length_opened]; exact h)
    | declared id e =>
      obtain ⟨hid, h⟩ := h
      exact (ih (by rw [Op.apply_declared, List.length_modify]; exact h)).trans
        ((remembered_declared e hid).append_right _)

theorem map_name_bind (x : κ) (origin : Origin) (declaration : Option ν) (bs : List (Binding κ ν)) :
    (bind x origin declaration bs).map (·.name) =
      bs.map (·.name) ++ if x ∈ bs.map (·.name) then [] else [x] := by
  induction bs with
  | nil => rfl
  | cons b bs ih =>
    rw [bind]
    by_cases hb : b.name = x
    · simp [hb]
    · simp only [hb, if_false, List.map_cons, ih, List.cons_append, List.mem_cons, Ne.symm hb, false_or]

/-- A scope binds a name once. -/
theorem nodup_declareAll {f : Frame κ ν} (h : (f.bindings.map (·.name)).Nodup) (es : List (Entry κ ν)) :
    ((f.declareAll es).bindings.map (·.name)).Nodup := by
  induction es generalizing f with
  | nil => exact h
  | cons e es ih =>
    refine ih (f := f.declareAll [e]) ?_
    show ((bind e.name e.origin e.declaration f.bindings).map (·.name)).Nodup
    rw [map_name_bind]
    split
    · rw [List.append_nil]
      exact h
    · rename_i hx
      exact h.append (List.nodup_singleton _) (List.disjoint_singleton.2 hx)

theorem find?_of_mem {f : Frame κ ν} (h : (f.bindings.map (·.name)).Nodup) {b : Binding κ ν} (hb : b ∈ f.bindings) :
    f.find? b.name = some b := by
  cases hfind : f.find? b.name with
  | none =>
    have hnot := List.find?_eq_none.1 hfind b hb
    simp at hnot
  | some c =>
    have hname : c.name = b.name := by simpa using List.find?_some hfind
    rw [List.inj_on_of_nodup_map h (List.mem_of_find?_eq_some hfind) hb hname]

end Remembered

end LetOrConst.Scope

namespace LetOrConst.Tree

/-- The scope in which a declaration binds its names: that of the nearest function or program for `var`, that
of the nearest scope node for `let` and `const`. Without a keyword there is none. -/
def Place.home? (d : Place) : Option Nat :=
  match d.node.kind, d.node.label.keyword with
  | .declaration, some .kwVar => (d.nearest? Node.hostsVars).map (·.rank)
  | .declaration, some _ => (d.nearest? Node.opensScope).map (·.rank)
  | _, _ => none

end LetOrConst.Tree

namespace LetOrConst.Scope

open LetOrConst.Tree LetOrConst.Tree.Sample

variable {root : Node} {d q : Place}

/-! ## Homes of declarations -/

theorem isSome_home? (h : SoleProgram root) (hd : d ∈ root.places) :
    d.home?.isSome = (d.node.kind == .declaration && d.node.label.keyword.isSome) := by
  by_cases hk : d.node.kind = .declaration
  · have hne : d.node.kind ≠ .program := by rw [hk]; decide
    obtain ⟨s, hs⟩ := exists_nearest h h.opensScope hd hne
    obtain ⟨t, ht⟩ := exists_nearest h h.hostsVars hd hne
    unfold Place.home?
    rcases d.node.label.keyword with _ | _ | _ | _ <;> simp [hk, hs, ht]
  · unfold Place.home?
    split
    · exact absurd ‹_› hk
    · exact absurd ‹_› hk
    · simp [hk]

/-- A declaration with a keyword does nothing but declare its names at home. -/
theorem effects_of_home {c : Nat} (hc : d.home? = some c) :
    ∃ origin, d.effects = (d.node.boundNames.map (⟨some ·, origin, some d.site⟩)).map (.declared c) := by
  unfold Place.home? at hc
  unfold Place.effects
  split at hc
  · rename_i hk hkw
    have hhost : d.host = c := by rw [Place.host, hc]; rfl
    refine ⟨.declared .kwVar, ?_⟩
    simp [Place.aroundEntries, Place.hostEntries, Place.ownEntries, Node.isVarDeclaration, Node.opensScope, hk, hkw,
      hhost]
  · -- the keyword is `let` or `const`, since `var` came before
    rename_i keyword hkw hk hvar
    have hhere : d.here = c := by rw [Place.here, Place.scope?, hc]; rfl
    refine ⟨.declared keyword, ?_⟩
    cases keyword <;>
      simp_all [Place.aroundEntries, Place.hostEntries, Place.ownEntries, Node.isVarDeclaration, Node.opensScope]
  · cases hc

/-- No other place is remembered as a declaration. -/
theorem declaration_of_homeless (h : SoleProgram root) (hd : d ∈ root.places) (hnone : d.home? = none) {id : Nat}
    {e : Entry Name Site} (he : .declared id e ∈ d.effects) : e.declaration = none := by
  have hnot := isSome_home? h hd
  rw [hnone] at hnot
  rcases mem_effects.1 he with ⟨-, he⟩ | ⟨-, he⟩ | ⟨-, he⟩
  · unfold Place.aroundEntries at he
    split at he
    · obtain ⟨_, -, rfl⟩ := List.mem_map.1 he
      rfl
    · obtain ⟨_, -, rfl⟩ := List.mem_map.1 he
      rfl
    · rename_i hk
      split at he <;> simp_all
    · cases he
  · unfold Place.hostEntries at he
    split at he
    · simp_all [Node.isVarDeclaration]
    · cases he
  · exact declaration_of_own he

theorem flatMap_given (h : SoleProgram root) (hd : d ∈ root.places) :
    d.effects.flatMap Op.given = if d.home?.isSome then d.node.boundNames.map (some ·, d.site) else [] := by
  cases hc : d.home? with
  | none =>
    refine List.flatMap_eq_nil_iff.2 fun op hop => ?_
    cases op with
    | opened kind place parent => rfl
    | declared id e => rw [Op.given, declaration_of_homeless h hd hc hop]; rfl
  | some c =>
    obtain ⟨origin, heffects⟩ := effects_of_home hc
    rw [heffects, List.flatMap_map, List.flatMap_map]
    exact List.map_eq_flatMap.symm

theorem declarations_of_names (names : List String) (origin : Origin) (site : Site) (x : Name) :
    ((names.map fun y => (⟨some y, origin, some site⟩ : Entry Name Site)).filter (·.name = x)).flatMap
      (·.declaration.toList) = List.replicate ((names.map some).count x) site := by
  induction names with
  | nil => rfl
  | cons y names ih =>
    rw [List.map_cons, List.map_cons, List.filter_cons]
    by_cases hy : some y = x
    · subst hy
      rw [if_pos (decide_eq_true rfl), List.flatMap_cons, ih, List.count_cons_self, List.replicate_succ]
      rfl
    · rw [if_neg (by simpa using hy), ih, List.count_cons_of_ne hy]

/-- What a place adds to the declarations of a name in a scope. -/
theorem declarations_effects (h : SoleProgram root) (hd : d ∈ root.places) (id : Nat) (x : Name) :
    ((entriesIn id d.effects).filter (·.name = x)).flatMap (·.declaration.toList) =
      if d.home? = some id then List.replicate ((d.node.boundNames.map some).count x) d.site else [] := by
  cases hc : d.home? with
  | none =>
    rw [if_neg (Option.some_ne_none id).symm]
    refine List.flatMap_eq_nil_iff.2 fun e he => ?_
    rw [declaration_of_homeless h hd hc (mem_entriesIn.1 (List.mem_filter.1 he).1)]
    rfl
  | some c =>
    obtain ⟨origin, heffects⟩ := effects_of_home hc
    rw [heffects, entriesIn_declared]
    by_cases hid : c = id
    · rw [if_pos hid, if_pos (congrArg some hid)]
      exact declarations_of_names _ _ _ _
    · rw [if_neg hid, if_neg fun hsome => hid (Option.some_inj.1 hsome)]
      rfl

/-- The declarations that a scope holds under a name are those at home in it, in document order, each as often
as it binds the name. -/
theorem declarations_built (h : SoleProgram root) (hq : q ∈ root.places) (ho : q.node.opensScope = true)
    {f : Frame Name Site} (hf : (built root).scopes[q.rank]? = some f) (x : Name) :
    (f.find? x).elim [] (·.declarations) = root.places.flatMap fun d =>
      if d.home? = some q.rank then List.replicate ((d.node.boundNames.map some).count x) d.site else [] := by
  have hall : (f.find? x).elim [] (·.declarations) = (entriesOf root q.toSpot x).flatMap (·.declaration.toList) := by
    rw [find?_built h hq ho hf]
    cases hb : bindingOf x (entriesOf root q.toSpot x) with
    | none => rw [bindingOf_eq_none.1 hb]; rfl
    | some b => exact declarations_of_bindingOf hb
  rw [hall, entriesOf, opsOf, entriesIn_flatMap, List.filter_flatMap, List.flatMap_assoc]
  exact List.flatMap_congr fun d hd => declarations_effects h hd q.rank x

/-! ## Kinds of scopes -/

/-- The kinds of scope in which a binding of an origin is found. -/
def Origin.fits : Origin → Kind → Bool
  | .declared .kwVar, kind => kind.hostsVars
  | .param, kind => kind == .function
  | .caught, kind => kind == .caught
  | _, _ => true

theorem fits_around {e : Entry Name Site} (he : e ∈ d.aroundEntries) (kind : Kind) : e.origin.fits kind = true := by
  unfold Place.aroundEntries at he
  split at he
  · obtain ⟨_, -, rfl⟩ := List.mem_map.1 he
    rfl
  · obtain ⟨_, -, rfl⟩ := List.mem_map.1 he
    rfl
  · split at he
    · obtain ⟨_, -, rfl⟩ := List.mem_map.1 he
      rfl
    · obtain ⟨_, -, rfl⟩ := List.mem_map.1 he
      rfl
    · cases he
  · cases he

theorem fits_host {e : Entry Name Site} (he : e ∈ d.hostEntries) {kind : Kind} (hkind : kind.hostsVars = true) :
    e.origin.fits kind = true := by
  unfold Place.hostEntries at he
  split at he
  · obtain ⟨_, -, rfl⟩ := List.mem_map.1 he
    exact hkind
  · cases he

theorem fits_own {e : Entry Name Site} (he : e ∈ d.ownEntries) : e.origin.fits d.node.scopeKind = true := by
  unfold Place.ownEntries at he
  unfold Node.scopeKind
  split at he
  · rename_i hk
    rw [hk]
    rcases List.mem_append.1 he with he | he
    · obtain ⟨_, -, rfl⟩ := List.mem_map.1 he
      rfl
    · obtain ⟨_, -, rfl⟩ := List.mem_map.1 he
      rfl
  · rename_i hk
    rw [hk]
    obtain ⟨_, -, rfl⟩ := List.mem_map.1 he
    rfl
  · cases he

theorem fits_entriesOf (h : SoleProgram root) (hq : q ∈ root.places) (ho : q.node.opensScope = true) {x : Name}
    {e : Entry Name Site} (he : e ∈ entriesOf root q.toSpot x) : e.origin.fits q.node.scopeKind = true := by
  obtain ⟨-, d, hd, he⟩ := mem_entriesOf.1 he
  rcases mem_effects.1 he with ⟨-, he⟩ | ⟨hr, he⟩ | ⟨hr, he⟩
  · exact fits_around he _
  · have hne : d.node.kind ≠ .program := by
      intro hk
      simp [Place.hostEntries, Node.isVarDeclaration, hk] at he
    have hnear := (rank_eq_host_iff h hd hne hq ho).1 hr
    refine fits_host he ?_
    rw [Node.hostsVars_scopeKind]
    simpa using List.find?_some hnear
  · -- only the scope node itself makes entries in its scope in this way
    have hdo : d.node.opensScope = true := Place.opensScope_of_own (List.ne_nil_of_mem he)
    rw [eq_of_rank_eq hq hd ho hdo hr]
    exact fits_own he

/-! ## The scopes of a tree -/

theorem exists_scopeNode (h : SoleProgram root) {id : Nat} {f : Frame Name Site}
    (hf : (built root).scopes[id]? = some f) :
    ∃ q ∈ root.places, q.node.opensScope = true ∧ q.rank = id ∧
      f = (q.frame.adopt (openedIn q.rank 0 (opsOf root))).declareAll (entriesIn q.rank (opsOf root)) := by
  have hid : id ∈ List.range (built root).scopes.length := List.mem_range.2 (List.getElem?_eq_some_iff.1 hf).1
  rw [range_built] at hid
  obtain ⟨q, hq, rfl⟩ := List.mem_map.1 hid
  obtain ⟨hq, ho⟩ := List.mem_filter.1 hq
  rw [getElem?_built h hq ho] at hf
  cases hf
  exact ⟨q, hq, ho, rfl, rfl⟩

/-- The bindings of a store are those that the declarations of a tree make, where they are at home. -/
structure Conserved (root : Node) (st : Store Name Site) : Prop where
  /-- Exactly the declarations with a keyword have a home. -/
  homes : ∀ d ∈ root.places, d.home?.isSome = (d.node.kind == .declaration && d.node.label.keyword.isSome)
  /-- A scope belongs to a scope node, binds a name once, and holds under it the declarations at home in the
  scope, in document order and as often as they bind the name. -/
  declarations : ∀ id f, st.scopes[id]? = some f →
    (∃ q ∈ root.places, q.node.opensScope = true ∧ q.rank = id ∧ f.kind = q.node.scopeKind ∧ f.place = q.site) ∧
    (f.bindings.map (·.name)).Nodup ∧
    ∀ x, (f.find? x).elim [] (·.declarations) = root.places.flatMap fun d =>
      if d.home? = some id then List.replicate ((d.node.boundNames.map some).count x) d.site else []
  /-- Over all scopes, every declaration with a keyword is held once for each name that it binds. -/
  once : st.remembered.Perm
    (root.places.flatMap fun d => if d.home?.isSome then d.node.boundNames.map (some ·, d.site) else [])
  /-- The binding that holds a declaration is that of one of its names in its home. -/
  held : ∀ id f b, st.scopes[id]? = some f → b ∈ f.bindings → ∀ d ∈ root.places, d.site ∈ b.declarations →
    d.home? = some id ∧ b.name ∈ d.node.boundNames.map some
  /-- Only functions and programs hold `var` declarations. -/
  vars : ∀ f ∈ st.scopes, ∀ b ∈ f.bindings, ∀ d ∈ root.places, d.node.isVarDeclaration = true →
    d.site ∈ b.declarations → f.kind.hostsVars = true
  /-- Bindings of `var` are in functions and programs, those of parameters in functions, and those of what is
  caught in handlers. -/
  origins : ∀ f ∈ st.scopes, ∀ b ∈ f.bindings, b.origin.fits f.kind = true

theorem held_built (h : SoleProgram root) (hq : q ∈ root.places) (ho : q.node.opensScope = true) {f : Frame Name Site}
    (hf : (built root).scopes[q.rank]? = some f) {b : Binding Name Site} (hb : f.find? b.name = some b)
    (hd : d ∈ root.places) (hmem : d.site ∈ b.declarations) :
    d.home? = some q.rank ∧ b.name ∈ d.node.boundNames.map some := by
  have hall := declarations_built h hq ho hf b.name
  rw [hb, Option.elim_some] at hall
  rw [hall] at hmem
  obtain ⟨c, hc, hmem⟩ := List.mem_flatMap.1 hmem
  split at hmem
  · rename_i hhome
    obtain ⟨hcount, hsite⟩ := List.mem_replicate.1 hmem
    -- a site has the number of its place, so no other place has it
    have hnumber : d.number = c.number := congrArg Site.index hsite
    rw [eq_of_number_eq hd hc hnumber]
    exact ⟨hhome, List.count_pos_iff.1 (Nat.pos_of_ne_zero hcount)⟩
  · cases hmem

theorem hostsVars_of_home (hd : d ∈ root.places) (hvar : d.node.isVarDeclaration = true) (hq : q ∈ root.places)
    (ho : q.node.opensScope = true) (hhome : d.home? = some q.rank) : q.node.hostsVars = true := by
  obtain ⟨hk, hkw⟩ : d.node.kind = .declaration ∧ d.node.label.keyword = some .kwVar := by
    simpa [Node.isVarDeclaration] using hvar
  rw [Place.home?, hk, hkw] at hhome
  obtain ⟨s, hs, hrank⟩ := Option.map_eq_some_iff.1 hhome
  have hsv : s.node.hostsVars = true := by simpa using List.find?_some hs
  have heq := eq_of_above_rank hd (List.mem_of_find?_eq_some hs) (Node.opensScope_of_hostsVars hsv) hq ho hrank
  rwa [heq] at hsv

/-- Building scopes keeps every declaration, once for each name and at home, and nothing else. -/
theorem build_conserves (h : SoleProgram root) : ∃ p, build root = .ok p ∧ Conserved root p.store := by
  refine ⟨_, build_eq h, ?_⟩
  show Conserved root (built root)
  have hunique : ∀ {id : Nat} {f : Frame Name Site}, (built root).scopes[id]? = some f →
      (f.bindings.map (·.name)).Nodup := by
    intro id f hf
    obtain ⟨q, -, -, -, rfl⟩ := exists_scopeNode h hf
    exact nodup_declareAll (f := q.frame.adopt _) List.nodup_nil _
  refine ⟨fun d hd => isSome_home? h hd, fun id f hf => ?_, ?_, fun id f b hf hb d hd hmem => ?_,
    fun f hf b hb d hd hvar hmem => ?_, fun f hf b hb => ?_⟩
  · obtain ⟨q, hq, ho, rfl, heq⟩ := exists_scopeNode h hf
    exact ⟨⟨q, hq, ho, rfl, by rw [heq]; rfl, by rw [heq]; rfl⟩, hunique hf, declarations_built h hq ho hf⟩
  · have hb : Bounded ({} : Store Name Site).scopes.length (opsOf root) := bounded_opsOf h
    have hrun := remembered_run hb
    rw [opsOf, List.flatMap_assoc] at hrun
    rwa [List.flatMap_congr fun d hd => flatMap_given h hd] at hrun
  · obtain ⟨q, hq, ho, rfl, -⟩ := exists_scopeNode h hf
    exact held_built h hq ho hf (find?_of_mem (hunique hf) hb) hd hmem
  · obtain ⟨id, hf⟩ := List.getElem?_of_mem hf
    obtain ⟨q, hq, ho, rfl, heq⟩ := exists_scopeNode h hf
    obtain ⟨hhome, -⟩ := held_built h hq ho hf (find?_of_mem (hunique hf) hb) hd hmem
    have hkind : f.kind = q.node.scopeKind := by rw [heq]; rfl
    rw [hkind, Node.hostsVars_scopeKind]
    exact hostsVars_of_home hd hvar hq ho hhome
  · obtain ⟨id, hf⟩ := List.getElem?_of_mem hf
    obtain ⟨q, hq, ho, rfl, heq⟩ := exists_scopeNode h hf
    have hfind := find?_built h hq ho hf b.name
    rw [find?_of_mem (hunique hf) hb] at hfind
    obtain ⟨e, he, horigin⟩ := origin_of_bindingOf hfind.symm
    have hkind : f.kind = q.node.scopeKind := by rw [heq]; rfl
    rw [hkind, ← horigin]
    exact fits_entriesOf h hq ho he

/-- Two declarations of a name with `var`, one of them in a block, and one with `let` beside it. -/
def declaringTwice : Node :=
  program [declaring .kwVar "x", block [declaring .kwVar "x", declaring .kwLet "x"]]

theorem build_conserves_twice :
    SoleProgram declaringTwice ∧ ∃ p, build declaringTwice = .ok p ∧ Conserved declaringTwice p.store ∧
      p.store.scopes.map (fun f => f.bindings.map fun b => (b.name, b.origin, b.declarations.map (·.index))) =
        [[(some "x", .declared .kwVar, [1, 5])], [(some "x", .declared .kwLet, [8])]] := by
  have hsole : SoleProgram declaringTwice := ⟨rfl, by decide +kernel⟩
  have hbindings : (build declaringTwice).map (fun p => p.store.scopes.map fun f => f.bindings.map fun b =>
      (b.name, b.origin, b.declarations.map (·.index))) =
        .ok [[(some "x", .declared .kwVar, [1, 5])], [(some "x", .declared .kwLet, [8])]] := by decide +kernel
  obtain ⟨p, hp, hconserved⟩ := build_conserves hsole
  rw [hp] at hbindings
  exact ⟨hsole, p, hp, hconserved, Except.ok.inj hbindings⟩

end LetOrConst.Scope
