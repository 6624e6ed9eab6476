/-
The store as an environment. A run starts with one root scope and then opens scopes inside scopes
that are there and declares names in scopes that are there (`Proper`). Every scope but the root then
stands inside one opened before it (`Rooted`), which each operation keeps, so the way outwards is
finite and ends in the root (`Rooted.outwards`). What a name means and where a `var` comes to rest
is said along this way, and so is what one more operation can change.
-/
import LetOrConst.Proofs.Scope.Run
import Mathlib.Logic.Basic
import Mathlib.Tactic.ByContra

namespace LetOrConst.Scope

variable {κ ν : Type}

/-- Over `count` scopes, every operation of a run is on a scope that is there by then, and no second
root is opened. -/
def Proper : Nat → List (Op κ ν) → Prop
  | _, [] => True
  | count, .opened _ _ parent :: rest => (∃ p, parent = some p ∧ p < count) ∧ Proper (count + 1) rest
  | count, .declared id _ :: rest => id < count ∧ Proper count rest

theorem Proper.bounded {count : Nat} {ops : List (Op κ ν)} (h : Proper count ops) : Bounded count ops := by
  induction ops generalizing count with
  | nil => trivial
  | cons op ops ih =>
    cases op with
    | opened kind place parent => exact ih h.2
    | declared id e => exact ⟨h.1, ih h.2⟩

theorem lt_of_declared {count id : Nat} {e : Entry κ ν} {ops : List (Op κ ν)} (h : Bounded count ops)
    (he : .declared id e ∈ ops) : id < count + (framesOf ops).length := by
  obtain ⟨before, after, rfl⟩ := List.append_of_mem he
  have hid := (bounded_append.1 h).2.1
  rw [framesOf_append, List.length_append]
  omega

theorem bindings_framesOf {ops : List (Op κ ν)} {f : Frame κ ν} (h : f ∈ framesOf ops) : f.bindings = [] := by
  induction ops with
  | nil => cases h
  | cons op ops ih =>
    cases op with
    | opened kind place parent =>
      rcases List.mem_cons.1 h with rfl | h
      · rfl
      · exact ih h
    | declared id e => exact ih h

/-! ## The way outwards -/

/-- A way by the parents, from a scope to one without a parent. -/
inductive Store.Outwards (st : Store κ ν) : Nat → List Nat → Prop where
  | top {id : Nat} (there : id < st.scopes.length) (outermost : st.parent? id = none) : Outwards st id [id]
  | up {id p : Nat} {way : List Nat} (inside : st.parent? id = some p) (rest : Outwards st p way) :
      Outwards st id (id :: way)

/-- The first scope is the root and every other stands inside one that was opened before it. -/
structure Rooted (st : Store κ ν) : Prop where
  root : ∃ s, st.scopes[0]? = some s ∧ s.parent = none
  inside : ∀ id s, st.scopes[id]? = some s → 0 < id → ∃ p, s.parent = some p ∧ p < id

theorem rooted_openRoot (kind : Kind) (place : ν) : Rooted (({} : Store κ ν).openRoot kind place).1 := by
  refine ⟨⟨_, rfl, rfl⟩, ?_⟩
  intro id s hs hpos
  have hlt := (List.getElem?_eq_some_iff.1 hs).1
  simp [Store.openRoot] at hlt
  omega

theorem Store.mem_chain {st : Store κ ν} {id : Nat} {c : Nat × Frame κ ν} (h : c ∈ st.chain id) :
    st.scopes[c.1]? = some c.2 := by
  induction id using Nat.strongRecOn with
  | _ id ih =>
    cases hs : st.scopes[id]? with
    | none => rw [chain_none hs] at h; cases h
    | some s =>
      rw [chain_some hs] at h
      rcases List.mem_cons.1 h with rfl | h
      · exact hs
      · split at h
        · cases h
        · split at h
          · exact ih _ ‹_› h
          · cases h

theorem Store.chain_ne_nil {st : Store κ ν} {id : Nat} (h : id < st.scopes.length) : st.chain id ≠ [] := by
  rw [chain_some (List.getElem?_eq_getElem h)]
  exact List.cons_ne_nil _ _

/-- Up to a scope, its chain depends on the scopes up to it only; a change that keeps their parents is a
change along the chain. -/
theorem Store.chain_map {st st' : Store κ ν} (g : Nat → Frame κ ν → Frame κ ν) (hg : ∀ i f, (g i f).parent = f.parent)
    {id : Nat} (h : ∀ i ≤ id, st'.scopes[i]? = st.scopes[i]?.map (g i)) :
    st'.chain id = (st.chain id).map fun c => (c.1, g c.1 c.2) := by
  induction id using Nat.strongRecOn with
  | _ id ih =>
    have hid := h id (Nat.le_refl id)
    cases hs : st.scopes[id]? with
    | none =>
      rw [hs] at hid
      rw [chain_none hid, chain_none hs, List.map_nil]
    | some s =>
      rw [hs] at hid
      rw [chain_some hid, chain_some hs, List.map_cons, hg]
      congr 1
      cases s.parent with
      | none => rfl
      | some p =>
        by_cases hlt : p < id
        · have hp := ih p hlt fun i hi => h i (by omega)
          simp only [hlt, if_true, hp]
        · simp only [hlt, if_false, List.map_nil]

/-- The chain that the searches go along is the way outwards, and it ends in the root. -/
theorem Rooted.outwards {st : Store κ ν} (h : Rooted st) {id : Nat} (hid : id < st.scopes.length) :
    st.Outwards id ((st.chain id).map (·.1)) ∧ ((st.chain id).map (·.1)).getLast? = some 0 := by
  induction id using Nat.strongRecOn with
  | _ id ih =>
    have hs := List.getElem?_eq_getElem hid
    have hparent : st.parent? id = st.scopes[id].parent := by rw [Store.parent?, hs]; rfl
    by_cases hpos : 0 < id
    · obtain ⟨p, hp, hlt⟩ := h.inside id _ hs hpos
      obtain ⟨hway, hlast⟩ := ih p hlt (by omega)
      rw [Store.chain_inside hs hp hlt, List.map_cons]
      refine ⟨.up (hparent.trans hp) hway, ?_⟩
      rw [List.getLast?_cons, hlast]
      rfl
    · obtain ⟨s, hroot, hnone⟩ := h.root
      have hzero : id = 0 := by omega
      subst hzero
      cases hs.symm.trans hroot
      rw [Store.chain_outermost hs hnone]
      exact ⟨.top hid (hparent.trans hnone), rfl⟩

/-- The first on a way that has a property. -/
def Nearest (P : Nat → Prop) (way : List Nat) (t : Nat) : Prop :=
  ∃ inner outer, way = inner ++ t :: outer ∧ P t ∧ ∀ u ∈ inner, ¬ P u

/-- Whether a scope belongs to a function or a program. -/
def Store.Hosts (st : Store κ ν) (id : Nat) : Prop :=
  ∃ s, st.scopes[id]? = some s ∧ (s.kind = .function ∨ s.kind = .program)

theorem hostsVars_iff {kind : Kind} : kind.hostsVars = true ↔ kind = .function ∨ kind = .program := by
  cases kind <;> decide

theorem Store.hosts_iff {st : Store κ ν} {id : Nat} {c : Nat × Frame κ ν} (h : c ∈ st.chain id) :
    st.Hosts c.1 ↔ c.2.kind.hostsVars = true := by
  rw [hostsVars_iff, Hosts, mem_chain h]
  simp

/-- A `var` comes to rest in the nearest host of the chain, and in its last scope when there is none. -/
theorem Store.host_nearest (st : Store κ ν) {id : Nat} (hid : id < st.scopes.length) :
    Nearest st.Hosts ((st.chain id).map (·.1)) (st.host id) ∨
      (∀ u ∈ (st.chain id).map (·.1), ¬ st.Hosts u) ∧ ((st.chain id).map (·.1)).getLast? = some (st.host id) := by
  have hhost := st.host_eq id
  rw [outline, List.find?_map, List.getLast?_map] at hhost
  cases hfind : (st.chain id).find? (fun c => c.2.kind.hostsVars) with
  | some c =>
    have heq : st.host id = c.1 := hhost.trans (by simp only [Function.comp_def, hfind]; rfl)
    obtain ⟨hc, inner, outer, hsplit, hinner⟩ := List.find?_eq_some_iff_append.1 hfind
    left
    rw [heq]
    refine ⟨inner.map (·.1), outer.map (·.1), by simp [hsplit], ?_, ?_⟩
    · exact (hosts_iff (List.mem_of_find?_eq_some hfind)).2 hc
    · intro u hu
      obtain ⟨d, hd, rfl⟩ := List.mem_map.1 hu
      have hd' : d ∈ st.chain id := by simp [hsplit, hd]
      rw [hosts_iff hd']
      simpa using hinner d hd
  | none =>
    obtain ⟨c, cs, hc⟩ := List.exists_cons_of_ne_nil (chain_ne_nil hid)
    have hlast : (st.chain id).getLast? = some ((c :: cs).getLast (List.cons_ne_nil c cs)) := by
      rw [hc, List.getLast?_eq_some_getLast]
    have heq : st.host id = ((c :: cs).getLast (List.cons_ne_nil c cs)).1 :=
      hhost.trans (by simp only [Function.comp_def, hfind, hlast]; rfl)
    right
    constructor
    · intro u hu
      obtain ⟨d, hd, rfl⟩ := List.mem_map.1 hu
      rw [hosts_iff hd]
      simpa using List.find?_eq_none.1 hfind d hd
    · rw [List.getLast?_map, hlast, heq]
      rfl

/-- A scope that is there when another is opened: it lists the new one if that is opened inside it. -/
def Frame.around (parent new : Nat) (id : Nat) (f : Frame κ ν) : Frame κ ν := if parent = id then f.adopt [new] else f

theorem Frame.around_eq (parent new id : Nat) (f : Frame κ ν) :
    (f.around parent new id).kind = f.kind ∧ (f.around parent new id).parent = f.parent ∧
      (f.around parent new id).bindings = f.bindings := by
  unfold around
  split <;> exact ⟨rfl, rfl, rfl⟩

theorem Store.getElem?_openChild {st : Store κ ν} {parent id : Nat} {kind : Kind} {place : ν}
    (hid : id < st.scopes.length) : (st.openChild parent kind place).1.scopes[id]? =
      st.scopes[id]?.map (Frame.around parent st.scopes.length id) := by
  show (st.scopes.modify parent _ ++ _)[id]? = _
  rw [List.getElem?_append_left (by rwa [List.length_modify]), List.getElem?_modify]
  rfl

theorem Store.getElem?_opened {st : Store κ ν} {parent : Nat} {kind : Kind} {place : ν} :
    (st.openChild parent kind place).1.scopes[st.scopes.length]? = some { kind, place, parent := some parent } := by
  simp [openChild]

theorem Store.chain_openChild {st : Store κ ν} {parent id : Nat} {kind : Kind} {place : ν}
    (hid : id < st.scopes.length) : (st.openChild parent kind place).1.chain id =
      (st.chain id).map fun c => (c.1, c.2.around parent st.scopes.length c.1) := by
  apply chain_map (Frame.around parent st.scopes.length) fun i f => (f.around_eq parent _ i).2.1
  intro i hi
  exact getElem?_openChild (by omega)

theorem Store.host_openChild {st : Store κ ν} {parent id : Nat} {kind : Kind} {place : ν}
    (hid : id < st.scopes.length) : (st.openChild parent kind place).1.host id = st.host id := by
  have houtline : (st.openChild parent kind place).1.outline id = st.outline id := by
    rw [outline, outline, chain_openChild hid, List.map_map]
    exact List.map_congr_left fun c _ => by rw [Function.comp_apply, (c.2.around_eq parent _ c.1).1]
  rw [host_eq, host_eq, houtline]

/-! ## What a name means -/

variable [DecidableEq κ]

/-- The binding of a name in a scope itself. -/
def Store.own? (st : Store κ ν) (id : Nat) (x : κ) : Option (Binding κ ν) := st.scopes[id]?.bind (·.find? x)

theorem Store.own?_of_mem_chain {st : Store κ ν} {id : Nat} {c : Nat × Frame κ ν} (h : c ∈ st.chain id) (x : κ) :
    st.own? c.1 x = c.2.find? x := by
  rw [own?, mem_chain h]
  rfl

theorem Store.resolve_none {st : Store κ ν} {id : Nat} {x : κ} (h : st.resolve id x = none) :
    ∀ u ∈ (st.chain id).map (·.1), st.own? u x = none := by
  rw [resolve_eq, List.findSome?_eq_none_iff] at h
  intro u hu
  obtain ⟨c, hc, rfl⟩ := List.mem_map.1 hu
  rw [own?_of_mem_chain hc]
  simpa using h c hc

theorem Store.resolve_some {st : Store κ ν} {id t : Nat} {x : κ} {b : Binding κ ν} (h : st.resolve id x = some (t, b)) :
    Nearest (fun u => st.own? u x ≠ none) ((st.chain id).map (·.1)) t ∧ st.own? t x = some b := by
  rw [resolve_eq, List.findSome?_eq_some_iff] at h
  obtain ⟨inner, c, outer, hsplit, hc, hinner⟩ := h
  obtain ⟨b', hb, hpair⟩ := Option.map_eq_some_iff.1 hc
  cases hpair
  have hmem : ∀ d ∈ inner ++ [c], d ∈ st.chain id := by
    intro d hd
    rw [hsplit, List.append_cons]
    exact List.mem_append_left _ hd
  have hown : st.own? c.1 x = some b := by
    rw [own?_of_mem_chain (hmem c (by simp)), hb]
  refine ⟨⟨inner.map (·.1), outer.map (·.1), by simp [hsplit], by simp [hown], ?_⟩, hown⟩
  intro u hu
  obtain ⟨d, hd, rfl⟩ := List.mem_map.1 hu
  simp only [own?_of_mem_chain (hmem d (by simp [hd])), ne_eq, not_not]
  simpa using hinner d hd

/-! ## One more operation -/

theorem Op.apply_rooted {st : Store κ ν} (h : Rooted st) {op : Op κ ν} (hop : Proper st.scopes.length [op]) :
    Rooted (op.apply st) := by
  obtain ⟨s, hs, hnone⟩ := h.root
  cases op with
  | opened kind place parent =>
    obtain ⟨⟨p, rfl, hp⟩, -⟩ := hop
    have hold : ∀ id < st.scopes.length, ((Op.opened kind place (some p)).apply st).scopes[id]? =
        st.scopes[id]?.map (Frame.around p st.scopes.length id) := fun id hid => Store.getElem?_openChild hid
    have hparent : ∀ (id : Nat) (f : Frame κ ν), (f.around p st.scopes.length id).parent = f.parent := fun id f =>
      (f.around_eq p _ id).2.1
    refine ⟨⟨s.around p st.scopes.length 0, ?_, (hparent 0 s).trans hnone⟩, ?_⟩
    · rw [hold 0 (by omega), hs]
      rfl
    · intro id f hf hpos
      have hlt : id < st.scopes.length + 1 :=
        Op.length_opened st kind place (some p) ▸ (List.getElem?_eq_some_iff.1 hf).1
      by_cases hid : id < st.scopes.length
      · rw [hold id hid] at hf
        obtain ⟨g, hg, rfl⟩ := Option.map_eq_some_iff.1 hf
        rw [hparent]
        exact h.inside id g hg hpos
      · -- the only scope beyond the old ones is the new one
        have hnew : id = st.scopes.length := by omega
        subst hnew
        cases Store.getElem?_opened.symm.trans hf
        exact ⟨p, rfl, hp⟩
  | declared j e =>
    have hget : ∀ id : Nat, ((Op.declared j e).apply st).scopes[id]? =
        (fun f => if j = id then f.declareAll [e] else f) <$> st.scopes[id]? := fun id => by
      rw [Op.apply_declared, List.getElem?_modify]
    refine ⟨?_, ?_⟩
    · rw [hget, hs]
      refine ⟨_, rfl, ?_⟩
      split <;> exact hnone
    · intro id f hf hpos
      rw [hget] at hf
      obtain ⟨g, hg, rfl⟩ := Option.map_eq_some_iff.1 hf
      obtain ⟨p, hp, hlt⟩ := h.inside id g hg hpos
      refine ⟨p, ?_, hlt⟩
      split <;> exact hp

/-- Every operation keeps the scopes under one root, and so does a run. -/
theorem Rooted.run {st : Store κ ν} (h : Rooted st) {ops : List (Op κ ν)} (hops : Proper st.scopes.length ops) :
    Rooted (st.run ops) := by
  induction ops generalizing st with
  | nil => exact h
  | cons op ops ih =>
    cases op with
    | opened kind place parent =>
      refine ih (Op.apply_rooted h ⟨hops.1, trivial⟩) ?_
      rw [Op.length_opened]
      exact hops.2
    | declared j e =>
      refine ih (Op.apply_rooted h ⟨hops.1, trivial⟩) ?_
      rw [Op.apply_declared, List.length_modify]
      exact hops.2

section OpenChild

variable {st : Store κ ν} {parent : Nat} {kind : Kind} {place : ν}

theorem Store.resolve_openChild {id : Nat} (hid : id < st.scopes.length) (x : κ) :
    (st.openChild parent kind place).1.resolve id x = st.resolve id x := by
  rw [resolve_eq, resolve_eq, chain_openChild hid, List.findSome?_map]
  refine congrArg (List.findSome? · _) (funext fun c => ?_)
  rw [Function.comp_apply, Frame.find?, (c.2.around_eq parent _ c.1).2.2]
  rfl

/-- A new scope has no names of its own, so every name means in it what it means around it. -/
theorem Store.resolve_opened (hp : parent < st.scopes.length) (x : κ) :
    (st.openChild parent kind place).1.resolve (st.openChild parent kind place).2 x = st.resolve parent x := by
  show (st.openChild parent kind place).1.resolve st.scopes.length x = _
  rw [← resolve_openChild hp, resolve_eq, chain_inside getElem?_opened rfl hp, List.findSome?_cons, resolve_eq]
  rfl

end OpenChild

section Declare

variable {st : Store κ ν} {id : Nat} {x : κ} {origin : Origin} {declaration : Option ν}

theorem Store.getElem?_declare (i : Nat) :
    (st.declare id x origin declaration).scopes[i]? =
      (fun f => if id = i then f.declareAll [⟨x, origin, declaration⟩] else f) <$> st.scopes[i]? := by
  rw [← List.getElem?_modify]
  rfl

/-- A declaration leaves the chains as they are, but for the bindings of the one scope. -/
theorem Store.chain_declare (i : Nat) :
    (st.declare id x origin declaration).chain i =
      (st.chain i).map fun c => (c.1, if id = c.1 then c.2.declareAll [⟨x, origin, declaration⟩] else c.2) := by
  refine chain_map (fun i f => if id = i then f.declareAll [⟨x, origin, declaration⟩] else f) (fun i f => ?_) fun i _ =>
    st.getElem?_declare i
  split <;> rfl

theorem Store.host_declare (i : Nat) : (st.declare id x origin declaration).host i = st.host i := by
  have houtline : (st.declare id x origin declaration).outline i = st.outline i := by
    rw [outline, outline, chain_declare, List.map_map]
    congr 1
    funext c
    show (c.1, Frame.kind (if id = c.1 then _ else c.2)) = _
    split <;> rfl
  rw [host_eq, host_eq, houtline]

theorem find?_declareAll_ne {f : Frame κ ν} {y : κ} (h : x ≠ y) :
    (f.declareAll [⟨x, origin, declaration⟩]).find? y = f.find? y := by
  rw [find?_declareAll, List.filter_cons_of_neg (by simpa using h), List.filter_nil]
  cases f.find? y with
  | none => rfl
  | some b => simp

/-- Two searches of a list that differ go on together, finding nothing, up to an entry that they judge
differently. -/
theorem findSome?_part {α β : Type} {f g : α → Option β} {cs : List α} (h : cs.findSome? f ≠ cs.findSome? g) :
    ∃ inner c outer, cs = inner ++ c :: outer ∧ f c ≠ g c ∧ ∀ d ∈ inner, g d = none := by
  induction cs with
  | nil => exact absurd rfl h
  | cons c cs ih =>
    rw [List.findSome?_cons, List.findSome?_cons] at h
    by_cases hc : f c = g c
    · rw [hc] at h
      cases hg : g c with
      | some b => simp [hg] at h
      | none =>
        rw [hg] at h
        obtain ⟨inner, d, outer, rfl, hd, hinner⟩ := ih h
        refine ⟨c :: inner, d, outer, rfl, hd, ?_⟩
        intro e he
        rcases List.mem_cons.1 he with rfl | he
        · exact hg
        · exact hinner e he
    · exact ⟨[], c, cs, rfl, hc, by simp⟩

/-- A declaration changes what a name means only for the name itself, in the scope or inside it, and
only where no scope on the way to it binds the name. -/
theorem Store.resolve_declare {i : Nat} {y : κ}
    (h : (st.declare id x origin declaration).resolve i y ≠ st.resolve i y) :
    y = x ∧ ∃ inner outer, (st.chain i).map (·.1) = inner ++ id :: outer ∧ ∀ u ∈ inner, st.own? u x = none := by
  rw [resolve_eq, resolve_eq, chain_declare, List.findSome?_map] at h
  obtain ⟨inner, c, outer, hsplit, hc, hinner⟩ := findSome?_part h
  simp only [Function.comp_apply] at hc
  have hid : id = c.1 := by
    by_contra hne
    simp [hne] at hc
  have hyx : y = x := by
    by_contra hne
    rw [if_pos hid, find?_declareAll_ne (Ne.symm hne)] at hc
    exact hc rfl
  subst hyx
  refine ⟨rfl, inner.map (·.1), outer.map (·.1), by simp [hsplit, hid], ?_⟩
  intro u hu
  obtain ⟨d, hd, rfl⟩ := List.mem_map.1 hu
  have hmem : d ∈ st.chain i := by simp [hsplit, hd]
  rw [own?_of_mem_chain hmem]
  simpa using hinner d hd

end Declare

/-! ## The bindings of a run -/

/-- The declarations of a name that a run makes in a scope, in their order. -/
def callsOf (id : Nat) (x : κ) (ops : List (Op κ ν)) : List (Entry κ ν) := (entriesIn id ops).filter (·.name = x)

theorem mem_callsOf {id : Nat} {x : κ} {ops : List (Op κ ν)} {e : Entry κ ν} :
    e ∈ callsOf id x ops ↔ .declared id e ∈ ops ∧ e.name = x := by
  rw [callsOf, List.mem_filter, mem_entriesIn]
  simp

variable {kind : Kind} {place : ν} {ops : List (Op κ ν)}

/-- A scope binds a name by the calls that declare it there. -/
theorem own?_run (h : Proper 1 ops) (id : Nat) (x : κ) :
    ((({} : Store κ ν).openRoot kind place).1.run ops).own? id x = bindingOf x (callsOf id x ops) := by
  have hbounded : Bounded (({} : Store κ ν).openRoot kind place).1.scopes.length ops := h.bounded
  rw [Store.own?, getElem?_run hbounded]
  cases hf : ((({} : Store κ ν).openRoot kind place).1.scopes ++ framesOf ops)[id]? with
  | none =>
    -- no call can go to a scope that is not there
    have hnone : callsOf id x ops = [] := by
      rw [List.eq_nil_iff_forall_not_mem]
      intro e he
      have hlt := lt_of_declared hbounded (mem_callsOf.1 he).1
      rw [List.getElem?_eq_none_iff, List.length_append] at hf
      omega
    rw [hnone]
    rfl
  | some f =>
    have hempty : f.bindings = [] := by
      rcases List.mem_append.1 (List.mem_of_getElem? hf) with hmem | hmem
      · rw [List.mem_singleton.1 hmem]
      · exact bindings_framesOf hmem
    have hfind : ∀ ids, (f.adopt ids).find? x = none := by
      intro ids
      show f.bindings.find? _ = none
      rw [hempty]
      rfl
    show ((f.adopt _).declareAll (entriesIn id ops)).find? x = _
    rw [find?_declareAll, hfind]
    rfl

/-! ## The environment -/

/-- What a store answers after a run, and how one more operation can change the answers. -/
structure Environment (ops : List (Op κ ν)) (st : Store κ ν) : Prop where
  /-- A scope binds a name exactly when the name was declared in it. -/
  bound : ∀ id x, st.own? id x ≠ none ↔ ∃ e, .declared id e ∈ ops ∧ e.name = x
  /-- The first declaration gives the origin, all of them give the places in their order. -/
  binding : ∀ id x b, st.own? id x = some b → b.name = x ∧
    (callsOf id x ops).head?.map (·.origin) = some b.origin ∧
    b.declarations = (callsOf id x ops).flatMap (·.declaration.toList)
  /-- From every scope a way leads to the root; a name means its nearest binding on this way, and a `var`
  comes to rest in the nearest host on it, or at its end. -/
  outwards : ∀ id < st.scopes.length, ∃ way, st.Outwards id way ∧ way.getLast? = some 0 ∧
    (∀ x, st.resolve id x = none → ∀ u ∈ way, st.own? u x = none) ∧
    (∀ x t b, st.resolve id x = some (t, b) → Nearest (fun u => st.own? u x ≠ none) way t ∧ st.own? t x = some b) ∧
    (Nearest st.Hosts way (st.host id) ∨ (∀ u ∈ way, ¬ st.Hosts u) ∧ way.getLast? = some (st.host id))
  /-- To open a scope changes nothing for those that are there, save that its parent lists it last, and names mean
  in it what they mean around it. -/
  opening : ∀ parent kind place, parent < st.scopes.length →
    (st.openChild parent kind place).2 = st.scopes.length ∧
    (∀ id < st.scopes.length, (st.openChild parent kind place).1.scopes[id]? =
        (st.scopes[id]?.map fun f => if parent = id then f.adopt [st.scopes.length] else f) ∧
      (∀ x, (st.openChild parent kind place).1.resolve id x = st.resolve id x) ∧
      (st.openChild parent kind place).1.host id = st.host id) ∧
    ∀ x, (st.openChild parent kind place).1.resolve (st.openChild parent kind place).2 x = st.resolve parent x
  /-- To declare a name moves no host, and changes what is meant by the name only, in the scope or inside it,
  where nothing on the way to the scope binds the name. -/
  declaring : ∀ id x origin declaration i y,
    (st.declare id x origin declaration).host i = st.host i ∧
    ((st.declare id x origin declaration).resolve i y ≠ st.resolve i y →
      y = x ∧ ∃ inner outer, st.Outwards i (inner ++ id :: outer) ∧ ∀ u ∈ inner, st.own? u x = none)

/-- After any run from a root of any kind, the store is an environment. -/
theorem run_environment (kind : Kind) (place : ν) (h : Proper 1 ops) :
    Environment ops ((({} : Store κ ν).openRoot kind place).1.run ops) := by
  have hown : ∀ id x, ((({} : Store κ ν).openRoot kind place).1.run ops).own? id x = bindingOf x (callsOf id x ops) :=
    own?_run h
  have hrooted : Rooted ((({} : Store κ ν).openRoot kind place).1.run ops) := (rooted_openRoot kind place).run h
  generalize (({} : Store κ ν).openRoot kind place).1.run ops = st at hown hrooted
  refine ⟨?_, ?_, ?_, ?_, ?_⟩
  · intro id x
    rw [hown]
    cases hcalls : callsOf id x ops with
    | nil =>
      refine iff_of_false (by simp [bindingOf]) ?_
      rintro ⟨e, he⟩
      rw [← mem_callsOf, hcalls] at he
      cases he
    | cons e es => exact iff_of_true (by simp [bindingOf]) ⟨e, mem_callsOf.1 (by simp [hcalls])⟩
  · intro id x b hb
    rw [hown] at hb
    cases hcalls : callsOf id x ops with
    | nil => rw [hcalls] at hb; cases hb
    | cons e es =>
      rw [hcalls] at hb
      cases hb
      exact ⟨rfl, rfl, rfl⟩
  · intro id hid
    obtain ⟨hway, hlast⟩ := hrooted.outwards hid
    exact ⟨_, hway, hlast, fun x => Store.resolve_none, fun x t b => Store.resolve_some, st.host_nearest hid⟩
  · intro parent kind place hp
    refine ⟨rfl, ?_, Store.resolve_opened hp⟩
    intro id hid
    exact ⟨Store.getElem?_openChild hid, Store.resolve_openChild hid, Store.host_openChild hid⟩
  · intro id x origin declaration i y
    refine ⟨Store.host_declare i, ?_⟩
    intro hne
    obtain ⟨hy, inner, outer, hsplit, hinner⟩ := Store.resolve_declare hne
    refine ⟨hy, inner, outer, ?_, hinner⟩
    have hi : i < st.scopes.length := by
      by_contra hout
      rw [Store.chain_none (List.getElem?_eq_none (by omega))] at hsplit
      simp at hsplit
    rw [← hsplit]
    exact (hrooted.outwards hi).1

/-- A block with a function in it, in which another block declares once more what the outer block
declares. -/
def nested : List (Op String Nat) :=
  [.opened .function 1 (some 0), .declared 0 ⟨"x", .declared .kwLet, some 7⟩, .opened .block 2 (some 1),
    .declared 2 ⟨"x", .declared .kwConst, none⟩, .declared 2 ⟨"x", .declared .kwVar, some 9⟩]

theorem run_environment_nested :
    Proper 1 nested ∧ Environment nested ((({} : Store String Nat).openRoot .block 0).1.run nested) := by
  have h : Proper 1 nested := ⟨⟨0, rfl, by decide⟩, by decide, ⟨1, rfl, by decide⟩, by decide, by decide, trivial⟩
  exact ⟨h, run_environment .block 0 h⟩

end LetOrConst.Scope
