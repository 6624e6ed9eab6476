/-
What a run of operations makes of a store. Scopes are opened and names are declared in any order,
as long as a name is declared only in a scope that is open already (`Bounded`). Then a scope is
the frame it was opened with, the scopes opened right inside it and all that was declared in it
(`getElem?_run`); a name is bound in it by its first declaration and keeps the places of all of them
(`find?_declareAll`). Both searches outwards go along one chain of scopes, each inside the next
(`resolve_eq`, `host_eq`), and no run changes the chain of a scope that is there (`outline_run`).
-/
import LetOrConst.Scope.Store

namespace LetOrConst.Scope

variable {κ ν : Type}

/-- A declaration of a name: how it came to be, and the place that is kept of it, if any is. -/
structure Entry (κ ν : Type) where
  name : κ
  origin : Origin
  declaration : Option ν

/-- An operation on a store. -/
inductive Op (κ ν : Type) where
  | opened (kind : Kind) (place : ν) (parent : Option Nat)
  | declared (id : Nat) (entry : Entry κ ν)

/-- The frames that a run opens, as they are opened. -/
def framesOf : List (Op κ ν) → List (Frame κ ν)
  | [] => []
  | .opened kind place parent :: rest => { kind, place, parent := parent } :: framesOf rest
  | .declared _ _ :: rest => framesOf rest

/-- The entries that a run makes in a scope. -/
def entriesIn (id : Nat) : List (Op κ ν) → List (Entry κ ν)
  | [] => []
  | .opened _ _ _ :: rest => entriesIn id rest
  | .declared id' entry :: rest => if id' = id then entry :: entriesIn id rest else entriesIn id rest

/-- The scopes that a run over `count` scopes opens right inside a scope that is there by then. -/
def openedIn (id : Nat) : Nat → List (Op κ ν) → List Nat
  | _, [] => []
  | count, .opened _ _ parent :: rest =>
    if parent = some id ∧ id < count then count :: openedIn id (count + 1) rest else openedIn id (count + 1) rest
  | count, .declared _ _ :: rest => openedIn id count rest

/-- Every declaration in a run over `count` scopes goes to a scope that is open by then. -/
def Bounded : Nat → List (Op κ ν) → Prop
  | _, [] => True
  | count, .opened _ _ _ :: rest => Bounded (count + 1) rest
  | count, .declared id _ :: rest => id < count ∧ Bounded count rest

theorem framesOf_append : ∀ xs ys : List (Op κ ν), framesOf (xs ++ ys) = framesOf xs ++ framesOf ys
  | [], _ => rfl
  | .opened _ _ _ :: xs, ys => congrArg _ (framesOf_append xs ys)
  | .declared _ _ :: xs, ys => framesOf_append xs ys

/-- By the frames: the scopes inside one are the new ones that have it as their parent. -/
theorem openedIn_eq (id count : Nat) (ops : List (Op κ ν)) :
    openedIn id count ops =
      (((framesOf ops).zipIdx count).filter fun f => f.1.parent = some id ∧ id < f.2).map (·.2) := by
  induction ops generalizing count with
  | nil => rfl
  | cons op ops ih =>
    cases op with
    | opened kind place parent =>
      rw [openedIn, framesOf, List.zipIdx_cons, List.filter_cons, ih]
      by_cases h : parent = some id ∧ id < count <;> simp [h]
    | declared j e => rw [openedIn, framesOf, ih]

theorem mem_entriesIn {id : Nat} {e : Entry κ ν} {ops : List (Op κ ν)} :
    e ∈ entriesIn id ops ↔ .declared id e ∈ ops := by
  induction ops with
  | nil => simp [entriesIn]
  | cons op ops ih =>
    cases op with
    | opened kind place parent => simp [entriesIn, ih]
    | declared id' e' =>
      rw [entriesIn]
      by_cases h : id' = id
      · simp [h, ih]
      · simp [h, Ne.symm h, ih]

theorem bounded_append {count : Nat} {xs ys : List (Op κ ν)} :
    Bounded count (xs ++ ys) ↔ Bounded count xs ∧ Bounded (count + (framesOf xs).length) ys := by
  induction xs generalizing count with
  | nil => simp [Bounded, framesOf]
  | cons op xs ih =>
    cases op with
    | opened kind place parent =>
      rw [List.cons_append, Bounded, Bounded, ih, framesOf, List.length_cons, Nat.add_assoc, Nat.add_comm 1]
    | declared id entry => rw [List.cons_append, Bounded, Bounded, ih, framesOf, and_assoc]

theorem Frame.adopt_nil (f : Frame κ ν) : f.adopt [] = f := by
  rw [adopt, List.append_nil]

/-! ## The way outwards -/

/-- The scopes from one outwards, each inside the next. -/
def Store.chain (st : Store κ ν) (id : Nat) : List (Nat × Frame κ ν) :=
  match st.scopes[id]? with
  | none => []
  | some s =>
    (id, s) :: match s.parent with
      | none => []
      | some p => if p < id then st.chain p else []
termination_by id

/-- The chain of a scope, with no more than the kinds of its scopes. -/
def Store.outline (st : Store κ ν) (id : Nat) : List (Nat × Kind) :=
  (st.chain id).map fun c => (c.1, c.2.kind)

theorem Store.chain_none {st : Store κ ν} {id : Nat} (h : st.scopes[id]? = none) : st.chain id = [] := by
  rw [chain, h]

theorem Store.chain_some {st : Store κ ν} {id : Nat} {s : Frame κ ν} (h : st.scopes[id]? = some s) :
    st.chain id = (id, s) :: match s.parent with
      | none => []
      | some p => if p < id then st.chain p else [] := by
  rw [chain, h]

theorem Store.chain_outermost {st : Store κ ν} {id : Nat} {s : Frame κ ν} (h : st.scopes[id]? = some s)
    (hp : s.parent = none) : st.chain id = [(id, s)] := by
  rw [chain_some h, hp]

theorem Store.chain_inside {st : Store κ ν} {id p : Nat} {s : Frame κ ν} (h : st.scopes[id]? = some s)
    (hp : s.parent = some p) (hlt : p < id) : st.chain id = (id, s) :: st.chain p := by
  rw [chain_some h, hp]
  exact congrArg _ (if_pos hlt)

theorem Store.outline_ne_nil {st : Store κ ν} {id : Nat} (h : id < st.scopes.length) : st.outline id ≠ [] := by
  rw [outline, chain_some (List.getElem?_eq_getElem h), List.map_cons]
  exact List.cons_ne_nil _ _

theorem Store.outline_head {st : Store κ ν} {id : Nat} {x : Nat × Kind} {rest : List (Nat × Kind)}
    (h : st.outline id = x :: rest) : x.1 = id := by
  cases hs : st.scopes[id]? with
  | none =>
    rw [outline, chain_none hs] at h
    cases h
  | some s =>
    rw [outline, chain_some hs] at h
    cases h
    rfl

/-- The second scope of a chain is the parent of the first, and its own chain is what is left. -/
theorem Store.outline_parent {st : Store κ ν} {id : Nat} {x y : Nat × Kind} {rest : List (Nat × Kind)}
    (h : st.outline id = x :: y :: rest) : st.parent? id = some y.1 ∧ st.outline y.1 = y :: rest := by
  cases hs : st.scopes[id]? with
  | none =>
    rw [outline, chain_none hs] at h
    cases h
  | some s =>
    rw [outline, chain_some hs, List.map_cons, List.cons.injEq] at h
    obtain ⟨-, h⟩ := h
    cases hp : s.parent with
    | none =>
      rw [hp] at h
      cases h
    | some p =>
      by_cases hlt : p < id
      · simp only [hp, hlt, if_true] at h
        have hy : y.1 = p := outline_head h
        rw [hy, parent?, hs]
        exact ⟨hp, h⟩
      · simp only [hp, hlt, if_false] at h
        cases h

/-- A `var` comes to rest in the first scope of the chain that hosts such names, or else in the
last. -/
theorem Store.host_eq (st : Store κ ν) (id : Nat) :
    st.host id = (((st.outline id).find? (·.2.hostsVars)).or (st.outline id).getLast?).elim id (·.1) := by
  induction id using Nat.strongRecOn with
  | _ id ih =>
    rw [host]
    cases hs : st.scopes[id]? with
    | none => rw [outline, chain_none hs]; rfl
    | some s =>
      have hid : id < st.scopes.length := (List.getElem?_eq_some_iff.1 hs).1
      rw [outline, chain_some hs, List.map_cons, List.find?_cons]
      by_cases hk : s.kind.hostsVars = true
      · simp [hk]
      · cases hp : s.parent with
        | none => simp [hk, hp]
        | some p =>
          by_cases h : p < id
          · obtain ⟨c, cs, hc⟩ := List.exists_cons_of_ne_nil (st.outline_ne_nil (Nat.lt_trans h hid))
            simp only [hk, hp, h, if_true, ih p h, Bool.false_eq_true, if_false]
            rw [← outline, hc, List.getLast?_cons, List.getLast?_cons_cons, List.getLast?_cons]
            cases List.find? _ (c :: cs) <;> rfl
          · simp [hk, hp, h]

/-! ## Runs -/

variable [DecidableEq κ]

/-- The store after one operation. -/
def Op.apply (st : Store κ ν) : Op κ ν → Store κ ν
  | opened kind place none => (st.openRoot kind place).1
  | opened kind place (some parent) => (st.openChild parent kind place).1
  | declared id entry => st.declare id entry.name entry.origin entry.declaration

/-- The store after a run of operations. -/
def Store.run (st : Store κ ν) (ops : List (Op κ ν)) : Store κ ν := ops.foldl Op.apply st

@[simp] theorem Store.run_nil (st : Store κ ν) : st.run [] = st := rfl

@[simp] theorem Store.run_cons (st : Store κ ν) (op : Op κ ν) (ops : List (Op κ ν)) :
    st.run (op :: ops) = (op.apply st).run ops := rfl

theorem Store.run_append (st : Store κ ν) (xs ys : List (Op κ ν)) :
    st.run (xs ++ ys) = (st.run xs).run ys := List.foldl_append

theorem Store.declareAll_eq_run (st : Store κ ν) (id : Nat) (names : List κ) (origin : Origin)
    (declaration : Option ν) :
    st.declareAll id names origin declaration = st.run (names.map fun x => .declared id ⟨x, origin, declaration⟩) := by
  rw [Store.run, List.foldl_map]; rfl

/-- A frame after some entries were made in it. -/
def Frame.declareAll (f : Frame κ ν) (entries : List (Entry κ ν)) : Frame κ ν :=
  { f with bindings := entries.foldl (fun bs e => bind e.name e.origin e.declaration bs) f.bindings }

/-! ## The scopes after a run -/

theorem Op.length_opened (st : Store κ ν) (kind : Kind) (place : ν) (parent : Option Nat) :
    ((Op.opened kind place parent).apply st).scopes.length = st.scopes.length + 1 := by
  cases parent <;> simp [apply, Store.openRoot, Store.openChild]

/-- To open a scope adds its frame, and adds the scope to those inside its parent. -/
theorem Op.getElem?_opened (st : Store κ ν) (kind : Kind) (place : ν) (parent : Option Nat) (later : List (Frame κ ν))
    (id : Nat) :
    (((Op.opened kind place parent).apply st).scopes ++ later)[id]? =
      (st.scopes ++ { kind, place, parent := parent } :: later)[id]?.map
        (·.adopt (openedIn id st.scopes.length ([.opened kind place parent] : List (Op κ ν)))) := by
  cases parent with
  | none => simp [apply, Store.openRoot, openedIn, Frame.adopt_nil]
  | some p =>
    simp only [apply, Store.openChild, openedIn, List.append_assoc, List.singleton_append, Option.some.injEq]
    by_cases hid : id < st.scopes.length
    · rw [List.getElem?_append_left (by simpa using hid), List.getElem?_append_left hid, List.getElem?_modify]
      by_cases hp : p = id
      · simp [hp, hid]
      · simp [hp, Frame.adopt_nil]
    · -- the list of a scope that is yet to be opened stays empty
      rw [List.getElem?_append_right (by simpa using hid), List.getElem?_append_right (by omega), List.length_modify,
        if_neg (by simp [hid])]
      simp [Frame.adopt_nil]

/-- What does not look at the scopes inside a frame sees one frame more and no other change. -/
theorem Op.map_opened {β : Type} {g : Frame κ ν → β} (hg : ∀ f ids, g (f.adopt ids) = g f) (st : Store κ ν)
    (kind : Kind) (place : ν) (parent : Option Nat) :
    ((Op.opened kind place parent).apply st).scopes.map g =
      st.scopes.map g ++ [g { kind, place, parent := parent }] := by
  apply List.ext_getElem?
  intro id
  have hget := Op.getElem?_opened st kind place parent [] id
  rw [List.append_nil] at hget
  have hmap : st.scopes.map g ++ [g { kind, place, parent := parent }] =
      List.map g (st.scopes ++ [{ kind, place, parent := parent }]) := by
    simp
  rw [hmap, List.getElem?_map, List.getElem?_map, hget, Option.map_map]
  exact congrArg (Option.map · _) (funext fun f => hg f _)

theorem Op.apply_declared (st : Store κ ν) (id : Nat) (e : Entry κ ν) :
    ((Op.declared id e).apply st).scopes = st.scopes.modify id (·.declareAll [e]) := rfl

/-- A scope after a run is the frame it was opened with, the scopes opened inside it, and the entries made in
it. -/
theorem getElem?_run {st : Store κ ν} {ops : List (Op κ ν)} (h : Bounded st.scopes.length ops) (id : Nat) :
    (st.run ops).scopes[id]? =
      (st.scopes ++ framesOf ops)[id]?.map fun f =>
        (f.adopt (openedIn id st.scopes.length ops)).declareAll (entriesIn id ops) := by
  induction ops generalizing st with
  | nil => simp [Frame.declareAll, framesOf, entriesIn, openedIn, Frame.adopt_nil]
  | cons op ops ih =>
    cases op with
    | opened kind place parent =>
      have hl := Op.length_opened st kind place parent
      rw [Store.run_cons, ih (by rw [hl]; exact h), hl, Op.getElem?_opened, framesOf, entriesIn, Option.map_map]
      congr 1
      funext f
      by_cases hparent : parent = some id ∧ id < st.scopes.length <;> simp [openedIn, hparent, Frame.adopt]
    | declared j e =>
      obtain ⟨hj, h⟩ := h
      have hl := Op.apply_declared st j e
      rw [Store.run_cons, ih (by rw [hl, List.length_modify]; exact h), hl, framesOf, entriesIn, openedIn,
        List.length_modify]
      simp only [List.getElem?_append, List.length_modify]
      by_cases hid : id < st.scopes.length
      · rw [if_pos hid, if_pos hid, List.getElem?_modify]
        by_cases hji : j = id
        · simp [hji, Frame.declareAll, Frame.adopt, Function.comp_def]
        · simp [hji]
      · have hji : j ≠ id := by omega
        rw [if_neg hid, if_neg hid, if_neg hji]

theorem length_run (st : Store κ ν) (ops : List (Op κ ν)) :
    (st.run ops).scopes.length = st.scopes.length + (framesOf ops).length := by
  induction ops generalizing st with
  | nil => rfl
  | cons op ops ih =>
    cases op with
    | opened kind place parent =>
      rw [Store.run_cons, ih, Op.length_opened, framesOf, List.length_cons]
      omega
    | declared j e => rw [Store.run_cons, ih, Op.apply_declared, List.length_modify, framesOf]

/-! ## The bindings of a scope -/

/-- The binding that some entries of one name make: the first gives the origin, all of them the
places. -/
def bindingOf (name : κ) : List (Entry κ ν) → Option (Binding κ ν)
  | [] => none
  | e :: rest => some ⟨name, e.origin, (e :: rest).flatMap (·.declaration.toList)⟩

theorem find?_bind (x y : κ) (origin : Origin) (declaration : Option ν) (bs : List (Binding κ ν)) :
    (bind x origin declaration bs).find? (·.name = y) =
      if x = y then
        match bs.find? (·.name = x) with
        | some b => some { b with declarations := b.declarations ++ declaration.toList }
        | none => some ⟨x, origin, declaration.toList⟩
      else bs.find? (·.name = y) := by
  induction bs with
  | nil => by_cases h : x = y <;> simp [bind, h]
  | cons b bs ih =>
    rw [bind]
    by_cases hb : b.name = x
    · subst hb
      by_cases h : b.name = y <;> simp [h]
    · rw [if_neg hb, List.find?_cons, List.find?_cons, List.find?_cons, ih]
      by_cases hby : b.name = y
      · have hxy : x ≠ y := fun h => hb (hby.trans h.symm)
        simp [hby, hxy]
      · simp [hb, hby]

/-- What a frame says of a name after some entries: its binding extended by the entries of that
name, or the binding that these make. -/
theorem find?_declareAll (f : Frame κ ν) (entries : List (Entry κ ν)) (x : κ) :
    (f.declareAll entries).find? x =
      match f.find? x with
      | some b => some { b with declarations :=
          b.declarations ++ (entries.filter (·.name = x)).flatMap (·.declaration.toList) }
      | none => bindingOf x (entries.filter (·.name = x)) := by
  induction entries generalizing f with
  | nil => cases h : f.find? x <;> simp [Frame.declareAll, bindingOf, h]
  | cons e entries ih =>
    have hf : (f.declareAll [e]).find? x = _ := find?_bind e.name x e.origin e.declaration f.bindings
    have hs : f.declareAll (e :: entries) = (f.declareAll [e]).declareAll entries := rfl
    rw [hs, ih, hf, List.filter_cons]
    by_cases he : e.name = x
    · subst he
      simp only [Frame.find?, if_true, decide_true, List.flatMap_cons]
      cases f.bindings.find? (·.name = e.name) <;> simp [bindingOf]
    · simp [he, Frame.find?]

/-! ## Searches after a run -/

/-- A name means its binding in the first scope of the chain that has one. -/
theorem Store.resolve_eq (st : Store κ ν) (id : Nat) (x : κ) :
    st.resolve id x = (st.chain id).findSome? fun c => (c.2.find? x).map (c.1, ·) := by
  induction id using Nat.strongRecOn with
  | _ id ih =>
    rw [resolve]
    cases hs : st.scopes[id]? with
    | none => rw [chain_none hs]; rfl
    | some s =>
      rw [chain_some hs, List.findSome?_cons]
      cases hx : s.find? x with
      | some b => simp only [hx]; rfl
      | none =>
        cases hp : s.parent with
        | none => simp [hx, hp]
        | some p =>
          by_cases h : p < id
          · simp only [hx, hp, h, if_true, Option.map_none]; exact ih p h
          · simp [hx, hp, h]

/-- A run leaves the chains of the scopes that were there as they are. -/
theorem Store.outline_run {st : Store κ ν} {ops : List (Op κ ν)} (h : Bounded st.scopes.length ops) {id : Nat}
    (hid : id < st.scopes.length) : (st.run ops).outline id = st.outline id := by
  induction id using Nat.strongRecOn with
  | _ id ih =>
    have hs := List.getElem?_eq_getElem hid
    have hr := getElem?_run h id
    rw [List.getElem?_append_left hid, hs, Option.map_some] at hr
    rw [outline, outline, chain_some hs, chain_some hr, List.map_cons, List.map_cons]
    -- entries change neither the kind of a frame nor its parent
    show _ = (id, st.scopes[id].kind) :: _
    congr 1
    show List.map _ (match st.scopes[id].parent with | none => [] | some p => _) = _
    cases st.scopes[id].parent with
    | none => rfl
    | some p =>
      by_cases hp : p < id
      · simp only [hp, if_true]; exact ih p hp (Nat.lt_trans hp hid)
      · simp [hp]

end LetOrConst.Scope
