/-
Stores whose places go by other names. Opening a scope, declaring a name and looking it up never look at the places
that are kept, so renaming them first or last makes no difference: not to a run of operations (`run_rename`), and not
to what a name means (`resolve_rename`).
-/
import LetOrConst.Proofs.Scope.Run

namespace LetOrConst.Scope

variable {κ ν μ : Type}

/-- A binding with its places renamed. -/
def Binding.rename (f : ν → μ) (b : Binding κ ν) : Binding κ μ := ⟨b.name, b.origin, b.declarations.map f⟩

/-- A scope with its places renamed. -/
def Frame.rename (f : ν → μ) (s : Frame κ ν) : Frame κ μ :=
  ⟨s.kind, f s.place, s.parent, s.bindings.map (·.rename f), s.children⟩

/-- A store with its places renamed. -/
def Store.rename (f : ν → μ) (st : Store κ ν) : Store κ μ := ⟨st.scopes.map (·.rename f)⟩

/-- An entry with its place renamed. -/
def Entry.rename (f : ν → μ) (e : Entry κ ν) : Entry κ μ := ⟨e.name, e.origin, e.declaration.map f⟩

/-- An operation with its place renamed. -/
def Op.rename (f : ν → μ) : Op κ ν → Op κ μ
  | opened kind place parent => opened kind (f place) parent
  | declared id entry => declared id (entry.rename f)

section Compose

variable {ξ : Type} (f : ν → μ) (g : μ → ξ)

theorem Binding.rename_rename (b : Binding κ ν) : (b.rename f).rename g = b.rename (g ∘ f) := by
  simp [Binding.rename]

theorem Frame.rename_rename (s : Frame κ ν) : (s.rename f).rename g = s.rename (g ∘ f) := by
  simp [Frame.rename, Function.comp_def, Binding.rename_rename]

theorem Store.rename_rename (st : Store κ ν) : (st.rename f).rename g = st.rename (g ∘ f) := by
  simp [Store.rename, Function.comp_def, Frame.rename_rename]

theorem Binding.rename_id (b : Binding κ ν) : b.rename id = b := by
  simp [Binding.rename]

theorem Frame.rename_id (s : Frame κ ν) : s.rename id = s := by
  simp [Frame.rename, Binding.rename_id]

theorem Store.rename_id (st : Store κ ν) : st.rename id = st := by
  simp [Store.rename, Frame.rename_id]

end Compose

variable (f : ν → μ)

theorem modify_rename (scopes : List (Frame κ ν)) (id : Nat) {g : Frame κ ν → Frame κ ν} {g' : Frame κ μ → Frame κ μ}
    (h : ∀ s, g' (s.rename f) = (g s).rename f) :
    (scopes.map (·.rename f)).modify id g' = (scopes.modify id g).map (·.rename f) := by
  apply List.ext_getElem?
  intro j
  simp only [List.getElem?_map, List.getElem?_modify]
  cases scopes[j]? with
  | none => rfl
  | some s => by_cases hj : id = j <;> simp [hj, h]

variable [DecidableEq κ]

/-! ## Declaring -/

theorem bind_rename (name : κ) (origin : Origin) (declaration : Option ν) (bs : List (Binding κ ν)) :
    bind name origin (declaration.map f) (bs.map (·.rename f)) =
      (bind name origin declaration bs).map (·.rename f) := by
  have hkept : (declaration.map f).toList = declaration.toList.map f := by cases declaration <;> rfl
  induction bs with
  | nil => rw [List.map_nil, bind, bind, hkept]; rfl
  | cons b bs ih =>
    rw [List.map_cons, bind, bind, ih]
    by_cases hb : b.name = name
    · simp [hb, hkept, Binding.rename]
    · simp [hb, Binding.rename]

theorem Frame.declareAll_rename (s : Frame κ ν) (e : Entry κ ν) :
    (s.rename f).declareAll [e.rename f] = (s.declareAll [e]).rename f := by
  have hbind := bind_rename f e.name e.origin e.declaration s.bindings
  simp [Frame.declareAll, Frame.rename, Entry.rename, hbind]

theorem Op.apply_rename (st : Store κ ν) (op : Op κ ν) :
    (op.rename f).apply (st.rename f) = (op.apply st).rename f := by
  suffices hscopes : ((op.rename f).apply (st.rename f)).scopes = (op.apply st).scopes.map (·.rename f) from
    congrArg Store.mk hscopes
  have hlength : (st.rename f).scopes.length = st.scopes.length := List.length_map _
  cases op with
  | opened kind place parent =>
    cases parent with
    | none =>
      show st.scopes.map (·.rename f) ++ [_] = (st.scopes ++ [_]).map _
      rw [List.map_append]
      rfl
    | some p =>
      show (st.scopes.map (·.rename f)).modify p (·.adopt [(st.rename f).scopes.length]) ++ [_] =
        (st.scopes.modify p (·.adopt [st.scopes.length]) ++ [_]).map _
      rw [hlength, modify_rename f st.scopes p (g := (·.adopt [st.scopes.length])) fun s => rfl, List.map_append]
      rfl
  | declared id entry => exact modify_rename f st.scopes id fun s => s.declareAll_rename f entry

/-- A run on renamed places is the run with its places renamed. -/
theorem Store.run_rename (st : Store κ ν) (ops : List (Op κ ν)) :
    (st.rename f).run (ops.map (·.rename f)) = (st.run ops).rename f := by
  induction ops generalizing st with
  | nil => rfl
  | cons op ops ih => rw [List.map_cons, run_cons, run_cons, Op.apply_rename, ih]

/-! ## Looking up -/

theorem Frame.find?_rename (s : Frame κ ν) (x : κ) : (s.rename f).find? x = (s.find? x).map (·.rename f) := by
  show (s.bindings.map _).find? _ = _
  rw [List.find?_map]
  rfl

/-- A name means the same binding, with its places renamed. -/
theorem Store.resolve_rename (st : Store κ ν) (id : Nat) (x : κ) :
    (st.rename f).resolve id x = (st.resolve id x).map fun r => (r.1, r.2.rename f) := by
  induction id using Nat.strongRecOn with
  | _ id ih =>
    have hscope : (st.rename f).scopes[id]? = st.scopes[id]?.map (·.rename f) := List.getElem?_map
    rw [resolve, resolve, hscope]
    cases st.scopes[id]? with
    | none => rfl
    | some s =>
      have hparent : (s.rename f).parent = s.parent := rfl
      simp only [Option.map_some, Frame.find?_rename, hparent]
      cases s.find? x with
      | some b => rfl
      | none =>
        cases s.parent with
        | none => rfl
        | some p =>
          by_cases hp : p < id
          · simp [hp, ih p hp]
          · simp [hp]

end LetOrConst.Scope
