/-
Scopes and the names bound in them. The store numbers scopes in the order they are opened; a scope
opened inside another comes after it. A name is bound at most once in a scope: what is declared
again adds its declaration to the binding that is there, whose origin stays that of the first.
-/
import LetOrConst.Tree.Node

namespace LetOrConst.Scope

open LetOrConst.Tree (Keyword)

/-- What a scope belongs to. -/
inductive Kind where
  | program
  | function
  | block
  | caught
  deriving DecidableEq, Repr, Inhabited

namespace Kind

/-- The name of a scope kind in reports. -/
def name : Kind → String
  | program => "PROGRAM"
  | function => "FUNCTION"
  | block => "BLOCK"
  | caught => "CATCH"

/-- The scope kind with a given name. -/
def ofName? (s : String) : Option Kind := [program, function, block, caught].find? (·.name == s)

/-- Whether names declared with `var` come to rest in a scope of this kind. -/
def hostsVars (k : Kind) : Bool := k == function || k == program

end Kind

/-- How a name came to be bound. -/
inductive Origin where
  | declared (keyword : Keyword)
  | param
  | function
  | classDef
  | caught
  deriving DecidableEq, Repr, Inhabited

namespace Origin

/-- An origin in reports. -/
def text : Origin → String
  | declared keyword => keyword.text
  | param => "param"
  | function => "function"
  | classDef => "class"
  | caught => "catch"

/-- The origin with a given text. -/
def ofText? (s : String) : Option Origin :=
  [declared .kwVar, declared .kwLet, declared .kwConst, param, function, classDef, caught].find?
    (·.text == s)

end Origin

/-- A bound name, with the places that declared it in the order they did. -/
structure Binding (κ ν : Type) where
  name : κ
  origin : Origin
  declarations : List ν
  deriving DecidableEq, Repr

/-- A scope: the place it belongs to, the scope around it, its bindings in the order their names
were first declared, and the scopes right inside it in the order they were opened. -/
structure Frame (κ ν : Type) where
  kind : Kind
  place : ν
  parent : Option Nat
  bindings : List (Binding κ ν) := []
  children : List Nat := []
  deriving DecidableEq, Repr

/-- All scopes opened so far; a scope is named by its position. -/
structure Store (κ ν : Type) where
  scopes : List (Frame κ ν) := []
  deriving DecidableEq, Repr

variable {κ ν : Type} [DecidableEq κ]

/-- Bindings after one more declaration of `name`. -/
def bind (name : κ) (origin : Origin) (declaration : Option ν) :
    List (Binding κ ν) → List (Binding κ ν)
  | [] => [⟨name, origin, declaration.toList⟩]
  | b :: rest =>
    if b.name = name then { b with declarations := b.declarations ++ declaration.toList } :: rest
    else b :: bind name origin declaration rest

/-- The binding of a name in a scope itself. -/
def Frame.find? (s : Frame κ ν) (name : κ) : Option (Binding κ ν) :=
  s.bindings.find? (·.name = name)

/-- A scope with some more scopes inside it. -/
def Frame.adopt (s : Frame κ ν) (ids : List Nat) : Frame κ ν :=
  { s with children := s.children ++ ids }

namespace Store

/-- Opens a scope with no scope around it. -/
def openRoot (st : Store κ ν) (kind : Kind) (place : ν) : Store κ ν × Nat :=
  (⟨st.scopes ++ [{ kind, place, parent := none }]⟩, st.scopes.length)

/-- Opens a scope inside `parent`, which lists it after the scopes that are inside it already. -/
def openChild (st : Store κ ν) (parent : Nat) (kind : Kind) (place : ν) : Store κ ν × Nat :=
  let id := st.scopes.length
  (⟨st.scopes.modify parent (·.adopt [id]) ++ [{ kind, place, parent := some parent }]⟩, id)

/-- Declares a name in a scope. -/
def declare (st : Store κ ν) (id : Nat) (name : κ) (origin : Origin)
    (declaration : Option ν := none) : Store κ ν :=
  ⟨st.scopes.modify id fun s => { s with bindings := bind name origin declaration s.bindings }⟩

/-- Declares several names in a scope, one after the other. -/
def declareAll (st : Store κ ν) (id : Nat) (names : List κ) (origin : Origin)
    (declaration : Option ν := none) : Store κ ν :=
  names.foldl (fun st name => st.declare id name origin declaration) st

/-- The scope around a scope. -/
def parent? (st : Store κ ν) (id : Nat) : Option Nat := st.scopes[id]?.bind (·.parent)

/-- The scopes right inside a scope. -/
def children (st : Store κ ν) (id : Nat) : List Nat := st.scopes[id]?.elim [] (·.children)

/-- The number of scopes right inside a scope. -/
def childCount (st : Store κ ν) (id : Nat) : Nat := (st.children id).length

/-- The scope in which a `var` declared in `id` comes to rest: the nearest one around it that hosts
such names, or the outermost when none does. -/
def host (st : Store κ ν) (id : Nat) : Nat :=
  match st.scopes[id]? with
  | none => id
  | some s =>
    if s.kind.hostsVars then id
    else match s.parent with
      | none => id
      | some p => if p < id then st.host p else id
termination_by id

/-- What a name means in a scope: its binding in the nearest scope around it that has one, and the
number of that scope. -/
def resolve (st : Store κ ν) (id : Nat) (name : κ) : Option (Nat × Binding κ ν) :=
  match st.scopes[id]? with
  | none => none
  | some s =>
    match s.find? name with
    | some b => some (id, b)
    | none =>
      match s.parent with
      | none => none
      | some p => if p < id then st.resolve p name else none
termination_by id

end Store
end LetOrConst.Scope
