/-
The conversion with a register. Every node of a grammar tree has a key, and the finished nodes are kept in
one register, each under the key of the node it comes from: a node is built from what the register has for
its visible children, and its fields are those of its children that the register has. When no two nodes
share a key, the register never lacks a child that is asked for and knows no other (`buildFrom_eq`), and what
it has for the root in the end is the tree of the root (`ofGrammarKeyed_eq`).
-/
import LetOrConst.Proofs.Tree.OfGrammar
import Mathlib.Data.List.Induction
import Mathlib.Data.List.Nodup
import Mathlib.Logic.Function.Basic

namespace LetOrConst.Grammar

/-- A node where it stands: its address has the numbers of the children on the way to it, the last one
first. -/
structure Occurrence where
  address : List Nat
  node : Node

namespace Occurrence

/-- The children of a node where they stand. -/
def children (o : Occurrence) : List Occurrence := o.node.children.zipIdx.map fun c => ⟨c.2 :: o.address, c.1⟩

/-- The visible ones of the children. -/
def visible (o : Occurrence) : List Occurrence := o.children.filter (·.node.isVisible)

theorem map_node_children (o : Occurrence) : o.children.map node = o.node.children := by
  rw [children, List.map_map]
  exact List.zipIdx_map_fst 0 o.node.children

theorem map_node_visible (o : Occurrence) : o.visible.map node = o.node.visible := by
  rw [Node.visible, ← map_node_children, List.filter_map]
  rfl

theorem address_ne_nil {o c : Occurrence} (h : c ∈ o.children) : c.address ≠ [] := by
  obtain ⟨e, -, rfl⟩ := List.mem_map.1 h
  exact List.cons_ne_nil _ _

theorem nodup_children (o : Occurrence) : o.children.Nodup := by
  have hnumbers : (o.children.map fun c => c.address.headD 0) = List.range' 0 o.node.children.length := by
    rw [children, List.map_map]
    exact List.zipIdx_map_snd 0 o.node.children
  refine List.Nodup.of_map _ (?_ : (o.children.map fun c => c.address.headD 0).Nodup)
  rw [hnumbers]
  exact List.nodup_range'

theorem nodup_visible (o : Occurrence) : o.visible.Nodup := o.nodup_children.filter _

theorem sizeOf_lt_of_mem_children {o c : Occurrence} (h : c ∈ o.children) : sizeOf c.node < sizeOf o.node := by
  have hmem : c.node ∈ o.node.children := by
    rw [← map_node_children]
    exact List.mem_map_of_mem h
  exact Grammar.Node.branching.sizeOf_lt_of_mem hmem

/-- A node and all below it, each where it stands. -/
def all (o : Occurrence) : List Occurrence := o :: o.children.attach.flatMap fun ⟨c, _⟩ => c.all
termination_by sizeOf o.node
decreasing_by exact sizeOf_lt_of_mem_children (by assumption)

theorem all_eq (o : Occurrence) : o.all = o :: o.children.flatMap all := by
  rw [all]
  simp [List.flatMap_subtype]

theorem mem_all_self (o : Occurrence) : o ∈ o.all := by
  rw [all_eq]
  exact List.mem_cons_self

theorem mem_all_of_child {root o c : Occurrence} (ho : o ∈ root.all) (hc : c ∈ o.children) : c ∈ root.all := by
  induction root using all.induct with
  | case1 root ih =>
    rw [all_eq, List.mem_cons, List.mem_flatMap] at ho ⊢
    rcases ho with rfl | ⟨d, hd, ho⟩
    · exact .inr ⟨c, hc, c.mem_all_self⟩
    · exact .inr ⟨d, hd, ih d hd ho⟩

/-- Some nodes and their visible descendants in the order in which they are finished: each after those below
it. -/
def finishing : List Occurrence → List Occurrence
  | [] => []
  | o :: rest => finishing o.visible ++ o :: finishing rest
termination_by os => sizeOf (os.map node)
decreasing_by
  · rw [map_node_visible]
    exact Node.sizeOf_visible_lt_cons _ _
  · exact Branching.sizeOf_rest_lt_cons _ _

theorem subset_finishing {os : List Occurrence} {o : Occurrence} (h : o ∈ os) : o ∈ finishing os := by
  induction os with
  | nil => cases h
  | cons p os ih =>
    rw [finishing, List.mem_append, List.mem_cons]
    rcases List.mem_cons.1 h with rfl | h
    · exact .inr (.inl rfl)
    · exact .inr (.inr (ih h))

/-- A node that the conversion keeps: the root or a visible node below it. -/
structure Kept (root o : Occurrence) : Prop where
  mem : o ∈ root.all
  shown : o.address = [] ∨ o.node.isVisible = true

theorem Kept.visible {root o c : Occurrence} (h : Kept root o) (hc : c ∈ o.visible) : Kept root c := by
  obtain ⟨hmem, hvis⟩ := List.mem_filter.1 hc
  exact ⟨mem_all_of_child h.mem hmem, .inr hvis⟩

theorem kept_finishing {root : Occurrence} {os : List Occurrence} (h : ∀ o ∈ os, Kept root o) :
    ∀ o ∈ finishing os, Kept root o := by
  fun_induction finishing os with
  | case1 => exact h
  | case2 o rest ihv ihr =>
    intro p hp
    rcases List.mem_append.1 hp with hp | hp
    · exact ihv (fun c hc => (h o List.mem_cons_self).visible hc) p hp
    · rcases List.mem_cons.1 hp with rfl | hp
      · exact h p List.mem_cons_self
      · exact ihr (fun q hq => h q (List.mem_cons_of_mem o hq)) p hp

end Occurrence
end LetOrConst.Grammar

namespace LetOrConst.Tree

open LetOrConst.Grammar (Occurrence)

variable {ι : Type} (bytes : List UInt8) (key : List Nat → ι)

/-- No two nodes of a tree share a key. -/
def KeysApart (root : Occurrence) : Prop := (root.all.map fun o => key o.address).Nodup

theorem KeysApart.eq {key : List Nat → ι} {root o p : Occurrence} (h : KeysApart key root) (ho : o ∈ root.all)
    (hp : p ∈ root.all) (heq : key o.address = key p.address) : o = p :=
  List.inj_on_of_nodup_map h ho hp heq

theorem KeysApart.nodup_visible {key : List Nat → ι} {root o : Occurrence} (h : KeysApart key root)
    (ho : o ∈ root.all) : (o.visible.map fun c => key c.address).Nodup := by
  refine o.nodup_visible.map_on fun c hc d hd heq => ?_
  exact h.eq (Occurrence.mem_all_of_child ho (List.mem_filter.1 hc).1)
    (Occurrence.mem_all_of_child ho (List.mem_filter.1 hd).1) heq

variable [DecidableEq ι]

/-! ## Building from a register -/

/-- The first one of some nodes under each field. -/
def namedFirst (cs : List Occurrence) : List (String × Occurrence) :=
  firstEntries (cs.filterMap fun c => (c.node.field.filter (· ≠ "")).map (·, c))

/-- Where the node with the given key is kept, when the children and the nodes apart from them have the given
keys. -/
def slotOf (children apart : List ι) (k : ι) : Slot :=
  if k ∈ children then .child (children.idxOf k) else .apart (apart.idxOf k)

/-- In the head of a loop, a declaration of the finished node if it has the key of the target. -/
def declareTarget (head : Option (Keyword × Grammar.Point)) (target : Option ι) (k : ι) (t : Node) : Node :=
  match head with
  | some (keyword, place) => if target = some k then headDeclaration keyword place t else t
  | none => t

/-- The node for `o` out of the finished nodes in a register. There is none when the register lacks a visible
child. Under a field stands the first child there that the register has, visible or not. -/
def buildFrom (register : ι → Option Node) (o : Occurrence) : Option Node :=
  let known := o.children.filter fun c => (register (key c.address)).isSome
  let named := namedFirst known
  let keys := o.visible.map fun c => key c.address
  let strays := known.filter fun c => key c.address ∉ keys
  let declare := declareTarget (headKeyword? bytes o.node) ((named.lookup "left").map fun c => key c.address)
  (o.visible.mapM fun c => register (key c.address)).map fun finished =>
    { label := labelOf bytes o.node
      children := List.zipWith declare keys finished
      fields := named.map fun e => (e.1, slotOf keys (strays.map fun c => key c.address) (key e.2.address))
      apart := strays.filterMap fun c => (register (key c.address)).map (declare (key c.address)) }

/-- A node on the agenda, before or after its visible children have been put there. -/
def pendingOf (e : Occurrence × Bool) : Pending Grammar.Node := if e.2 then .leave e.1.node else .enter e.1.node

/-- Works off an agenda, entering each finished node into the register. -/
def fill (agenda : List (Occurrence × Bool)) (register : ι → Option Node) : Option (ι → Option Node) :=
  match agenda with
  | [] => some register
  | (o, false) :: rest => fill (o.visible.map (·, false) ++ (o, true) :: rest) register
  | (o, true) :: rest =>
    (buildFrom bytes key register o).bind fun t => fill rest (Function.update register (key o.address) (some t))
termination_by Pending.totalWeight (agenda.map pendingOf)
decreasing_by
  · have hmap : (o.visible.map (·, false) ++ (o, true) :: rest).map pendingOf =
        o.node.visible.map .enter ++ .leave o.node :: rest.map pendingOf := by
      rw [List.map_append, ← Occurrence.map_node_visible, List.map_map, List.map_map]
      rfl
    rw [hmap]
    exact Pending.totalWeight_below_lt Grammar.Node.visibly o.node (rest.map pendingOf)
  · exact Pending.totalWeight_rest_lt o.node (rest.map pendingOf)

/-- The tree of a grammar tree by way of a register that is empty at first. -/
def ofGrammarKeyed (root : Grammar.Node) : Option Node :=
  (fill bytes key [(⟨[], root⟩, false)] fun _ => none).bind fun register => register (key [])

/-! ## What the register has -/

/-- The register with the trees of some nodes in it. -/
def filed (ds : List Occurrence) : ι → Option Node :=
  ds.foldl (fun register d => Function.update register (key d.address) (some (convert bytes d.node))) fun _ => none

theorem filed_concat (ds : List Occurrence) (d : Occurrence) :
    filed bytes key (ds ++ [d]) =
      Function.update (filed bytes key ds) (key d.address) (some (convert bytes d.node)) := by
  simp [filed]

section

variable {key} {root o : Occurrence} {ds : List Occurrence} (hkeys : KeysApart key root)
include hkeys

theorem filed_of_mem (hds : ∀ d ∈ ds, d ∈ root.all) (ho : o ∈ ds) :
    filed bytes key ds (key o.address) = some (convert bytes o.node) := by
  induction ds using List.reverseRecOn with
  | nil => cases ho
  | append_singleton ds d ih =>
    rw [filed_concat, Function.update_apply]
    split
    · next heq => rw [hkeys.eq (hds o ho) (hds d (by simp)) heq]
    · next hne =>
      have hmem : o ∈ ds := by
        rcases List.mem_append.1 ho with h | h
        · exact h
        · exact absurd (congrArg (fun o => key o.address) (List.mem_singleton.1 h)) hne
      exact ih (fun d hd => hds d (List.mem_append_left _ hd)) hmem

theorem filed_of_not_mem (hds : ∀ d ∈ ds, d ∈ root.all) (hmem : o ∈ root.all) (ho : o ∉ ds) :
    filed bytes key ds (key o.address) = none := by
  induction ds using List.reverseRecOn with
  | nil => rfl
  | append_singleton ds d ih =>
    have hne : key o.address ≠ key d.address := by
      intro heq
      exact ho (by simp [hkeys.eq hmem (hds d (by simp)) heq])
    rw [filed_concat, Function.update_of_ne hne]
    exact ih (fun d hd => hds d (List.mem_append_left _ hd)) fun h => ho (List.mem_append_left _ h)

/-- Of the children of a node the register has the visible ones and no other, once those are finished. -/
theorem known_eq_visible (ho : o ∈ root.all) (hds : ∀ d ∈ ds, Occurrence.Kept root d)
    (hvisible : ∀ c ∈ o.visible, c ∈ ds) :
    (o.children.filter fun c => (filed bytes key ds (key c.address)).isSome) = o.visible := by
  unfold Occurrence.visible
  refine List.filter_congr fun c hc => ?_
  have hmem := Occurrence.mem_all_of_child ho hc
  by_cases hvis : c.node.isVisible = true
  · rw [filed_of_mem bytes hkeys (fun d hd => (hds d hd).mem) (hvisible c (List.mem_filter.2 ⟨hc, hvis⟩)), hvis]
    rfl
  · have hnot : c ∉ ds := by
      intro h
      rcases (hds c h).shown with hroot | hshown
      · exact Occurrence.address_ne_nil hc hroot
      · exact hvis hshown
    rw [filed_of_not_mem bytes hkeys (fun d hd => (hds d hd).mem) hmem hnot, Bool.eq_false_iff.2 hvis]
    rfl

end

/-! ## What is built from it -/

theorem mapM_some {α β : Type} {f : α → Option β} {g : α → β} {l : List α} (h : ∀ a ∈ l, f a = some (g a)) :
    l.mapM f = some (l.map g) := by
  induction l with
  | nil => rfl
  | cons a l ih =>
    rw [List.mapM_cons, h a List.mem_cons_self, ih fun b hb => h b (List.mem_cons_of_mem a hb)]
    rfl

theorem firstEntries_map {α β : Type} (g : α → β) (l : List (String × α)) :
    firstEntries (l.map fun e => (e.1, g e.2)) = (firstEntries l).map fun e => (e.1, g e.2) := by
  induction l with
  | nil => rfl
  | cons e l ih =>
    obtain ⟨k, v⟩ := e
    rw [List.map_cons, firstEntries, ih, List.filter_map, firstEntries, List.map_cons]
    rfl

theorem lookup_namedFirst {f : String} (hf : f ≠ "") (cs : List Occurrence) :
    (namedFirst cs).lookup f = cs.find? (·.node.field = some f) := by
  rw [namedFirst, lookup_firstEntries]
  induction cs with
  | nil => rfl
  | cons c cs ih =>
    rw [List.filterMap_cons, List.find?_cons]
    by_cases hc : c.node.field = some f
    · simp [hc, Option.filter, hf]
    · cases hfield : c.node.field.filter (· ≠ "") with
      | none => simpa [hc] using ih
      | some g =>
        have hg : f ≠ g := by
          rintro rfl
          exact hc (Option.filter_eq_some_iff.1 hfield).1
        simpa [hc, List.lookup_cons, beq_false_of_ne hg] using ih

/-- When the keys differ, the slot of a child is its number. -/
theorem slotOf_child {keys apart : List ι} (hnodup : keys.Nodup) {i : Nat} {k : ι} (h : keys[i]? = some k) :
    slotOf keys apart k = .child i := by
  obtain ⟨hi, rfl⟩ := List.getElem?_eq_some_iff.1 h
  rw [slotOf, if_pos (List.getElem_mem hi), hnodup.idxOf_getElem]

theorem fields_namedFirst {vs : List Occurrence} {keys : List ι} (hkeys : keys = vs.map fun c => key c.address)
    (hnodup : keys.Nodup) (apart : List ι) :
    (namedFirst vs).map (fun e => (e.1, slotOf keys apart (key e.2.address))) = fieldSlots (vs.map (·.node)) := by
  rw [namedFirst, ← firstEntries_map (fun c : Occurrence => slotOf keys apart (key c.address)), fieldSlots_eq,
    List.map_filterMap, List.zipIdx_map, List.filterMap_map]
  congr 1
  have hvs : vs.zipIdx.map Prod.fst = vs := List.zipIdx_map_fst 0 vs
  nth_rewrite 1 [← hvs]
  rw [List.filterMap_map]
  refine List.filterMap_congr fun e he => ?_
  have hkey : keys[e.2]? = some (key e.1.address) := by
    rw [hkeys, List.getElem?_map, List.mem_zipIdx_iff_getElem?.1 he]
    rfl
  rw [Function.comp_apply, Option.map_map, Function.comp_apply, Prod.map_fst, Prod.map_snd, fieldEntry]
  congr 1
  funext f
  rw [Function.comp_apply, slotOf_child hnodup hkey]
  rfl

/-- Nothing changes where no node has the key of the target. -/
theorem zipWith_declareTarget {head : Option (Keyword × Grammar.Point)} {target : Option ι} {cs : List Occurrence}
    (h : ∀ c ∈ cs, target ≠ some (key c.address)) :
    List.zipWith (declareTarget head target) (cs.map fun c => key c.address) (cs.map fun c => convert bytes c.node) =
      cs.map fun c => convert bytes c.node := by
  rw [List.zipWith_map, List.zipWith_self]
  refine List.map_congr_left fun c hc => ?_
  unfold declareTarget
  split
  · exact if_neg (h c hc)
  · rfl

theorem children_declareTarget {vs : List Occurrence} (hnodup : (vs.map fun c => key c.address).Nodup)
    (head : Option (Keyword × Grammar.Point)) :
    List.zipWith (declareTarget head ((vs.find? (·.node.field = some "left")).map fun c => key c.address))
        (vs.map fun c => key c.address) (vs.map fun c => convert bytes c.node) =
      recast bytes head (vs.map (·.node)) := by
  induction vs with
  | nil => rfl
  | cons v vs ih =>
    obtain ⟨hv, hvs⟩ := List.nodup_cons.1 hnodup
    rw [List.map_cons, List.map_cons, List.map_cons, List.zipWith_cons_cons, recast]
    by_cases hleft : v.node.field = some "left"
    · -- the target is the first child, and no other has its key
      have hfind : (v :: vs).find? (·.node.field = some "left") = some v := by simp [hleft]
      have hother : ∀ c ∈ vs, some (key v.address) ≠ some (key c.address) := by
        intro c hc heq
        exact hv (List.mem_map.2 ⟨c, hc, (Option.some.inj heq).symm⟩)
      rw [hfind, Option.map_some, zipWith_declareTarget bytes key hother, if_pos hleft, List.map_map]
      rcases head with _ | ⟨keyword, place⟩
      · rfl
      · simp [declareTarget]
    · have hfind : (v :: vs).find? (·.node.field = some "left") = vs.find? (·.node.field = some "left") := by
        simp [hleft]
      have hself : declareTarget head ((vs.find? (·.node.field = some "left")).map fun c => key c.address)
          (key v.address) (convert bytes v.node) = convert bytes v.node := by
        unfold declareTarget
        split
        · refine if_neg fun heq => ?_
          obtain ⟨c, hc, hkey⟩ := Option.map_eq_some_iff.1 heq
          exact hv (List.mem_map.2 ⟨c, List.mem_of_find?_eq_some hc, hkey⟩)
        · rfl
      rw [hfind, hself, ih hvs, if_neg hleft]

theorem convert_eq_record (n : Grammar.Node) :
    convert bytes n =
      { label := labelOf bytes n
        children := recast bytes (headKeyword? bytes n) n.visible
        fields := fieldSlots n.visible } := by
  rw [← children_convert, ← label_convert, convert_eq]
  rfl

/-- Once the visible children of a node are finished, the node is built from the register. -/
theorem buildFrom_eq {key : List Nat → ι} {root o : Occurrence} {ds : List Occurrence} (hkeys : KeysApart key root)
    (ho : o ∈ root.all) (hds : ∀ d ∈ ds, Occurrence.Kept root d) (hvisible : ∀ c ∈ o.visible, c ∈ ds) :
    buildFrom bytes key (filed bytes key ds) o = some (convert bytes o.node) := by
  have hnodup := hkeys.nodup_visible ho
  have hknown := known_eq_visible bytes hkeys ho hds hvisible
  have hfinished : (o.visible.mapM fun c => filed bytes key ds (key c.address)) =
      some (o.visible.map fun c => convert bytes c.node) :=
    mapM_some fun c hc => filed_of_mem bytes hkeys (fun d hd => (hds d hd).mem) (hvisible c hc)
  have hstrays : (o.visible.filter fun c => key c.address ∉ o.visible.map fun c => key c.address) = [] := by
    rw [List.filter_eq_nil_iff]
    intro c hc
    simpa using ⟨c, hc, rfl⟩
  unfold buildFrom
  dsimp only
  rw [hknown, hfinished, hstrays, lookup_namedFirst (by decide), fields_namedFirst key rfl hnodup,
    Option.map_some, children_declareTarget bytes key hnodup, Occurrence.map_node_visible,
    convert_eq_record]
  rfl

/-! ## The whole run -/

/-- What stands on the agenda to be expanded ends in the register, with its visible descendants. -/
theorem fill_expand {key : List Nat → ι} {root : Occurrence} (hkeys : KeysApart key root) {os : List Occurrence}
    (hos : ∀ o ∈ os, Occurrence.Kept root o) (rest : List (Occurrence × Bool)) {ds : List Occurrence}
    (hds : ∀ d ∈ ds, Occurrence.Kept root d) :
    fill bytes key (os.map (·, false) ++ rest) (filed bytes key ds) =
      fill bytes key rest (filed bytes key (ds ++ Occurrence.finishing os)) := by
  fun_induction Occurrence.finishing os generalizing rest ds with
  | case1 => rw [List.append_nil, List.map_nil, List.nil_append]
  | case2 o os ihv ihr =>
    have ho := hos o List.mem_cons_self
    have hbelow : ∀ c ∈ o.visible, Occurrence.Kept root c := fun c hc => ho.visible hc
    have hdone : ∀ d ∈ ds ++ Occurrence.finishing o.visible, Occurrence.Kept root d := by
      intro d hd
      rcases List.mem_append.1 hd with hd | hd
      · exact hds d hd
      · exact Occurrence.kept_finishing hbelow d hd
    -- when the agenda comes back to `o`, all its visible children are in the register
    have hbuilt := buildFrom_eq bytes hkeys ho.mem hdone fun c hc =>
      List.mem_append_right ds (Occurrence.subset_finishing hc)
    rw [List.map_cons, List.cons_append, fill, ihv hbelow _ hds, fill, hbuilt, Option.bind_some, ← filed_concat,
      ihr (fun p hp => hos p (List.mem_cons_of_mem o hp))]
    · simp
    · intro d hd
      rcases List.mem_append.1 hd with hd | hd
      · exact hdone d hd
      · rw [List.mem_singleton.1 hd]
        exact ho

/-- When no two nodes share a key, the register gives the root its tree. -/
theorem ofGrammarKeyed_eq {key : List Nat → ι} {root : Grammar.Node} (hkeys : KeysApart key ⟨[], root⟩) :
    ofGrammarKeyed bytes key root = some (ofGrammar bytes root) := by
  have hroot : ∀ o ∈ [(⟨[], root⟩ : Occurrence)], Occurrence.Kept ⟨[], root⟩ o := by
    intro o ho
    rw [List.mem_singleton.1 ho]
    exact ⟨Occurrence.mem_all_self _, .inl rfl⟩
  have hrun := fill_expand bytes hkeys hroot [] (fun d (hd : d ∈ []) => nomatch hd)
  rw [List.map_singleton, List.append_nil, List.nil_append] at hrun
  have hfiled := filed_of_mem bytes hkeys (fun d hd => (Occurrence.kept_finishing hroot d hd).mem)
    (Occurrence.subset_finishing (List.mem_singleton.2 rfl))
  unfold ofGrammarKeyed
  show (fill bytes key [(⟨[], root⟩, false)] (filed bytes key [])).bind _ = _
  rw [hrun, fill, Option.bind_some, hfiled, ofGrammar_eq]

end LetOrConst.Tree
