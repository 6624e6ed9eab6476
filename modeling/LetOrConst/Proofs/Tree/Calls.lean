/-
The calls that a visit makes. Handlers are chosen by the kind of a node and looked up once for each kind;
the agenda decides when they run. By recursion it is said which calls come in which order (`calls`): a node
is entered, the trees below it are visited unless the answer is not to, and it is left. A visit makes these
calls and no others (`fold_logged`), whatever it has looked up before (`visit_remembering`). They are nested,
each node that stands below no declined one is entered once and left once, in document order, and what
stands below a declined one is not called at all.
-/
import LetOrConst.Proofs.Tree.Names
import LetOrConst.Proofs.Tree.Place
import LetOrConst.Proofs.Tree.Visit

namespace LetOrConst.Tree

/-- Two visitors that give the same answers keep their states in step. -/
theorem Visitor.fold_related {σ τ : Type} {v : Visitor σ} {w : Visitor τ} {R : σ → τ → Prop}
    (enter : ∀ n s t, R s t → (w.enter n t).2 = (v.enter n s).2 ∧ R (v.enter n s).1 (w.enter n t).1)
    (leave : ∀ n s t, R s t → R (v.leave n s) (w.leave n t)) {ns : List Node} {s : σ} {t : τ} (h : R s t) :
    R (v.fold ns s) (w.fold ns t) := by
  induction ns using Node.forest_induction generalizing s t with
  | nil => rwa [fold, fold]
  | cons n rest ihc ihr =>
    obtain ⟨hanswer, hentered⟩ := enter n s t h
    rw [fold, fold, hanswer]
    refine ihr (leave n _ _ ?_)
    split
    · exact ihc hentered
    · exact hentered

/-! ## Handlers -/

/-- When a handler runs. -/
inductive Moment where
  | enter
  | leave
  deriving DecidableEq

/-- A handler may change a state and give an answer. -/
abbrev Handler (σ : Type) := Node → σ → σ × Option Bool

/-- The handlers of some kinds for entering and leaving. -/
abbrev Handlers (σ : Type) := Moment → Kind → Option (Handler σ)

/-- A call during a visit: something is entered, with the answer whether to go below it, or left. -/
inductive Call (ν : Type) where
  | entered (n : ν) (goes : Bool)
  | left (n : ν)
  deriving DecidableEq

namespace Call

variable {ν μ : Type}

/-- What a call is for. -/
def subject : Call ν → ν
  | entered n _ => n
  | left n => n

/-- The same call for something else. -/
def map (f : ν → μ) : Call ν → Call μ
  | entered n goes => entered (f n) goes
  | left n => left (f n)

/-- What a call enters. -/
def entered? : Call ν → Option ν
  | entered n _ => some n
  | left _ => none

/-- What a call leaves. -/
def left? : Call ν → Option ν
  | entered _ _ => none
  | left n => some n

/-- The call of a handler with its answer: only a plain no keeps from going below. -/
def of (moment : Moment) (n : ν) (answer : Option Bool) : Call ν :=
  match moment with
  | .enter => entered n (answer != some false)
  | .leave => left n

end Call

namespace Handlers

variable {σ : Type}

/-- Runs a handler, if there is one. -/
def perform (handler : Option (Handler σ)) (n : Node) (s : σ) : σ × Option Bool :=
  match handler with
  | some f => f n s
  | none => (s, none)

/-- The visitor that runs the handlers of every node. -/
def visitor (h : Handlers σ) : Visitor σ where
  enter n s := ((perform (h .enter n.kind) n s).1, (perform (h .enter n.kind) n s).2 != some false)
  leave n s := (perform (h .leave n.kind) n s).1

/-- Whether a call is one of a handler. -/
def handles (h : Handlers σ) : Call Spot → Bool
  | .entered t _ => (h .enter t.node.kind).isSome
  | .left t => (h .leave t.node.kind).isSome

/-- The same handlers, each of which also writes down that it has run. -/
def logged (h : Handlers σ) : Handlers (σ × List (Call Node)) := fun moment kind =>
  (h moment kind).map fun f n s => (((f n s.1).1, s.2 ++ [Call.of moment n (f n s.1).2]), (f n s.1).2)

/-! ## Looking up once -/

/-- What has been looked up: for a moment and a kind, the handler, or that there is none. -/
abbrev Memory (σ : Type) := List ((Moment × Kind) × Option (Handler σ))

/-- Looks a handler up, in memory first. -/
def handlerFor (h : Handlers σ) (moment : Moment) (kind : Kind) (memory : Memory σ) : Option (Handler σ) × Memory σ :=
  match memory.lookup (moment, kind) with
  | some handler => (handler, memory)
  | none => (h moment kind, ((moment, kind), h moment kind) :: memory)

/-- Runs the handler that is recalled. -/
def dispatch (h : Handlers σ) (moment : Moment) (n : Node) (s : σ × Memory σ) : (σ × Memory σ) × Option Bool :=
  let found := h.handlerFor moment n.kind s.2
  (((perform found.1 n s.1).1, found.2), (perform found.1 n s.1).2)

/-- The visitor that looks up every handler once. -/
def remembering (h : Handlers σ) : Visitor (σ × Memory σ) where
  enter n s := ((h.dispatch .enter n s).1, (h.dispatch .enter n s).2 != some false)
  leave n s := (h.dispatch .leave n s).1

/-- What is remembered is right. -/
def Recalls (h : Handlers σ) (memory : Memory σ) : Prop :=
  ∀ moment kind handler, memory.lookup (moment, kind) = some handler → handler = h moment kind

theorem recalls_nil (h : Handlers σ) : h.Recalls [] := by
  intro moment kind handler hfound
  cases hfound

/-- What is recalled is what was to be looked up, and memory stays right. -/
theorem Recalls.handlerFor {h : Handlers σ} {memory : Memory σ} (hm : h.Recalls memory) (moment : Moment)
    (kind : Kind) :
    (h.handlerFor moment kind memory).1 = h moment kind ∧ h.Recalls (h.handlerFor moment kind memory).2 := by
  unfold Handlers.handlerFor
  cases hfound : memory.lookup (moment, kind) with
  | some handler => exact ⟨hm moment kind handler hfound, hm⟩
  | none =>
    refine ⟨rfl, fun moment' kind' handler hlookup => ?_⟩
    rw [List.lookup_cons] at hlookup
    split at hlookup
    · rename_i heq
      cases beq_iff_eq.1 heq
      exact (Option.some.inj hlookup).symm
    · exact hm moment' kind' handler hlookup

theorem Recalls.dispatch {h : Handlers σ} {memory : Memory σ} (hm : h.Recalls memory) (moment : Moment) (n : Node)
    (s : σ) :
    (h.dispatch moment n (s, memory)).2 = (perform (h moment n.kind) n s).2 ∧
      (h.dispatch moment n (s, memory)).1.1 = (perform (h moment n.kind) n s).1 ∧
      h.Recalls (h.dispatch moment n (s, memory)).1.2 := by
  obtain ⟨hfound, hkeeps⟩ := hm.handlerFor moment n.kind
  rw [← hfound]
  exact ⟨rfl, rfl, hkeeps⟩

/-- Looking up every handler once makes no difference to a visit, and memory is right for the next one. -/
theorem visit_remembering (h : Handlers σ) (root : Node) (s : σ) {memory : Memory σ} (hm : h.Recalls memory) :
    (h.remembering.visit root (s, memory)).1 = h.visitor.visit root s ∧
      h.Recalls (h.remembering.visit root (s, memory)).2 := by
  rw [Visitor.visit_eq_fold, Visitor.visit_eq_fold]
  refine Visitor.fold_related (R := fun s (t : σ × Memory σ) => t.1 = s ∧ h.Recalls t.2) ?_ ?_ ⟨rfl, hm⟩
  · rintro n s ⟨_, memory⟩ ⟨rfl, hm⟩
    obtain ⟨hanswer, hstate, hkeeps⟩ := hm.dispatch .enter n _
    exact ⟨congrArg (· != some false) hanswer, hstate, hkeeps⟩
  · rintro n s ⟨_, memory⟩ ⟨rfl, hm⟩
    exact (hm.dispatch .leave n _).2

end Handlers

/-! ## Calls by recursion -/

namespace Visitor

variable {σ : Type}

/-- The calls of a visit of some trees that stand side by side, with every node at its number and rank: a
node is entered, the trees below it are visited unless the answer is not to, and it is left. -/
def calls (v : Visitor σ) (number rank : Nat) : List Node → σ → List (Call Spot)
  | [], _ => []
  | n :: rest, s =>
    let t : Spot := ⟨number, rank, n⟩
    .entered t (v.enter n s).2 ::
      ((if (v.enter n s).2 then v.calls (number + 1) t.rankBelow n.children (v.enter n s).1 else []) ++
        .left t :: v.calls (number + n.size) (rank + n.scopeCount) rest (v.fold [n] s))
termination_by ns => sizeOf ns
decreasing_by
  · exact Node.sizeOf_children_lt_cons n rest
  · exact Branching.sizeOf_rest_lt_cons n rest

end Visitor

namespace Handlers

variable {σ : Type}

/-- What the handlers write down of some calls. -/
def noted (h : Handlers σ) (calls : List (Call Spot)) : List (Call Node) :=
  (calls.filter h.handles).map (Call.map (·.node))

theorem noted_append (h : Handlers σ) (xs ys : List (Call Spot)) : h.noted (xs ++ ys) = h.noted xs ++ h.noted ys := by
  simp [noted]

theorem enter_logged (h : Handlers σ) (i k : Nat) (n : Node) (s : σ) (log : List (Call Node)) :
    h.logged.visitor.enter n (s, log) =
      (((h.visitor.enter n s).1, log ++ h.noted [.entered ⟨i, k, n⟩ (h.visitor.enter n s).2]),
        (h.visitor.enter n s).2) := by
  cases hf : h .enter n.kind <;> simp [visitor, logged, perform, noted, handles, hf, Call.of, Call.map]

theorem leave_logged (h : Handlers σ) (i k : Nat) (n : Node) (s : σ) (log : List (Call Node)) :
    h.logged.visitor.leave n (s, log) = (h.visitor.leave n s, log ++ h.noted [.left ⟨i, k, n⟩]) := by
  cases hf : h .leave n.kind <;> simp [visitor, logged, perform, noted, handles, hf, Call.of, Call.map]

/-- Handlers that write down their calls write down those of the recursion, in its order. -/
theorem fold_logged (h : Handlers σ) (i k : Nat) (ns : List Node) (s : σ) (log : List (Call Node)) :
    h.logged.visitor.fold ns (s, log) = (h.visitor.fold ns s, log ++ h.noted (h.visitor.calls i k ns s)) := by
  induction ns using Node.forest_induction generalizing i k s log with
  | nil => simp [Visitor.fold, Visitor.calls, noted]
  | cons n rest ihc ihr =>
    have hcalls : h.visitor.calls i k (n :: rest) s = [.entered ⟨i, k, n⟩ (h.visitor.enter n s).2] ++
        ((if (h.visitor.enter n s).2 then
            h.visitor.calls (i + 1) (Spot.rankBelow ⟨i, k, n⟩) n.children (h.visitor.enter n s).1 else []) ++
          ([.left ⟨i, k, n⟩] ++ h.visitor.calls (i + n.size) (k + n.scopeCount) rest (h.visitor.fold [n] s))) := by
      rw [Visitor.calls]
      rfl
    rw [hcalls, noted_append, noted_append, noted_append, Visitor.fold, Visitor.fold, Visitor.fold, Visitor.fold,
      enter_logged h i k]
    split
    · rw [ihc (i + 1) (Spot.rankBelow ⟨i, k, n⟩), leave_logged h i k, ihr (i + n.size) (k + n.scopeCount)]
      simp only [List.append_assoc]
    · rw [leave_logged h i k, ihr (i + n.size) (k + n.scopeCount)]
      simp only [List.append_assoc]
      rfl

end Handlers

/-! ## What the calls have in common -/

/-- Calls come in pairs: between entering and leaving something stand whole pairs, and none if the answer was
not to go below. -/
inductive Nested {ν : Type} : List (Call ν) → Prop where
  | nil : Nested []
  | pair (n : ν) (goes : Bool) (inner rest : List (Call ν)) (declined : goes = false → inner = [])
      (within : Nested inner) (after : Nested rest) : Nested (.entered n goes :: (inner ++ .left n :: rest))

namespace Visitor

variable {σ : Type} {v : Visitor σ} {above : List Spot} {i k : Nat} {ns : List Node} {s : σ}

theorem nested_calls (v : Visitor σ) (i k : Nat) (ns : List Node) (s : σ) : Nested (v.calls i k ns s) := by
  induction ns using Node.forest_induction generalizing i k s with
  | nil => rw [calls]; exact .nil
  | cons n rest ihc ihr =>
    rw [calls]
    refine .pair _ _ _ _ (fun hstays => if_neg (by simp [hstays])) ?_ (ihr _ _ _)
    split
    · exact ihc _ _ _
    · exact .nil

/-- What is entered stands in document order. -/
theorem sublist_entered (v : Visitor σ) (above : List Spot) (i k : Nat) (ns : List Node) (s : σ) :
    ((v.calls i k ns s).filterMap Call.entered?).Sublist ((placesAll above i k ns).map (·.toSpot)) := by
  induction ns using Node.forest_induction generalizing above i k s with
  | nil => simp [calls]
  | cons n rest ihc ihr =>
    rw [calls, placesAll, List.map_cons, List.map_append]
    simp only [List.filterMap_cons, List.filterMap_append, Call.entered?]
    refine List.Sublist.cons_cons _ (List.Sublist.append ?_ (ihr above _ _ _))
    split
    · exact ihc _ _ _ _
    · simp

/-- What is entered is left, as often as it is entered. -/
theorem perm_left (v : Visitor σ) (i k : Nat) (ns : List Node) (s : σ) :
    ((v.calls i k ns s).filterMap Call.left?).Perm ((v.calls i k ns s).filterMap Call.entered?) := by
  induction ns using Node.forest_induction generalizing i k s with
  | nil => simp [calls]
  | cons n rest ihc ihr =>
    rw [calls]
    simp only [List.filterMap_cons, List.filterMap_append, Call.entered?, Call.left?]
    refine List.perm_middle.trans (List.Perm.cons _ (List.Perm.append ?_ (ihr _ _ _)))
    split
    · exact ihc _ _ _
    · simp

/-- With no answer against it, everything is entered. -/
theorem entered_of_goes (above : List Spot) (h : ∀ t, .entered t false ∉ v.calls i k ns s) :
    (v.calls i k ns s).filterMap Call.entered? = (placesAll above i k ns).map (·.toSpot) := by
  induction ns using Node.forest_induction generalizing above i k s with
  | nil => simp [calls, placesAll]
  | cons n rest ihc ihr =>
    rw [calls] at h ⊢
    have hgoes : (v.enter n s).2 = true := by
      by_contra hstays
      rw [Bool.not_eq_true] at hstays
      exact h _ (by rw [hstays]; exact List.mem_cons_self)
    simp only [hgoes, if_true, List.mem_cons, List.mem_append, not_or] at h ⊢
    rw [placesAll, List.map_cons, List.map_append]
    simp only [List.filterMap_cons, List.filterMap_append, Call.entered?]
    rw [ihc _ fun t => (h t).2.1, ihr above fun t => (h t).2.2.2]

/-! ## Below what is declined -/

theorem mem_calls_cons {n : Node} {rest : List Node} {c : Call Spot} :
    c ∈ v.calls i k (n :: rest) s ↔
      c = .entered ⟨i, k, n⟩ (v.enter n s).2 ∨
        ((v.enter n s).2 = true ∧ c ∈ v.calls (i + 1) (Spot.rankBelow ⟨i, k, n⟩) n.children (v.enter n s).1) ∨
        c = .left ⟨i, k, n⟩ ∨ c ∈ v.calls (i + n.size) (k + n.scopeCount) rest (v.fold [n] s) := by
  rw [calls, List.mem_cons, List.mem_append, List.mem_cons]
  split <;> simp_all

theorem number_of_place {p : Place} (hp : p ∈ placesAll above i k ns) :
    i ≤ p.number ∧ p.number < i + (ns.flatMap Node.preorder).length := by
  have hmem := List.mem_map_of_mem (f := fun q : Place => q.number) hp
  rwa [placesAll_numbers, List.mem_range'_1] at hmem

theorem number_of_call {c : Call Spot} (hc : c ∈ v.calls i k ns s) :
    i ≤ c.subject.number ∧ c.subject.number < i + (ns.flatMap Node.preorder).length := by
  induction ns using Node.forest_induction generalizing i k s with
  | nil => rw [calls] at hc; cases hc
  | cons n rest ihc ihr =>
    have hsize := n.size_eq
    rw [List.flatMap_cons, List.length_append, ← Node.size]
    rcases mem_calls_cons.1 hc with rfl | ⟨-, hc⟩ | rfl | hc
    · simp only [Call.subject]
      omega
    · have := ihc hc
      omega
    · simp only [Call.subject]
      omega
    · have := ihr hc
      omega

theorem number_of_way {p : Place} (hp : p ∈ placesAll above i k ns) {way : List Spot} (hway : p.above = way ++ above) :
    ∀ t ∈ way, i ≤ t.number ∧ t.number < i + (ns.flatMap Node.preorder).length := by
  intro t ht
  obtain ⟨way', hway', hplaces⟩ := above_split hp
  obtain rfl : way' = way := List.append_cancel_right (hway'.symm.trans hway)
  obtain ⟨xs, ys, hsplit⟩ := List.append_of_mem ht
  exact number_of_place (hplaces xs t ys hsplit).1

section

variable {n : Node} {rest : List Node} {c : Call Spot}

/-- A call for what stands below the first node is made on the visit below it. -/
theorem mem_calls_below (hc : c ∈ v.calls i k (n :: rest) s) (hlow : i + 1 ≤ c.subject.number)
    (hhigh : c.subject.number < i + n.size) :
    (v.enter n s).2 = true ∧ c ∈ v.calls (i + 1) (Spot.rankBelow ⟨i, k, n⟩) n.children (v.enter n s).1 := by
  rcases mem_calls_cons.1 hc with rfl | hc | rfl | hc
  · exact absurd hlow (Nat.not_succ_le_self i)
  · exact hc
  · exact absurd hlow (Nat.not_succ_le_self i)
  · exact absurd hhigh (Nat.not_lt.2 (number_of_call hc).1)

/-- A call for what stands after the first tree is made after the visit of it. -/
theorem mem_calls_after (hc : c ∈ v.calls i k (n :: rest) s) (hlow : i + n.size ≤ c.subject.number) :
    c ∈ v.calls (i + n.size) (k + n.scopeCount) rest (v.fold [n] s) := by
  have hsize := n.size_eq
  have hself : ¬ i + n.size ≤ i := by omega
  rcases mem_calls_cons.1 hc with rfl | ⟨-, hc⟩ | rfl | hc
  · exact absurd hlow hself
  · have := (number_of_call hc).2
    omega
  · exact absurd hlow hself
  · exact hc

/-- Entering the first node is the only call that enters it. -/
theorem goes_of_mem {goes : Bool} (hc : .entered ⟨i, k, n⟩ goes ∈ v.calls i k (n :: rest) s) :
    goes = (v.enter n s).2 := by
  have hsize := n.size_eq
  rcases mem_calls_cons.1 hc with hc | ⟨-, hc⟩ | hc | hc
  · cases hc
    rfl
  · exact absurd (number_of_call hc).1 (Nat.not_succ_le_self i)
  · cases hc
  · have hlow : i + n.size ≤ i := (number_of_call hc).1
    omega

end

/-- What is entered is what stands below nothing declined. -/
theorem entered_iff {p : Place} (hp : p ∈ placesAll above i k ns) {way : List Spot} (hway : p.above = way ++ above) :
    (∃ goes, .entered p.toSpot goes ∈ v.calls i k ns s) ↔ ∀ t ∈ way, .entered t false ∉ v.calls i k ns s := by
  induction ns using Node.forest_induction generalizing above i k s way with
  | nil => rw [placesAll] at hp; cases hp
  | cons n rest ihc ihr =>
    rcases mem_placesAll_cons.1 hp with rfl | hp | hp
    · obtain rfl : way = [] := by simpa using hway
      simp only [List.not_mem_nil, false_implies, implies_true, iff_true]
      exact ⟨_, mem_calls_cons.2 (.inl rfl)⟩
    · -- on the way are spots below the node, and last the node itself
      replace hp : p ∈ placesAll (⟨i, k, n⟩ :: above) (i + 1) (Spot.rankBelow ⟨i, k, n⟩) n.children := hp
      obtain ⟨inner, hinner, -⟩ := above_split hp
      obtain rfl : way = inner ++ [⟨i, k, n⟩] := by
        rw [hinner, List.append_cons] at hway
        exact (List.append_cancel_right hway).symm
      have hlast : n.size = (n.children.flatMap Node.preorder).length + 1 := n.size_eq
      have hbelow : ∀ {t : Spot} {goes : Bool},
          i + 1 ≤ t.number ∧ t.number < i + 1 + (n.children.flatMap Node.preorder).length →
          .entered t goes ∈ v.calls i k (n :: rest) s → _ :=
        fun hnumber hc => mem_calls_below hc hnumber.1 (by simp only [Call.subject]; omega)
      simp only [List.mem_append, List.mem_singleton, or_imp, forall_and, forall_eq]
      constructor
      · rintro ⟨goes, hc⟩
        obtain ⟨hgoes, hc⟩ := hbelow (number_of_place hp) hc
        refine ⟨fun t ht hdeclined => ?_, fun hdeclined => ?_⟩
        · exact (ihc hp hinner).1 ⟨goes, hc⟩ t ht (hbelow (number_of_way hp hinner t ht) hdeclined).2
        · rw [← goes_of_mem hdeclined] at hgoes
          cases hgoes
      · rintro ⟨hinside, hself⟩
        have hgoes : (v.enter n s).2 = true := by
          by_contra hstays
          rw [Bool.not_eq_true] at hstays
          exact hself (mem_calls_cons.2 (.inl (by rw [hstays])))
        have hwhole : ∀ c, c ∈ v.calls (i + 1) (Spot.rankBelow ⟨i, k, n⟩) n.children (v.enter n s).1 →
            c ∈ v.calls i k (n :: rest) s := fun c hc => mem_calls_cons.2 (.inr (.inl ⟨hgoes, hc⟩))
        obtain ⟨goes, hc⟩ := (ihc hp hinner).2 fun t ht hdeclined => hinside t ht (hwhole _ hdeclined)
        exact ⟨goes, hwhole _ hc⟩
    · have hafter : ∀ {t : Spot} {goes : Bool}, i + n.size ≤ t.number →
          (.entered t goes ∈ v.calls i k (n :: rest) s ↔
            .entered t goes ∈ v.calls (i + n.size) (k + n.scopeCount) rest (v.fold [n] s)) :=
        fun hnumber => ⟨fun hc => mem_calls_after hc hnumber, fun hc => mem_calls_cons.2 (.inr (.inr (.inr hc)))⟩
      simp only [hafter (number_of_place hp).1]
      rw [ihr hp hway]
      exact forall₂_congr fun t ht => not_congr (hafter (number_of_way hp hway t ht).1).symm

end Visitor

/-! ## The whole visit -/

/-- The calls of a visit of a tree. -/
structure Orderly (root : Node) (calls : List (Call Spot)) : Prop where
  nested : Nested calls
  /-- What is entered stands in document order. -/
  inOrder : (calls.filterMap Call.entered?).Sublist (root.places.map (·.toSpot))
  /-- Nothing is entered twice. -/
  once : ((calls.filterMap Call.entered?).map (·.number)).Nodup
  /-- What is entered is left, and nothing else is. -/
  leaves : (calls.filterMap Call.left?).Perm (calls.filterMap Call.entered?)
  /-- Entered is what stands below nothing declined. -/
  reached : ∀ p ∈ root.places, (∃ goes, .entered p.toSpot goes ∈ calls) ↔ ∀ t ∈ p.above, .entered t false ∉ calls
  /-- When nothing is declined, everything is entered in the order of the walk. -/
  walked : (∀ t, .entered t false ∉ calls) → (calls.filterMap Call.entered?).map (·.node) = root.walk

theorem orderly_calls {σ : Type} (v : Visitor σ) (root : Node) (s : σ) : Orderly root (v.calls 0 0 [root] s) where
  nested := v.nested_calls 0 0 [root] s
  inOrder := v.sublist_entered [] 0 0 [root] s
  once := by
    refine ((v.sublist_entered [] 0 0 [root] s).map (·.number)).nodup ?_
    have hnumbers := placesAll_numbers [] 0 0 [root]
    rw [List.map_map]
    show ((placesAll [] 0 0 [root]).map (·.number)).Nodup
    rw [hnumbers]
    exact List.nodup_range'
  leaves := v.perm_left 0 0 [root] s
  reached := fun p hp => Visitor.entered_iff hp (List.append_nil _).symm
  walked := by
    intro hgoes
    rw [Visitor.entered_of_goes [] hgoes, List.map_map, Node.walk_eq]
    have hnodes := placesAll_nodes [] 0 0 [root]
    rwa [List.flatMap_singleton] at hnodes

/-- A visit runs the handlers in the order of the recursion and ends in its state, whatever has been looked up
before; what is looked up on the way is right for the next visit. The calls of the recursion are orderly, and
the walk is the recursive document order. -/
theorem visit_recursive {σ : Type} (h : Handlers σ) (root : Node) (s : σ)
    {memory : Handlers.Memory (σ × List (Call Node))} (hm : h.logged.Recalls memory) :
    h.visitor.visit root s = h.visitor.fold [root] s ∧
      (h.logged.remembering.visit root ((s, []), memory)).1 =
        (h.visitor.fold [root] s, h.noted (h.visitor.calls 0 0 [root] s)) ∧
      h.logged.Recalls (h.logged.remembering.visit root ((s, []), memory)).2 ∧
      Orderly root (h.visitor.calls 0 0 [root] s) ∧ root.walk = root.preorder := by
  obtain ⟨hvisit, hkeeps⟩ := h.logged.visit_remembering root (s, []) hm
  refine ⟨h.visitor.visit_eq_fold root s, ?_, hkeeps, orderly_calls h.visitor root s, root.walk_eq⟩
  rw [hvisit, Visitor.visit_eq_fold, h.fold_logged 0 0]
  rfl

/-- Handlers that count how often functions are entered and left, without going below them. -/
def countingFunctions : Handlers Nat
  | .enter, .function => some fun _ count => (count + 1, some false)
  | .leave, .function => some fun _ count => (count + 1, none)
  | .enter, .assignment => some fun _ count => (count, some true)
  | _, _ => none

/-- A function with an assignment in it and one after it. -/
def assignedTwice : Node := Sample.program [Sample.declaredFunction "f" [Sample.assigning "x"], Sample.assigning "y"]

theorem visit_recursive_functions :
    countingFunctions.logged.Recalls [] ∧
      (countingFunctions.logged.remembering.visit assignedTwice ((0, []), [])).1.1 = 2 ∧
      (countingFunctions.logged.remembering.visit assignedTwice ((0, []), [])).1.2.map (Call.map Node.kind) =
        [.entered .function false, .left .function, .entered .assignment true] ∧
      (countingFunctions.logged.remembering.visit assignedTwice ((0, []), [])).1 =
        (countingFunctions.visitor.fold [assignedTwice] 0,
          countingFunctions.noted (countingFunctions.visitor.calls 0 0 [assignedTwice] 0)) ∧
      Orderly assignedTwice (countingFunctions.visitor.calls 0 0 [assignedTwice] 0) := by
  have hm := countingFunctions.logged.recalls_nil
  obtain ⟨-, hrun, -, horderly, -⟩ := visit_recursive countingFunctions assignedTwice 0 hm
  exact ⟨hm, by decide +kernel, by decide +kernel, hrun, horderly⟩

end LetOrConst.Tree
