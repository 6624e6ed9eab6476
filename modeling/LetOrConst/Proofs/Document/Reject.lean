/-
Which documents are rejected, and where. Of a faulty tree one node is to blame (`Blamed`): the first fault
below the root in document order, or the root when it is the only fault; of a tree without faults, the first
piece of markup. What the search for the error finds is at the node to blame (`findings_malformed?`), and it
finds nothing only when there is neither fault nor markup; so parsing rejects what it should (`parse_judged`).
-/
import LetOrConst.Document
import LetOrConst.Proofs.Grammar.Order

namespace LetOrConst.Grammar.Node

/-! ## Faults and markup -/

/-- Recovery left the node behind. -/
def Faulty (n : Node) : Prop := n.type = "ERROR" ∨ n.missing = true

/-- The node is embedded markup. -/
def Markup (n : Node) : Prop := "jsx_".toList <+: n.type.toList

/-- The node to blame for a rejected tree. -/
inductive Blamed (root : Node) : Node → Prop where
  /-- The first fault below the root. -/
  | below (n : Node) (first : First Faulty root.descendants n) : Blamed root n
  /-- The root, when it is the only fault. -/
  | whole (faulty : root.Faulty) (sound : ∀ m ∈ root.descendants, ¬ m.Faulty) : Blamed root root
  /-- The first piece of markup, when there is no fault. -/
  | markup (n : Node) (sound : ∀ m ∈ root.preorder, ¬ m.Faulty) (first : First Markup root.preorder n) : Blamed root n

theorem isFault_iff {n : Node} : n.isFault = true ↔ n.Faulty := by
  unfold isFault Faulty
  rw [Bool.or_eq_true, beq_iff_eq]

theorem isMarkup_iff {n : Node} : n.isMarkup = true ↔ n.Markup := String.startsWith_string_iff

variable {root : Node}

/-- One node is to blame and no other. -/
theorem Blamed.unique {m n : Node} (hm : Blamed root m) (hn : Blamed root n) : m = n := by
  have hbelow : ∀ {k : Node}, k ∈ root.descendants → k ∈ root.preorder := by
    intro k hk
    rw [preorder_eq]
    exact List.mem_cons_of_mem _ hk
  have hroot : root ∈ root.preorder := by
    rw [preorder_eq]
    exact List.mem_cons_self
  cases hm with
  | below m first =>
    cases hn with
    | below n first' => exact first.unique first'
    | whole faulty sound => exact absurd first.mem.2 (sound m first.mem.1)
    | markup n sound first' => exact absurd first.mem.2 (sound m (hbelow first.mem.1))
  | whole faulty sound =>
    cases hn with
    | below n first => exact absurd first.mem.2 (sound n first.mem.1)
    | whole faulty' sound' => rfl
    | markup n sound' first => exact absurd faulty (sound' root hroot)
  | markup m sound first =>
    cases hn with
    | below n first' => exact absurd first'.mem.2 (sound n (hbelow first'.mem.1))
    | whole faulty sound' => exact absurd faulty (sound root hroot)
    | markup n sound' first' => exact first.unique first'

theorem hasFault_iff : root.hasFault = true ↔ ∃ n ∈ root.preorder, n.Faulty := by
  rw [hasFault, walk_eq_preorder, List.any_eq_true]
  simp only [isFault_iff]

/-- In a faulty tree a fault is found, and it is the one to blame. -/
theorem firstFault?_of_faulty (h : ∃ n ∈ root.preorder, n.Faulty) :
    ∃ n, root.firstFault? = some n ∧ Blamed root n := by
  rw [firstFault?, if_pos (hasFault_iff.2 h), tail_walk]
  cases hfind : root.descendants.find? isFault with
  | some n => exact ⟨n, rfl, .below n ((first_iff_find? fun _ => isFault_iff).2 hfind)⟩
  | none =>
    have hsound := none_of_find? (fun _ => isFault_iff) hfind
    obtain ⟨n, hn, hfaulty⟩ := h
    rw [preorder_eq, List.mem_cons] at hn
    rcases hn with rfl | hn
    · exact ⟨n, rfl, .whole hfaulty hsound⟩
    · exact absurd hfaulty (hsound n hn)

theorem firstFault?_of_sound (h : ∀ n ∈ root.preorder, ¬ n.Faulty) : root.firstFault? = none := by
  have hnot : ¬ root.hasFault = true := by
    rw [hasFault_iff]
    rintro ⟨n, hn, hfaulty⟩
    exact h n hn hfaulty
  rw [firstFault?, if_neg hnot]

theorem firstMarkup?_cases (hsound : ∀ n ∈ root.preorder, ¬ n.Faulty) :
    (∃ n, root.firstMarkup? = some n ∧ Blamed root n ∧ n ∈ root.preorder ∧ n.Markup) ∨
      (root.firstMarkup? = none ∧ ∀ n ∈ root.preorder, ¬ n.Markup) := by
  rw [firstMarkup?, walk_eq_preorder]
  cases hfind : root.preorder.find? isMarkup with
  | some n =>
    have hfirst := (first_iff_find? fun _ => isMarkup_iff).2 hfind
    exact .inl ⟨n, rfl, .markup n hsound hfirst, hfirst.mem⟩
  | none => exact .inr ⟨rfl, none_of_find? (fun _ => isMarkup_iff) hfind⟩

end LetOrConst.Grammar.Node

namespace LetOrConst.Document

open LetOrConst.Grammar.Node (Blamed)

/-! ## The error of a tree -/

/-- What can be found in a tree: a fault, or markup without any fault, each reported at the node to blame;
or nothing. -/
inductive Findings (source : String) (identity : Option String) (root : LetOrConst.Grammar.Node) :
    Option Malformed → Prop where
  | fault (n : LetOrConst.Grammar.Node) (blamed : Blamed root n) (faulty : ∃ m ∈ root.preorder, m.Faulty) :
      Findings source identity root
        (some (malformedAt source identity n (faultMessage (Text.Utf8.encode source.toList) n)))
  | markup (n : LetOrConst.Grammar.Node) (blamed : Blamed root n) (sound : ∀ m ∈ root.preorder, ¬ m.Faulty)
      (marked : ∃ m ∈ root.preorder, m.Markup) :
      Findings source identity root (some (malformedAt source identity n markupMessage))
  | nothing (sound : ∀ m ∈ root.preorder, ¬ m.Faulty) (plain : ∀ m ∈ root.preorder, ¬ m.Markup) :
      Findings source identity root none

theorem findings_malformed? (source : String) (identity : Option String) (root : LetOrConst.Grammar.Node) :
    Findings source identity root (malformed? source identity root) := by
  unfold malformed?
  by_cases hfaulty : ∃ m ∈ root.preorder, m.Faulty
  · obtain ⟨n, hn, hblamed⟩ := Grammar.Node.firstFault?_of_faulty hfaulty
    rw [hn]
    exact .fault n hblamed hfaulty
  · have hsound : ∀ m ∈ root.preorder, ¬ m.Faulty := fun m hm hf => hfaulty ⟨m, hm, hf⟩
    rw [Grammar.Node.firstFault?_of_sound hsound]
    rcases Grammar.Node.firstMarkup?_cases hsound with ⟨n, hn, hblamed, hmem, hmarkup⟩ | ⟨hnone, hplain⟩
    · rw [hn]
      exact .markup n hblamed hsound ⟨n, hmem, hmarkup⟩
    · rw [hnone]
      exact .nothing hsound hplain

/-- No complaint about a fault reads like the one about markup. -/
theorem faultMessage_ne_markupMessage (bytes : List UInt8) (n : LetOrConst.Grammar.Node) :
    faultMessage bytes n ≠ markupMessage := by
  have hfirst : (faultMessage bytes n).toList.head? = some 'M' ∨ (faultMessage bytes n).toList.head? = some 'U' := by
    unfold faultMessage
    split
    · exact .inl (by simp [toString])
    · split
      · exact .inr rfl
      · exact .inr (by simp [toString])
  intro h
  rw [h] at hfirst
  revert hfirst
  decide

/-! ## The result of parsing -/

theorem parse_empty (grammar : Grammar) {source : Option String} (identity : Option String)
    (h : source = none ∨ source = some "") : parse grammar source identity = .error (.empty identity) := by
  rcases h with rfl | rfl <;> rfl

theorem parse_text (grammar : Grammar) {text : String} (identity : Option String) (hne : text ≠ "") :
    parse grammar (some text) identity =
      match malformed? text identity (grammar text) with
      | some e => .error (.malformed e)
      | none => .ok (Tree.ofGrammar (Text.Utf8.encode text.toList) (grammar text)) := by
  have hsome : (some text).filter (· ≠ "") = some text := by simp [Option.filter, hne]
  cases hfound : malformed? text identity (grammar text) with
  | none => simp only [parse, hsome, hfound]
  | some e => simp only [parse, hsome, hfound]

theorem eq_ofGrammar_of_parse {grammar : Grammar} {text : String} {identity : Option String} {tree : Tree.Node}
    (h : parse grammar (some text) identity = .ok tree) :
    tree = Tree.ofGrammar (Text.Utf8.encode text.toList) (grammar text) := by
  by_cases hne : text = ""
  · rw [parse_empty grammar identity (.inr (congrArg some hne))] at h
    cases h
  · rw [parse_text grammar identity hne] at h
    split at h
    · cases h
    · exact (Except.ok.inj h).symm

/-- What a document comes to. -/
structure Judged (grammar : Grammar) (source identity : Option String) (result : Except Error Tree.Node) : Prop where
  /-- It is empty exactly when there is no text or an empty one, whatever its tree. -/
  empty : result = .error (.empty identity) ↔ source = none ∨ source = some ""
  /-- Any other is malformed exactly when some node of its tree is a fault or markup. -/
  malformed : ∀ text, source = some text → text ≠ "" →
    ((∃ e, result = .error (.malformed e)) ↔ ∃ n ∈ (grammar text).preorder, n.Faulty ∨ n.Markup)
  /-- Otherwise it has a tree. -/
  parsed : ∀ text, source = some text → text ≠ "" →
    ((∃ tree, result = .ok tree) ↔ ∀ n ∈ (grammar text).preorder, ¬ (n.Faulty ∨ n.Markup))
  /-- An error is at the one node to blame and bears the name of the document. It complains about markup
  exactly when there is no fault. -/
  blamed : ∀ e, result = .error (.malformed e) → ∃ text n, source = some text ∧
    (∀ m, Blamed (grammar text) m ↔ m = n) ∧
    e.line = n.point.row + 1 ∧ e.column = n.point.column + 1 ∧ e.identity = identity ∧
    (e.message = "JSX is not supported" ↔ ∀ m ∈ (grammar text).preorder, ¬ m.Faulty)

section

variable {grammar : Grammar} {text : String} {identity : Option String}

theorem not_empty (hne : text ≠ "") : ¬ (some text = none ∨ some text = some "") := by
  rintro (h | h)
  · cases h
  · exact hne (Option.some.inj h)

theorem judged_empty {source : Option String} (hempty : source = none ∨ source = some "") :
    Judged grammar source identity (.error (.empty identity)) := by
  refine ⟨iff_of_true rfl hempty, ?_, ?_, ?_⟩
  · rintro text rfl hne
    exact absurd hempty (not_empty hne)
  · rintro text rfl hne
    exact absurd hempty (not_empty hne)
  · rintro e ⟨⟩

theorem judged_malformed {n : LetOrConst.Grammar.Node} {message : String} (hne : text ≠ "")
    (hn : Blamed (grammar text) n) (hbad : ∃ m ∈ (grammar text).preorder, m.Faulty ∨ m.Markup)
    (hmessage : message = markupMessage ↔ ∀ m ∈ (grammar text).preorder, ¬ m.Faulty) :
    Judged grammar (some text) identity (.error (.malformed (malformedAt text identity n message))) := by
  refine ⟨iff_of_false (by simp) (not_empty hne), ?_, ?_, ?_⟩
  · rintro _ ⟨⟩ -
    exact iff_of_true ⟨_, rfl⟩ hbad
  · rintro _ ⟨⟩ -
    obtain ⟨m, hm, hwrong⟩ := hbad
    exact iff_of_false (by simp) fun hall => hall m hm hwrong
  · rintro _ ⟨⟩
    exact ⟨text, n, rfl, fun m => ⟨fun hm => hm.unique hn, fun h => h ▸ hn⟩, rfl, rfl, rfl, hmessage⟩

theorem judged_tree {tree : Tree.Node} (hne : text ≠ "")
    (hclean : ∀ m ∈ (grammar text).preorder, ¬ (m.Faulty ∨ m.Markup)) :
    Judged grammar (some text) identity (.ok tree) := by
  refine ⟨iff_of_false (by simp) (not_empty hne), ?_, ?_, ?_⟩
  · rintro _ ⟨⟩ -
    refine iff_of_false (by simp) ?_
    rintro ⟨m, hm, hwrong⟩
    exact hclean m hm hwrong
  · rintro _ ⟨⟩ -
    exact iff_of_true ⟨_, rfl⟩ hclean
  · rintro e ⟨⟩

end

/-- Parsing rejects exactly the documents that it should, each at the right place. -/
theorem parse_judged (grammar : Grammar) (source identity : Option String) :
    Judged grammar source identity (parse grammar source identity) := by
  by_cases hempty : source = none ∨ source = some ""
  · rw [parse_empty grammar identity hempty]
    exact judged_empty hempty
  · obtain ⟨text, rfl⟩ := Option.ne_none_iff_exists'.1 fun h => hempty (.inl h)
    have hne : text ≠ "" := fun h => hempty (.inr (congrArg some h))
    have hfound := findings_malformed? text identity (grammar text)
    rw [parse_text grammar identity hne]
    generalize malformed? text identity (grammar text) = found at hfound
    cases hfound with
    | fault n blamed faulty =>
      obtain ⟨m, hm, hfaulty⟩ := faulty
      exact judged_malformed hne blamed ⟨m, hm, .inl hfaulty⟩
        (iff_of_false (faultMessage_ne_markupMessage _ n) fun hall => hall m hm hfaulty)
    | markup n blamed sound marked =>
      obtain ⟨m, hm, hmarkup⟩ := marked
      exact judged_malformed hne blamed ⟨m, hm, .inr hmarkup⟩ (iff_of_true rfl sound)
    | nothing sound plain =>
      refine judged_tree hne ?_
      rintro m hm (hfaulty | hmarkup)
      · exact sound m hm hfaulty
      · exact plain m hm hmarkup

end LetOrConst.Document
