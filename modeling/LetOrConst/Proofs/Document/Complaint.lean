/-
What a complaint quotes. Of the text that a fault covers the blanks at both ends are dropped (`Stripped`), and of
what is left the longest beginning is quoted that stays on one line and is short enough (`Quotable`). Every
character that ends a line is blank, so what is left starts with a character that belongs to its first line, and
there is always something to quote unless all of the text is blank (`faultMessage_complains`).
-/
import LetOrConst.Proofs.Document.Reject
import LetOrConst.Proofs.Text.Lines
import Mathlib.Data.List.DropRight

namespace LetOrConst.Text

/-- What is left of a text without the blanks at either end. -/
structure Stripped (text core : List Char) : Prop where
  around : ∃ front back, text = front ++ core ++ back ∧ (∀ c ∈ front, isBlank c = true) ∧ ∀ c ∈ back, isBlank c = true
  starts : ∀ c, core.head? = some c → isBlank c = false
  ends : ∀ c, core.getLast? = some c → isBlank c = false

variable {cs : List Char}

/-! ## Trimming -/

theorem trim_eq (cs : List Char) : trim cs = (cs.dropWhile isBlank).rdropWhile isBlank := rfl

theorem trim_eq_nil_iff : trim cs = [] ↔ ∀ c ∈ cs, isBlank c = true := by
  rw [trim_eq, List.rdropWhile_eq_nil_iff]
  constructor
  · intro h c hc
    rw [← List.takeWhile_append_dropWhile (p := isBlank) (l := cs), List.mem_append] at hc
    rcases hc with hc | hc
    · exact List.mem_takeWhile_imp hc
    · exact h c hc
  · intro h c hc
    exact h c (List.dropWhile_subset _ hc)

/-- What is left starts as the text does behind the blanks at its start. -/
theorem head?_trim {c : Char} (h : (trim cs).head? = some c) : isBlank c = false := by
  obtain ⟨back, hback⟩ := List.rdropWhile_prefix isBlank (cs.dropWhile isBlank)
  have hhead : (cs.dropWhile isBlank).head? = some c := by
    rw [← hback, List.head?_append, ← trim_eq, h]
    rfl
  have hnot := List.head?_dropWhile_not isBlank cs
  rw [hhead] at hnot
  exact hnot

theorem stripped_trim (cs : List Char) : Stripped cs (trim cs) where
  around := by
    refine ⟨cs.takeWhile isBlank, (cs.dropWhile isBlank).rtakeWhile isBlank, ?_, ?_, ?_⟩
    · rw [List.append_assoc, trim_eq, List.rdropWhile_append_rtakeWhile, List.takeWhile_append_dropWhile]
    · exact fun c hc => List.mem_takeWhile_imp hc
    · exact fun c hc => List.mem_rtakeWhile_imp hc
  starts c h := head?_trim h
  ends c h := by
    obtain ⟨hne, rfl⟩ := List.mem_getLast?_eq_getLast h
    exact Bool.not_eq_true _ ▸ List.rdropWhile_last_not isBlank _ hne

/-! ## The first line -/

theorem isBlank_of_isLineBreak {c : Char} (h : isLineBreak c = true) : isBlank c = true := by
  simp only [isLineBreak, isBlank, Bool.or_eq_true, Bool.and_eq_true, decide_eq_true_eq, beq_iff_eq] at h ⊢
  omega

end LetOrConst.Text

namespace LetOrConst.Grammar.Node

theorem Blamed.mem_preorder {root n : Node} (h : Blamed root n) : n ∈ root.preorder := by
  cases h with
  | below n first =>
    rw [preorder_eq]
    exact List.mem_cons_of_mem _ first.mem.1
  | whole faulty sound =>
    rw [preorder_eq]
    exact List.mem_cons_self
  | markup n sound first => exact first.mem.1

end LetOrConst.Grammar.Node

namespace LetOrConst.Document

open LetOrConst.Grammar.Node (Blamed)

/-- A beginning of a text that stays on one line and is short enough to be quoted. -/
structure Quotable (core token : List Char) : Prop where
  begins : token <+: core
  short : token.length ≤ 40
  oneLine : ∀ c ∈ token, Text.isLineBreak c = false

/-- What is said of a fault that covers the given text. -/
structure Complains (text : List Char) (message : String) : Prop where
  atEnd : message = "Unexpected end of input" ↔ ∀ c ∈ text, Text.isBlank c = true
  core : Text.Stripped text (Text.trim text)
  /-- The longest that can be quoted is, out of a first line that is there, and it does not start with a blank. -/
  quotes : (¬ ∀ c ∈ text, Text.isBlank c = true) → ∃ first rest token, Text.lines (Text.trim text) = first :: rest ∧
    token = first.take quotedLength ∧ Quotable (Text.trim text) token ∧
    (∀ other, Quotable (Text.trim text) other → other.length ≤ token.length) ∧
    (∃ c more, token = c :: more ∧ Text.isBlank c = false) ∧
    message = "Unexpected " ++ Text.quoted (String.ofList token)

/-! ## The token -/

theorem quotable_take (core : List Char) :
    Quotable core ((core.takeWhile (!Text.isLineBreak ·)).take quotedLength) where
  begins := (List.take_prefix _ _).trans (List.takeWhile_prefix _)
  short := List.length_take_le _ _
  oneLine c hc := by simpa using List.mem_takeWhile_imp (List.mem_of_mem_take hc)

theorem length_le_of_quotable {core token : List Char} (h : Quotable core token) :
    token.length ≤ ((core.takeWhile (!Text.isLineBreak ·)).take quotedLength).length := by
  obtain ⟨rest, rfl⟩ := h.begins
  rw [List.takeWhile_append_of_pos fun c hc => by simp [h.oneLine c hc], List.length_take, List.length_append]
  exact Nat.le_min.2 ⟨h.short, Nat.le_add_right _ _⟩

theorem message_ne_atEnd (token : List Char) :
    "Unexpected " ++ Text.quoted (String.ofList token) ≠ "Unexpected end of input" := by
  -- what is quoted starts with a quote
  intro h
  have hlist := congrArg String.toList h
  rw [String.toList_append, Text.quoted, String.toList_ofList, String.toList_ofList, Text.quote] at hlist
  have hquote : Text.quoteFor token = 'e' := by
    have := congrArg (·[11]?) hlist
    simpa using this
  revert hquote
  unfold Text.quoteFor
  split <;> decide

theorem offendingToken_eq (text : List Char) :
    offendingToken text = ((Text.trim text).takeWhile (!Text.isLineBreak ·)).take quotedLength := by
  unfold offendingToken
  by_cases hcore : Text.trim text = []
  · rw [hcore, Text.lines]
    rfl
  · obtain ⟨rest, hlines⟩ := Text.lines_eq_cons hcore
    rw [hlines]
    rfl

/-- Of a text that is not all blank there is something to quote. -/
theorem offendingToken_eq_cons {text : List Char} (h : ¬ ∀ c ∈ text, Text.isBlank c = true) :
    ∃ c more, offendingToken text = c :: more ∧ Text.isBlank c = false := by
  obtain ⟨c, core, hcore⟩ := List.exists_cons_of_ne_nil (mt Text.trim_eq_nil_iff.1 h)
  have hblank : Text.isBlank c = false := Text.head?_trim (by rw [hcore]; rfl)
  have hline : ¬ Text.isLineBreak c = true := by
    intro hbreak
    rw [Text.isBlank_of_isLineBreak hbreak] at hblank
    cases hblank
  rw [offendingToken_eq, hcore, List.takeWhile_cons_of_pos (by simpa using hline), quotedLength, List.take_succ_cons]
  exact ⟨c, _, rfl, hblank⟩

theorem offendingToken_eq_nil_iff {text : List Char} :
    offendingToken text = [] ↔ ∀ c ∈ text, Text.isBlank c = true := by
  constructor
  · intro hnil
    by_contra hsome
    obtain ⟨c, more, htoken, -⟩ := offendingToken_eq_cons hsome
    exact List.cons_ne_nil c more (htoken.symm.trans hnil)
  · intro hblank
    rw [offendingToken_eq, Text.trim_eq_nil_iff.2 hblank]
    rfl

/-! ## The complaint -/

theorem faultMessage_eq {bytes : List UInt8} {n : LetOrConst.Grammar.Node} (h : n.missing = false) :
    faultMessage bytes n =
      if offendingToken (n.text bytes).toList = [] then "Unexpected end of input"
      else "Unexpected " ++ Text.quoted (String.ofList (offendingToken (n.text bytes).toList)) := by
  rw [faultMessage, if_neg (by simp [h])]
  split
  · rename_i hnil
    rw [if_pos hnil]
  · rename_i token hcons
    rw [if_neg hcons]
    simp [toString]

theorem complains_faultMessage (bytes : List UInt8) {n : LetOrConst.Grammar.Node} (h : n.missing = false) :
    Complains (n.text bytes).toList (faultMessage bytes n) := by
  rw [faultMessage_eq h]
  generalize (n.text bytes).toList = text
  refine ⟨?_, Text.stripped_trim text, fun hsome => ?_⟩
  · rw [← offendingToken_eq_nil_iff]
    split
    · rename_i hnil
      exact iff_of_true rfl hnil
    · rename_i hcons
      exact iff_of_false (message_ne_atEnd _) hcons
  · obtain ⟨rest, hlines⟩ := Text.lines_eq_cons (mt Text.trim_eq_nil_iff.1 hsome)
    obtain ⟨c, more, htoken, hblank⟩ := offendingToken_eq_cons hsome
    rw [if_neg (mt offendingToken_eq_nil_iff.1 hsome)]
    rw [offendingToken_eq] at htoken ⊢
    exact ⟨_, rest, _, hlines, rfl, quotable_take _, fun _ => length_le_of_quotable, ⟨c, more, htoken, hblank⟩, rfl⟩

theorem message_of_blamed {grammar : Grammar} {source : String} {identity : Option String} {e : Malformed}
    {n : LetOrConst.Grammar.Node} (htype : n.type = "ERROR")
    (he : parse grammar (some source) identity = .error (.malformed e)) (hn : Blamed (grammar source) n) :
    e.message = faultMessage (Text.Utf8.encode source.toList) n := by
  have hne : source ≠ "" := by
    rintro rfl
    rw [parse_empty grammar identity (.inr rfl)] at he
    cases he
  have hfound := findings_malformed? source identity (grammar source)
  rw [parse_text grammar identity hne] at he
  generalize malformed? source identity (grammar source) = found at hfound he
  cases hfound with
  | fault m blamed faulty =>
    cases he
    rw [hn.unique blamed]
    rfl
  | markup m blamed sound marked =>
    -- the node to blame is a fault of the tree
    exact absurd (.inl htype) (sound n hn.mem_preorder)
  | nothing sound plain => cases he

/-- The complaint about a fault that is not a missing node quotes what can be quoted of its text, and it is the
message of the error wherever that fault is to blame. -/
theorem faultMessage_complains (source : String) {n : LetOrConst.Grammar.Node} (htype : n.type = "ERROR")
    (hmissing : n.missing = false) :
    Complains (n.text (Text.Utf8.encode source.toList)).toList (faultMessage (Text.Utf8.encode source.toList) n) ∧
      ∀ (grammar : Grammar) (identity : Option String) (e : Malformed),
        parse grammar (some source) identity = .error (.malformed e) → Blamed (grammar source) n →
          e.message = faultMessage (Text.Utf8.encode source.toList) n :=
  ⟨complains_faultMessage _ hmissing, fun _ _ _ he hn => message_of_blamed htype he hn⟩

/-- A fault over a text that starts with a newline and goes on behind a line separator. -/
def strayParenthesis : LetOrConst.Grammar.Node := { type := "ERROR", span := ⟨0, 9⟩ }

theorem faultMessage_complains_stray :
    (strayParenthesis.type = "ERROR" ∧ strayParenthesis.missing = false) ∧
      (strayParenthesis.text (Text.Utf8.encode "\n )' \u2028x".toList)).toList =
        ['\n', ' ', ')', '\'', ' ', '\u2028', 'x'] ∧
      faultMessage (Text.Utf8.encode "\n )' \u2028x".toList) strayParenthesis = "Unexpected \")' \"" ∧
      Complains (strayParenthesis.text (Text.Utf8.encode "\n )' \u2028x".toList)).toList
        (faultMessage (Text.Utf8.encode "\n )' \u2028x".toList) strayParenthesis) :=
  ⟨⟨rfl, rfl⟩, by decide +kernel, by decide +kernel, (faultMessage_complains "\n )' \u2028x" rfl rfl).1⟩

end LetOrConst.Document
