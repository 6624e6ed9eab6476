/-
The line that an error quotes. A grammar counts rows and an error is placed at the row of the node to
blame, but it quotes the line of that number (`text_of_blamed`). Rows and lines part where a row has a
boundary inside it: the quote is right for every error down to a row exactly when no row down to it has one
(`malformed_quotes_row_iff`), and a form feed in the first row is enough for a wrong quote in the second
(`malformed_quotes_other_row`).
-/
import LetOrConst.Proofs.Document.Reject
import LetOrConst.Proofs.Text.Lines

namespace LetOrConst.Document

open LetOrConst.Grammar.Node (Blamed)

/-- An error at the node to blame quotes the line with the number of that node's row. -/
theorem text_of_blamed {grammar : Grammar} {source : String} {identity : Option String} {e : Malformed}
    {n : LetOrConst.Grammar.Node} (hne : source ≠ "")
    (he : parse grammar (some source) identity = .error (.malformed e)) (hn : Blamed (grammar source) n) :
    e.text = Text.lineAt source n.point.row := by
  have hfound := findings_malformed? source identity (grammar source)
  rw [parse_text grammar identity hne] at he
  generalize malformed? source identity (grammar source) = found at hfound he
  cases hfound with
  | fault m blamed faulty =>
    cases he
    rw [hn.unique blamed]
    rfl
  | markup m blamed sound marked =>
    cases he
    rw [hn.unique blamed]
    rfl
  | nothing sound plain => cases he

/-- A tree that is a single fault in the given row. -/
def faultInRow (row : Nat) : LetOrConst.Grammar.Node := { type := "ERROR", point := ⟨row, 0⟩ }

theorem blamed_faultInRow (row : Nat) : Blamed (faultInRow row) (faultInRow row) :=
  .whole (.inl rfl) fun m hm => by cases hm

theorem parse_faultInRow {source : String} (hne : source ≠ "") (row : Nat) :
    ∃ e, parse (fun _ => faultInRow row) (some source) none = .error (.malformed e) := by
  have hmem : faultInRow row ∈ (faultInRow row).preorder := by
    rw [Grammar.Node.preorder_eq]
    exact List.mem_cons_self
  obtain ⟨m, hm, -⟩ := Grammar.Node.firstFault?_of_faulty ⟨faultInRow row, hmem, .inl rfl⟩
  rw [parse_text _ none hne, malformed?, hm]
  exact ⟨_, rfl⟩

/-- An error quotes the piece with the number of its row out of the rows cut at the boundaries inside them.
For all errors down to row `r`, that is the row itself exactly when no row down to `r` has such a boundary. -/
theorem malformed_quotes_row_iff {source : String} (hne : source ≠ "") (r : Nat) :
    (∀ (grammar : Grammar) (identity : Option String) (e : Malformed) (n : LetOrConst.Grammar.Node),
      parse grammar (some source) identity = .error (.malformed e) → Blamed (grammar source) n →
        e.text = String.ofList ((Text.cut (Text.rows source.toList)).getD n.point.row [])) ∧
    ((∀ (grammar : Grammar) (identity : Option String) (e : Malformed) (n : LetOrConst.Grammar.Node),
      parse grammar (some source) identity = .error (.malformed e) → Blamed (grammar source) n → n.point.row ≤ r →
        e.text = Text.rowAt source n.point.row) ↔
      ∀ row ∈ (Text.rows source.toList).take (r + 1), ∀ c ∈ row, Text.isLineBreak c = false) := by
  have hcut : ∀ (grammar : Grammar) (identity : Option String) (e : Malformed) (n : LetOrConst.Grammar.Node),
      parse grammar (some source) identity = .error (.malformed e) → Blamed (grammar source) n →
        e.text = String.ofList ((Text.cut (Text.rows source.toList)).getD n.point.row []) := by
    intro grammar identity e n he hn
    rw [text_of_blamed hne he hn, Text.lineAt, Text.getD_lines]
  refine ⟨hcut, ?_⟩
  rw [← Text.getD_cut_eq_iff]
  constructor
  · intro h k hk
    -- the quote of a text that is rejected in row `k`
    obtain ⟨e, he⟩ := parse_faultInRow hne k
    have hquote := h _ none e _ he (blamed_faultInRow k) hk
    rw [hcut _ none e _ he (blamed_faultInRow k)] at hquote
    exact String.ofList_injective hquote
  · intro h grammar identity e n he hn hr
    rw [hcut grammar identity e n he hn, h _ hr, Text.rowAt]

theorem malformed_quotes_row_returns : ("x;\r\n)" ≠ "" ∧
    ∀ row ∈ (Text.rows "x;\r\n)".toList).take 2, ∀ c ∈ row, Text.isLineBreak c = false) ∧
    ∀ (grammar : Grammar) (identity : Option String) (e : Malformed) (n : LetOrConst.Grammar.Node),
      parse grammar (some "x;\r\n)") identity = .error (.malformed e) → Blamed (grammar "x;\r\n)") n →
        n.point.row ≤ 1 → e.text = Text.rowAt "x;\r\n)" n.point.row := by
  have hne : "x;\r\n)" ≠ "" := by decide
  have hplain : ∀ row ∈ (Text.rows "x;\r\n)".toList).take 2, ∀ c ∈ row, Text.isLineBreak c = false := by
    have hrows : Text.rows "x;\r\n)".toList = [['x', ';'], [')']] := by decide +kernel
    rw [hrows]
    simp [Text.isLineBreak]
  exact ⟨⟨hne, hplain⟩, (malformed_quotes_row_iff hne 1).2.2 hplain⟩

/-- The tree of `a;`, a form feed, `b;` and, in the next row, a closing parenthesis too many. -/
def strayTree : LetOrConst.Grammar.Node :=
  { type := "program", span := ⟨0, 7⟩, children := [
      { type := "expression_statement", span := ⟨0, 2⟩, children := [{ type := "identifier", span := ⟨0, 1⟩ }] },
      { type := "expression_statement", point := ⟨0, 3⟩, span := ⟨3, 5⟩, children := [
        { type := "identifier", point := ⟨0, 3⟩, span := ⟨3, 4⟩ }] },
      { type := "ERROR", point := ⟨1, 0⟩, span := ⟨6, 7⟩ }] }

/-- The error is in the second row, which is `)`, and it quotes what stands behind the form feed in the
first. -/
theorem malformed_quotes_other_row :
    ∃ n e, Blamed strayTree n ∧ n.point.row = 1 ∧
      parse (fun _ => strayTree) (some "a;\x0cb;\n)") none = .error (.malformed e) ∧
        e = ⟨"Unexpected ')'", 2, 1, "b;", none⟩ ∧ Text.rowAt "a;\x0cb;\n)" 1 = ")" := by
  obtain ⟨n, hn, hblamed⟩ := Grammar.Node.firstFault?_of_faulty
    (Grammar.Node.hasFault_iff.1 (by decide +kernel : strayTree.hasFault = true))
  have hrow : strayTree.firstFault?.map (·.point.row) = some 1 := by decide +kernel
  rw [hn] at hrow
  have herror : malformed? "a;\x0cb;\n)" none strayTree = some ⟨"Unexpected ')'", 2, 1, "b;", none⟩ := by
    decide +kernel
  refine ⟨n, _, hblamed, Option.some.inj hrow, ?_, rfl, by decide +kernel⟩
  rw [parse_text _ none (by decide), herror]

end LetOrConst.Document
