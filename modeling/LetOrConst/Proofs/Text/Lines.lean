/-
Rows and lines. A row ends at a newline only, and a carriage return before the newline does not belong to
it; a line ends at any boundary. The lines of a text are its rows, each cut at the boundaries that are left
in it (`cut`), up to an empty line at the very end (`cut_rows`). So lines and rows with the same number agree
as far as no row has a boundary inside it, and no further (`getD_cut_eq_iff`).
-/
import LetOrConst.Text.Lines

namespace LetOrConst.Text

/-- A text without the carriage return at its end, if there is one. -/
def dropReturn (cs : List Char) : List Char := if cs.getLast? = some '\r' then cs.dropLast else cs

/-- The rows of a text: what stands between newlines, each without a carriage return at its end. -/
def rows (cs : List Char) : List (List Char) := (cs.splitOn '\n').map dropReturn

/-- The row with the given number, empty when there are not that many. -/
def rowAt (s : String) (row : Nat) : String := String.ofList ((rows s.toList).getD row [])

/-- Rows cut at every boundary inside them. -/
def cut (rs : List (List Char)) : List (List Char) := rs.flatMap (·.splitOnP isLineBreak)

/-! ## Lines out of rows -/

theorem rows_ne_nil (cs : List Char) : rows cs ≠ [] := by
  unfold rows
  simp

theorem rows_newline (cs : List Char) : rows ('\n' :: cs) = [] :: rows cs := by
  unfold rows List.splitOn
  rw [List.splitOnP_cons_eq_if_modifyHead]
  rfl

theorem rows_return (cs : List Char) : rows ('\r' :: '\n' :: cs) = [] :: rows cs := by
  unfold rows List.splitOn
  rw [List.splitOnP_cons_eq_if_modifyHead, List.splitOnP_cons_eq_if_modifyHead]
  rfl

theorem dropReturn_cons {c : Char} {cs : List Char} (h : c ≠ '\r' ∨ cs ≠ []) :
    dropReturn (c :: cs) = c :: dropReturn cs := by
  unfold dropReturn
  cases cs with
  | nil =>
    have hc : c ≠ '\r' := by simpa using h
    simp [hc]
  | cons d cs =>
    rw [List.getLast?_cons_cons, List.dropLast_cons_cons]
    split <;> rfl

theorem rows_cons {c : Char} {cs : List Char} (hc : c ≠ '\n')
    (h : c = '\r' → ∃ d rest, cs = d :: rest ∧ d ≠ '\n') : rows (c :: cs) = (rows cs).modifyHead (c :: ·) := by
  have hsplit : (c :: cs).splitOn '\n' = (cs.splitOn '\n').modifyHead (c :: ·) := by
    unfold List.splitOn
    rw [List.splitOnP_cons_eq_if_modifyHead, if_neg (by simpa using hc)]
  unfold rows
  rw [hsplit]
  cases hcs : cs.splitOn '\n' with
  | nil => rfl
  | cons p ps =>
    have hp : c ≠ '\r' ∨ p ≠ [] := by
      by_cases hr : c = '\r'
      · obtain ⟨d, rest, rfl, hd⟩ := h hr
        -- what follows the carriage return is part of the same row
        unfold List.splitOn at hcs
        rw [List.splitOnP_cons_eq_if_modifyHead, if_neg (by simpa using hd)] at hcs
        cases hrest : List.splitOnP (· == '\n') rest with
        | nil => exact absurd hrest (List.splitOnP_ne_nil _ _)
        | cons q qs =>
          rw [hrest] at hcs
          cases hcs
          exact .inr (List.cons_ne_nil _ _)
      · exact .inl hr
    rw [List.modifyHead_cons, List.map_cons, List.map_cons, List.modifyHead_cons, dropReturn_cons hp]

theorem cut_modifyHead (c : Char) {rs : List (List Char)} (hrs : rs ≠ []) :
    cut (rs.modifyHead (c :: ·)) = if isLineBreak c then [] :: cut rs else (cut rs).modifyHead (c :: ·) := by
  obtain ⟨r, rs, rfl⟩ := List.exists_cons_of_ne_nil hrs
  unfold cut
  rw [List.modifyHead_cons, List.flatMap_cons, List.flatMap_cons, List.splitOnP_cons_eq_if_modifyHead]
  split
  · rfl
  · obtain ⟨q, qs, hq⟩ := List.exists_cons_of_ne_nil (List.splitOnP_ne_nil isLineBreak r)
    rw [hq]
    rfl

theorem cut_cons_nil (rs : List (List Char)) : cut ([] :: rs) = [] :: cut rs := rfl

theorem cut_ne_nil {rs : List (List Char)} (h : rs ≠ []) : cut rs ≠ [] := by
  obtain ⟨r, rs, rfl⟩ := List.exists_cons_of_ne_nil h
  unfold cut
  simp

/-- The lines of a text are its rows cut at the boundaries inside them; what is cut may have one more line,
an empty one at the end. -/
theorem cut_rows (cs : List Char) : cut (rows cs) = lines cs ∨ cut (rows cs) = lines cs ++ [[]] := by
  have hnext : ∀ {xs ys : List (List Char)} (x : List Char), xs = ys ∨ xs = ys ++ [[]] →
      x :: xs = x :: ys ∨ x :: xs = (x :: ys) ++ [[]] := by
    rintro xs ys x (rfl | rfl)
    · exact .inl rfl
    · exact .inr rfl
  fun_induction lines cs with
  | case1 => exact .inr rfl
  | case2 rest ih =>
    rw [rows_return, cut_cons_nil]
    exact hnext [] ih
  | case3 c rest hcrlf hbreak ih =>
    by_cases hc : c = '\n'
    · subst hc
      rw [rows_newline, cut_cons_nil]
      exact hnext [] ih
    · by_cases hend : c = '\r' ∧ rest = []
      · obtain ⟨rfl, rfl⟩ := hend
        exact .inl rfl
      · have hrows : rows (c :: rest) = (rows rest).modifyHead (c :: ·) := by
          refine rows_cons hc fun hr => ?_
          cases rest with
          | nil => exact absurd ⟨hr, rfl⟩ hend
          | cons d rest => exact ⟨d, rest, rfl, fun hd => hcrlf rest hr (by rw [hd])⟩
        rw [hrows, cut_modifyHead c (rows_ne_nil rest), if_pos hbreak]
        exact hnext [] ih
  | case4 c rest hcrlf hplain ih =>
    have hn : c ≠ '\n' := by
      rintro rfl
      exact hplain rfl
    have hr : c ≠ '\r' := by
      rintro rfl
      exact hplain rfl
    rw [rows_cons hn fun h => absurd h hr, cut_modifyHead c (rows_ne_nil rest), if_neg hplain]
    -- a character that ends no line goes to the first line, which it may open
    cases hlines : lines rest with
    | nil =>
      rw [hlines] at ih
      rcases ih with ih | ih
      · exact absurd ih (cut_ne_nil (rows_ne_nil rest))
      · rw [ih]
        exact .inl rfl
    | cons l ls =>
      rw [hlines] at ih
      rcases ih with ih | ih
      · rw [ih]
        exact .inl rfl
      · rw [ih]
        exact .inr rfl

/-- A line is found by its number among the cut rows. -/
theorem getD_lines (cs : List Char) (k : Nat) : (lines cs).getD k [] = (cut (rows cs)).getD k [] := by
  rcases cut_rows cs with h | h
  · rw [h]
  · rw [h, List.getD_eq_getElem?_getD, List.getD_eq_getElem?_getD, List.getElem?_append]
    by_cases hk : k < (lines cs).length
    · rw [if_pos hk]
    · rw [if_neg hk, List.getElem?_eq_none (Nat.le_of_not_lt hk)]
      -- beyond the lines there is at most the empty one
      cases hj : k - (lines cs).length <;> rfl

/-- A text that is not empty has a first line, which ends before the first character that ends a line. -/
theorem lines_eq_cons {cs : List Char} (h : cs ≠ []) : ∃ rest, lines cs = cs.takeWhile (!isLineBreak ·) :: rest := by
  fun_induction lines cs with
  | case1 => exact absurd rfl h
  | case2 rest ih => exact ⟨_, rfl⟩
  | case3 c rest hcrlf hbreak ih =>
    rw [List.takeWhile_cons_of_neg (by simpa using hbreak)]
    exact ⟨_, rfl⟩
  | case4 c rest hcrlf hplain ih =>
    rw [List.takeWhile_cons_of_pos (by simpa using hplain)]
    cases rest with
    | nil => exact ⟨[], rfl⟩
    | cons d rest =>
      obtain ⟨others, hothers⟩ := ih (List.cons_ne_nil d rest)
      rw [hothers]
      exact ⟨others, rfl⟩

/-! ## Where lines and rows agree -/

theorem plain_of_head_splitOnP {p : Char → Bool} {cs : List Char} (h : (cs.splitOnP p).headD [] = cs) :
    ∀ c ∈ cs, p c = false := by
  induction cs with
  | nil => simp
  | cons d cs ih =>
    rw [List.splitOnP_cons_eq_if_modifyHead] at h
    by_cases hd : p d = true
    · rw [if_pos hd] at h
      cases h
    · obtain ⟨q, qs, hq⟩ := List.exists_cons_of_ne_nil (List.splitOnP_ne_nil p cs)
      rw [if_neg hd, hq] at h
      rw [hq] at ih
      have hcs : q = cs := by simpa using h
      rintro c (_ | ⟨_, hc⟩)
      · exact Bool.not_eq_true _ ▸ hd
      · exact ih hcs c hc

theorem cut_cons_plain {row : List Char} (h : ∀ c ∈ row, isLineBreak c = false) (rs : List (List Char)) :
    cut (row :: rs) = row :: cut rs := by
  unfold cut
  rw [List.flatMap_cons, List.splitOnP_eq_singleton h]
  rfl

/-- Cutting keeps all rows up to a number where they are exactly when none of them has a boundary inside. -/
theorem getD_cut_eq_iff (rs : List (List Char)) (r : Nat) :
    (∀ k ≤ r, (cut rs).getD k [] = rs.getD k []) ↔
      ∀ row ∈ rs.take (r + 1), ∀ c ∈ row, isLineBreak c = false := by
  induction rs generalizing r with
  | nil => simp [cut]
  | cons row rs ih =>
    rw [List.take_succ_cons, List.forall_mem_cons]
    constructor
    · intro h
      have hrow : ∀ c ∈ row, isLineBreak c = false := by
        have hfirst := h 0 (Nat.zero_le r)
        obtain ⟨q, qs, hq⟩ := List.exists_cons_of_ne_nil (List.splitOnP_ne_nil isLineBreak row)
        have hcut : cut (row :: rs) = q :: (qs ++ cut rs) := by
          unfold cut
          rw [List.flatMap_cons, hq]
          rfl
        rw [hcut] at hfirst
        exact plain_of_head_splitOnP (by rw [hq]; exact hfirst)
      refine ⟨hrow, ?_⟩
      rw [cut_cons_plain hrow] at h
      cases r with
      | zero => simp
      | succ r => exact (ih r).1 fun k hk => h (k + 1) (Nat.succ_le_succ hk)
    · rintro ⟨hrow, hrest⟩ k hk
      rw [cut_cons_plain hrow]
      cases k with
      | zero => rfl
      | succ k =>
        cases r with
        | zero => omega
        | succ r => exact (ih r).2 hrest k (Nat.le_of_succ_le_succ hk)

/-! ## Line ends in one spelling -/

theorem return_notMem_unifyNewlines (cs : List Char) : '\r' ∉ unifyNewlines cs := by
  fun_induction unifyNewlines cs with
  | case1 => simp
  | case2 rest ih => simp [ih]
  | case3 c rest hne ih =>
    by_cases hc : c = '\r' <;> simp [hc, ih, Ne.symm]

/-- A text without carriage returns has its line ends in one spelling, and no other text has. -/
theorem unifyNewlines_eq_self_iff {cs : List Char} : unifyNewlines cs = cs ↔ '\r' ∉ cs := by
  constructor
  · intro h
    rw [← h]
    exact return_notMem_unifyNewlines cs
  · intro h
    fun_induction unifyNewlines cs with
    | case1 => rfl
    | case2 rest ih => simp at h
    | case3 c rest hne ih =>
      rw [List.mem_cons, not_or] at h
      rw [if_neg (Ne.symm h.1), ih h.2]

end LetOrConst.Text
