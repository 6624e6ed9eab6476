/-
What is written as JSON is read back. Every escape gives the units of its character (`readUnits_escapeChar`),
a number is followed by nothing that could belong to it (`Ends`), and the rendering of a value is cut into the
lexemes of the value (`tokens?_renderAt`), which put it together again; so the text of a value denotes it
(`decode?_render`). The text is plain ASCII (`ascii_renderAt`).
-/
import LetOrConst.Proofs.Report.Decode

namespace LetOrConst.Report

/-! ## Strings -/

namespace Decode

theorem joinUnits_cons {u : Nat} (h : ¬ (0xd800 ≤ u ∧ u < 0xe000)) (us : List Nat) :
    joinUnits (u :: us) = (joinUnits us).map (Char.ofNat u :: ·) := by
  cases us with
  | nil => simp [joinUnits, h]
  | cons v us => rw [joinUnits, if_neg (by omega), if_neg (by omega)]

theorem joinUnits_units (c : Char) (us : List Nat) : joinUnits (units c ++ us) = (joinUnits us).map (c :: ·) := by
  have hvalid : c.toNat < 0xd800 ∨ 0xdfff < c.toNat ∧ c.toNat < 0x110000 := c.valid
  unfold units
  split
  · rw [List.singleton_append, joinUnits_cons (by omega), Char.ofNat_toNat]
  · rename_i hlarge
    generalize hk : c.toNat - 0x10000 = k
    have hhalves : 0x10000 + (0xd800 + k / 0x400 - 0xd800) * 0x400 + (0xdc00 + k % 0x400 - 0xdc00) = c.toNat := by omega
    rw [List.cons_append, List.singleton_append, joinUnits, if_pos (by omega), if_pos (by omega), hhalves,
      Char.ofNat_toNat]

theorem joinUnits_flatMap (cs : List Char) : joinUnits (cs.flatMap units) = some cs := by
  induction cs with
  | nil => rfl
  | cons c cs ih => rw [List.flatMap_cons, joinUnits_units, ih]; rfl

theorem hexValue?_digitChar : ∀ d < 16, hexValue? (Nat.digitChar d) = some d := by decide

theorem hexValues?_hexDigits {n : Nat} (h : n < 0x10000) : hexValues? 0 (Text.hexDigits 4 n) = some n := by
  have hdigit : ∀ m, hexValue? (Nat.digitChar (m % 16)) = some (m % 16) := fun m => hexValue?_digitChar _ (by omega)
  simp only [Text.hexDigits, List.nil_append, List.cons_append, hexValues?, hdigit, Option.bind_some]
  congr 1
  omega

theorem readUnits_escapeUnit {n : Nat} (h : n < 0x10000) (rest : List Char) :
    readUnits (Json.escapeUnit n ++ rest) = (readUnits rest).map fun r => (n :: r.1, r.2) := by
  have hvalue := hexValues?_hexDigits h
  simp only [Json.escapeUnit, Text.hexDigits, List.nil_append, List.cons_append] at hvalue ⊢
  rw [readUnits, hvalue, Option.bind_some]

/-- A character that is written as it is. -/
theorem readUnits_plain {c : Char} (hquote : c ≠ '"') (hslash : c ≠ '\\') (hvisible : 0x20 ≤ c.toNat)
    (rest : List Char) :
    readUnits (c :: rest) = (readUnits rest).map fun r => (units c ++ r.1, r.2) := by
  rw [readUnits, if_neg]
  · rintro (hlow | hc)
    · omega
    · exact hslash hc
  · exact hquote
  · rintro _ _ _ _ _ hc
    exact absurd hc hslash
  · rintro _ _ hc
    exact absurd hc hslash

/-- An escape, or a plain character, gives the units of its character. -/
theorem readUnits_escapeChar (c : Char) (rest : List Char) :
    readUnits (Json.escapeChar c ++ rest) = (readUnits rest).map fun r => (units c ++ r.1, r.2) := by
  have hshort : ∀ n : Nat, c.toNat = n → c = Char.ofNat n := by
    rintro n rfl
    exact (Char.ofNat_toNat c).symm
  unfold Json.escapeChar
  split
  · subst c; rfl
  split
  · subst c; rfl
  split
  · subst c; rfl
  split
  · subst c; rfl
  split
  · subst c; rfl
  split
  · rename_i h; rw [hshort 8 h]; rfl
  split
  · rename_i h; rw [hshort 12 h]; rfl
  split
  · rename_i hquote hslash _ _ _ _ _ hvisible
    exact readUnits_plain hquote hslash hvisible.1 rest
  split
  · rename_i hsmall
    rw [readUnits_escapeUnit hsmall, units, if_pos hsmall]
    rfl
  · -- a pair of surrogates, each escaped
    rename_i hlarge
    have hvalid : c.toNat < 0xd800 ∨ 0xdfff < c.toNat ∧ c.toNat < 0x110000 := c.valid
    rw [List.append_assoc, readUnits_escapeUnit (by omega), readUnits_escapeUnit (by omega), Option.map_map, units,
      if_neg hlarge]
    rfl

theorem readUnits_flatMap (cs rest : List Char) :
    readUnits (cs.flatMap Json.escapeChar ++ '"' :: rest) = some (cs.flatMap units, rest) := by
  induction cs with
  | nil => rfl
  | cons c cs ih => rw [List.flatMap_cons, List.append_assoc, readUnits_escapeChar, ih]; rfl

theorem lexeme_string (s : String) (rest : List Char) :
    lexeme '"' (s.toList.flatMap Json.escapeChar ++ '"' :: rest) = some (.text s, rest) := by
  show readString _ = _
  rw [readString, readUnits_flatMap, Option.bind_some, joinUnits_flatMap]
  simp

/-! ## Numbers -/

/-- What follows cannot belong to a number before it. -/
def Ends (rest : List Char) : Prop :=
  ∀ c ∈ rest.head?, c.isDigit = false ∧ c ≠ '.' ∧ c ≠ 'e' ∧ c ≠ 'E'

theorem ends_cons {c : Char} (h : c = ',' ∨ c = '\n') (rest : List Char) : Ends (c :: rest) := by
  intro d hd
  cases hd
  rcases h with rfl | rfl <;> decide

theorem readDigits_append {ds rest : List Char} (hne : ds ≠ []) (hds : ∀ d ∈ ds, d.isDigit = true) (hrest : Ends rest) :
    readDigits (ds ++ rest) = some (ds, rest) := by
  have hstop : rest.takeWhile Char.isDigit = [] ∧ rest.dropWhile Char.isDigit = rest := by
    cases rest with
    | nil => exact ⟨rfl, rfl⟩
    | cons c rest =>
      have hc := (hrest c rfl).1
      exact ⟨List.takeWhile_cons_of_neg (by simp [hc]), List.dropWhile_cons_of_neg (by simp [hc])⟩
  unfold readDigits
  rw [List.takeWhile_append_of_pos hds, List.dropWhile_append_of_pos hds, hstop.1, hstop.2, List.append_nil, if_neg hne]

theorem readFraction_ends {rest : List Char} (h : Ends rest) : readFraction rest = some ([], rest) := by
  unfold readFraction
  split
  · exact absurd rfl (h '.' rfl).2.1
  · rfl

theorem readExponent_ends {rest : List Char} (h : Ends rest) : readExponent rest = some (0, rest) := by
  cases rest with
  | nil => rfl
  | cons c rest =>
    obtain ⟨-, -, he, hE⟩ := h c rfl
    rw [readExponent, if_neg (by simp [he, hE])]

theorem eq_zero_of_head?_toDigits {n : Nat} (h : (Nat.toDigits 10 n).head? = some '0') : n = 0 := by
  induction n using Nat.strongRecOn with
  | _ n ih =>
    by_cases hsmall : n < 10
    · have hdigit : ∀ n < 10, Nat.digitChar n = '0' → n = 0 := by decide
      rw [Nat.toDigits_of_lt_base hsmall, List.head?_cons, Option.some_inj] at h
      exact hdigit n hsmall h
    · have hhead : (Nat.toDigits 10 (n / 10)).head? = some '0' := by
        obtain ⟨d, ds, hds⟩ := List.exists_cons_of_ne_nil (Nat.toDigits_ne_nil (n := n / 10) (b := 10))
        rw [Nat.toDigits_of_base_le (by omega) (by omega), hds, List.cons_append, List.head?_cons] at h
        rw [hds, List.head?_cons, h]
      have := ih (n / 10) (by omega) hhead
      omega

theorem readNumber_append {minus : Bool} {n : Nat} {cs rest : List Char}
    (hminus : readMinus cs = (minus, Nat.toDigits 10 n ++ rest)) (hrest : Ends rest) :
    readNumber cs = some (.scalar (.number (if minus then -n else n) 0), rest) := by
  have hdigits : readDigits (Nat.toDigits 10 n ++ rest) = some (Nat.toDigits 10 n, rest) :=
    readDigits_append Nat.toDigits_ne_nil (fun d hd => Nat.isDigit_of_mem_toDigits (by decide) (by decide) hd) hrest
  have hzero : ¬ ((Nat.toDigits 10 n).head? = some '0' ∧ Nat.toDigits 10 n ≠ ['0']) := by
    rintro ⟨hhead, hne⟩
    rw [eq_zero_of_head?_toDigits hhead] at hne
    exact hne (Nat.toDigits_zero 10)
  have hvalue : numberOf minus (Nat.toDigits 10 n) [] 0 = .number (if minus then -n else n) 0 := by
    simp [numberOf, Nat.ofDigitChars_ten_toDigits]
  rw [readNumber, hminus, hdigits, Option.bind_some, if_neg hzero, readFraction_ends hrest, Option.bind_some,
    readExponent_ends hrest, Option.map_some, hvalue]

theorem lexeme_digit {d : Char} (h : d.isDigit = true) (cs : List Char) : lexeme d cs = readNumber (d :: cs) := by
  unfold lexeme
  split
  case h_8 => rw [if_pos (.inr h)]
  all_goals cases h

theorem isBlank_digit {d : Char} (h : d.isDigit = true) : isBlank d = false := by
  rw [← Bool.not_eq_true]
  intro hblank
  simp only [isBlank, Bool.or_eq_true, decide_eq_true_eq] at hblank
  rcases hblank with ((rfl | rfl) | rfl) | rfl <;> cases h

theorem readMinus_digit {d : Char} (h : d.isDigit = true) (cs : List Char) :
    readMinus (d :: cs) = (false, d :: cs) := by
  unfold readMinus
  split
  · rename_i heq
    cases heq
    cases h
  · rfl

/-- The text of an integer is a lexeme. -/
theorem lexeme_int (n : Int) {rest : List Char} (hrest : Ends rest) :
    ∃ c cs, (toString n).toList ++ rest = c :: cs ∧ isBlank c = false ∧
      lexeme c cs = some (.scalar (.number n 0), rest) := by
  cases n with
  | ofNat m =>
    obtain ⟨d, ds, hds⟩ := List.exists_cons_of_ne_nil (Nat.toDigits_ne_nil (n := m) (b := 10))
    have hdigit : d.isDigit = true :=
      Nat.isDigit_of_mem_toDigits (b := 10) (n := m) (by decide) (by decide) (hds ▸ List.mem_cons_self)
    have htext : (toString (Int.ofNat m)).toList ++ rest = d :: (ds ++ rest) := by
      simp [toString, Int.repr, Nat.repr_eq_ofList_toDigits, hds]
    refine ⟨d, _, htext, isBlank_digit hdigit, ?_⟩
    rw [lexeme_digit hdigit]
    have hminus : readMinus (d :: (ds ++ rest)) = (false, Nat.toDigits 10 m ++ rest) := by
      rw [readMinus_digit hdigit, hds, List.cons_append]
    exact readNumber_append hminus hrest
  | negSucc m =>
    have htext : (toString (Int.negSucc m)).toList ++ rest = '-' :: (Nat.toDigits 10 (m + 1) ++ rest) := by
      simp [toString, Int.repr, Nat.repr_eq_ofList_toDigits]
    refine ⟨'-', _, htext, by decide, ?_⟩
    have hminus : readMinus ('-' :: (Nat.toDigits 10 (m + 1) ++ rest)) = (true, Nat.toDigits 10 (m + 1) ++ rest) := rfl
    exact readNumber_append hminus hrest

end Decode

/-! ## Lexemes of a value -/

namespace Json

open Decode

mutual

/-- The lexemes that a value is written with. -/
def tokens : Json → List Token
  | null => [.scalar .null]
  | int n => [.scalar (.number n 0)]
  | str s => [.text s]
  | arr [] => [.openArray, .closeArray]
  | arr (x :: rest) => .openArray :: (tokens x ++ (elementTokens rest ++ [.closeArray]))
  | obj [] => [.openObject, .closeObject]
  | obj ((k, v) :: rest) => .openObject :: .text k :: .colon :: (tokens v ++ (memberTokens rest ++ [.closeObject]))

/-- The lexemes of the elements after the first. -/
def elementTokens : List Json → List Token
  | [] => []
  | x :: rest => .comma :: (tokens x ++ elementTokens rest)

/-- The lexemes of the members after the first. -/
def memberTokens : List (String × Json) → List Token
  | [] => []
  | (k, v) :: rest => .comma :: .text k :: .colon :: (tokens v ++ memberTokens rest)

end

mutual

/-- What a value is when it is read. -/
def value : Json → Value
  | null => .null
  | int n => .number n 0
  | str s => .string s
  | arr elements => .array (elementValues elements)
  | obj members => .object (memberValues members)

/-- What elements are when they are read. -/
def elementValues : List Json → List Value
  | [] => []
  | x :: rest => value x :: elementValues rest

/-- What members are when they are read. -/
def memberValues : List (String × Json) → List (String × Value)
  | [] => []
  | (k, v) :: rest => (k, value v) :: memberValues rest

end

theorem tokens?_blank {c : Char} (h : isBlank c = true) (cs : List Char) : tokens? (c :: cs) = tokens? cs := by
  rw [tokens?, if_pos h]

theorem tokens?_lexeme {c : Char} {cs rest : List Char} {t : Token} (hblank : isBlank c = false)
    (h : lexeme c cs = some (t, rest)) : tokens? (c :: cs) = (tokens? rest).map (t :: ·) := by
  rw [tokens?, if_neg (by simp [hblank])]
  split
  · rename_i heq
    rw [h] at heq
    cases heq
    rfl
  · rename_i heq
    rw [h] at heq
    cases heq

theorem tokens?_newline (level : Nat) (cs : List Char) : tokens? (newline level ++ cs) = tokens? cs := by
  have hspaces : ∀ k, tokens? (List.replicate k ' ' ++ cs) = tokens? cs := by
    intro k
    induction k with
    | zero => rfl
    | succ k ih => rw [List.replicate_succ, List.cons_append, tokens?_blank (by decide), ih]
  rw [newline, List.cons_append, tokens?_blank (by decide), hspaces]

theorem tokens?_string (s : String) (rest : List Char) :
    tokens? (renderString s ++ rest) = (tokens? rest).map (.text s :: ·) := by
  have hquotes : renderString s ++ rest = '"' :: (s.toList.flatMap escapeChar ++ '"' :: rest) := by
    simp [renderString]
  rw [hquotes]
  exact tokens?_lexeme (by decide) (lexeme_string s rest)

theorem tokens?_int (n : Int) {rest : List Char} (h : Ends rest) :
    tokens? ((toString n).toList ++ rest) = (tokens? rest).map (.scalar (.number n 0) :: ·) := by
  obtain ⟨c, cs, htext, hblank, hlexeme⟩ := lexeme_int n h
  rw [htext]
  exact tokens?_lexeme hblank hlexeme

theorem tokens?_key (k : String) (rest : List Char) :
    tokens? (renderString k ++ ([':', ' '] ++ rest)) = (tokens? rest).map fun ts => .text k :: .colon :: ts := by
  rw [tokens?_string, List.cons_append, tokens?_lexeme (by decide) rfl, List.singleton_append,
    tokens?_blank (by decide), Option.map_map]
  rfl

theorem ends_renderElements (level : Nat) (xs : List Json) {rest : List Char} (h : Ends rest) :
    Ends (renderElements level xs ++ rest) := by
  cases xs with
  | nil => exact h
  | cons x xs => rw [renderElements]; exact ends_cons (.inl rfl) _

theorem ends_renderMembers (level : Nat) (ms : List (String × Json)) {rest : List Char} (h : Ends rest) :
    Ends (renderMembers level ms ++ rest) := by
  cases ms with
  | nil => exact h
  | cons m ms => rw [renderMembers]; exact ends_cons (.inl rfl) _

mutual

/-- The rendering of a value is cut into the lexemes of the value. -/
theorem tokens?_renderAt (level : Nat) : ∀ (v : Json) {rest : List Char}, Ends rest →
    tokens? (renderAt level v ++ rest) = (tokens? rest).map (v.tokens ++ ·)
  | null, rest, h => tokens?_lexeme (by decide) rfl
  | int n, rest, h => tokens?_int n h
  | str s, rest, h => tokens?_string s rest
  | arr [], rest, h => by
    rw [renderAt, List.cons_append, tokens?_lexeme (by decide) rfl, List.cons_append, tokens?_lexeme (by decide) rfl,
      Option.map_map]
    rfl
  | arr (x :: xs), rest, h => by
    have hend : Ends (newline level ++ ([']'] ++ rest)) := ends_cons (.inr rfl) _
    rw [renderAt, List.cons_append, tokens?_lexeme (by decide) rfl]
    simp only [List.append_assoc]
    rw [tokens?_newline, tokens?_renderAt (level + 1) x (ends_renderElements level xs hend),
      tokens?_renderElements level xs hend, tokens?_newline, List.singleton_append, tokens?_lexeme (by decide) rfl]
    simp [tokens, Function.comp_def]
  | obj [], rest, h => by
    rw [renderAt, List.cons_append, tokens?_lexeme (by decide) rfl, List.cons_append, tokens?_lexeme (by decide) rfl,
      Option.map_map]
    rfl
  | obj ((k, v) :: ms), rest, h => by
    have hend : Ends (newline level ++ (['}'] ++ rest)) := ends_cons (.inr rfl) _
    rw [renderAt, List.cons_append, tokens?_lexeme (by decide) rfl]
    simp only [List.append_assoc]
    rw [tokens?_newline, tokens?_key, tokens?_renderAt (level + 1) v (ends_renderMembers level ms hend),
      tokens?_renderMembers level ms hend, tokens?_newline, List.singleton_append, tokens?_lexeme (by decide) rfl]
    simp [tokens, Function.comp_def]

theorem tokens?_renderElements (level : Nat) : ∀ (xs : List Json) {rest : List Char}, Ends rest →
    tokens? (renderElements level xs ++ rest) = (tokens? rest).map (elementTokens xs ++ ·)
  | [], rest, h => by simp [renderElements, elementTokens]
  | x :: xs, rest, h => by
    rw [renderElements, List.cons_append, tokens?_lexeme (by decide) rfl]
    simp only [List.append_assoc]
    rw [tokens?_newline, tokens?_renderAt (level + 1) x (ends_renderElements level xs h),
      tokens?_renderElements level xs h]
    simp [elementTokens, Function.comp_def]

theorem tokens?_renderMembers (level : Nat) : ∀ (ms : List (String × Json)) {rest : List Char}, Ends rest →
    tokens? (renderMembers level ms ++ rest) = (tokens? rest).map (memberTokens ms ++ ·)
  | [], rest, h => by simp [renderMembers, memberTokens]
  | (k, v) :: ms, rest, h => by
    rw [renderMembers, List.cons_append, tokens?_lexeme (by decide) rfl]
    simp only [List.append_assoc]
    rw [tokens?_newline, tokens?_key, tokens?_renderAt (level + 1) v (ends_renderMembers level ms h),
      tokens?_renderMembers level ms h]
    simp [memberTokens, Function.comp_def]

end

/-! ## Lexemes put together -/

/-- After an opening bracket a value is the first element. -/
theorem foldlM_first (v : Json) (stack : List Frame) :
    v.tokens.foldlM Reading.step ⟨stack, .elementOrEnd⟩ =
      v.tokens.foldlM Reading.step ⟨.array [] :: stack, .value⟩ := by
  cases v with
  | null => rfl
  | int n => rfl
  | str s => rfl
  | arr xs => cases xs <;> rfl
  | obj ms => cases ms <;> rfl

mutual

/-- Where a value may stand, the lexemes of a value are read as this value. -/
theorem foldlM_tokens : ∀ (v : Json) (stack : List Frame),
    v.tokens.foldlM Reading.step ⟨stack, .value⟩ = some ⟨stack, .after v.value⟩
  | null, stack => rfl
  | int n, stack => rfl
  | str s, stack => rfl
  | arr [], stack => rfl
  | arr (x :: xs), stack => by
    rw [tokens, List.foldlM_cons]
    show (tokens x ++ _).foldlM Reading.step ⟨stack, .elementOrEnd⟩ = _
    rw [List.foldlM_append, foldlM_first, foldlM_tokens x]
    exact foldlM_elements xs [] _ stack
  | obj [], stack => rfl
  | obj ((k, v) :: ms), stack => by
    rw [tokens, List.foldlM_cons]
    show (tokens v ++ _).foldlM Reading.step ⟨.object [] k :: stack, .value⟩ = _
    rw [List.foldlM_append, foldlM_tokens v]
    exact foldlM_members ms [] k _ stack

theorem foldlM_elements : ∀ (xs : List Json) (before : List Value) (v : Value) (stack : List Frame),
    (elementTokens xs ++ [Token.closeArray]).foldlM Reading.step ⟨.array before :: stack, .after v⟩ =
      some ⟨stack, .after (.array (before ++ v :: elementValues xs))⟩
  | [], before, v, stack => rfl
  | x :: xs, before, v, stack => by
    rw [elementTokens, List.cons_append, List.foldlM_cons]
    show (tokens x ++ elementTokens xs ++ _).foldlM Reading.step ⟨.array (before ++ [v]) :: stack, .value⟩ = _
    rw [List.append_assoc, List.foldlM_append, foldlM_tokens x]
    refine (foldlM_elements xs (before ++ [v]) _ stack).trans ?_
    rw [elementValues, List.append_assoc, List.singleton_append]

theorem foldlM_members : ∀ (ms : List (String × Json)) (before : List (String × Value)) (k : String) (v : Value)
    (stack : List Frame),
    (memberTokens ms ++ [Token.closeObject]).foldlM Reading.step ⟨.object before k :: stack, .after v⟩ =
      some ⟨stack, .after (.object (before ++ (k, v) :: memberValues ms))⟩
  | [], before, k, v, stack => rfl
  | (l, w) :: ms, before, k, v, stack => by
    rw [memberTokens, List.cons_append, List.foldlM_cons]
    show (tokens w ++ memberTokens ms ++ _).foldlM Reading.step ⟨.object (before ++ [(k, v)]) l :: stack, .value⟩ = _
    rw [List.append_assoc, List.foldlM_append, foldlM_tokens w]
    refine (foldlM_members ms (before ++ [(k, v)]) l _ stack).trans ?_
    rw [memberValues, List.append_assoc, List.singleton_append]

end

/-- The text of a value denotes it, also with a line end after it. -/
theorem decode?_render (v : Json) : decode? (v.render ++ "\n") = some v.value := by
  have htokens : tokens? (renderAt 0 v ++ ['\n']) = some v.tokens := by
    rw [tokens?_renderAt 0 v (ends_cons (.inr rfl) []), tokens?_blank (by decide), tokens?]
    simp
  have htext : (v.render ++ "\n").toList = renderAt 0 v ++ ['\n'] := by simp [render]
  rw [decode?, htext, htokens]
  show (v.tokens.foldlM Reading.step ⟨[], .value⟩ >>= Reading.result?) = _
  rw [foldlM_tokens]
  rfl

/-! ## Plain ASCII -/

/-- All characters are ASCII. -/
def IsAscii (cs : List Char) : Prop := ∀ c ∈ cs, c.toNat < 128

instance (cs : List Char) : Decidable (IsAscii cs) :=
  decidable_of_iff (cs.all fun c => c.toNat < 128) (by simp [IsAscii])

theorem isAscii_nil : IsAscii [] := by
  intro c hc
  cases hc

theorem isAscii_cons {c : Char} {cs : List Char} : IsAscii (c :: cs) ↔ c.toNat < 128 ∧ IsAscii cs :=
  List.forall_mem_cons

theorem isAscii_append {xs ys : List Char} : IsAscii (xs ++ ys) ↔ IsAscii xs ∧ IsAscii ys := List.forall_mem_append

theorem isAscii_hexDigits (width n : Nat) : IsAscii (Text.hexDigits width n) := by
  have hdigit : ∀ d < 16, (Nat.digitChar d).toNat < 128 := by decide
  induction width generalizing n with
  | zero => exact isAscii_nil
  | succ width ih =>
    rw [Text.hexDigits, isAscii_append, isAscii_cons]
    exact ⟨ih _, hdigit _ (by omega), isAscii_nil⟩

theorem isAscii_escapeUnit (n : Nat) : IsAscii (escapeUnit n) := by
  rw [escapeUnit, isAscii_cons, isAscii_cons]
  exact ⟨by decide, by decide, isAscii_hexDigits 4 n⟩

theorem isAscii_escapeChar (c : Char) : IsAscii (escapeChar c) := by
  unfold escapeChar
  iterate 7
    split
    · decide
  split
  · rename_i hvisible
    rw [isAscii_cons]
    exact ⟨by omega, isAscii_nil⟩
  split
  · exact isAscii_escapeUnit _
  · exact isAscii_append.2 ⟨isAscii_escapeUnit _, isAscii_escapeUnit _⟩

theorem isAscii_renderString (s : String) : IsAscii (renderString s) := by
  rw [renderString, isAscii_cons, isAscii_append]
  refine ⟨by decide, ?_, isAscii_cons.2 ⟨by decide, isAscii_nil⟩⟩
  intro c hc
  obtain ⟨d, -, hc⟩ := List.mem_flatMap.1 hc
  exact isAscii_escapeChar d c hc

theorem isAscii_newline (level : Nat) : IsAscii (newline level) := by
  rw [newline, isAscii_cons]
  refine ⟨by decide, fun c hc => ?_⟩
  rw [(List.mem_replicate.1 hc).2]
  decide

theorem isAscii_toString (n : Int) : IsAscii (toString n).toList := by
  have hdigits : ∀ m, IsAscii (Nat.toDigits 10 m) := by
    intro m c hc
    have hdigit := Nat.isDigit_of_mem_toDigits (b := 10) (by decide) (by decide) hc
    simp only [Char.isDigit, Bool.and_eq_true, decide_eq_true_eq] at hdigit
    have hle : c.toNat ≤ 57 := hdigit.2
    omega
  cases n with
  | ofNat m => simpa [toString, Int.repr, Nat.repr_eq_ofList_toDigits] using hdigits m
  | negSucc m =>
    have htext : (toString (Int.negSucc m)).toList = '-' :: Nat.toDigits 10 (m + 1) := by
      simp [toString, Int.repr, Nat.repr_eq_ofList_toDigits]
    rw [htext, isAscii_cons]
    exact ⟨by decide, hdigits _⟩

mutual

/-- A value is written in ASCII. -/
theorem isAscii_renderAt (level : Nat) : ∀ v : Json, IsAscii (renderAt level v)
  | null => by rw [renderAt]; decide
  | int n => isAscii_toString n
  | str s => isAscii_renderString s
  | arr [] => by rw [renderAt]; decide
  | arr (x :: xs) => by
    simp only [renderAt, isAscii_cons, isAscii_append, isAscii_newline, isAscii_nil, isAscii_renderAt (level + 1) x,
      isAscii_renderElements level xs]
    decide
  | obj [] => by rw [renderAt]; decide
  | obj ((k, v) :: ms) => by
    simp only [renderAt, isAscii_cons, isAscii_append, isAscii_newline, isAscii_nil, isAscii_renderString,
      isAscii_renderAt (level + 1) v, isAscii_renderMembers level ms]
    decide

theorem isAscii_renderElements (level : Nat) : ∀ xs : List Json, IsAscii (renderElements level xs)
  | [] => isAscii_nil
  | x :: xs => by
    simp only [renderElements, isAscii_cons, isAscii_append, isAscii_newline, isAscii_renderAt (level + 1) x,
      isAscii_renderElements level xs]
    decide

theorem isAscii_renderMembers (level : Nat) : ∀ ms : List (String × Json), IsAscii (renderMembers level ms)
  | [] => isAscii_nil
  | (k, v) :: ms => by
    simp only [renderMembers, isAscii_cons, isAscii_append, isAscii_newline, isAscii_nil, isAscii_renderString,
      isAscii_renderAt (level + 1) v, isAscii_renderMembers level ms]
    decide

end

end Json
end LetOrConst.Report
