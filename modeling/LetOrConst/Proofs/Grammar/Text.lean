/-
The text that a node covers. A span may cut the bytes of a text anywhere. What is read of it starts with a
replacement character for every byte that is left of a character cut at its start, goes on with the characters
that lie in the span with all their bytes, and ends with one replacement character for a character that has lost
its last bytes (`excerpt`). One character of the text at a time: its bytes are read back when they are all there,
count one by one when the first is missing (`decodeLossy_tails`) and as one when the last are (`decodeLossy_front`).
-/
import LetOrConst.Grammar.Node
import LetOrConst.Proofs.Text.Utf8
import Mathlib.Data.List.Infix

namespace LetOrConst.Text.Utf8

/-- The number of bytes of a character. -/
def width (c : Char) : Nat := (String.utf8EncodeChar c).length

/-- The offsets at which the bytes of a text fall into characters, both ends included: those behind each of its
beginnings. -/
def boundaries (cs : List Char) : List Nat := cs.inits.map fun front => (encode front).length

/-- The characters of a text, each with the offset of its first byte. -/
def placed (cs : List Char) : List (Nat × Char) := (boundaries cs).zip cs

/-- The first boundary at or after an offset of a text. -/
def boundaryFrom (cs : List Char) (offset : Nat) : Nat :=
  ((boundaries cs).find? (offset ≤ ·)).getD (encode cs).length

/-- The characters of a text all of whose bytes lie from `lo` up to `hi`. -/
def wholeWithin (cs : List Char) (lo hi : Nat) : List Char :=
  ((placed cs).filter fun p => lo ≤ p.1 ∧ p.1 + width p.2 ≤ hi).map (·.2)

/-- Whether the bytes from `lo` up to `hi` end inside a character whose first byte is among them. -/
def endsInside (cs : List Char) (lo hi : Nat) : Bool :=
  (placed cs).any fun p => lo ≤ p.1 ∧ p.1 < hi ∧ hi < p.1 + width p.2

/-- What is to be read of the bytes of a text from `lo` up to `hi`. -/
def excerpt (cs : List Char) (lo hi : Nat) : List Char :=
  List.replicate (min (boundaryFrom cs lo) hi - lo) replacement ++ wholeWithin cs lo hi ++
    List.replicate (if endsInside cs lo hi then 1 else 0) replacement

variable {c : Char} {cs : List Char} {bytes rest : List UInt8} {lo hi : Nat}

/-! ## The bytes of one character -/

theorem decodeLossy_char (c : Char) (rest : List UInt8) :
    decodeLossy (String.utf8EncodeChar c ++ rest) = c :: decodeLossy rest := by
  obtain ⟨b, bytes, hbytes⟩ := List.exists_cons_of_ne_nil (@String.utf8EncodeChar_ne_nil c)
  have hpart : readPart b (bytes ++ rest) = (.char c, rest) :=
    readPart_eq_char_iff.2 (by rw [hbytes, List.cons_append])
  rw [hbytes, List.cons_append, decodeLossy, parts, hpart]
  rfl

theorem lead?_eq_none {b : UInt8} (h : IsTail b) : lead? b = none := by
  cases hlead : lead? b with
  | none => rfl
  | some l =>
    unfold IsTail at h
    have := lead?_cases hlead
    omega

/-- Bytes that only go on with a character count one by one. -/
theorem decodeLossy_tails (h : ∀ b ∈ bytes, IsTail b) (rest : List UInt8) :
    decodeLossy (bytes ++ rest) = List.replicate bytes.length replacement ++ decodeLossy rest := by
  induction bytes with
  | nil => rfl
  | cons b bytes ih =>
    have hpart : readPart b (bytes ++ rest) = (.fault .badStart [b], bytes ++ rest) := by
      rw [readPart, lead?_eq_none (h b List.mem_cons_self)]
    rw [List.cons_append, decodeLossy, parts, hpart, List.length_cons, List.replicate_succ, List.cons_append,
      ← ih fun a ha => h a (List.mem_cons_of_mem b ha)]
    rfl

theorem isTail_of_spelled {k : Nat} {a b : UInt8} (h : Spelled k (a :: bytes)) (hb : b ∈ bytes) : IsTail b := by
  cases h with
  | one _ ha code => cases hb
  | two _ b₁ ha h₁ code =>
    rw [List.mem_singleton] at hb
    exact hb ▸ h₁
  | three _ b₁ b₂ ha h₁ h₂ long scalar code =>
    simp only [List.mem_cons, List.not_mem_nil, or_false] at hb
    rcases hb with rfl | rfl
    · exact h₁
    · exact h₂
  | four _ b₁ b₂ b₃ ha h₁ h₂ h₃ long last code =>
    simp only [List.mem_cons, List.not_mem_nil, or_false] at hb
    rcases hb with rfl | rfl | rfl
    · exact h₁
    · exact h₂
    · exact h₃

theorem readTails_nil {seen : List UInt8} {code tails lo hi : Nat} :
    readTails seen code (tails + 1) lo hi [] = (.fault .truncated seen, []) := by
  rw [readTails]

/-- The first byte of a character and some of those behind it, but not all, are read as one fault. -/
theorem readPart_front {k n : Nat} {a : UInt8} (h : Spelled k (a :: bytes)) (hn : n < bytes.length) :
    readPart a (bytes.take n) = (.fault .truncated (a :: bytes.take n), []) := by
  cases h with
  | one _ ha code => cases hn
  | two _ b₁ ha h₁ code =>
    obtain rfl : n = 0 := by simpa using hn
    rw [List.take_zero, readPart_lead (lead?_two ha), readTails_nil]
  | three _ b₁ b₂ ha h₁ h₂ long scalar code =>
    obtain ⟨lo, hi, hlead, hrange⟩ := lead?_three ha
    have hn : n = 0 ∨ n = 1 := by simp at hn; omega
    rw [readPart_lead hlead]
    rcases hn with rfl | rfl
    · rw [List.take_zero, readTails_nil]
    · rw [List.take_succ_cons, List.take_zero, readTails_cons ((hrange _).2 ⟨h₁, long, scalar⟩), readTails_nil]
      rfl
  | four _ b₁ b₂ b₃ ha h₁ h₂ h₃ long last code =>
    obtain ⟨lo, hi, hlead, hrange⟩ := lead?_four ha
    have hn : n = 0 ∨ n = 1 ∨ n = 2 := by simp at hn; omega
    rw [readPart_lead hlead]
    rcases hn with rfl | rfl | rfl
    · rw [List.take_zero, readTails_nil]
    · rw [List.take_succ_cons, List.take_zero, readTails_cons ((hrange _).2 ⟨h₁, long, last⟩), readTails_nil]
      rfl
    · rw [List.take_succ_cons, List.take_succ_cons, List.take_zero, readTails_cons ((hrange _).2 ⟨h₁, long, last⟩),
        readTails_cons h₂, readTails_nil]
      rfl

theorem isTail_of_mem_drop {b : UInt8} (hlo : 0 < lo) (h : b ∈ (String.utf8EncodeChar c).drop lo) : IsTail b := by
  have hspelled := spelled_utf8EncodeChar c
  obtain ⟨a, bytes, hbytes⟩ := List.exists_cons_of_ne_nil (@String.utf8EncodeChar_ne_nil c)
  obtain ⟨i, rfl⟩ := Nat.exists_eq_add_one_of_ne_zero (Nat.ne_of_gt hlo)
  rw [hbytes] at h hspelled
  exact isTail_of_spelled hspelled (List.mem_of_mem_drop h)

/-- The first bytes of a character count as one. -/
theorem decodeLossy_front (hlo : 0 < hi) (hhi : hi < (String.utf8EncodeChar c).length) :
    decodeLossy ((String.utf8EncodeChar c).take hi) = [replacement] := by
  have hspelled := spelled_utf8EncodeChar c
  obtain ⟨a, bytes, hbytes⟩ := List.exists_cons_of_ne_nil (@String.utf8EncodeChar_ne_nil c)
  obtain ⟨i, rfl⟩ := Nat.exists_eq_add_one_of_ne_zero (Nat.ne_of_gt hlo)
  rw [hbytes, List.length_cons] at hhi
  rw [hbytes] at hspelled ⊢
  rw [List.take_succ_cons, decodeLossy, parts, readPart_front hspelled (by omega), parts]
  rfl

/-! ## One character before others -/

theorem width_pos (c : Char) : 0 < width c := by
  rw [width, String.length_utf8EncodeChar]
  exact c.utf8Size_pos

theorem length_encode_cons (c : Char) (cs : List Char) :
    (encode (c :: cs)).length = width c + (encode cs).length := by
  rw [encode_cons, List.length_append, width]

theorem boundaries_cons (c : Char) (cs : List Char) :
    boundaries (c :: cs) = 0 :: (boundaries cs).map (width c + ·) := by
  unfold boundaries
  rw [List.inits_cons, List.map_cons, List.map_map, List.map_map]
  congr 1
  exact List.map_congr_left fun front _ => length_encode_cons c front

theorem placed_cons (c : Char) (cs : List Char) :
    placed (c :: cs) = (0, c) :: (placed cs).map (Prod.map (width c + ·) id) := by
  unfold placed
  rw [boundaries_cons, List.zip_cons_cons, List.zip_map_left]

theorem boundaryFrom_zero (cs : List Char) : boundaryFrom cs 0 = 0 := by
  cases cs with
  | nil => rfl
  | cons c cs =>
    unfold boundaryFrom
    rw [boundaries_cons]
    rfl

theorem boundaryFrom_cons (hlo : 0 < lo) :
    boundaryFrom (c :: cs) lo = width c + boundaryFrom cs (lo - width c) := by
  unfold boundaryFrom
  rw [boundaries_cons, List.find?_cons_of_neg (by simpa using Nat.ne_of_gt hlo), List.find?_map, length_encode_cons]
  have hshift : ((fun offset => decide (lo ≤ offset)) ∘ (width c + ·)) =
      fun offset => decide (lo - width c ≤ offset) := by
    funext offset
    simp [Nat.add_comm]
  rw [hshift]
  cases List.find? _ (boundaries cs) <;> rfl

theorem wholeWithin_cons :
    wholeWithin (c :: cs) lo hi = (if lo = 0 ∧ width c ≤ hi then [c] else []) ++
      wholeWithin cs (lo - width c) (hi - width c) := by
  unfold wholeWithin
  rw [placed_cons, List.filter_cons, List.filter_map]
  have hshift : (placed cs).filter ((fun p => decide (lo ≤ p.1 ∧ p.1 + width p.2 ≤ hi)) ∘
      Prod.map (width c + ·) id) =
        (placed cs).filter fun p => lo - width c ≤ p.1 ∧
          p.1 + width p.2 ≤ hi - width c := by
    congr 1
    funext p
    have hpos := width_pos p.2
    simp only [Function.comp_apply, Prod.map_fst, Prod.map_snd, id_eq, decide_eq_decide]
    omega
  rw [hshift]
  simp only [Nat.le_zero, Nat.zero_add, decide_eq_true_eq]
  split <;> simp

theorem endsInside_cons :
    endsInside (c :: cs) lo hi = (decide (lo = 0 ∧ 0 < hi ∧ hi < width c) ||
      endsInside cs (lo - width c) (hi - width c)) := by
  unfold endsInside
  rw [placed_cons, List.any_cons, List.any_map]
  have hshift : ((fun p : Nat × Char => decide (lo ≤ p.1 ∧ p.1 < hi ∧ hi < p.1 + width p.2)) ∘
      Prod.map (width c + ·) id) =
        fun p : Nat × Char => decide (lo - width c ≤ p.1 ∧ p.1 < hi - width c ∧
          hi - width c < p.1 + width p.2) := by
    funext p
    have hpos := width_pos p.2
    simp only [Function.comp_apply, Prod.map_fst, Prod.map_snd, id_eq, decide_eq_decide]
    omega
  rw [hshift]
  simp

/-- The bytes from `lo` up to `hi` are some of the first character and some of the others. -/
theorem slice_cons :
    ((encode (c :: cs)).take hi).drop lo = ((String.utf8EncodeChar c).take hi).drop lo ++
      ((encode cs).take (hi - width c)).drop (lo - width c) := by
  rw [encode_cons, List.take_append, List.drop_append, List.length_take]
  congr 1
  rcases Nat.le_total (width c) hi with h | h
  · rw [← width, Nat.min_eq_right h]
  · rw [← width, Nat.sub_eq_zero_of_le h, List.take_zero, List.drop_nil, List.drop_nil]

/-! ## Any bytes of a text -/

theorem excerpt_zero (cs : List Char) : excerpt cs 0 0 = [] := by
  have hwhole : wholeWithin cs 0 0 = [] := by
    have hnone : ∀ p ∈ placed cs, ¬ (0 ≤ p.1 ∧ p.1 + width p.2 ≤ 0) := by
      intro p _
      have := width_pos p.2
      omega
    simpa [wholeWithin] using hnone
  have hends : endsInside cs 0 0 = false := by simp [endsInside]
  simp [excerpt, hwhole, hends]

/-- Behind the first character the others count as if there were none before them. -/
theorem excerpt_behind (hlo : width c ≤ lo) : excerpt (c :: cs) lo hi = excerpt cs (lo - width c) (hi - width c) := by
  have hpos := width_pos c
  have hstray : min (width c + boundaryFrom cs (lo - width c)) hi - lo =
      min (boundaryFrom cs (lo - width c)) (hi - width c) - (lo - width c) := by omega
  unfold excerpt
  rw [wholeWithin_cons, endsInside_cons, boundaryFrom_cons (by omega), hstray, if_neg (by omega), List.nil_append]
  simp [show lo ≠ 0 by omega]

/-- A first character that is all there is read. -/
theorem excerpt_whole (hhi : width c ≤ hi) : excerpt (c :: cs) 0 hi = c :: excerpt cs 0 (hi - width c) := by
  unfold excerpt
  rw [wholeWithin_cons, endsInside_cons, if_pos ⟨rfl, hhi⟩, boundaryFrom_zero, boundaryFrom_zero]
  simp [show ¬ hi < width c by omega]

/-- A first character that has lost its last bytes counts as one. -/
theorem excerpt_front (hhi : hi < width c) :
    excerpt (c :: cs) 0 hi = List.replicate (if 0 < hi then 1 else 0) replacement := by
  have hrest := excerpt_zero cs
  unfold excerpt at hrest ⊢
  rw [wholeWithin_cons, endsInside_cons, if_neg (by omega), boundaryFrom_zero, show hi - width c = 0 by omega]
  simp at hrest
  simp [hhi, hrest]

/-- The last bytes of a first character count one by one. -/
theorem excerpt_tails (hlo : 0 < lo) (hw : lo < width c) (hrange : lo ≤ hi) :
    excerpt (c :: cs) lo hi = List.replicate (min hi (width c) - lo) replacement ++ excerpt cs 0 (hi - width c) := by
  have hstray : min (width c + 0) hi - lo = min hi (width c) - lo := by omega
  unfold excerpt
  rw [wholeWithin_cons, endsInside_cons, boundaryFrom_cons hlo, if_neg (by omega), show lo - width c = 0 by omega,
    boundaryFrom_zero, hstray]
  simp [show lo ≠ 0 by omega]

theorem decodeLossy_slice (hrange : lo ≤ hi) (hhi : hi ≤ (encode cs).length) :
    decodeLossy (((encode cs).take hi).drop lo) = excerpt cs lo hi := by
  induction cs generalizing lo hi with
  | nil =>
    obtain rfl : hi = 0 := by simpa [encode] using hhi
    obtain rfl : lo = 0 := by omega
    rw [List.take_zero, List.drop_nil, decodeLossy, parts]
    rfl
  | cons c cs ih =>
    rw [length_encode_cons] at hhi
    have hrest : decodeLossy (((encode cs).take (hi - width c)).drop (lo - width c)) =
        excerpt cs (lo - width c) (hi - width c) := ih (by omega) (by omega)
    rw [slice_cons]
    rcases Nat.lt_or_ge lo (width c) with hlo | hlo
    · rw [show lo - width c = 0 by omega] at hrest ⊢
      rcases Nat.eq_zero_or_pos lo with rfl | hlo0
      · rcases Nat.lt_or_ge hi (width c) with hcut | hall
        · rw [show hi - width c = 0 by omega, List.take_zero, List.drop_nil, List.append_nil, List.drop_zero,
            excerpt_front hcut]
          split
          · rename_i hpos
            exact decodeLossy_front hpos hcut
          · rename_i hpos
            rw [show hi = 0 by omega, List.take_zero, decodeLossy, parts]
            rfl
        · rw [List.take_of_length_le hall, List.drop_zero, decodeLossy_char, hrest, excerpt_whole hall]
      · have htails : ∀ b ∈ ((String.utf8EncodeChar c).take hi).drop lo, IsTail b := by
          intro b hb
          rw [List.drop_take] at hb
          exact isTail_of_mem_drop hlo0 (List.mem_of_mem_take hb)
        rw [decodeLossy_tails htails, hrest, excerpt_tails hlo0 hlo hrange, List.length_drop, List.length_take]
        rfl
    · -- nothing of the first character is left
      have hnone : ((String.utf8EncodeChar c).take hi).drop lo = [] := by
        rw [List.drop_eq_nil_iff, List.length_take]
        exact Nat.le_trans (Nat.min_le_right _ _) hlo
      rw [hnone, List.nil_append, hrest, excerpt_behind hlo]

/-! ## Spans that cut no character -/

theorem mem_boundaries {offset : Nat} :
    offset ∈ boundaries cs ↔ ∃ front back, cs = front ++ back ∧ (encode front).length = offset := by
  unfold boundaries
  simp only [List.mem_map, List.mem_inits]
  constructor
  · rintro ⟨front, ⟨back, rfl⟩, hlen⟩
    exact ⟨front, back, rfl, hlen⟩
  · rintro ⟨front, back, rfl, hlen⟩
    exact ⟨front, List.prefix_append front back, hlen⟩

theorem encode_append (xs ys : List Char) : encode (xs ++ ys) = encode xs ++ encode ys := List.flatMap_append

theorem decodeLossy_encode (cs : List Char) : decodeLossy (encode cs) = cs := by
  induction cs with
  | nil => rw [encode, List.flatMap_nil, decodeLossy, parts]; rfl
  | cons c cs ih => rw [encode_cons, decodeLossy_char, ih]

/-- The bytes between two boundaries are those of the characters between them. -/
theorem decodeLossy_between (front middle back : List Char) :
    decodeLossy (((encode (front ++ middle ++ back)).take (encode (front ++ middle)).length).drop
      (encode front).length) = middle := by
  rw [encode_append (front ++ middle), List.take_left, encode_append, List.drop_left, decodeLossy_encode]

/-- Of two beginnings of a text, the one with no more bytes is a beginning of the other. -/
theorem prefix_of_length_le {xs ys : List Char} (hx : xs <+: cs) (hy : ys <+: cs)
    (h : (encode xs).length ≤ (encode ys).length) : xs <+: ys := by
  rcases List.prefix_or_prefix_of_prefix hx hy with hxy | ⟨more, rfl⟩
  · exact hxy
  · rw [encode_append, List.length_append] at h
    have hmore : encode more = [] := List.eq_nil_of_length_eq_zero (by omega)
    rw [eq_nil_of_encode hmore, List.append_nil]

end LetOrConst.Text.Utf8

namespace LetOrConst.Grammar

open LetOrConst.Text.Utf8

/-- What lies of a span in a text of `length` bytes; nothing, when the span ends before it starts. -/
def Span.within (s : Span) (length : Nat) : Span :=
  ⟨min s.start length, max (min s.start length) (min s.stop length)⟩

theorem Span.slice_within (s : Span) (bytes : List UInt8) : s.slice bytes = (s.within bytes.length).slice bytes := by
  unfold Span.slice Span.within
  refine List.ext_getElem? fun i => ?_
  simp only [List.getElem?_drop, List.getElem?_take]
  rcases Nat.lt_or_ge s.start bytes.length with hstart | hstart
  · rw [Nat.min_eq_left (Nat.le_of_lt hstart)]
    by_cases h : s.start + i < bytes.length
    · congr 1
      rw [eq_iff_iff]
      omega
    · rw [List.getElem?_eq_none (by omega), ite_self, ite_self]
  · rw [List.getElem?_eq_none (by omega), List.getElem?_eq_none (by omega), ite_self, ite_self]

/-- What is read of a text by the nodes of its tree. -/
structure Recovers (s : String) : Prop where
  /-- Any node reads an excerpt. -/
  text : ∀ n : Node, ∃ lo hi, n.span.within (encode s.toList).length = ⟨lo, hi⟩ ∧
    n.text (encode s.toList) = String.ofList (excerpt s.toList lo hi)
  /-- A node that cuts no character reads the characters that it covers. -/
  aligned : ∀ (front middle back : List Char) (n : Node), s.toList = front ++ middle ++ back →
    n.span = ⟨(encode front).length, (encode (front ++ middle)).length⟩ →
    n.text (encode s.toList) = String.ofList middle
  /-- A node over all bytes reads the text. -/
  whole : ∀ n : Node, n.span = ⟨0, (encode s.toList).length⟩ → n.text (encode s.toList) = s
  /-- A node over two others that cut no character, one behind the other, reads what they read. -/
  adjacent : ∀ a ∈ boundaries s.toList, ∀ b ∈ boundaries s.toList, ∀ c ∈ boundaries s.toList, a ≤ b → b ≤ c →
    ∀ left right both : Node, left.span = ⟨a, b⟩ → right.span = ⟨b, c⟩ → both.span = ⟨a, c⟩ →
      left.text (encode s.toList) ++ right.text (encode s.toList) = both.text (encode s.toList)

theorem text_aligned {front middle back : List Char} {n : Node}
    (h : n.span = ⟨(encode front).length, (encode (front ++ middle)).length⟩) :
    n.text (encode (front ++ middle ++ back)) = String.ofList middle := by
  rw [Node.text, h]
  exact congrArg String.ofList (decodeLossy_between front middle back)

theorem text_adjacent {cs : List Char} {a b c : Nat} (ha : a ∈ boundaries cs) (hb : b ∈ boundaries cs)
    (hc : c ∈ boundaries cs) (hab : a ≤ b) (hbc : b ≤ c) {left right both : Node} (hleft : left.span = ⟨a, b⟩)
    (hright : right.span = ⟨b, c⟩) (hboth : both.span = ⟨a, c⟩) :
    left.text (encode cs) ++ right.text (encode cs) = both.text (encode cs) := by
  obtain ⟨xs, xs', hx, rfl⟩ := mem_boundaries.1 ha
  obtain ⟨ys, ys', hy, rfl⟩ := mem_boundaries.1 hb
  obtain ⟨zs, zs', hz, rfl⟩ := mem_boundaries.1 hc
  obtain ⟨first, rfl⟩ := prefix_of_length_le ⟨xs', hx.symm⟩ ⟨ys', hy.symm⟩ hab
  obtain ⟨second, rfl⟩ := prefix_of_length_le ⟨ys', hy.symm⟩ ⟨zs', hz.symm⟩ hbc
  subst hz
  have hl : left.text (encode (xs ++ first ++ (second ++ zs'))) = String.ofList first := text_aligned hleft
  have hr : right.text (encode (xs ++ first ++ second ++ zs')) = String.ofList second := text_aligned hright
  rw [List.append_assoc xs] at hboth
  have hb : both.text (encode (xs ++ (first ++ second) ++ zs')) = String.ofList (first ++ second) := text_aligned hboth
  rw [← List.append_assoc] at hl
  rw [← List.append_assoc] at hb
  rw [hl, hr, hb, String.ofList_append]

/-- Nodes read what their spans leave of the characters of a text. -/
theorem text_recovers (s : String) : Recovers s where
  text n := by
    refine ⟨_, _, rfl, ?_⟩
    have hlo := Nat.min_le_right n.span.start (encode s.toList).length
    rw [Node.text, Span.slice_within, Span.slice, Span.within]
    exact congrArg String.ofList (decodeLossy_slice (Nat.le_max_left _ _)
      (Nat.max_le.2 ⟨hlo, Nat.min_le_right _ _⟩))
  aligned front middle back n hs hspan := by
    rw [hs]
    exact text_aligned hspan
  whole n hspan := by
    have h : n.text (encode ([] ++ s.toList ++ [])) = String.ofList s.toList := text_aligned hspan
    rw [List.nil_append, List.append_nil, String.ofList_toList] at h
    exact h
  adjacent a ha b hb c hc hab hbc left right both hleft hright hboth :=
    text_adjacent ha hb hc hab hbc hleft hright hboth

/-- The last byte of the first character, the second character, and three of the four bytes of the third. -/
example : Node.text { type := "identifier", span := ⟨1, 8⟩ } (encode "é€😀".toList) = "\ufffd€\ufffd" := by
  decide +kernel

end LetOrConst.Grammar
