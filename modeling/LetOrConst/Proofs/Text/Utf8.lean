/-
UTF-8 read strictly. The bytes of a code point are said by rules, one for each length (`Spelled`): they are
what the encoding of the character gives and what reading a part accepts. So strict decoding gives a text
exactly for the bytes of that text (`decode_eq_ok_iff`).
-/
import LetOrConst.Text.Utf8

namespace LetOrConst.Text.Utf8

/-- A byte that goes on with a character. -/
def IsTail (b : UInt8) : Prop := 0x80 ≤ b.toNat ∧ b.toNat ≤ 0xbf

/-- The bytes of a code point. The second byte keeps out overlong forms, surrogates and what lies beyond
the last code point. -/
inductive Spelled (k : Nat) : List UInt8 → Prop where
  | one (a : UInt8) (ha : a.toNat < 0x80) (code : k = a.toNat) : Spelled k [a]
  | two (a b : UInt8) (ha : 0xc2 ≤ a.toNat ∧ a.toNat ≤ 0xdf) (hb : IsTail b)
      (code : k = (a.toNat - 0xc0) * 64 + (b.toNat - 0x80)) : Spelled k [a, b]
  | three (a b c : UInt8) (ha : 0xe0 ≤ a.toNat ∧ a.toNat ≤ 0xef) (hb : IsTail b) (hc : IsTail c)
      (long : a.toNat = 0xe0 → 0xa0 ≤ b.toNat) (scalar : a.toNat = 0xed → b.toNat ≤ 0x9f)
      (code : k = ((a.toNat - 0xe0) * 64 + (b.toNat - 0x80)) * 64 + (c.toNat - 0x80)) : Spelled k [a, b, c]
  | four (a b c d : UInt8) (ha : 0xf0 ≤ a.toNat ∧ a.toNat ≤ 0xf4) (hb : IsTail b) (hc : IsTail c) (hd : IsTail d)
      (long : a.toNat = 0xf0 → 0x90 ≤ b.toNat) (last : a.toNat = 0xf4 → b.toNat ≤ 0x8f)
      (code : k = (((a.toNat - 0xf0) * 64 + (b.toNat - 0x80)) * 64 + (c.toNat - 0x80)) * 64 + (d.toNat - 0x80)) :
      Spelled k [a, b, c, d]

variable {k : Nat} {b : UInt8} {bytes rest rest' : List UInt8} {c : Char}

/-! ## The bytes of a character -/

theorem toNat_ofNat_of_lt {n : Nat} (h : n < 256) : (UInt8.ofNat n).toNat = n := by
  rw [UInt8.toNat_ofNat']
  omega

theorem ofNat_eq {n : Nat} (h : n = b.toNat) : UInt8.ofNat n = b := by
  rw [h, UInt8.ofNat_toNat]

theorem val_ofNat (h : k < 0xd800 ∨ 0xdfff < k ∧ k < 0x110000) : (Char.ofNat k).val.toNat = k := by
  have hvalid : k.isValidChar := h
  rw [Char.ofNat, dif_pos hvalid]
  rfl

/-- Every character is spelled by its encoding. -/
theorem spelled_utf8EncodeChar (c : Char) : Spelled c.toNat (String.utf8EncodeChar c) := by
  have htail : ∀ n, IsTail (UInt8.ofNat (n % 64 + 128)) ∧ (UInt8.ofNat (n % 64 + 128)).toNat = n % 64 + 128 := by
    intro n
    have hn := toNat_ofNat_of_lt (n := n % 64 + 128) (by omega)
    exact ⟨⟨by omega, by omega⟩, hn⟩
  have hvalid : c.val.toNat < 0xd800 ∨ 0xdfff < c.val.toNat ∧ c.val.toNat < 0x110000 := c.valid
  show Spelled c.val.toNat (String.utf8EncodeChar c)
  unfold String.utf8EncodeChar
  simp only
  generalize c.val.toNat = n at hvalid ⊢
  obtain ⟨t₀, h₀⟩ := htail n
  obtain ⟨t₁, h₁⟩ := htail (n / 64)
  obtain ⟨t₂, h₂⟩ := htail (n / 4096)
  split
  · have ha := toNat_ofNat_of_lt (n := n) (by omega)
    exact .one _ (by omega) (by omega)
  split
  · have ha := toNat_ofNat_of_lt (n := n / 64 % 32 + 192) (by omega)
    exact .two _ _ (by omega) t₀ (by omega)
  split
  · have ha := toNat_ofNat_of_lt (n := n / 4096 % 16 + 224) (by omega)
    exact .three _ _ _ (by omega) t₁ t₀ (by omega) (by omega) (by omega)
  · have ha := toNat_ofNat_of_lt (n := n / 262144 % 8 + 240) (by omega)
    exact .four _ _ _ _ (by omega) t₂ t₁ t₀ (by omega) (by omega) (by omega)

theorem utf8EncodeChar_of_spelled (h : Spelled k bytes) : String.utf8EncodeChar (Char.ofNat k) = bytes := by
  unfold String.utf8EncodeChar
  cases h with
  | one a ha code =>
    rw [val_ofNat (by omega)]
    simp only
    rw [if_pos (by omega), ofNat_eq code]
  | two a b ha hb code =>
    unfold IsTail at hb
    rw [val_ofNat (by omega)]
    simp only
    rw [if_neg (by omega), if_pos (by omega), ofNat_eq (b := a) (by omega), ofNat_eq (b := b) (by omega)]
  | three a b c ha hb hc long scalar code =>
    unfold IsTail at hb hc
    rw [val_ofNat (by omega)]
    simp only
    rw [if_neg (by omega), if_neg (by omega), if_pos (by omega), ofNat_eq (b := a) (by omega),
      ofNat_eq (b := b) (by omega), ofNat_eq (b := c) (by omega)]
  | four a b c d ha hb hc hd long last code =>
    unfold IsTail at hb hc hd
    rw [val_ofNat (by omega)]
    simp only
    rw [if_neg (by omega), if_neg (by omega), if_neg (by omega), ofNat_eq (b := a) (by omega),
      ofNat_eq (b := b) (by omega), ofNat_eq (b := c) (by omega), ofNat_eq (b := d) (by omega)]

/-! ## Reading a part -/

theorem readTails_zero {seen : List UInt8} {code lo hi : Nat} :
    readTails seen code 0 lo hi rest = (.char (Char.ofNat code), rest) := by
  rw [readTails]

theorem readTails_cons {seen : List UInt8} {code tails lo hi : Nat} (h : lo ≤ b.toNat ∧ b.toNat ≤ hi) :
    readTails seen code (tails + 1) lo hi (b :: rest) =
      readTails (seen ++ [b]) (code * 64 + (b.toNat - 0x80)) tails 0x80 0xbf rest := by
  rw [readTails, if_pos h]

theorem readTails_eq_char {seen : List UInt8} {code tails lo hi : Nat}
    (h : readTails seen code (tails + 1) lo hi bytes = (.char c, rest')) :
    ∃ b rest, bytes = b :: rest ∧ (lo ≤ b.toNat ∧ b.toNat ≤ hi) ∧
      readTails (seen ++ [b]) (code * 64 + (b.toNat - 0x80)) tails 0x80 0xbf rest = (.char c, rest') := by
  cases bytes with
  | nil => cases h
  | cons b rest =>
    rw [readTails] at h
    split at h
    · rename_i hb
      exact ⟨b, rest, rfl, hb, h⟩
    · cases h

/-- The bytes that announce two more differ in the range of the next one. -/
theorem lead?_three (h : 0xe0 ≤ b.toNat ∧ b.toNat ≤ 0xef) :
    ∃ lo hi, lead? b = some ⟨b.toNat - 0xe0, 2, lo, hi⟩ ∧ ∀ x, lo ≤ x ∧ x ≤ hi ↔
      (0x80 ≤ x ∧ x ≤ 0xbf) ∧ (b.toNat = 0xe0 → 0xa0 ≤ x) ∧ (b.toNat = 0xed → x ≤ 0x9f) := by
  unfold lead?
  simp only
  rw [if_neg (by omega), if_neg (by omega)]
  split
  · rename_i hb
    exact ⟨0xa0, 0xbf, by rw [hb], fun x => by omega⟩
  split
  · rename_i hb
    exact ⟨0x80, 0x9f, by rw [hb], fun x => by omega⟩
  · rw [if_pos (by omega)]
    exact ⟨0x80, 0xbf, rfl, fun x => by omega⟩

/-- So do the bytes that announce three more. -/
theorem lead?_four (h : 0xf0 ≤ b.toNat ∧ b.toNat ≤ 0xf4) :
    ∃ lo hi, lead? b = some ⟨b.toNat - 0xf0, 3, lo, hi⟩ ∧ ∀ x, lo ≤ x ∧ x ≤ hi ↔
      (0x80 ≤ x ∧ x ≤ 0xbf) ∧ (b.toNat = 0xf0 → 0x90 ≤ x) ∧ (b.toNat = 0xf4 → x ≤ 0x8f) := by
  unfold lead?
  simp only
  rw [if_neg (by omega), if_neg (by omega), if_neg (by omega), if_neg (by omega), if_neg (by omega)]
  split
  · rename_i hb
    exact ⟨0x90, 0xbf, by rw [hb], fun x => by omega⟩
  split
  · exact ⟨0x80, 0xbf, rfl, fun x => by omega⟩
  · have hb : b.toNat = 0xf4 := by omega
    rw [if_pos hb]
    exact ⟨0x80, 0x8f, by rw [hb], fun x => by omega⟩

theorem lead?_two (h : 0xc2 ≤ b.toNat ∧ b.toNat ≤ 0xdf) : lead? b = some ⟨b.toNat - 0xc0, 1, 0x80, 0xbf⟩ := by
  unfold lead?
  simp only
  rw [if_neg (by omega), if_pos h]

theorem lead?_one (h : b.toNat < 0x80) : lead? b = some ⟨b.toNat, 0, 0, 0⟩ := by
  unfold lead?
  simp only
  rw [if_pos h]

theorem lead?_cases {l : Lead} (h : lead? b = some l) :
    b.toNat < 0x80 ∨ (0xc2 ≤ b.toNat ∧ b.toNat ≤ 0xdf) ∨ (0xe0 ≤ b.toNat ∧ b.toNat ≤ 0xef) ∨
      (0xf0 ≤ b.toNat ∧ b.toNat ≤ 0xf4) := by
  unfold lead? at h
  simp only at h
  repeat' split at h
  all_goals first | omega | cases h

theorem readPart_lead {l : Lead} (h : lead? b = some l) :
    readPart b rest = readTails [b] l.bits l.tails l.lo l.hi rest := by
  rw [readPart, h]

theorem readPart_of_spelled (h : Spelled k (b :: bytes)) (rest : List UInt8) :
    readPart b (bytes ++ rest) = (.char (Char.ofNat k), rest) := by
  cases h with
  | one _ ha code =>
    rw [readPart_lead (lead?_one ha), readTails_zero, code, List.nil_append]
  | two _ b₁ ha hb code =>
    simp only [List.cons_append, List.nil_append]
    rw [readPart_lead (lead?_two ha), readTails_cons hb, readTails_zero, code]
  | three _ b₁ b₂ ha hb hc long scalar code =>
    obtain ⟨lo, hi, hlead, hrange⟩ := lead?_three ha
    simp only [List.cons_append, List.nil_append]
    rw [readPart_lead hlead, readTails_cons ((hrange b₁.toNat).2 ⟨hb, long, scalar⟩), readTails_cons hc,
      readTails_zero, code]
  | four _ b₁ b₂ b₃ ha hb hc hd long last code =>
    obtain ⟨lo, hi, hlead, hrange⟩ := lead?_four ha
    simp only [List.cons_append, List.nil_append]
    rw [readPart_lead hlead, readTails_cons ((hrange b₁.toNat).2 ⟨hb, long, last⟩), readTails_cons hc,
      readTails_cons hd, readTails_zero, code]

theorem spelled_of_readPart (h : readPart b rest = (.char c, rest')) :
    ∃ k bytes, Spelled k bytes ∧ c = Char.ofNat k ∧ b :: rest = bytes ++ rest' := by
  have hzero : ∀ {seen : List UInt8} {code lo hi : Nat} {bytes : List UInt8},
      readTails seen code 0 lo hi bytes = (.char c, rest') → c = Char.ofNat code ∧ bytes = rest' := by
    intro seen code lo hi bytes h
    rw [readTails_zero] at h
    cases h
    exact ⟨rfl, rfl⟩
  cases hlead : lead? b with
  | none =>
    rw [readPart, hlead] at h
    cases h
  | some l =>
    rcases lead?_cases hlead with ha | ha | ha | ha
    · rw [readPart_lead (lead?_one ha)] at h
      obtain ⟨hc, rfl⟩ := hzero h
      exact ⟨_, [b], .one b ha rfl, hc, rfl⟩
    · rw [readPart_lead (lead?_two ha)] at h
      obtain ⟨b₁, rest₁, rfl, hb₁, h⟩ := readTails_eq_char h
      obtain ⟨hc, rfl⟩ := hzero h
      exact ⟨_, [b, b₁], .two b b₁ ha hb₁ rfl, hc, rfl⟩
    · obtain ⟨lo, hi, heq, hrange⟩ := lead?_three ha
      rw [readPart_lead heq] at h
      obtain ⟨b₁, rest₁, rfl, hb₁, h⟩ := readTails_eq_char h
      obtain ⟨b₂, rest₂, rfl, hb₂, h⟩ := readTails_eq_char h
      obtain ⟨hc, rfl⟩ := hzero h
      obtain ⟨hb₁, long, scalar⟩ := (hrange _).1 hb₁
      exact ⟨_, [b, b₁, b₂], .three b b₁ b₂ ha hb₁ hb₂ long scalar rfl, hc, rfl⟩
    · obtain ⟨lo, hi, heq, hrange⟩ := lead?_four ha
      rw [readPart_lead heq] at h
      obtain ⟨b₁, rest₁, rfl, hb₁, h⟩ := readTails_eq_char h
      obtain ⟨b₂, rest₂, rfl, hb₂, h⟩ := readTails_eq_char h
      obtain ⟨b₃, rest₃, rfl, hb₃, h⟩ := readTails_eq_char h
      obtain ⟨hc, rfl⟩ := hzero h
      obtain ⟨hb₁, long, last⟩ := (hrange _).1 hb₁
      exact ⟨_, [b, b₁, b₂, b₃], .four b b₁ b₂ b₃ ha hb₁ hb₂ hb₃ long last rfl, hc, rfl⟩

/-- A part is a character exactly when the bytes start with its encoding. -/
theorem readPart_eq_char_iff : readPart b rest = (.char c, rest') ↔ b :: rest = String.utf8EncodeChar c ++ rest' := by
  constructor
  · intro h
    obtain ⟨k, bytes, hspelled, rfl, hbytes⟩ := spelled_of_readPart h
    rw [hbytes, utf8EncodeChar_of_spelled hspelled]
  · intro h
    have hspelled := spelled_utf8EncodeChar c
    obtain ⟨a, bytes, hencoded⟩ := List.exists_cons_of_ne_nil (@String.utf8EncodeChar_ne_nil c)
    rw [hencoded] at h hspelled
    obtain ⟨rfl, hrest⟩ := List.cons.inj h
    rw [hrest]
    show readPart b (bytes ++ rest') = _
    rw [readPart_of_spelled hspelled, Char.ofNat_toNat]

/-! ## Whole texts -/

theorem encode_cons (c : Char) (cs : List Char) : encode (c :: cs) = String.utf8EncodeChar c ++ encode cs :=
  List.flatMap_cons

theorem eq_nil_of_encode {cs : List Char} (h : encode cs = []) : cs = [] := by
  cases cs with
  | nil => rfl
  | cons c cs =>
    rw [encode_cons] at h
    exact absurd (List.append_eq_nil_iff.1 h).1 String.utf8EncodeChar_ne_nil

/-- The parts from any offset on are characters exactly where the bytes are those of the characters. -/
theorem collect_eq_ok_iff {offset : Nat} {cs : List Char} :
    collect offset (parts bytes) = .ok cs ↔ bytes = encode cs := by
  induction hlen : bytes.length using Nat.strongRecOn generalizing bytes offset cs with
  | _ len ih =>
    cases bytes with
    | nil =>
      rw [parts, collect]
      constructor
      · intro h
        cases h
        rfl
      · intro h
        rw [eq_nil_of_encode h.symm]
    | cons b rest =>
      have hshort : (readPart b rest).2.length < len := by
        have := length_readPart_le b rest
        rw [← hlen, List.length_cons]
        omega
      rw [parts]
      constructor
      · intro h
        cases hpart : (readPart b rest).1 with
        | fault reason bytes =>
          rw [hpart, collect] at h
          cases h
        | char c =>
          rw [hpart, collect] at h
          cases htail : collect (offset + c.utf8Size) (parts (readPart b rest).2) with
          | error f => rw [htail] at h; cases h
          | ok ds =>
            rw [htail] at h
            cases h
            rw [encode_cons, ← (ih _ hshort rfl).1 htail]
            exact readPart_eq_char_iff.1 (Prod.ext hpart rfl)
      · intro h
        cases cs with
        | nil => cases h
        | cons c cs =>
          rw [encode_cons] at h
          have hpart := readPart_eq_char_iff.2 h
          rw [hpart, collect]
          rw [hpart] at hshort
          rw [(ih _ hshort rfl).2 rfl]
          rfl

/-- Strict decoding gives a text exactly for the bytes of the text. -/
theorem decode_eq_ok_iff {cs : List Char} : decode bytes = .ok cs ↔ bytes = encode cs := collect_eq_ok_iff

end LetOrConst.Text.Utf8
